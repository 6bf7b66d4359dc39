import Mathlib.Data.Nat.Bitwise
import Mathlib.Tactic.Common

/-!
# Channels and the output side of a TCP connection

`Channel.h` keeps the interest set of a descriptor as a poll mask, and
`TcpConnection.cpp` sends either directly or through its output buffer. The
definitions follow these two files. The answer of the system call `::write` is
an argument, and the bytes that the call accepted are returned.
-/

namespace DuoDuo.Net

/-- `POLLIN`. -/
def POLLIN : ℕ := 0x1

/-- `POLLPRI`. -/
def POLLPRI : ℕ := 0x2

/-- `POLLOUT`. -/
def POLLOUT : ℕ := 0x4

/-- `Channel::kNoneEvent`. -/
def kNoneEvent : ℕ := 0

/-- `Channel::kReadEvent`. -/
def kReadEvent : ℕ := POLLIN ||| POLLPRI

/-- `Channel::kWriteEvent`. -/
def kWriteEvent : ℕ := POLLOUT

/-- `Channel`: a descriptor with the events that its owner is interested in. -/
structure Channel where
  /-- The socket descriptor `fd_`. -/
  fd : ℕ
  /-- The interest mask `events_`. -/
  events : ℕ := kNoneEvent
  deriving DecidableEq, Repr

namespace Channel

/-- `Channel::enableReading`. -/
def enableReading (ch : Channel) : Channel := { ch with events := ch.events ||| kReadEvent }

/-- `Channel::enableWriting`. -/
def enableWriting (ch : Channel) : Channel := { ch with events := ch.events ||| kWriteEvent }

/-- `Channel::disableWriting`, which masks with the complement of the write event. -/
def disableWriting (ch : Channel) : Channel := { ch with events := ch.events.ldiff kWriteEvent }

/-- `Channel::disableAll`. -/
def disableAll (ch : Channel) : Channel := { ch with events := kNoneEvent }

/-- `Channel::isWriting`. -/
def isWriting (ch : Channel) : Bool := ch.events &&& kWriteEvent != 0

/-- `Channel::isNoneEvent`. -/
def isNoneEvent (ch : Channel) : Bool := ch.events == kNoneEvent

/-- The write event is one bit of the interest mask. -/
theorem isWriting_eq_testBit (ch : Channel) : ch.isWriting = ch.events.testBit 2 := by
  have h : ch.events &&& kWriteEvent = (ch.events.testBit 2).toNat * 2 ^ 2 :=
    Nat.and_two_pow ch.events 2
  rw [isWriting, h]
  cases ch.events.testBit 2 <;> rfl

@[simp] theorem isWriting_enableWriting (ch : Channel) : ch.enableWriting.isWriting = true := by
  simp [isWriting_eq_testBit, enableWriting, kWriteEvent, POLLOUT, Nat.testBit_or,
    show Nat.testBit 4 2 = true by decide]

@[simp] theorem isWriting_disableWriting (ch : Channel) : ch.disableWriting.isWriting = false := by
  simp [isWriting_eq_testBit, disableWriting, kWriteEvent, POLLOUT, Nat.testBit_ldiff,
    show Nat.testBit 4 2 = true by decide]

@[simp] theorem isWriting_enableReading (ch : Channel) :
    ch.enableReading.isWriting = ch.isWriting := by
  simp [isWriting_eq_testBit, enableReading, kReadEvent, POLLIN, POLLPRI, Nat.testBit_or,
    show Nat.testBit 3 2 = false by decide]

end Channel

/-- `TcpConnection::StateE`. -/
inductive StateE
  | kDisconnected
  | kConnecting
  | kConnected
  | kDisconnecting
  deriving DecidableEq, Repr

/-- The values of `errno` after a failed `::write` that the code distinguishes. -/
inductive WriteErrno
  | EWOULDBLOCK
  | EPIPE
  | ECONNRESET
  | other
  deriving DecidableEq, Repr

/-- The answer of `::write`: a byte count, or `-1` with `errno`. -/
inductive WriteResult
  | count (n : ℕ)
  | failed (errno : WriteErrno)
  deriving DecidableEq, Repr

namespace WriteResult

/-- The variable `nwrote` after the answer has been examined. -/
def nwrote : WriteResult → ℕ
  | count n => n
  | failed _ => 0

/-- The call returned a byte count. -/
def succeeded : WriteResult → Bool
  | count _ => true
  | failed _ => false

/-- The failures after which `sendInLoop` sets `faultError`. -/
def isFault : WriteResult → Bool
  | count _ => false
  | failed errno => errno = .EPIPE ∨ errno = .ECONNRESET

end WriteResult

/-- The callbacks that the connection queues in its event loop. -/
inductive QueuedFunc
  | writeComplete
  | highWaterMark (bytes : ℕ)
  deriving DecidableEq, Repr

/-- The part of `TcpConnection` that its output side reads and writes. The output
buffer is the queue of its readable bytes. -/
structure TcpConnection where
  /-- `state_`. -/
  state : StateE := .kConnecting
  /-- `channel_`. -/
  channel : Channel
  /-- The readable bytes of `outputBuffer_`. -/
  outputBuffer : List UInt8 := []
  /-- `highWaterMark_`. -/
  highWaterMark : ℕ := 64 * 1024 * 1024
  /-- Whether `writeCompleteCallback_` is set. -/
  hasWriteComplete : Bool := false
  /-- Whether `highWaterMarkCallback_` is set. -/
  hasHighWaterMark : Bool := false
  /-- Whether `socket_->closeWrite()` has been called. -/
  writeClosed : Bool := false
  deriving DecidableEq, Repr

/-- A connection after one operation, the bytes that the kernel accepted in it,
and the callbacks that it queued. -/
structure Outcome where
  /-- The connection afterwards. -/
  conn : TcpConnection
  /-- The bytes accepted by `::write`. -/
  wrote : List UInt8 := []
  /-- The functors given to `queueInLoop`. -/
  queued : List QueuedFunc := []

namespace TcpConnection

/-- `sendInLoop` calls `::write` itself only when nothing is waiting. -/
def writesDirectly (c : TcpConnection) : Bool :=
  !c.channel.isWriting && c.outputBuffer.length == 0

/-- The buffered tail of `sendInLoop`: `pending` is what the direct attempt left. -/
def appendOutput (c : TcpConnection) (pending : List UInt8) : TcpConnection :=
  { c with
    outputBuffer := c.outputBuffer ++ pending
    channel := if c.channel.isWriting then c.channel else c.channel.enableWriting }

/-- The high-water mark test of `sendInLoop`. -/
def crossesMark (c : TcpConnection) (remaining : ℕ) : Bool :=
  c.highWaterMark ≤ c.outputBuffer.length + remaining &&
    c.outputBuffer.length < c.highWaterMark && c.hasHighWaterMark

/-- `TcpConnection::sendInLoop(const void*, size_t)`. The answer of `::write` is
used only when the direct path calls it. -/
def sendInLoop (c : TcpConnection) (data : List UInt8) (answer : WriteResult) : Outcome :=
  if c.state = .kDisconnected then { conn := c }
  else
    let direct := c.writesDirectly
    let nwrote := if direct then answer.nwrote else 0
    let remaining := data.length - nwrote
    let faultError := direct && answer.isFault
    let completed := direct && answer.succeeded && remaining == 0 && c.hasWriteComplete
    let queued := if completed then [QueuedFunc.writeComplete] else []
    if !faultError && 0 < remaining then
      { conn := c.appendOutput (data.drop nwrote)
        wrote := data.take nwrote
        queued := queued ++
          if c.crossesMark remaining then
            [QueuedFunc.highWaterMark (c.outputBuffer.length + remaining)]
          else [] }
    else { conn := c, wrote := data.take nwrote, queued }

/-- `TcpConnection::shutdownInLoop`. -/
def shutdownInLoop (c : TcpConnection) : TcpConnection :=
  if c.channel.isWriting then c else { c with writeClosed := true }

/-- The functor of `TcpConnection::shutdown`. -/
def shutdown (c : TcpConnection) : TcpConnection :=
  if c.state = .kConnected then shutdownInLoop { c with state := .kDisconnecting } else c

/-- `TcpConnection::connectEstablished`, before the user's callback. -/
def connectEstablished (c : TcpConnection) : TcpConnection :=
  { c with state := .kConnected, channel := c.channel.enableReading }

/-- `TcpConnection::handleWrite`. -/
def handleWrite (c : TcpConnection) (answer : WriteResult) : Outcome :=
  if c.channel.isWriting then
    let n := answer.nwrote
    if 0 < n then
      let left := c.outputBuffer.drop n
      if left.length = 0 then
        let drained := { c with outputBuffer := left, channel := c.channel.disableWriting }
        { conn := if c.state = .kDisconnecting then drained.shutdownInLoop else drained
          wrote := c.outputBuffer.take n
          queued := if c.hasWriteComplete then [.writeComplete] else [] }
      else { conn := { c with outputBuffer := left }, wrote := c.outputBuffer.take n }
    else { conn := c }
  else { conn := c }

section State

variable (c : TcpConnection)

/-- `sendInLoop` changes at most the output buffer and the write interest. -/
theorem sendInLoop_conn (data : List UInt8) (answer : WriteResult) :
    (c.sendInLoop data answer).conn = c ∨
      ∃ pending, (c.sendInLoop data answer).conn = c.appendOutput pending := by
  unfold sendInLoop
  dsimp only
  split
  · exact .inl rfl
  · split <;> split
    · exact .inr ⟨_, rfl⟩
    · exact .inl rfl
    · exact .inr ⟨_, rfl⟩
    · exact .inl rfl

@[simp] theorem sendInLoop_state (data : List UInt8) (answer : WriteResult) :
    (c.sendInLoop data answer).conn.state = c.state := by
  rcases c.sendInLoop_conn data answer with h | ⟨pending, h⟩ <;> rw [h]
  rfl

@[simp] theorem sendInLoop_writeClosed (data : List UInt8) (answer : WriteResult) :
    (c.sendInLoop data answer).conn.writeClosed = c.writeClosed := by
  rcases c.sendInLoop_conn data answer with h | ⟨pending, h⟩ <;> rw [h]
  rfl

theorem shutdown_state :
    c.shutdown.state = if c.state = .kConnected then .kDisconnecting else c.state := by
  unfold shutdown shutdownInLoop
  split
  · split <;> rfl
  · rfl

@[simp] theorem handleWrite_state (answer : WriteResult) :
    (c.handleWrite answer).conn.state = c.state := by
  unfold handleWrite shutdownInLoop
  dsimp only
  split
  · split
    · split
      · split
        · split <;> rfl
        · rfl
      · rfl
    · rfl
  · rfl

end State

end TcpConnection

end DuoDuo.Net
