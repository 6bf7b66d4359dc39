import DuoDuo.Library.Machine
import DuoDuo.Net.TcpConnection

/-!
# The output byte stream of a connection

The direct writes of `sendInLoop` and the buffered writes of `handleWrite`
together transmit the submitted data as one byte stream. The invariant relates
the bytes accepted by the kernel, the output buffer and the write interest; one
lemma for each operation shows that it is kept for every answer of `::write`
that is a byte count or a full socket buffer.
-/

namespace DuoDuo.Net

open Library

/-- The answers of `::write` to a request of `len` bytes on a healthy socket: a
count between zero and `len`, or `EWOULDBLOCK`. -/
def WriteResult.Healthy (len : ℕ) : WriteResult → Prop
  | .count n => n ≤ len
  | .failed errno => errno = .EWOULDBLOCK

theorem WriteResult.Healthy.nwrote_le {len : ℕ} {answer : WriteResult}
    (h : answer.Healthy len) : answer.nwrote ≤ len := by
  cases answer with
  | count n => exact h
  | failed errno => exact Nat.zero_le len

theorem WriteResult.Healthy.not_isFault {len : ℕ} {answer : WriteResult}
    (h : answer.Healthy len) : answer.isFault = false := by
  cases answer with
  | count n => rfl
  | failed errno =>
    have herrno : errno = .EWOULDBLOCK := h
    subst herrno
    decide

/-- A connection together with the history of its output. -/
structure Wire where
  /-- The connection. -/
  conn : TcpConnection
  /-- The bytes that the kernel has accepted on the descriptor. -/
  written : List UInt8
  /-- The data passed to `sendInLoop`, in call order. -/
  sent : List (List UInt8)

/-- The events that act on the output of a connection. -/
inductive OutputEvent
  | sendInLoop (data : List UInt8) (answer : WriteResult)
  | handleWrite (answer : WriteResult)
  | shutdown
  | connectEstablished

/-- The wire after an operation with the given outcome and newly submitted data. -/
def Wire.record (w : Wire) (out : Outcome) (sent : List (List UInt8)) : Wire :=
  ⟨out.conn, w.written ++ out.wrote, w.sent ++ sent⟩

/-- The output side of one connection that is not `kDisconnected`. -/
def outputMachine : Machine Wire OutputEvent where
  init w := w.conn.channel.isWriting = false ∧ w.conn.outputBuffer = [] ∧
    w.written = [] ∧ w.sent = []
  step w event w' := w.conn.state ≠ .kDisconnected ∧
    match event with
    | .sendInLoop data answer => answer.Healthy data.length ∧
        w' = w.record (w.conn.sendInLoop data answer) [data]
    | .handleWrite answer => answer.Healthy w.conn.outputBuffer.length ∧
        w' = w.record (w.conn.handleWrite answer) []
    | .shutdown => w' = w.record { conn := w.conn.shutdown } []
    | .connectEstablished => w.conn.state = .kConnecting ∧
        w' = w.record { conn := w.conn.connectEstablished } []

/-- The bytes on the wire, followed by those still buffered, are the submitted
bytes; and write interest means that bytes are waiting. -/
structure Wire.Intact (w : Wire) : Prop where
  /-- Nothing submitted is lost, duplicated or reordered. -/
  stream : w.written ++ w.conn.outputBuffer = w.sent.flatten
  /-- Write interest agrees with the output buffer. -/
  interest : w.conn.channel.isWriting = true ↔ 0 < w.conn.outputBuffer.length

/-- On an intact wire the direct path is taken exactly with an empty buffer. -/
theorem Wire.Intact.writesDirectly_iff {w : Wire} (h : w.Intact) :
    w.conn.writesDirectly = true ↔ w.conn.outputBuffer = [] := by
  have hinterest := h.interest
  cases hwriting : w.conn.channel.isWriting with
  | true => simp_all [TcpConnection.writesDirectly, List.length_pos_iff]
  | false => simp [TcpConnection.writesDirectly, hwriting]

@[simp] theorem TcpConnection.appendOutput_outputBuffer (c : TcpConnection) (pending : List UInt8) :
    (c.appendOutput pending).outputBuffer = c.outputBuffer ++ pending := rfl

@[simp] theorem TcpConnection.appendOutput_isWriting (c : TcpConnection) (pending : List UInt8) :
    (c.appendOutput pending).channel.isWriting = true := by
  cases h : c.channel.isWriting <;> simp [appendOutput, h]

/-- What `sendInLoop` does with a healthy answer: a prefix goes to the kernel and
the rest, if any, to the end of the output buffer. A prefix is transmitted only
when the buffer was empty. -/
theorem Wire.Intact.sendInLoop_cases {w : Wire} (h : w.Intact) {data : List UInt8}
    {answer : WriteResult} (hanswer : answer.Healthy data.length)
    (hstate : w.conn.state ≠ .kDisconnected) :
    ∃ n ≤ data.length, (0 < n → w.conn.outputBuffer = []) ∧
      (w.conn.sendInLoop data answer).wrote = data.take n ∧
      (w.conn.sendInLoop data answer).conn =
        if n < data.length then w.conn.appendOutput (data.drop n) else w.conn := by
  have hfault := hanswer.not_isFault
  have hle := hanswer.nwrote_le
  by_cases hdirect : w.conn.writesDirectly = true
  · refine ⟨answer.nwrote, hle, fun _ => h.writesDirectly_iff.mp hdirect, ?_⟩
    by_cases hall : answer.nwrote < data.length
    · have hremaining : 0 < data.length - answer.nwrote := by omega
      simp [TcpConnection.sendInLoop, hstate, hdirect, hfault, hremaining, hall]
    · have hremaining : ¬ 0 < data.length - answer.nwrote := by omega
      simp [TcpConnection.sendInLoop, hstate, hdirect, hall, hremaining]
  · refine ⟨0, Nat.zero_le _, fun hpos => absurd hpos (lt_irrefl 0), ?_⟩
    by_cases hdata : 0 < data.length <;>
      simp [TcpConnection.sendInLoop, hstate, hdirect, hdata]

/-- `sendInLoop` keeps the byte stream. -/
theorem Wire.Intact.sendInLoop {w : Wire} (h : w.Intact) {data : List UInt8}
    {answer : WriteResult} (hanswer : answer.Healthy data.length)
    (hstate : w.conn.state ≠ .kDisconnected) :
    (w.record (w.conn.sendInLoop data answer) [data]).Intact := by
  obtain ⟨n, hn, hempty, hwrote, hconn⟩ := h.sendInLoop_cases hanswer hstate
  have hstream := h.stream
  have hbytes : w.written ++ data.take n ++ (w.conn.outputBuffer ++ data.drop n) =
      w.sent.flatten ++ data := by
    rcases Nat.eq_zero_or_pos n with rfl | hpos
    · simp [← hstream]
    · simp [← hstream, hempty hpos]
  by_cases hlt : n < data.length
  · rw [if_pos hlt] at hconn
    refine ⟨?_, ?_⟩
    · simpa [Wire.record, hwrote, hconn] using hbytes
    · have hleft : 0 < data.length - n := Nat.sub_pos_of_lt hlt
      simp only [Wire.record, hconn, TcpConnection.appendOutput_isWriting, true_iff,
        TcpConnection.appendOutput_outputBuffer, List.length_append, List.length_drop]
      omega
  · rw [if_neg hlt] at hconn
    have hdrop : data.drop n = [] := List.drop_eq_nil_of_le (by omega)
    refine ⟨?_, ?_⟩
    · simpa [Wire.record, hwrote, hconn, hdrop] using hbytes
    · simpa [Wire.record, hconn] using h.interest

@[simp] theorem TcpConnection.shutdownInLoop_outputBuffer (c : TcpConnection) :
    c.shutdownInLoop.outputBuffer = c.outputBuffer := by
  unfold shutdownInLoop; split <;> rfl

@[simp] theorem TcpConnection.shutdownInLoop_channel (c : TcpConnection) :
    c.shutdownInLoop.channel = c.channel := by
  unfold shutdownInLoop; split <;> rfl

/-- What `handleWrite` does with a healthy answer: a prefix of the buffer goes to
the kernel, and write interest remains exactly while something is left. -/
theorem Wire.Intact.handleWrite_cases {w : Wire} (h : w.Intact) {answer : WriteResult}
    (hanswer : answer.Healthy w.conn.outputBuffer.length) :
    ∃ n ≤ w.conn.outputBuffer.length,
      (w.conn.handleWrite answer).wrote = w.conn.outputBuffer.take n ∧
      (w.conn.handleWrite answer).conn.outputBuffer = w.conn.outputBuffer.drop n ∧
      ((w.conn.handleWrite answer).conn.channel.isWriting = true ↔
        n < w.conn.outputBuffer.length) := by
  have hle := hanswer.nwrote_le
  by_cases hwriting : w.conn.channel.isWriting = true
  · have hpending := h.interest.mp hwriting
    by_cases hn : 0 < answer.nwrote
    · refine ⟨answer.nwrote, hle, ?_⟩
      by_cases hleft : (w.conn.outputBuffer.drop answer.nwrote).length = 0
      · simp only [TcpConnection.handleWrite, hwriting, hn, hleft, if_true]
        rw [List.length_drop] at hleft
        split <;> simp <;> omega
      · simp only [TcpConnection.handleWrite, hwriting, hn, hleft, if_true, if_false]
        rw [List.length_drop] at hleft
        simp only [true_and, true_iff]
        omega
    · exact ⟨0, Nat.zero_le _, by simp [TcpConnection.handleWrite, hwriting, hn], by
        simp [TcpConnection.handleWrite, hwriting, hn], by
        simpa [TcpConnection.handleWrite, hwriting, hn] using hpending⟩
  · refine ⟨0, Nat.zero_le _, ?_⟩
    have hempty := mt h.interest.mpr hwriting
    simp [TcpConnection.handleWrite, hwriting, Nat.eq_zero_of_not_pos hempty]

/-- `handleWrite` keeps the byte stream. -/
theorem Wire.Intact.handleWrite {w : Wire} (h : w.Intact) {answer : WriteResult}
    (hanswer : answer.Healthy w.conn.outputBuffer.length) :
    (w.record (w.conn.handleWrite answer) []).Intact := by
  obtain ⟨n, hn, hwrote, hbuffer, hinterest⟩ := h.handleWrite_cases hanswer
  refine ⟨?_, ?_⟩
  · simp only [Wire.record, hwrote, hbuffer, List.append_nil]
    rw [List.append_assoc, List.take_append_drop, h.stream]
  · simp only [Wire.record, hbuffer, List.length_drop, hinterest]
    omega

/-- An operation that touches neither the buffer nor the write interest keeps the stream. -/
theorem Wire.Intact.of_same {w : Wire} (h : w.Intact) {c : TcpConnection}
    (hbuffer : c.outputBuffer = w.conn.outputBuffer)
    (hwriting : c.channel.isWriting = w.conn.channel.isWriting) :
    (w.record { conn := c } []).Intact :=
  ⟨by simpa [Wire.record, hbuffer] using h.stream,
    by simpa [Wire.record, hbuffer, hwriting] using h.interest⟩

/-- Every step of the output side keeps the byte stream. -/
theorem Wire.Intact.step {w w' : Wire} {event : OutputEvent} (h : w.Intact)
    (hstep : outputMachine.step w event w') : w'.Intact := by
  obtain ⟨hstate, hevent⟩ := hstep
  cases event with
  | sendInLoop data answer =>
    obtain ⟨hanswer, rfl⟩ := hevent
    exact h.sendInLoop hanswer hstate
  | handleWrite answer =>
    obtain ⟨hanswer, rfl⟩ := hevent
    exact h.handleWrite hanswer
  | shutdown =>
    have hw' : w' = w.record { conn := w.conn.shutdown } [] := hevent
    subst hw'
    apply h.of_same <;> unfold TcpConnection.shutdown <;> split <;> simp
  | connectEstablished =>
    obtain ⟨-, rfl⟩ := hevent
    exact h.of_same rfl (by simp [TcpConnection.connectEstablished])

/-- In every reachable state the bytes accepted by the kernel, followed by the
readable bytes of the output buffer, are the concatenation of all data passed to
`sendInLoop`, and write interest is enabled exactly when bytes are waiting. -/
theorem output_stream_intact {w : Wire} (h : outputMachine.Reachable w) :
    w.written ++ w.conn.outputBuffer = w.sent.flatten ∧
      (w.conn.channel.isWriting = true ↔ 0 < w.conn.outputBuffer.length) := by
  have hintact : w.Intact := h.invariant (I := Wire.Intact)
    (fun s ⟨hwriting, hbuffer, hwritten, hsent⟩ =>
      ⟨by simp [hbuffer, hwritten, hsent], by simp [hwriting, hbuffer]⟩)
    (fun _ _ _ hI hstep => hI.step hstep)
  exact ⟨hintact.stream, hintact.interest⟩

/-- A connection that submits three bytes, of which the kernel takes one. -/
def shortWrite : Wire :=
  Wire.record ⟨{ channel := { fd := 7 } }, [], []⟩
    (TcpConnection.sendInLoop { channel := { fd := 7 } } [1, 2, 3] (.count 1)) [[1, 2, 3]]

theorem shortWrite_reachable : outputMachine.Reachable shortWrite :=
  Machine.Reachable.tail (Machine.ReachableWhere.of_init ⟨by decide, rfl, rfl, rfl⟩)
    (a := .sendInLoop [1, 2, 3] (.count 1))
    ⟨by decide, show 1 ≤ 3 by decide, rfl⟩

/-- After a short write of one byte, the other two are buffered with write interest. -/
theorem output_stream_intact_shortWrite :
    shortWrite.written = [1] ∧ shortWrite.conn.outputBuffer = [2, 3] ∧
      shortWrite.written ++ shortWrite.conn.outputBuffer = shortWrite.sent.flatten ∧
      (shortWrite.conn.channel.isWriting = true ↔ 0 < shortWrite.conn.outputBuffer.length) :=
  ⟨by decide, by decide, output_stream_intact shortWrite_reachable⟩

end DuoDuo.Net
