import DuoDuo.Net.EventLoop

/-!
# How often a connection closes

The life of one connection, from `TcpServer::newConnection` to its erasure from
`connSet_`. Its channel may be in the batch that the loop is dispatching, with
any mask; `readFd` and `::write` give any result; the user's code calls `send`,
`shutdown` and `forceClose` on the loop thread wherever it runs, which includes
the handlers of other channels of the batch, and on other threads at any time.
The server's loop is the connection's own or another one. The assertion of
`handleClose` is recorded, and execution continues as in a build without
assertions.
-/

namespace DuoDuo.Net

open Library

/-- The functors of a connection in the queue of its loop. -/
inductive ConnFunc
  | connectEstablished
  | sendInLoop (data : List UInt8)
  | shutdown
  | forceClose
  deriving DecidableEq

/-- A connection with the parts of the loop, the poller and the server that concern it. -/
structure Lifecycle where
  /-- The connection. -/
  conn : TcpConnection
  /-- The server's loop is the loop of the connection. -/
  sameLoop : Bool
  /-- The poller holds the channel. -/
  registered : Bool := false
  /-- The mask of the channel in a batch that has not reached it. -/
  unvisited : Option ℕ := none
  /-- The callbacks that the current `handleEvent` has still to make. -/
  todo : List EventCallback := []
  /-- The message callback of this connection is running. -/
  inMessage : Bool := false
  /-- The activations of `handleClose` whose `closeCallback_` is still to come. -/
  closing : ℕ := 0
  /-- The functors of this connection in the queue, oldest first. -/
  funcs : List ConnFunc := [.connectEstablished]
  /-- The connection is in `connSet_`. -/
  inSet : Bool := true
  /-- The erasing functors in the queue of the server's loop. -/
  pendingErase : ℕ := 0
  /-- How often `handleClose` has run. -/
  handleCloses : ℕ := 0
  /-- How often `closeCallback_` has been invoked. -/
  closeCallbacks : ℕ := 0
  /-- The results of `connSet_.erase`. -/
  erased : List ℕ := []
  /-- The assertion of `handleClose` has failed. -/
  assertFailed : Bool := false
  /-- `state_` has left `kDisconnected`. -/
  leftDisconnected : Bool := false

/-- The steps of the loops and of the threads that use the connection. -/
inductive LifeEvent
  /-- The poller returns the channel with a mask. -/
  | poll (revents : ℕ)
  /-- The batch reaches the channel. -/
  | handleEvent
  /-- The channel makes its next callback, given the result of `readFd` or `::write`. -/
  | callback (readable : ℤ) (answer : WriteResult)
  /-- The innermost `handleClose` calls `closeCallback_`. -/
  | closeCallback
  /-- The loop runs the oldest functor. -/
  | runFunc (answer : WriteResult)
  /-- The server's loop runs an erasing functor. -/
  | runErase
  /-- The user's code calls `send` on the loop thread. -/
  | send (data : List UInt8) (answer : WriteResult)
  /-- The user's code calls `shutdown` on the loop thread. -/
  | shutdown
  /-- The user's code calls `forceClose` on the loop thread. -/
  | forceClose
  /-- Another thread calls `send`, `shutdown` or `forceClose`. -/
  | queueSend (data : List UInt8)
  | queueShutdown
  | queueForceClose

namespace Lifecycle

/-- `TcpConnection::handleClose`, up to and including the call of `connectionCallback_`. -/
def handleClose (l : Lifecycle) : Lifecycle :=
  { l with
    assertFailed := l.assertFailed || !l.conn.isOpen
    conn := { l.conn with state := .kDisconnected, channel := l.conn.channel.disableAll }
    closing := l.closing + 1
    handleCloses := l.handleCloses + 1 }

/-- `connSet_.erase`. -/
def erase (l : Lifecycle) : Lifecycle :=
  { l with inSet := false, erased := l.erased ++ [if l.inSet then 1 else 0] }

/-- `TcpConnection::connectDestroyed`, ending in `Channel::remove`. -/
def connectDestroyed (l : Lifecycle) : Lifecycle :=
  { l with
    conn :=
      if l.conn.state = .kConnected then
        { l.conn with state := .kDisconnected, channel := l.conn.channel.disableAll }
      else l.conn
    registered := false }

/-- `TcpServer::connectionClosed`. The erasure runs at once or is queued. -/
def connectionClosed (l : Lifecycle) : Lifecycle :=
  (if l.sameLoop then l.erase else { l with pendingErase := l.pendingErase + 1 }).connectDestroyed

/-- The functor of `TcpConnection::forceClose`. -/
def forceClose (l : Lifecycle) : Lifecycle :=
  if l.conn.isOpen then { l with conn := { l.conn with state := .kDisconnecting } }.handleClose
  else l

/-- `TcpConnection::connectEstablished`, which registers the channel. -/
def connectEstablished (l : Lifecycle) : Lifecycle :=
  { l with conn := l.conn.connectEstablished, registered := true }

/-- `TcpConnection::sendInLoop`. -/
def sendInLoop (l : Lifecycle) (data : List UInt8) (answer : WriteResult) : Lifecycle :=
  { l with conn := (l.conn.sendInLoop data answer).conn }

/-- `TcpConnection::send` on the loop thread. -/
def send (l : Lifecycle) (data : List UInt8) (answer : WriteResult) : Lifecycle :=
  if l.conn.state = .kConnected then l.sendInLoop data answer else l

/-- `TcpConnection::shutdown` on the loop thread, or its functor. -/
def shutdown (l : Lifecycle) : Lifecycle := { l with conn := l.conn.shutdown }

/-- One callback of the channel. -/
def runCallback (l : Lifecycle) (readable : ℤ) (answer : WriteResult) :
    EventCallback → Lifecycle
  | .closeCallback => l.handleClose
  | .errorCallback => l
  | .readCallback =>
    if readable = 0 then l.handleClose else { l with inMessage := decide (0 < readable) }
  | .writeCallback => { l with conn := (l.conn.handleWrite answer).conn }

/-- Run a functor of the connection. -/
def runConnFunc (l : Lifecycle) (answer : WriteResult) : ConnFunc → Lifecycle
  | .connectEstablished => l.connectEstablished
  | .sendInLoop data => l.sendInLoop data answer
  | .shutdown => l.shutdown
  | .forceClose => l.forceClose

/-- The loop is inside no callback of this connection. -/
def idle (l : Lifecycle) : Bool := l.todo.isEmpty && l.closing == 0

/-- The user's code may run on the loop thread: in a handler of another channel, in a
functor, or in a callback that this connection makes. -/
def userRuns (l : Lifecycle) : Bool := l.todo.isEmpty || 0 < l.closing || l.inMessage

/-- The effect of an event. -/
def step (l : Lifecycle) : LifeEvent → Option Lifecycle
  | .poll revents =>
    if l.idle && l.unvisited.isNone && l.registered then
      some { l with unvisited := some revents, inMessage := false }
    else none
  | .handleEvent =>
    match l.unvisited with
    | some revents =>
      if l.idle then
        some { l with unvisited := none, todo := handleEventWithGuard revents, inMessage := false }
      else none
    | none => none
  | .callback readable answer =>
    match l.todo with
    | cb :: rest =>
      if l.closing = 0 then
        some ({ l with todo := rest, inMessage := false }.runCallback readable answer cb)
      else none
    | [] => none
  | .closeCallback =>
    if 0 < l.closing then
      some { l with
        closing := l.closing - 1, closeCallbacks := l.closeCallbacks + 1 }.connectionClosed
    else none
  | .runFunc answer =>
    match l.funcs with
    | f :: rest =>
      if l.idle && l.unvisited.isNone then some ({ l with funcs := rest }.runConnFunc answer f)
      else none
    | [] => none
  | .runErase =>
    if 0 < l.pendingErase then some { l with pendingErase := l.pendingErase - 1 }.erase else none
  | .send data answer => if l.userRuns then some (l.send data answer) else none
  | .shutdown => if l.userRuns then some l.shutdown else none
  | .forceClose => if l.userRuns then some l.forceClose else none
  | .queueSend data =>
    some (if l.conn.state = .kConnected then { l with funcs := l.funcs ++ [.sendInLoop data] }
      else l)
  | .queueShutdown => some { l with funcs := l.funcs ++ [.shutdown] }
  | .queueForceClose => some { l with funcs := l.funcs ++ [.forceClose] }

/-- Record whether the step from `l` has left `kDisconnected`. -/
def track (l l' : Lifecycle) : Lifecycle :=
  { l' with
    leftDisconnected := l'.leftDisconnected ||
      (l.conn.state = .kDisconnected && l'.conn.state ≠ .kDisconnected) }

/-- The transitions of a connection. -/
def next (l : Lifecycle) (e : LifeEvent) : Option Lifecycle := (l.step e).map l.track

/-- A connection that `newConnection` has just put into `connSet_`. -/
def newConnection (fd : ℕ) (sameLoop : Bool) : Lifecycle :=
  { conn := { channel := { fd } }, sameLoop }

/-- The machine of one connection. -/
def machine : Machine Lifecycle LifeEvent :=
  Machine.ofNext (fun l => ∃ fd sameLoop, l = newConnection fd sameLoop) next

/-- The connection has closed at most once, and its erasure has removed it. -/
structure ClosesOnce (l : Lifecycle) : Prop where
  /-- The assertion of `handleClose` has not failed. -/
  assertion : l.assertFailed = false
  handleClose : l.handleCloses ≤ 1
  closeCallback : l.closeCallbacks ≤ 1
  /-- Every erasure has removed exactly one connection. -/
  erase : ∀ n ∈ l.erased, n = 1
  /-- `state_` has never left `kDisconnected`. -/
  stays : l.leftDisconnected = false

/-- The callback closes the connection. -/
def closes (readable : ℤ) : EventCallback → Bool
  | .closeCallback => true
  | .readCallback => readable = 0
  | _ => false

/-- The condition on a step: a hangup or an end of file is dispatched only on a channel
that has not been removed from the poller since its batch was polled. -/
def StillRegistered (l : Lifecycle) : LifeEvent → Prop
  | .callback readable _ => ∀ cb ∈ l.todo.head?, closes readable cb = true → l.registered = true
  | _ => True

/-- Nothing of the connection has been closed. -/
structure Fresh (l : Lifecycle) : Prop where
  handleCloses : l.handleCloses = 0
  closing : l.closing = 0
  closeCallbacks : l.closeCallbacks = 0
  pendingErase : l.pendingErase = 0
  inSet : l.inSet = true
  erased : l.erased = []

/-- The connection is inside its only `handleClose`. -/
structure Closing (l : Lifecycle) : Prop where
  handleCloses : l.handleCloses = 1
  closing : l.closing = 1
  closeCallbacks : l.closeCallbacks = 0
  pendingErase : l.pendingErase = 0
  inSet : l.inSet = true
  erased : l.erased = []

/-- The connection has closed, and its erasure is queued or done. -/
structure Gone (l : Lifecycle) : Prop where
  handleCloses : l.handleCloses = 1
  closing : l.closing = 0
  closeCallbacks : l.closeCallbacks = 1
  registered : l.registered = false
  erasure : (l.pendingErase = 1 ∧ l.inSet = true ∧ l.erased = []) ∨
    (l.pendingErase = 0 ∧ l.inSet = false ∧ l.erased = [1])

/-- What holds between the steps when only registered channels are closed. -/
structure Sound (l : Lifecycle) : Prop where
  assertion : l.assertFailed = false
  stays : l.leftDisconnected = false
  /-- Before `connectEstablished` the loop knows nothing of the connection. -/
  connecting : l.conn.state = .kConnecting → l.Fresh ∧ l.registered = false ∧ l.unvisited = none ∧
    l.todo = [] ∧ ∃ rest, l.funcs = .connectEstablished :: rest ∧ .connectEstablished ∉ rest
  established : l.conn.state ≠ .kConnecting → .connectEstablished ∉ l.funcs
  /-- An open connection is registered and untouched. -/
  opened : l.conn.isOpen = true → l.Fresh ∧ l.registered = true
  closed : l.conn.state = .kDisconnected → l.Closing ∨ l.Gone

theorem isOpen_iff {c : TcpConnection} :
    c.isOpen = true ↔ c.state = .kConnected ∨ c.state = .kDisconnecting := by
  simp [TcpConnection.isOpen]

/-- A connection is connecting, open or disconnected. -/
theorem state_cases (c : TcpConnection) :
    c.state = .kConnecting ∨ c.isOpen = true ∨ c.state = .kDisconnected := by
  cases h : c.state <;> simp [TcpConnection.isOpen, h]

/-- What is sound closes at most once. -/
theorem Sound.closesOnce {l : Lifecycle} (h : l.Sound) : l.ClosesOnce := by
  rcases state_cases l.conn with hstate | hopen | hstate
  · have hfresh := (h.connecting hstate).1
    exact ⟨h.assertion, by simp [hfresh.handleCloses], by simp [hfresh.closeCallbacks],
      by simp [hfresh.erased], h.stays⟩
  · have hfresh := (h.opened hopen).1
    exact ⟨h.assertion, by simp [hfresh.handleCloses], by simp [hfresh.closeCallbacks],
      by simp [hfresh.erased], h.stays⟩
  · rcases h.closed hstate with hclosing | hgone
    · exact ⟨h.assertion, by simp [hclosing.handleCloses], by simp [hclosing.closeCallbacks],
        by simp [hclosing.erased], h.stays⟩
    · refine ⟨h.assertion, by simp [hgone.handleCloses], by simp [hgone.closeCallbacks], ?_,
        h.stays⟩
      rcases hgone.erasure with ⟨-, -, herased⟩ | ⟨-, -, herased⟩ <;> simp [herased]

/-- A connection that has just been put into the set is sound. -/
theorem Sound.newConnection (fd : ℕ) (sameLoop : Bool) : (newConnection fd sameLoop).Sound where
  assertion := rfl
  stays := rfl
  connecting := fun _ => ⟨⟨rfl, rfl, rfl, rfl, rfl, rfl⟩, rfl, rfl, rfl, [], rfl, by simp⟩
  established := fun h => absurd rfl h
  opened := fun h => by cases h
  closed := fun h => by cases h

/-- A registered channel outside `handleClose` belongs to an open connection. -/
theorem Sound.isOpen {l : Lifecycle} (h : l.Sound) (hregistered : l.registered = true)
    (hclosing : l.closing = 0) : l.conn.isOpen = true := by
  rcases state_cases l.conn with hstate | hopen | hstate
  · have hnot := (h.connecting hstate).2.1
    simp [hregistered] at hnot
  · exact hopen
  · rcases h.closed hstate with hin | hgone
    · simp [hin.closing] at hclosing
    · have hnot := hgone.registered
      simp [hregistered] at hnot

/-- A channel that is not registered does not belong to an open connection. -/
theorem Sound.not_isOpen {l : Lifecycle} (h : l.Sound) (hregistered : l.registered = false) :
    l.conn.isOpen = false := by
  cases hopen : l.conn.isOpen with
  | false => rfl
  | true =>
    have hyes := (h.opened hopen).2
    simp [hregistered] at hyes

/-- A change of the output side, of the batch or of the callbacks is sound. -/
theorem Sound.congr {l l' : Lifecycle} (h : l.Sound) (hstate : l'.conn.state = l.conn.state)
    (hopen : l.conn.state ≠ .kConnecting ∨ (l'.unvisited = none ∧ l'.todo = []))
    (hregistered : l'.registered = l.registered) (hclosing : l'.closing = l.closing)
    (hfuncs : l'.funcs = l.funcs) (hinSet : l'.inSet = l.inSet)
    (hpending : l'.pendingErase = l.pendingErase) (hcloses : l'.handleCloses = l.handleCloses)
    (hcallbacks : l'.closeCallbacks = l.closeCallbacks) (herased : l'.erased = l.erased)
    (hassert : l'.assertFailed = l.assertFailed) (hleft : l'.leftDisconnected = l.leftDisconnected) :
    l'.Sound := by
  have hfresh : l.Fresh → l'.Fresh := fun hf =>
    ⟨hcloses.trans hf.handleCloses, hclosing.trans hf.closing,
      hcallbacks.trans hf.closeCallbacks, hpending.trans hf.pendingErase,
      hinSet.trans hf.inSet, herased.trans hf.erased⟩
  refine ⟨hassert.trans h.assertion, hleft.trans h.stays, fun hs => ?_, fun hs => ?_, fun ho => ?_,
    fun hs => ?_⟩
  · rw [hstate] at hs
    obtain ⟨hf, hr, -, -, rest, hrest⟩ := h.connecting hs
    obtain ⟨hunvisited, htodo⟩ := hopen.resolve_left (fun hne => hne hs)
    exact ⟨hfresh hf, hregistered.trans hr, hunvisited, htodo, rest, hfuncs ▸ hrest⟩
  · rw [hfuncs]
    exact h.established (hstate ▸ hs)
  · have ho' : l.conn.isOpen = true := by
      rw [isOpen_iff, hstate] at ho
      exact isOpen_iff.mpr ho
    exact ⟨hfresh (h.opened ho').1, hregistered.trans (h.opened ho').2⟩
  · rw [hstate] at hs
    rcases h.closed hs with hin | hgone
    · exact .inl ⟨hcloses.trans hin.handleCloses, hclosing.trans hin.closing,
        hcallbacks.trans hin.closeCallbacks, hpending.trans hin.pendingErase,
        hinSet.trans hin.inSet, herased.trans hin.erased⟩
    · refine .inr ⟨hcloses.trans hgone.handleCloses, hclosing.trans hgone.closing,
        hcallbacks.trans hgone.closeCallbacks, hregistered.trans hgone.registered, ?_⟩
      rw [hpending, hinSet, herased]
      exact hgone.erasure

/-- Closing an open connection is sound. -/
theorem Sound.handleClose {l : Lifecycle} (h : l.Sound) (hopen : l.conn.isOpen = true) :
    l.handleClose.Sound := by
  obtain ⟨hfresh, -⟩ := h.opened hopen
  refine ⟨?_, h.stays, fun hs => (by cases hs), fun _ => ?_, fun ho => (by cases ho), fun _ => ?_⟩
  · simp [Lifecycle.handleClose, h.assertion, hopen]
  · refine h.established fun hs => ?_
    rcases isOpen_iff.mp hopen with ho | ho <;> simp [hs] at ho
  · refine .inl ⟨?_, ?_, hfresh.closeCallbacks, hfresh.pendingErase, hfresh.inSet, hfresh.erased⟩
    · simp [Lifecycle.handleClose, hfresh.handleCloses]
    · simp [Lifecycle.handleClose, hfresh.closing]

/-- `forceClose` is sound at any time. -/
theorem Sound.forceClose {l : Lifecycle} (h : l.Sound) : l.forceClose.Sound := by
  unfold Lifecycle.forceClose
  split
  · next hopen =>
    obtain ⟨hfresh, hregistered⟩ := h.opened hopen
    have hne : l.conn.state ≠ .kConnecting := by
      intro hs
      rcases isOpen_iff.mp hopen with ho | ho <;> simp [hs] at ho
    have hdisconnecting : ({ l with
        conn := { l.conn with state := .kDisconnecting } } : Lifecycle).Sound :=
      ⟨h.assertion, h.stays, fun hs => (by cases hs), fun _ => h.established hne,
        fun _ => ⟨⟨hfresh.handleCloses, hfresh.closing, hfresh.closeCallbacks,
          hfresh.pendingErase, hfresh.inSet, hfresh.erased⟩, hregistered⟩,
        fun hs => (by cases hs)⟩
    exact hdisconnecting.handleClose rfl
  · exact h

/-- `closeCallback_` takes the connection out of the poller and the set. -/
theorem Sound.closeCallback {l : Lifecycle} (h : l.Sound) (hclosing : 0 < l.closing) :
    ({ l with
      closing := l.closing - 1
      closeCallbacks := l.closeCallbacks + 1 } : Lifecycle).connectionClosed.Sound := by
  have hnotFresh : ¬ l.Fresh := fun hfresh => by simp [hfresh.closing] at hclosing
  have hstate : l.conn.state = .kDisconnected := by
    rcases state_cases l.conn with hs | ho | hs
    · exact absurd (h.connecting hs).1 hnotFresh
    · exact absurd (h.opened ho).1 hnotFresh
    · exact hs
  have hin : l.Closing := by
    rcases h.closed hstate with hin | hgone
    · exact hin
    · simp [hgone.closing] at hclosing
  have hne : l.conn.state ≠ .kConnecting := by simp [hstate]
  have hfuncs := h.established hne
  unfold connectionClosed
  cases hsame : l.sameLoop with
  | true =>
    refine ⟨h.assertion, h.stays, ?_, ?_, ?_, ?_⟩
    · simp [connectDestroyed, Lifecycle.erase, hstate]
    · simpa [connectDestroyed, Lifecycle.erase, hstate] using hfuncs
    · simp [connectDestroyed, Lifecycle.erase, hstate, TcpConnection.isOpen]
    · refine fun _ => .inr ⟨hin.handleCloses, ?_, ?_, rfl, .inr ⟨hin.pendingErase, rfl, ?_⟩⟩
      · simp [connectDestroyed, Lifecycle.erase, hin.closing]
      · simp [connectDestroyed, Lifecycle.erase, hin.closeCallbacks]
      · simp [connectDestroyed, Lifecycle.erase, hin.erased, hin.inSet]
  | false =>
    refine ⟨h.assertion, h.stays, ?_, ?_, ?_, ?_⟩
    · simp [connectDestroyed, hstate]
    · simpa [connectDestroyed, hstate] using hfuncs
    · simp [connectDestroyed, hstate, TcpConnection.isOpen]
    · refine fun _ => .inr ⟨hin.handleCloses, ?_, ?_, rfl, .inl ⟨?_, hin.inSet, hin.erased⟩⟩
      · simp [connectDestroyed, hin.closing]
      · simp [connectDestroyed, hin.closeCallbacks]
      · simp [connectDestroyed, hin.pendingErase]

/-- The erasing functor removes the connection from the set. -/
theorem Sound.runErase {l : Lifecycle} (h : l.Sound) (hpending : 0 < l.pendingErase) :
    ({ l with pendingErase := l.pendingErase - 1 } : Lifecycle).erase.Sound := by
  have hnotFresh : ¬ l.Fresh := fun hfresh => by simp [hfresh.pendingErase] at hpending
  refine ⟨h.assertion, h.stays, fun hs => absurd (h.connecting hs).1 hnotFresh, h.established,
    fun ho => absurd (h.opened ho).1 hnotFresh, fun hs => ?_⟩
  rcases h.closed hs with hin | hgone
  · simp [hin.pendingErase] at hpending
  · rcases hgone.erasure with ⟨hp, hset, herased⟩ | ⟨hp, -, -⟩
    · refine .inr ⟨hgone.handleCloses, hgone.closing, hgone.closeCallbacks, hgone.registered,
        .inr ⟨?_, rfl, ?_⟩⟩
      · simp [Lifecycle.erase, hp]
      · simp [Lifecycle.erase, herased, hset]
    · simp [hp] at hpending

/-- `shutdown` keeps an open connection open, and any other as it is. -/
theorem Sound.shutdown {l : Lifecycle} (h : l.Sound) : l.shutdown.Sound := by
  have hstate : l.shutdown.conn.state =
      if l.conn.state = .kConnected then .kDisconnecting else l.conn.state :=
    l.conn.shutdown_state
  by_cases hconnected : l.conn.state = .kConnected
  · rw [if_pos hconnected] at hstate
    have hopen : l.conn.isOpen = true := isOpen_iff.mpr (.inl hconnected)
    obtain ⟨hfresh, hregistered⟩ := h.opened hopen
    exact ⟨h.assertion, h.stays, fun hs => by simp [hstate] at hs,
      fun _ => h.established (by simp [hconnected]),
      fun _ => ⟨⟨hfresh.handleCloses, hfresh.closing, hfresh.closeCallbacks,
        hfresh.pendingErase, hfresh.inSet, hfresh.erased⟩, hregistered⟩,
      fun hs => by simp [hstate] at hs⟩
  · rw [if_neg hconnected] at hstate
    have hconn : l.shutdown = l := by
      simp [Lifecycle.shutdown, TcpConnection.shutdown, hconnected]
    rw [hconn]
    exact h

/-- A functor of another thread goes to the end of the queue. -/
theorem Sound.queue {l : Lifecycle} (h : l.Sound) {f : ConnFunc} (hf : f ≠ .connectEstablished) :
    ({ l with funcs := l.funcs ++ [f] } : Lifecycle).Sound := by
  refine ⟨h.assertion, h.stays, fun hs => ?_, fun hs => ?_,
    fun ho => ⟨⟨(h.opened ho).1.handleCloses, (h.opened ho).1.closing,
      (h.opened ho).1.closeCallbacks, (h.opened ho).1.pendingErase, (h.opened ho).1.inSet,
      (h.opened ho).1.erased⟩, (h.opened ho).2⟩, fun hs => ?_⟩
  · obtain ⟨hfresh, hr, hu, ht, rest, hfuncs, hrest⟩ := h.connecting hs
    refine ⟨⟨hfresh.handleCloses, hfresh.closing, hfresh.closeCallbacks, hfresh.pendingErase,
      hfresh.inSet, hfresh.erased⟩, hr, hu, ht, rest ++ [f], by simp [hfuncs], ?_⟩
    simpa [hrest] using Ne.symm hf
  · simpa [h.established hs] using Ne.symm hf
  · rcases h.closed hs with hin | hgone
    · exact .inl ⟨hin.handleCloses, hin.closing, hin.closeCallbacks, hin.pendingErase, hin.inSet,
        hin.erased⟩
    · exact .inr ⟨hgone.handleCloses, hgone.closing, hgone.closeCallbacks, hgone.registered,
        hgone.erasure⟩

/-- After `connectEstablished` the oldest functor may leave the queue. -/
theorem Sound.pop {l : Lifecycle} (h : l.Sound) {f : ConnFunc} {rest : List ConnFunc}
    (hfuncs : l.funcs = f :: rest) (hstate : l.conn.state ≠ .kConnecting) :
    ({ l with funcs := rest } : Lifecycle).Sound := by
  have hnot := h.established hstate
  rw [hfuncs, List.mem_cons, not_or] at hnot
  refine ⟨h.assertion, h.stays, fun hs => absurd hs hstate, fun _ => hnot.2,
    fun ho => ⟨⟨(h.opened ho).1.handleCloses, (h.opened ho).1.closing,
      (h.opened ho).1.closeCallbacks, (h.opened ho).1.pendingErase, (h.opened ho).1.inSet,
      (h.opened ho).1.erased⟩, (h.opened ho).2⟩, fun hs => ?_⟩
  rcases h.closed hs with hin | hgone
  · exact .inl ⟨hin.handleCloses, hin.closing, hin.closeCallbacks, hin.pendingErase, hin.inSet,
      hin.erased⟩
  · exact .inr ⟨hgone.handleCloses, hgone.closing, hgone.closeCallbacks, hgone.registered,
      hgone.erasure⟩

/-- `connectEstablished` opens the connection. -/
theorem Sound.connectEstablished {l : Lifecycle} (h : l.Sound) {rest : List ConnFunc}
    (hfuncs : l.funcs = .connectEstablished :: rest) :
    ({ l with funcs := rest } : Lifecycle).connectEstablished.Sound := by
  have hstate : l.conn.state = .kConnecting := by
    by_contra hne
    exact h.established hne (by simp [hfuncs])
  obtain ⟨hfresh, -, -, -, rest', hfuncs', hrest'⟩ := h.connecting hstate
  rw [hfuncs, List.cons.injEq] at hfuncs'
  obtain ⟨-, rfl⟩ := hfuncs'
  exact ⟨h.assertion, h.stays, fun hs => (by cases hs), fun _ => hrest',
    fun _ => ⟨⟨hfresh.handleCloses, hfresh.closing, hfresh.closeCallbacks, hfresh.pendingErase,
      hfresh.inSet, hfresh.erased⟩, rfl⟩, fun hs => (by cases hs)⟩

/-- A step that keeps a disconnected connection disconnected is recorded as such. -/
theorem Sound.track {l l' : Lifecycle} (h : l'.Sound)
    (hstays : l.conn.state = .kDisconnected → l'.conn.state = .kDisconnected) :
    (l.track l').Sound := by
  have hsame : l.track l' = l' := by
    by_cases hs : l.conn.state = .kDisconnected
    · simp [Lifecycle.track, hstays hs]
    · simp [Lifecycle.track, hs]
  rw [hsame]
  exact h

/-- `forceClose` keeps a disconnected connection disconnected. -/
theorem forceClose_state {l : Lifecycle} (h : l.conn.state = .kDisconnected) :
    l.forceClose.conn.state = .kDisconnected := by
  unfold Lifecycle.forceClose
  split
  · rfl
  · exact h

/-- `shutdown` keeps a disconnected connection disconnected. -/
theorem shutdown_state {l : Lifecycle} (h : l.conn.state = .kDisconnected) :
    l.shutdown.conn.state = .kDisconnected := by
  have hstate : l.shutdown.conn.state = _ := l.conn.shutdown_state
  rw [hstate, h]
  rfl

/-- `connectionClosed` leaves a disconnected connection disconnected. -/
theorem connectionClosed_state {l : Lifecycle} (h : l.conn.state = .kDisconnected) :
    l.connectionClosed.conn.state = .kDisconnected := by
  unfold connectionClosed connectDestroyed
  split <;> simp [Lifecycle.erase, h]

/-- A callback that meets the condition is sound and does not reopen the connection. -/
theorem Sound.callback {l : Lifecycle} (h : l.Sound) {cb : EventCallback}
    {rest : List EventCallback} (htodo : l.todo = cb :: rest) (hclosing : l.closing = 0)
    {readable : ℤ} {answer : WriteResult}
    (hregistered : closes readable cb = true → l.registered = true) :
    (({ l with todo := rest, inMessage := false } : Lifecycle).runCallback readable answer
        cb).Sound ∧
      (l.conn.state = .kDisconnected →
        (({ l with todo := rest, inMessage := false } : Lifecycle).runCallback readable answer
          cb).conn.state = .kDisconnected) := by
  have hne : l.conn.state ≠ .kConnecting := by
    intro hs
    have hnone := (h.connecting hs).2.2.2.1
    simp [htodo] at hnone
  have hpopped : ({ l with todo := rest, inMessage := false } : Lifecycle).Sound :=
    h.congr rfl (.inl hne) rfl rfl rfl rfl rfl rfl rfl rfl rfl rfl
  cases cb with
  | closeCallback =>
    have hopen := h.isOpen (hregistered rfl) hclosing
    exact ⟨hpopped.handleClose hopen, fun _ => rfl⟩
  | errorCallback => exact ⟨hpopped, fun hs => hs⟩
  | readCallback =>
    unfold runCallback
    by_cases hzero : readable = 0
    · have hopen := h.isOpen (hregistered (by simp [closes, hzero])) hclosing
      rw [if_pos hzero]
      exact ⟨hpopped.handleClose hopen, fun _ => rfl⟩
    · rw [if_neg hzero]
      exact ⟨h.congr rfl (.inl hne) rfl rfl rfl rfl rfl rfl rfl rfl rfl rfl, fun hs => hs⟩
  | writeCallback =>
    have hstate := l.conn.handleWrite_state answer
    exact ⟨h.congr hstate (.inl hne) rfl rfl rfl rfl rfl rfl rfl rfl rfl rfl,
      fun hs => hstate.trans hs⟩

/-- Running the oldest functor is sound and does not reopen the connection. -/
theorem Sound.runFunc {l : Lifecycle} (h : l.Sound) {f : ConnFunc} {rest : List ConnFunc}
    (hfuncs : l.funcs = f :: rest) (answer : WriteResult) :
    (({ l with funcs := rest } : Lifecycle).runConnFunc answer f).Sound ∧
      (l.conn.state = .kDisconnected →
        (({ l with funcs := rest } : Lifecycle).runConnFunc answer f).conn.state =
          .kDisconnected) := by
  by_cases hstate : l.conn.state = .kConnecting
  · obtain ⟨-, -, -, -, rest', hfuncs', -⟩ := h.connecting hstate
    rw [hfuncs, List.cons.injEq] at hfuncs'
    obtain ⟨rfl, -⟩ := hfuncs'
    exact ⟨h.connectEstablished hfuncs, fun hs => by simp [hstate] at hs⟩
  · have hpopped := h.pop hfuncs hstate
    cases f with
    | connectEstablished =>
      have hnot := h.established hstate
      simp [hfuncs] at hnot
    | sendInLoop data =>
      have hsame := l.conn.sendInLoop_state data answer
      exact ⟨hpopped.congr hsame (.inl hstate) rfl rfl rfl rfl rfl rfl rfl rfl rfl rfl,
        fun hs => hsame.trans hs⟩
    | shutdown =>
      exact ⟨hpopped.shutdown, shutdown_state⟩
    | forceClose =>
      exact ⟨hpopped.forceClose, fun hs => forceClose_state (l := { l with funcs := rest }) hs⟩

/-- Every step that meets the condition is sound and does not reopen the connection. -/
theorem Sound.step {l l' : Lifecycle} (h : l.Sound) {e : LifeEvent} (hcond : l.StillRegistered e)
    (hstep : l.step e = some l') :
    l'.Sound ∧ (l.conn.state = .kDisconnected → l'.conn.state = .kDisconnected) := by
  cases e with
  | poll revents =>
    rw [Lifecycle.step, Option.ite_none_right_eq_some, Option.some.injEq] at hstep
    obtain ⟨hguard, rfl⟩ := hstep
    simp only [idle, Bool.and_eq_true, beq_iff_eq] at hguard
    have hopen := h.isOpen hguard.2 hguard.1.1.2
    have hne : l.conn.state ≠ .kConnecting := by
      intro hs
      rcases isOpen_iff.mp hopen with ho | ho <;> simp [hs] at ho
    exact ⟨h.congr rfl (.inl hne) rfl rfl rfl rfl rfl rfl rfl rfl rfl rfl, fun hs => hs⟩
  | handleEvent =>
    simp only [Lifecycle.step] at hstep
    split at hstep
    · next revents hunvisited =>
      rw [Option.ite_none_right_eq_some, Option.some.injEq] at hstep
      obtain ⟨-, rfl⟩ := hstep
      have hne : l.conn.state ≠ .kConnecting := by
        intro hs
        have hnone := (h.connecting hs).2.2.1
        simp [hunvisited] at hnone
      exact ⟨h.congr rfl (.inl hne) rfl rfl rfl rfl rfl rfl rfl rfl rfl rfl, fun hs => hs⟩
    · cases hstep
  | callback readable answer =>
    simp only [Lifecycle.step] at hstep
    split at hstep
    · next cb rest htodo =>
      rw [Option.ite_none_right_eq_some, Option.some.injEq] at hstep
      obtain ⟨hclosing, rfl⟩ := hstep
      exact h.callback htodo hclosing (hcond cb (by simp [htodo]))
    · cases hstep
  | closeCallback =>
    rw [Lifecycle.step, Option.ite_none_right_eq_some, Option.some.injEq] at hstep
    obtain ⟨hclosing, rfl⟩ := hstep
    exact ⟨h.closeCallback hclosing, fun hs => connectionClosed_state (l := { l with
      closing := l.closing - 1, closeCallbacks := l.closeCallbacks + 1 }) hs⟩
  | runFunc answer =>
    simp only [Lifecycle.step] at hstep
    split at hstep
    · next f rest hfuncs =>
      rw [Option.ite_none_right_eq_some, Option.some.injEq] at hstep
      obtain ⟨-, rfl⟩ := hstep
      exact h.runFunc hfuncs answer
    · cases hstep
  | runErase =>
    rw [Lifecycle.step, Option.ite_none_right_eq_some, Option.some.injEq] at hstep
    obtain ⟨hpending, rfl⟩ := hstep
    exact ⟨h.runErase hpending, fun hs => hs⟩
  | send data answer =>
    rw [Lifecycle.step, Option.ite_none_right_eq_some, Option.some.injEq] at hstep
    obtain ⟨-, rfl⟩ := hstep
    unfold Lifecycle.send
    split
    · next hconnected =>
      have hsame := l.conn.sendInLoop_state data answer
      exact ⟨h.congr hsame (.inl (by simp [hconnected])) rfl rfl rfl rfl rfl rfl rfl rfl rfl rfl,
        fun hs => hsame.trans hs⟩
    · exact ⟨h, fun hs => hs⟩
  | shutdown =>
    rw [Lifecycle.step, Option.ite_none_right_eq_some, Option.some.injEq] at hstep
    obtain ⟨-, rfl⟩ := hstep
    exact ⟨h.shutdown, shutdown_state⟩
  | forceClose =>
    rw [Lifecycle.step, Option.ite_none_right_eq_some, Option.some.injEq] at hstep
    obtain ⟨-, rfl⟩ := hstep
    exact ⟨h.forceClose, forceClose_state⟩
  | queueSend data =>
    obtain rfl := Option.some.inj hstep
    split
    · exact ⟨h.queue (by simp), fun hs => hs⟩
    · exact ⟨h, fun hs => hs⟩
  | queueShutdown =>
    obtain rfl := Option.some.inj hstep
    exact ⟨h.queue (by simp), fun hs => hs⟩
  | queueForceClose =>
    obtain rfl := Option.some.inj hstep
    exact ⟨h.queue (by simp), fun hs => hs⟩

/-- Every transition that meets the condition is sound. -/
theorem Sound.next {l l' : Lifecycle} (h : l.Sound) {e : LifeEvent} (hcond : l.StillRegistered e)
    (hnext : l.next e = some l') : l'.Sound := by
  obtain ⟨l₁, hstep, rfl⟩ := Option.map_eq_some_iff.mp hnext
  obtain ⟨hsound, hstays⟩ := h.step hcond hstep
  exact hsound.track hstays

/-- Closing through a channel that has left the poller fails the assertion. -/
theorem Sound.not_closesOnce {l l' : Lifecycle} (h : l.Sound) {e : LifeEvent}
    (hbad : ¬ l.StillRegistered e) (hnext : l.next e = some l') : ¬ l'.ClosesOnce := by
  cases e with
  | callback readable answer =>
    simp only [StillRegistered, not_forall] at hbad
    obtain ⟨cb, hcb, hcloses, hregistered⟩ := hbad
    obtain ⟨l₁, hstep, rfl⟩ := Option.map_eq_some_iff.mp hnext
    cases htodo : l.todo with
    | nil => simp [htodo] at hcb
    | cons cb' rest =>
      obtain rfl : cb' = cb := by simpa [htodo] using hcb
      simp only [Lifecycle.step, htodo, Option.ite_none_right_eq_some, Option.some.injEq] at hstep
      obtain ⟨-, rfl⟩ := hstep
      have hnotOpen := h.not_isOpen (by simpa using hregistered)
      intro honce
      have hassert := honce.assertion
      cases cb' with
      | closeCallback =>
        simp [Lifecycle.track, runCallback, Lifecycle.handleClose, hnotOpen] at hassert
      | readCallback =>
        have hzero : readable = 0 := by simpa [closes] using hcloses
        simp [Lifecycle.track, runCallback, hzero, Lifecycle.handleClose, hnotOpen] at hassert
      | errorCallback | writeCallback => simp [closes] at hcloses
  | _ => exact absurd trivial hbad

/-- In every run of a connection, it closes once throughout exactly when no hangup and
no end of file is dispatched on its channel after it has left the poller. -/
theorem closesOnce_iff_stillRegistered {fd : ℕ} {sameLoop : Bool}
    {trace : List (Lifecycle × LifeEvent)} {last : Lifecycle}
    (h : machine.Run (newConnection fd sameLoop) trace last) :
    (∀ l ∈ Machine.visited trace last, l.ClosesOnce) ↔
      ∀ p ∈ trace, p.1.StillRegistered p.2 :=
  h.forall_visited_iff (I := Sound) (fun _ hl => hl.closesOnce)
    (fun _ _ _ hl hc hstep => hl.next hc hstep)
    (fun _ _ _ hl hc hstep => hl.not_closesOnce hc hstep) (.newConnection fd sameLoop)

instance (l : Lifecycle) (e : LifeEvent) : Decidable (l.StillRegistered e) :=
  match e with
  | .callback readable _ =>
    inferInstanceAs (Decidable (∀ cb ∈ l.todo.head?, closes readable cb = true → _))
  | .poll _ | .handleEvent | .closeCallback | .runFunc _ | .runErase | .send _ _ | .shutdown
  | .forceClose | .queueSend _ | .queueShutdown | .queueForceClose =>
    inferInstanceAs (Decidable True)

/-- The peer closes; another thread calls `forceClose` at the same time. -/
def peerCloses : List LifeEvent :=
  [.runFunc (.count 0), .poll (POLLIN ||| POLLRDHUP), .queueForceClose, .handleEvent,
    .callback 0 (.count 0), .closeCallback, .runFunc (.count 0), .runErase]

/-- In `peerCloses` the connection closes once, and the set loses it. -/
theorem closesOnce_iff_stillRegistered_peerCloses :
    ∃ last, peerCloses.foldlM next (newConnection 7 false) = some last ∧ last.erased = [1] ∧
      ∀ l ∈ Machine.visited (Machine.traceOf next (newConnection 7 false) peerCloses) last,
        l.ClosesOnce := by
  obtain ⟨last, hlast⟩ : ∃ last, peerCloses.foldlM next (newConnection 7 false) = some last :=
    ⟨_, rfl⟩
  have herased : (peerCloses.foldlM next (newConnection 7 false)).map Lifecycle.erased =
      some [1] := by decide
  refine ⟨last, hlast, by simpa [hlast] using herased, ?_⟩
  exact (closesOnce_iff_stillRegistered (.of_foldlM hlast)).2 (by decide)

/-- The handler of another channel of the batch calls `forceClose`, and then the batch
reaches the channel, whose peer has closed. -/
def closedInBatch : List LifeEvent :=
  [.runFunc (.count 0), .poll POLLIN, .forceClose, .closeCallback, .handleEvent,
    .callback 0 (.count 0)]

/-- In `closedInBatch` the assertion of `handleClose` fails, and it runs twice. -/
theorem closedInBatch_twice :
    ∃ l, machine.Reachable l ∧ l.assertFailed = true ∧ l.handleCloses = 2 ∧ ¬ l.ClosesOnce := by
  have hfields : (closedInBatch.foldlM next (newConnection 7 true)).map
      (fun l => (l.assertFailed, l.handleCloses)) = some (true, 2) := by decide
  obtain ⟨l, hl, hfields⟩ := Option.map_eq_some_iff.mp hfields
  rw [Prod.mk.injEq] at hfields
  refine ⟨l, .of_foldlM (.of_init ⟨7, true, rfl⟩) hl, hfields.1, hfields.2, fun h => ?_⟩
  have hassert := h.assertion
  simp [hfields.1] at hassert

end Lifecycle

end DuoDuo.Net
