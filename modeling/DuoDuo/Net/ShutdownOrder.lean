import DuoDuo.Net.OutputIntegrity
import Mathlib.Data.List.Nodup

/-!
# Data accepted before a shutdown

`send` and `shutdown` reach the loop thread either at once, when they are called
on it, or through the functor queue. The model follows one connection, from
`connectEstablished` on, with other threads anywhere inside their calls and
functors waiting in the queue in the order of their `enqueue`. A send is numbered
when it is given to the loop. The question is whether `closeWrite` can overtake
the data of a send that returned before the call of `shutdown` started.
-/

namespace DuoDuo.Net

open Library

/-- The number of a send. -/
abbrev SendId := ℕ

/-- The functors that `send` and `shutdown` queue. A `shutdown` remembers the sends
that had returned when it was called. -/
inductive LoopFunc
  | sendInLoop (id : SendId) (data : List UInt8)
  | shutdown (before : List SendId)
  deriving DecidableEq

/-- The send that a functor carries. -/
def LoopFunc.sendId? : LoopFunc → Option SendId
  | sendInLoop id _ => some id
  | shutdown _ => none

/-- The position of another thread inside `send` or `shutdown`. -/
inductive SendPoint
  /-- The thread is in neither. -/
  | idle
  /-- `send` has found the connection `kConnected`. -/
  | accepted (data : List UInt8)
  /-- `send` has queued its functor. -/
  | queued (id : SendId)
  /-- `shutdown` has been called, after the given sends had returned. -/
  | shuttingDown (before : List SendId)
  deriving DecidableEq

/-- A connection, the functors of its loop, and the threads that use it. -/
structure Traffic (Thread : Type*) where
  /-- The connection and the history of its output. -/
  wire : Wire
  /-- The functors in the queue, oldest first. -/
  funcs : List LoopFunc := []
  /-- The calls of other threads. -/
  calls : Thread → SendPoint := fun _ => .idle
  /-- The sends whose data has been passed to `sendInLoop`, in order. -/
  executed : List SendId := []
  /-- The accepted sends that have returned. -/
  returned : List SendId := []
  /-- The sends that had returned before the call of the `shutdown` that took effect. -/
  covered : List SendId := []
  /-- The number of the next send. -/
  nextId : SendId := 0

/-- The steps of the loop thread and of the other threads. -/
inductive TrafficEvent (Thread : Type*)
  /-- Another thread calls `send`, which tests `state_`. -/
  | send (t : Thread) (data : List UInt8)
  /-- Its functor is queued. -/
  | queueSend (t : Thread)
  /-- It returns. -/
  | sendReturns (t : Thread)
  /-- Another thread calls `shutdown`. -/
  | shutdown (t : Thread)
  /-- Its functor is queued, and it returns. -/
  | queueShutdown (t : Thread)
  /-- The loop runs the oldest functor. -/
  | runFunc (answer : WriteResult)
  /-- The loop calls `handleWrite`. -/
  | handleWrite (answer : WriteResult)
  /-- The loop thread calls `send`. -/
  | sendHere (data : List UInt8) (answer : WriteResult)
  /-- The loop thread calls `shutdown`. -/
  | shutdownHere

instance (len : ℕ) (answer : WriteResult) : Decidable (answer.Healthy len) :=
  match answer with
  | .count n => inferInstanceAs (Decidable (n ≤ len))
  | .failed errno => inferInstanceAs (Decidable (errno = .EWOULDBLOCK))

/-- `handleWrite` empties the output buffer. -/
def TcpConnection.drains (c : TcpConnection) (answer : WriteResult) : Bool :=
  c.channel.isWriting && 0 < answer.nwrote && c.outputBuffer.length ≤ answer.nwrote

namespace Traffic

variable {Thread : Type*}

/-- The sends whose functors are in a queue. -/
def queuedIds (funcs : List LoopFunc) : List SendId := funcs.filterMap LoopFunc.sendId?

/-- `sendInLoop` for the send `id`. -/
def runSend (t : Traffic Thread) (id : SendId) (data : List UInt8) (answer : WriteResult) :
    Traffic Thread :=
  { t with
    wire := t.wire.record (t.wire.conn.sendInLoop data answer) [data]
    executed := t.executed ++ [id] }

/-- The functor of a `shutdown` that was called after the sends `before` had returned. -/
def runShutdown (t : Traffic Thread) (before : List SendId) : Traffic Thread :=
  { t with
    wire := t.wire.record { conn := t.wire.conn.shutdown } []
    covered := if t.wire.conn.state = .kConnected then before else t.covered }

/-- Run a functor, with the answer of `::write` if it sends. -/
def runLoopFunc (t : Traffic Thread) (answer : WriteResult) : LoopFunc → Option (Traffic Thread)
  | .sendInLoop id data =>
    if answer.Healthy data.length then some (t.runSend id data answer) else none
  | .shutdown before => some (t.runShutdown before)

/-- Move the call of a thread on. -/
def setCall [DecidableEq Thread] (t : Traffic Thread) (th : Thread) (point : SendPoint) :
    Traffic Thread :=
  { t with calls := Function.update t.calls th point }

/-- The functor of the send numbered `nextId` enters the queue. -/
def queueSend [DecidableEq Thread] (t : Traffic Thread) (th : Thread) (data : List UInt8) :
    Traffic Thread :=
  { t.setCall th (.queued t.nextId) with
    funcs := t.funcs ++ [.sendInLoop t.nextId data], nextId := t.nextId + 1 }

/-- The transitions. The answers of `::write` are those of a healthy socket. -/
def next [DecidableEq Thread] (t : Traffic Thread) : TrafficEvent Thread → Option (Traffic Thread)
  | .send th data =>
    match t.calls th with
    | .idle => some (if t.wire.conn.state = .kConnected then t.setCall th (.accepted data) else t)
    | _ => none
  | .queueSend th =>
    match t.calls th with
    | .accepted data => some (t.queueSend th data)
    | _ => none
  | .sendReturns th =>
    match t.calls th with
    | .queued id => some { t.setCall th .idle with returned := t.returned ++ [id] }
    | _ => none
  | .shutdown th =>
    match t.calls th with
    | .idle => some (t.setCall th (.shuttingDown t.returned))
    | _ => none
  | .queueShutdown th =>
    match t.calls th with
    | .shuttingDown before =>
      some { t.setCall th .idle with funcs := t.funcs ++ [.shutdown before] }
    | _ => none
  | .runFunc answer =>
    match t.funcs with
    | f :: rest => { t with funcs := rest }.runLoopFunc answer f
    | [] => none
  | .handleWrite answer =>
    if answer.Healthy t.wire.conn.outputBuffer.length then
      some { t with wire := t.wire.record (t.wire.conn.handleWrite answer) [] }
    else none
  | .sendHere data answer =>
    if answer.Healthy data.length then
      if t.wire.conn.state = .kConnected then
        some { t.runSend t.nextId data answer with
          returned := t.returned ++ [t.nextId], nextId := t.nextId + 1 }
      else some t
    else none
  | .shutdownHere => some (t.runShutdown t.returned)

/-- A connection that has just been established, with nobody inside a call. -/
def established (fd : ℕ) : Traffic Thread :=
  { wire := ⟨TcpConnection.connectEstablished { channel := { fd } }, [], []⟩ }

/-- The machine of one connection. -/
def machine (Thread : Type*) [DecidableEq Thread] :
    Machine (Traffic Thread) (TrafficEvent Thread) :=
  Machine.ofNext (fun t => ∃ fd, t = established fd) next

/-- All bytes of the send `id` have been accepted by `::write`. -/
def Transmitted (t : Traffic Thread) (id : SendId) : Prop :=
  ∃ i, t.executed[i]? = some id ∧ (t.wire.sent.take (i + 1)).flatten <+: t.wire.written

/-- Once `closeWrite` has been executed, every send that had returned before the call
of `shutdown` has been transmitted. -/
def SentBeforeFin (t : Traffic Thread) : Prop :=
  t.wire.conn.writeClosed = true → ∀ id ∈ t.covered, t.Transmitted id

/-- The condition on a step: `shutdown` on the loop thread of an idle connection finds
no functor of a returned send in the queue, and `handleWrite` that empties the
buffer of a closing connection finds none of a send that its shutdown covers. -/
def QueueClear (t : Traffic Thread) : TrafficEvent Thread → Prop
  | .shutdownHere => t.wire.conn.state = .kConnected → t.wire.conn.channel.isWriting = false →
      ∀ id ∈ t.returned, id ∉ queuedIds t.funcs
  | .handleWrite answer => t.wire.conn.state = .kDisconnecting →
      t.wire.conn.drains answer = true → ∀ id ∈ t.covered, id ∉ queuedIds t.funcs
  | _ => True

end Traffic

section Connection

variable (c : TcpConnection)

/-- `shutdown` closes a connected connection that is not writing. -/
theorem TcpConnection.shutdown_writeClosed :
    c.shutdown.writeClosed =
      (c.writeClosed || (c.state = .kConnected && !c.channel.isWriting)) := by
  by_cases hstate : c.state = .kConnected
  · cases hwriting : c.channel.isWriting <;>
      simp [shutdown, shutdownInLoop, hstate, hwriting]
  · simp [shutdown, hstate]

/-- `handleWrite` closes a closing connection when it empties its buffer. -/
theorem TcpConnection.handleWrite_writeClosed (answer : WriteResult) :
    (c.handleWrite answer).conn.writeClosed =
      (c.writeClosed || (c.state = .kDisconnecting && c.drains answer)) := by
  cases hwriting : c.channel.isWriting with
  | false => simp [handleWrite, drains, hwriting]
  | true =>
    by_cases hn : 0 < answer.nwrote
    · by_cases hleft : c.outputBuffer.length ≤ answer.nwrote
      · have hdrop : (c.outputBuffer.drop answer.nwrote).length = 0 := by
          rw [List.length_drop]
          omega
        by_cases hstate : c.state = .kDisconnecting <;>
          simp [handleWrite, drains, shutdownInLoop, hwriting, hn, hleft, hdrop, hstate]
      · have hsub : ¬ c.outputBuffer.length - answer.nwrote = 0 := by omega
        simp [handleWrite, drains, hwriting, hn, hleft, hsub]
    · simp [handleWrite, drains, hwriting, hn]

/-- A `handleWrite` that empties the buffer leaves nothing in it. -/
theorem TcpConnection.handleWrite_outputBuffer {answer : WriteResult}
    (h : c.drains answer = true) : (c.handleWrite answer).conn.outputBuffer = [] := by
  simp only [drains, Bool.and_eq_true, decide_eq_true_eq] at h
  obtain ⟨⟨hwriting, hn⟩, hleft⟩ := h
  have hdrop : c.outputBuffer.drop answer.nwrote = [] := List.drop_eq_nil_of_le hleft
  by_cases hstate : c.state = .kDisconnecting <;>
    simp [handleWrite, hwriting, hn, hdrop, hstate]

end Connection

namespace Traffic

variable {Thread : Type*} {t : Traffic Thread}

@[simp] theorem queuedIds_append (funcs funcs' : List LoopFunc) :
    queuedIds (funcs ++ funcs') = queuedIds funcs ++ queuedIds funcs' := List.filterMap_append

@[simp] theorem queuedIds_sendInLoop (id : SendId) (data : List UInt8) (funcs : List LoopFunc) :
    queuedIds (.sendInLoop id data :: funcs) = id :: queuedIds funcs := rfl

@[simp] theorem queuedIds_shutdown (before : List SendId) (funcs : List LoopFunc) :
    queuedIds (.shutdown before :: funcs) = queuedIds funcs := rfl

@[simp] theorem queuedIds_nil : queuedIds [] = [] := rfl

/-- A transmitted send remains transmitted when more is executed and written. -/
theorem Transmitted.mono {t' : Traffic Thread} {id : SendId} (h : t.Transmitted id)
    (haligned : t.executed.length = t.wire.sent.length) {ids : List SendId}
    {sent : List (List UInt8)} {written : List UInt8} (hexecuted : t'.executed = t.executed ++ ids)
    (hsent : t'.wire.sent = t.wire.sent ++ sent)
    (hwritten : t'.wire.written = t.wire.written ++ written) : t'.Transmitted id := by
  obtain ⟨i, hi, hpre⟩ := h
  have hlt : i < t.executed.length := (List.getElem?_eq_some_iff.mp hi).1
  have hle : i + 1 ≤ t.wire.sent.length := by
    rw [← haligned]
    exact hlt
  refine ⟨i, ?_, ?_⟩
  · rw [hexecuted, List.getElem?_append_left hlt, hi]
  · rw [hsent, List.take_append_of_le_length hle, hwritten]
    exact hpre.trans (List.prefix_append _ _)

/-- A transmitted send remains transmitted when more is written. -/
theorem Transmitted.of_same {t' : Traffic Thread} {id : SendId} (h : t.Transmitted id)
    (hexecuted : t'.executed = t.executed) (hsent : t'.wire.sent = t.wire.sent)
    (hwritten : t.wire.written <+: t'.wire.written) : t'.Transmitted id := by
  obtain ⟨i, hi, hpre⟩ := h
  exact ⟨i, by rw [hexecuted, hi], by rw [hsent]; exact hpre.trans hwritten⟩

/-- With an empty output buffer every executed send has been transmitted. -/
theorem transmitted_of_drained {id : SendId} (h : t.wire.Intact)
    (hempty : t.wire.conn.outputBuffer = []) (hid : id ∈ t.executed) : t.Transmitted id := by
  obtain ⟨i, hi⟩ := List.mem_iff_getElem?.mp hid
  have hwritten : t.wire.written = t.wire.sent.flatten := by
    have hstream := h.stream
    rwa [hempty, List.append_nil] at hstream
  refine ⟨i, hi, ?_⟩
  rw [hwritten]
  refine ⟨(t.wire.sent.drop (i + 1)).flatten, ?_⟩
  rw [← List.flatten_append, List.take_append_drop]

/-- A send that has not been executed has not been transmitted. -/
theorem not_transmitted {id : SendId} (h : id ∉ t.executed) : ¬ t.Transmitted id :=
  fun ⟨_, hi, _⟩ => h (List.mem_of_getElem? hi)

/-- The sends that have been given to the loop. -/
def submitted (t : Traffic Thread) : List SendId := t.executed ++ queuedIds t.funcs

/-- What holds between the steps when no shutdown overtakes a send. -/
structure Ordered (t : Traffic Thread) : Prop where
  intact : t.wire.Intact
  alive : t.wire.conn.state = .kConnected ∨ t.wire.conn.state = .kDisconnecting
  /-- The executed sends and the data passed to `sendInLoop` correspond. -/
  aligned : t.executed.length = t.wire.sent.length
  /-- No send is submitted twice. -/
  nodup : t.submitted.Nodup
  fresh : ∀ id ∈ t.submitted, id < t.nextId
  /-- What returned has been submitted, and what is about to return. -/
  returned : ∀ id ∈ t.returned, id ∈ t.submitted
  queued : ∀ th id, t.calls th = .queued id → id ∈ t.submitted
  /-- A shutdown in progress covers sends that have returned. -/
  shuttingDown : ∀ th before, t.calls th = .shuttingDown before → ∀ id ∈ before, id ∈ t.submitted
  /-- The sends that a queued shutdown covers are executed or ahead of it in the queue. -/
  behind : ∀ pre before post, t.funcs = pre ++ .shutdown before :: post →
    ∀ id ∈ before, id ∈ t.executed ++ queuedIds pre
  /-- The sends covered by the shutdown that took effect have been submitted. -/
  covered : ∀ id ∈ t.covered, id ∈ t.submitted
  /-- A connected connection has not been closed. -/
  connected : t.wire.conn.state = .kConnected → t.wire.conn.writeClosed = false
  sent : t.SentBeforeFin

/-- A connection that has just been established is in order. -/
theorem Ordered.established (fd : ℕ) : (established fd : Traffic Thread).Ordered where
  intact := by
    refine ⟨rfl, ?_⟩
    have hwriting : (Channel.enableReading { fd }).isWriting = false := by
      rw [Channel.isWriting_enableReading]
      exact (by decide : (kNoneEvent &&& kWriteEvent != 0) = false)
    simp [Traffic.established, TcpConnection.connectEstablished, hwriting]
  alive := .inl rfl
  aligned := rfl
  nodup := .nil
  fresh := by simp [Traffic.established, submitted]
  returned := by simp [Traffic.established]
  queued := by simp [Traffic.established]
  shuttingDown := by simp [Traffic.established]
  behind := by simp [Traffic.established]
  covered := by simp [Traffic.established]
  connected := fun _ => rfl
  sent := fun h => by cases h

/-- A step that touches only the calls of other threads. -/
theorem Ordered.setCall [DecidableEq Thread] (h : t.Ordered) (th : Thread) (point : SendPoint)
    (hqueued : ∀ id, point = .queued id → id ∈ t.submitted)
    (hshutting : ∀ before, point = .shuttingDown before → ∀ id ∈ before, id ∈ t.submitted) :
    (t.setCall th point).Ordered :=
  { h with
    queued := by
      intro r id hr
      by_cases hrt : r = th
      · exact hqueued id (by simpa [Traffic.setCall, hrt] using hr)
      · exact h.queued r id (by simpa [Traffic.setCall, hrt] using hr)
    shuttingDown := by
      intro r before hr
      by_cases hrt : r = th
      · exact hshutting before (by simpa [Traffic.setCall, hrt] using hr)
      · exact h.shuttingDown r before (by simpa [Traffic.setCall, hrt] using hr) }

/-- Splitting a queue with a new last functor: a shutdown inside it is an old one, or
the new one itself. -/
theorem append_eq_cases {funcs pre post : List LoopFunc} {f g : LoopFunc}
    (h : funcs ++ [f] = pre ++ g :: post) :
    (pre = funcs ∧ g = f) ∨ ∃ post', funcs = pre ++ g :: post' := by
  rcases List.eq_nil_or_concat post with rfl | ⟨post', e, rfl⟩
  · have hlast := List.append_inj' h rfl
    exact .inl ⟨hlast.1.symm, (List.singleton_inj.mp hlast.2).symm⟩
  · have hlast : funcs ++ [f] = (pre ++ g :: post') ++ [e] := by simpa using h
    exact .inr ⟨post', (List.append_inj' hlast rfl).1⟩

/-- The functor of a send enters the queue. -/
theorem Ordered.queueSend [DecidableEq Thread] (h : t.Ordered) (th : Thread)
    (data : List UInt8) : (t.queueSend th data).Ordered := by
  have hsub : (t.queueSend th data).submitted = t.submitted ++ [t.nextId] := by
    simp [submitted, Traffic.queueSend, Traffic.setCall, queuedIds, LoopFunc.sendId?]
  have hmem : ∀ id ∈ t.submitted, id ∈ (t.queueSend th data).submitted := by
    intro id hid
    rw [hsub]
    exact List.mem_append_left _ hid
  refine
    { intact := h.intact, alive := h.alive, aligned := h.aligned, nodup := ?_, fresh := ?_
      returned := fun id hid => hmem id (h.returned id hid), queued := ?_
      shuttingDown := ?_, behind := ?_
      covered := fun id hid => hmem id (h.covered id hid), connected := h.connected
      sent := h.sent }
  · rw [hsub, List.nodup_append]
    refine ⟨h.nodup, by simp, fun id hid n hn => ?_⟩
    rw [List.mem_singleton] at hn
    rw [hn]
    exact (h.fresh id hid).ne
  · intro id hid
    rw [hsub] at hid
    rcases List.mem_append.mp hid with hid | hid
    · exact Nat.lt_succ_of_lt (h.fresh id hid)
    · rw [List.mem_singleton] at hid
      exact hid ▸ Nat.lt_succ_self _
  · intro r id hr
    by_cases hrt : r = th
    · have hid : t.nextId = id := by
        simpa [Traffic.queueSend, Traffic.setCall, hrt] using hr
      rw [hsub, ← hid]
      simp
    · exact hmem id (h.queued r id (by simpa [Traffic.queueSend, Traffic.setCall, hrt] using hr))
  · intro r before hr id hid
    have hrt : r ≠ th := by
      rintro rfl
      simp [Traffic.queueSend, Traffic.setCall] at hr
    have hold : t.calls r = .shuttingDown before := by
      simpa [Traffic.queueSend, Traffic.setCall, hrt] using hr
    exact hmem id (h.shuttingDown r before hold id hid)
  · intro pre before post hsplit
    rcases append_eq_cases hsplit with ⟨-, hf⟩ | ⟨post', hold⟩
    · cases hf
    · exact h.behind pre before post' hold

/-- The functor of a shutdown enters the queue behind the sends that it covers. -/
theorem Ordered.queueShutdown (h : t.Ordered) {before : List SendId}
    (hbefore : ∀ id ∈ before, id ∈ t.submitted) :
    ({ t with funcs := t.funcs ++ [.shutdown before] } : Traffic Thread).Ordered := by
  have hsub : ({ t with funcs := t.funcs ++ [.shutdown before] } : Traffic Thread).submitted =
      t.submitted := by simp [submitted]
  refine
    { intact := h.intact, alive := h.alive, aligned := h.aligned, nodup := hsub ▸ h.nodup
      fresh := hsub ▸ h.fresh, returned := hsub ▸ h.returned, queued := hsub ▸ h.queued
      shuttingDown := hsub ▸ h.shuttingDown, behind := ?_, covered := hsub ▸ h.covered
      connected := h.connected, sent := h.sent }
  intro pre b post hsplit
  rcases append_eq_cases hsplit with ⟨hpre, hf⟩ | ⟨post', hold⟩
  · obtain rfl := LoopFunc.shutdown.inj hf
    rw [hpre]
    exact hbefore
  · exact h.behind pre b post' hold

/-- The data of the send `id` is passed to `sendInLoop`, and `rest` are the functors
that remain. -/
theorem Ordered.runSend (h : t.Ordered) {rest : List LoopFunc} {id nextId : SendId}
    {data : List UInt8} {answer : WriteResult} {returned : List SendId}
    (hanswer : answer.Healthy data.length)
    (hnodup : (t.executed ++ id :: queuedIds rest).Nodup)
    (hfresh : ∀ x ∈ t.executed ++ id :: queuedIds rest, x < nextId)
    (hkeep : ∀ x ∈ t.submitted, x ∈ t.executed ++ id :: queuedIds rest)
    (hreturned : ∀ x ∈ returned, x ∈ t.executed ++ id :: queuedIds rest)
    (hbehind : ∀ pre before post, rest = pre ++ .shutdown before :: post →
      ∀ x ∈ before, x ∈ t.executed ++ id :: queuedIds pre) :
    ({ t with
      wire := t.wire.record (t.wire.conn.sendInLoop data answer) [data]
      executed := t.executed ++ [id], funcs := rest, returned, nextId } : Traffic Thread).Ordered
    := by
  have hstate : t.wire.conn.state ≠ .kDisconnected := by
    rcases h.alive with halive | halive <;> simp [halive]
  have hsub : (t.executed ++ [id]) ++ queuedIds rest = t.executed ++ id :: queuedIds rest := by
    simp
  refine
    { intact := h.intact.sendInLoop hanswer hstate, alive := ?_, aligned := ?_
      nodup := ?_, fresh := ?_, returned := ?_, queued := ?_, shuttingDown := ?_, behind := ?_
      covered := ?_, connected := ?_, sent := ?_ }
  · simpa [Wire.record] using h.alive
  · simp [Wire.record, h.aligned]
  · rw [submitted, hsub]
    exact hnodup
  · rw [submitted, hsub]
    exact hfresh
  · rw [submitted, hsub]
    exact hreturned
  · intro th x hx
    rw [submitted, hsub]
    exact hkeep x (h.queued th x hx)
  · intro th before hb x hx
    rw [submitted, hsub]
    exact hkeep x (h.shuttingDown th before hb x hx)
  · intro pre before post hsplit x hx
    have hx' := hbehind pre before post hsplit x hx
    simpa using hx'
  · intro x hx
    rw [submitted, hsub]
    exact hkeep x (h.covered x hx)
  · simpa [Wire.record] using h.connected
  · intro hclosed x hx
    have hclosed' : t.wire.conn.writeClosed = true := by simpa [Wire.record] using hclosed
    exact (h.sent hclosed' x hx).mono h.aligned rfl rfl rfl

/-- The functor of a shutdown runs; the sends that it covers have been executed. -/
theorem Ordered.runShutdown (h : t.Ordered) {before : List SendId}
    (hbefore : ∀ id ∈ before, id ∈ t.submitted)
    (hclear : t.wire.conn.state = .kConnected → t.wire.conn.channel.isWriting = false →
      ∀ id ∈ before, id ∈ t.executed) : (t.runShutdown before).Ordered := by
  have hbuffer : t.wire.conn.shutdown.outputBuffer = t.wire.conn.outputBuffer := by
    unfold TcpConnection.shutdown
    split <;> simp
  have hchannel : t.wire.conn.shutdown.channel = t.wire.conn.channel := by
    unfold TcpConnection.shutdown
    split <;> simp
  have hintact : (t.runShutdown before).wire.Intact := h.intact.of_same hbuffer (by rw [hchannel])
  refine
    { intact := hintact, alive := ?_, aligned := ?_, nodup := h.nodup, fresh := h.fresh
      returned := h.returned, queued := h.queued, shuttingDown := h.shuttingDown
      behind := h.behind, covered := ?_, connected := ?_, sent := ?_ }
  · right
    have hstate := t.wire.conn.shutdown_state
    rcases h.alive with halive | halive <;>
      simpa [Traffic.runShutdown, Wire.record, halive] using hstate
  · simpa [Traffic.runShutdown, Wire.record] using h.aligned
  · intro id hid
    simp only [Traffic.runShutdown] at hid
    split at hid
    · exact hbefore id hid
    · exact h.covered id hid
  · intro hconnected
    have hstate := t.wire.conn.shutdown_state
    have hconnected' : t.wire.conn.shutdown.state = .kConnected := hconnected
    rw [hconnected'] at hstate
    split at hstate
    · cases hstate
    · next hne => exact absurd hstate.symm hne
  · intro hclosed id hid
    have hclosed' : t.wire.conn.shutdown.writeClosed = true := hclosed
    rw [TcpConnection.shutdown_writeClosed, Bool.or_eq_true] at hclosed'
    by_cases hstate : t.wire.conn.state = .kConnected
    · -- the connection was open, so this shutdown has closed it with an empty buffer
      have hopen := h.connected hstate
      simp only [hopen, Bool.false_eq_true, hstate, decide_true, Bool.true_and,
        Bool.not_eq_true', false_or] at hclosed'
      have hid' : id ∈ before := by simpa [Traffic.runShutdown, hstate] using hid
      refine transmitted_of_drained hintact ?_ (hclear hstate hclosed' id hid')
      have hempty : t.wire.conn.outputBuffer = [] := by
        have hinterest := mt h.intact.interest.mpr (by simp [hclosed'])
        exact List.length_eq_zero_iff.mp (Nat.eq_zero_of_not_pos hinterest)
      exact hbuffer.trans hempty
    · have hold : t.wire.conn.writeClosed = true := by simpa [hstate] using hclosed'
      have hid' : id ∈ t.covered := by simpa [Traffic.runShutdown, hstate] using hid
      exact (h.sent hold id hid').of_same rfl (List.append_nil _) (List.prefix_append _ _)

/-- `handleWrite` closes the connection only when the covered sends have been executed. -/
theorem Ordered.handleWrite (h : t.Ordered) {answer : WriteResult}
    (hanswer : answer.Healthy t.wire.conn.outputBuffer.length)
    (hclear : t.wire.conn.state = .kDisconnecting → t.wire.conn.drains answer = true →
      ∀ id ∈ t.covered, id ∈ t.executed) :
    ({ t with wire := t.wire.record (t.wire.conn.handleWrite answer) [] } :
      Traffic Thread).Ordered := by
  have hintact := h.intact.handleWrite hanswer
  refine
    { intact := hintact, alive := ?_, aligned := ?_, nodup := h.nodup, fresh := h.fresh
      returned := h.returned, queued := h.queued, shuttingDown := h.shuttingDown
      behind := h.behind, covered := h.covered, connected := ?_, sent := ?_ }
  · simpa [Wire.record] using h.alive
  · simpa [Wire.record] using h.aligned
  · intro hstate
    have hstate' : t.wire.conn.state = .kConnected := by simpa [Wire.record] using hstate
    simp [Wire.record, TcpConnection.handleWrite_writeClosed, h.connected hstate', hstate']
  · intro hclosed id hid
    have hclosed' : (t.wire.conn.handleWrite answer).conn.writeClosed = true := hclosed
    rw [TcpConnection.handleWrite_writeClosed, Bool.or_eq_true] at hclosed'
    rcases hclosed' with hold | hnew
    · exact (h.sent hold id hid).of_same rfl (List.append_nil _) (List.prefix_append _ _)
    · simp only [Bool.and_eq_true, decide_eq_true_eq] at hnew
      exact transmitted_of_drained hintact
        (TcpConnection.handleWrite_outputBuffer _ hnew.2) (hclear hnew.1 hnew.2 id hid)

/-- A submitted send that is not in the queue has been executed. -/
theorem executed_of_not_queued {id : SendId} (h : id ∈ t.submitted)
    (hqueue : id ∉ queuedIds t.funcs) : id ∈ t.executed :=
  (List.mem_append.mp h).resolve_right hqueue

/-- A queued send has not been executed. -/
theorem Ordered.not_executed (h : t.Ordered) {id : SendId} (hid : id ∈ queuedIds t.funcs) :
    id ∉ t.executed := by
  have hdisjoint := (List.nodup_append.mp h.nodup).2.2
  exact fun hexecuted => hdisjoint id hexecuted id hid rfl

/-- The oldest functor runs. -/
theorem Ordered.runFunc (h : t.Ordered) {t' : Traffic Thread} {f : LoopFunc}
    {rest : List LoopFunc} {answer : WriteResult} (hfuncs : t.funcs = f :: rest)
    (hnext : ({ t with funcs := rest } : Traffic Thread).runLoopFunc answer f = some t') :
    t'.Ordered := by
  have hbehind : ∀ pre before post, rest = pre ++ .shutdown before :: post →
      ∀ x ∈ before, x ∈ t.executed ++ queuedIds (f :: pre) := by
    intro pre before post hsplit
    exact h.behind (f :: pre) before post (by rw [hfuncs, hsplit, List.cons_append])
  cases f with
  | sendInLoop id data =>
    rw [runLoopFunc, Option.ite_none_right_eq_some, Option.some.injEq] at hnext
    obtain ⟨hanswer, rfl⟩ := hnext
    have hsub : t.submitted = t.executed ++ id :: queuedIds rest := by
      rw [submitted, hfuncs, queuedIds_sendInLoop]
    exact h.runSend hanswer (hsub ▸ h.nodup) (hsub ▸ h.fresh) (fun x hx => hsub ▸ hx)
      (hsub ▸ h.returned) hbehind
  | shutdown before =>
    obtain rfl := Option.some.inj hnext
    have hfirst : ∀ id ∈ before, id ∈ t.executed := by
      have hempty := h.behind [] before rest (by rw [hfuncs, List.nil_append])
      simpa using hempty
    have hsub : ({ t with funcs := rest } : Traffic Thread).submitted = t.submitted := by
      rw [submitted, submitted, hfuncs, queuedIds_shutdown]
    have hpopped : ({ t with funcs := rest } : Traffic Thread).Ordered :=
      { h with
        nodup := hsub ▸ h.nodup
        fresh := hsub ▸ h.fresh
        returned := hsub ▸ h.returned
        queued := hsub ▸ h.queued
        shuttingDown := hsub ▸ h.shuttingDown
        behind := hbehind
        covered := hsub ▸ h.covered }
    exact hpopped.runShutdown (fun id hid => List.mem_append_left _ (hfirst id hid))
      fun _ _ => hfirst

variable [DecidableEq Thread]

/-- Every step that meets the condition keeps the order. -/
theorem Ordered.next (h : t.Ordered) {t' : Traffic Thread} {e : TrafficEvent Thread}
    (hclear : t.QueueClear e) (hnext : t.next e = some t') : t'.Ordered := by
  cases e with
  | send th data =>
    simp only [Traffic.next] at hnext
    split at hnext
    · obtain rfl := Option.some.inj hnext
      split
      · exact h.setCall th _ (fun _ hq => by cases hq) (fun _ hq => by cases hq)
      · exact h
    · cases hnext
  | queueSend th =>
    simp only [Traffic.next] at hnext
    split at hnext
    · exact Option.some.inj hnext ▸ h.queueSend th _
    · cases hnext
  | sendReturns th =>
    simp only [Traffic.next] at hnext
    split at hnext
    · next id hcall =>
      obtain rfl := Option.some.inj hnext
      have hidle : (t.setCall th .idle).Ordered :=
        h.setCall th .idle (fun _ hq => by cases hq) (fun _ hq => by cases hq)
      refine { hidle with returned := fun x hx => ?_ }
      rcases List.mem_append.mp hx with hx | hx
      · exact h.returned x hx
      · rw [List.mem_singleton] at hx
        exact hx ▸ h.queued th id hcall
    · cases hnext
  | shutdown th =>
    simp only [Traffic.next] at hnext
    split at hnext
    · obtain rfl := Option.some.inj hnext
      refine h.setCall th _ (fun _ hq => by cases hq) fun before hq => ?_
      obtain rfl := SendPoint.shuttingDown.inj hq
      exact h.returned
    · cases hnext
  | queueShutdown th =>
    simp only [Traffic.next] at hnext
    split at hnext
    · next before hcall =>
      obtain rfl := Option.some.inj hnext
      have hidle : (t.setCall th .idle).Ordered :=
        h.setCall th .idle (fun _ hq => by cases hq) (fun _ hq => by cases hq)
      exact hidle.queueShutdown (h.shuttingDown th before hcall)
    · cases hnext
  | runFunc answer =>
    simp only [Traffic.next] at hnext
    split at hnext
    · next f rest hfuncs => exact h.runFunc hfuncs hnext
    · cases hnext
  | handleWrite answer =>
    rw [Traffic.next, Option.ite_none_right_eq_some, Option.some.injEq] at hnext
    obtain ⟨hanswer, rfl⟩ := hnext
    exact h.handleWrite hanswer fun hstate hdrains id hid =>
      executed_of_not_queued (h.covered id hid) (hclear hstate hdrains id hid)
  | sendHere data answer =>
    rw [Traffic.next, Option.ite_none_right_eq_some] at hnext
    obtain ⟨hanswer, hnext⟩ := hnext
    split at hnext
    · obtain rfl := Option.some.inj hnext
      have hmem : ∀ x ∈ t.submitted, x ∈ t.executed ++ t.nextId :: queuedIds t.funcs := by
        intro x hx
        rcases List.mem_append.mp hx with hx | hx
        · exact List.mem_append_left _ hx
        · exact List.mem_append_right _ (List.mem_cons_of_mem _ hx)
      have hnew : t.nextId ∉ t.submitted := fun hmem => lt_irrefl _ (h.fresh _ hmem)
      refine h.runSend hanswer ?_ ?_ hmem ?_ ?_
      · exact List.nodup_middle.mpr (List.nodup_cons.mpr ⟨hnew, h.nodup⟩)
      · intro x hx
        rcases List.mem_append.mp hx with hx | hx
        · exact Nat.lt_succ_of_lt (h.fresh x (List.mem_append_left _ hx))
        · rcases List.mem_cons.mp hx with rfl | hx
          · exact Nat.lt_succ_self _
          · exact Nat.lt_succ_of_lt (h.fresh x (List.mem_append_right _ hx))
      · intro x hx
        rcases List.mem_append.mp hx with hx | hx
        · exact hmem x (h.returned x hx)
        · rw [List.mem_singleton] at hx
          simp [hx]
      · intro pre before post hsplit x hx
        rcases List.mem_append.mp (h.behind pre before post hsplit x hx) with hx | hx
        · exact List.mem_append_left _ hx
        · exact List.mem_append_right _ (List.mem_cons_of_mem _ hx)
    · exact Option.some.inj hnext ▸ h
  | shutdownHere =>
    obtain rfl := Option.some.inj hnext
    exact h.runShutdown h.returned fun hstate hidle id hid =>
      executed_of_not_queued (h.returned id hid) (hclear hstate hidle id hid)

/-- A step that violates the condition closes the connection before a covered send. -/
theorem Ordered.not_sentBeforeFin (h : t.Ordered) {t' : Traffic Thread}
    {e : TrafficEvent Thread} (hbad : ¬ t.QueueClear e) (hnext : t.next e = some t') :
    ¬ t'.SentBeforeFin := by
  cases e with
  | shutdownHere =>
    simp only [QueueClear, not_forall, not_not] at hbad
    obtain ⟨hstate, hidle, id, hid, hqueue⟩ := hbad
    obtain rfl := Option.some.inj hnext
    intro hsent
    have hclosed : (t.runShutdown t.returned).wire.conn.writeClosed = true := by
      simp [Traffic.runShutdown, Wire.record, TcpConnection.shutdown_writeClosed, hstate, hidle]
    have hcovered : id ∈ (t.runShutdown t.returned).covered := by
      simpa [Traffic.runShutdown, hstate] using hid
    exact absurd (hsent hclosed id hcovered) (not_transmitted (h.not_executed hqueue))
  | handleWrite answer =>
    simp only [QueueClear, not_forall, not_not] at hbad
    obtain ⟨hstate, hdrains, id, hid, hqueue⟩ := hbad
    rw [Traffic.next, Option.ite_none_right_eq_some, Option.some.injEq] at hnext
    obtain ⟨-, rfl⟩ := hnext
    intro hsent
    have hclosed : (t.wire.conn.handleWrite answer).conn.writeClosed = true := by
      simp [TcpConnection.handleWrite_writeClosed, hstate, hdrains]
    exact absurd (hsent hclosed id hid) (not_transmitted (h.not_executed hqueue))
  | _ => exact absurd trivial hbad

/-- In every run from an established connection, `closeWrite` never overtakes a send
that returned before the shutdown exactly when every step meets the condition. -/
theorem sentBeforeFin_iff_queueClear {fd : ℕ} {trace : List (Traffic Thread × TrafficEvent Thread)}
    {last : Traffic Thread} (h : (machine Thread).Run (established fd) trace last) :
    (∀ t ∈ Machine.visited trace last, t.SentBeforeFin) ↔ ∀ p ∈ trace, p.1.QueueClear p.2 :=
  h.forall_visited_iff (I := Ordered) (fun _ ht => ht.sent)
    (fun _ _ _ ht hc hstep => ht.next hc hstep)
    (fun _ _ _ ht hc hstep => ht.not_sentBeforeFin hc hstep) (.established fd)

instance (t : Traffic Thread) (e : TrafficEvent Thread) : Decidable (t.QueueClear e) :=
  match e with
  | .shutdownHere => inferInstanceAs (Decidable (_ → _ → _))
  | .handleWrite _ => inferInstanceAs (Decidable (_ → _ → _))
  | .send _ _ | .queueSend _ | .sendReturns _ | .shutdown _ | .queueShutdown _ | .runFunc _
  | .sendHere _ _ => inferInstanceAs (Decidable True)

/-- Another thread sends and shuts down; both functors run in order. -/
def sendThenShutdown : List (TrafficEvent ℕ) :=
  [.send 1 [10, 20], .queueSend 1, .sendReturns 1, .shutdown 1, .queueShutdown 1,
    .runFunc (.count 1), .runFunc (.count 0), .handleWrite (.count 1)]

/-- In `sendThenShutdown` the second byte is still buffered when the shutdown runs, and
`closeWrite` waits for it. -/
theorem sentBeforeFin_iff_queueClear_sendThenShutdown :
    ∃ last, sendThenShutdown.foldlM next (established 7) = some last ∧
      last.wire.conn.writeClosed = true ∧
      ∀ t ∈ Machine.visited (Machine.traceOf next (established 7) sendThenShutdown) last,
        t.SentBeforeFin := by
  obtain ⟨last, hlast⟩ : ∃ last, sendThenShutdown.foldlM next (established 7) = some last :=
    ⟨_, rfl⟩
  have hclosed : (sendThenShutdown.foldlM next (established 7)).map
      (fun t => t.wire.conn.writeClosed) = some true := by decide +kernel
  refine ⟨last, hlast, by simpa [hlast] using hclosed, ?_⟩
  exact (sentBeforeFin_iff_queueClear (.of_foldlM hlast)).2 (by decide +kernel)

/-- Another thread sends, and then the loop thread shuts down. -/
def sendThenShutdownHere : List (TrafficEvent ℕ) :=
  [.send 1 [10], .queueSend 1, .sendReturns 1, .shutdownHere]

/-- In `sendThenShutdownHere` the connection is closed for writing while the byte of a
send that has returned is still in the functor queue. -/
theorem sendThenShutdownHere_overtakes :
    ∃ t, (machine ℕ).Reachable t ∧ t.returned = [0] ∧ t.covered = [0] ∧
      t.wire.conn.writeClosed = true ∧ t.wire.written = [] ∧ ¬ t.SentBeforeFin := by
  obtain ⟨t, ht⟩ : ∃ t, sendThenShutdownHere.foldlM next (established 7) = some t := ⟨_, rfl⟩
  have hfields : (sendThenShutdownHere.foldlM next (established 7)).map (fun t =>
      (t.returned, t.covered, t.wire.conn.writeClosed, t.wire.written, t.executed)) =
      some ([0], [0], true, [], []) := by decide +kernel
  simp only [ht, Option.map_some, Option.some.injEq, Prod.mk.injEq] at hfields
  obtain ⟨hreturned, hcovered, hclosed, hwritten, hexecuted⟩ := hfields
  refine ⟨t, .of_foldlM (.of_init ⟨7, rfl⟩) ht, hreturned, hcovered, hclosed, hwritten,
    fun hsent => ?_⟩
  exact not_transmitted (by simp [hexecuted]) (hsent hclosed 0 (by simp [hcovered]))

end Traffic

end DuoDuo.Net
