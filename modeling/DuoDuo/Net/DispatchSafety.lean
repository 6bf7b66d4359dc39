import DuoDuo.Net.EventLoop

/-!
# Which closes an event batch tolerates

A connection is removed synchronously from inside whatever handler closes it.
The batch stays consistent as long as a handler closes only the connection
whose channel is being dispatched, or one that is not in the batch. Closing
another channel of the batch fails the assertion of `removeChannel`, and the
removed channel is dispatched afterwards.
-/

namespace DuoDuo.Net.EventLoop

open Library

/-- The property of a batch: the assertion of `removeChannel` has not failed, and
no removed channel has been dispatched. -/
def DispatchSafe (l : EventLoop) : Prop := l.assertionFailed = false ∧ l.dispatchedRemoved = false

/-- Removing `c` now is allowed: outside a batch, or for the current channel, or
for a channel that is not in the batch. -/
def Removable (l : EventLoop) (c : ChannelId) : Prop :=
  l.eventHandling = true → l.currentActiveChannel = some c ∨ c ∉ l.activeChannels

/-- The condition on a step: an effective `forceClose` does not name another
channel of the batch being dispatched. -/
def ClosesOwn (l : EventLoop) : LoopEvent → Prop
  | .forceClose c => l.isOpen c = true → l.Removable c
  | _ => True

/-- What holds between the steps of a loop whose handlers close only removable channels. -/
structure Consistent (l : EventLoop) : Prop where
  safe : l.DispatchSafe
  /-- The channels still to be visited are distinct. -/
  nodup : (l.unvisited.map Prod.fst).Nodup
  /-- They belong to the batch. -/
  inBatch : ∀ p ∈ l.unvisited, p.1 ∈ l.activeChannels
  /-- The current channel is behind the iterator. -/
  current : ∀ c, l.currentActiveChannel = some c → c ∉ l.unvisited.map Prod.fst
  /-- Removed channels are behind the iterator. -/
  removed : ∀ c ∈ l.removed, c ∉ l.unvisited.map Prod.fst
  /-- Connections being closed may be removed. -/
  closing : ∀ c ∈ l.closing, l.Removable c
  /-- Outside a batch nothing is left to visit and no channel is current. -/
  finished : l.eventHandling = false → l.unvisited = [] ∧ l.currentActiveChannel = none

/-- `Consistent` does not depend on the connections, the server's set or the
outstanding callbacks. -/
theorem Consistent.congr {l l' : EventLoop} (h : l.Consistent)
    (hactive : l'.activeChannels = l.activeChannels) (hunvisited : l'.unvisited = l.unvisited)
    (hcurrent : l'.currentActiveChannel = l.currentActiveChannel)
    (hhandling : l'.eventHandling = l.eventHandling) (hclosing : l'.closing = l.closing)
    (hremoved : l'.removed = l.removed) (hassert : l'.assertionFailed = l.assertionFailed)
    (hdispatch : l'.dispatchedRemoved = l.dispatchedRemoved) : l'.Consistent where
  safe := by simpa only [DispatchSafe, hassert, hdispatch] using h.safe
  nodup := by simpa only [hunvisited] using h.nodup
  inBatch := by simpa only [hunvisited, hactive] using h.inBatch
  current := by simpa only [hunvisited, hcurrent] using h.current
  removed := by simpa only [hunvisited, hremoved] using h.removed
  closing := by simpa only [Removable, hclosing, hactive, hcurrent, hhandling] using h.closing
  finished := by simpa only [hunvisited, hhandling, hcurrent] using h.finished

/-- Changing a connection changes nothing else. -/
theorem Consistent.modify {l : EventLoop} (h : l.Consistent) (c : ChannelId)
    (f : TcpConnection → TcpConnection) : (l.modify c f).Consistent :=
  h.congr rfl rfl rfl rfl rfl rfl rfl rfl

/-- Entering `handleClose` for a removable channel is consistent. -/
theorem Consistent.handleClose {l : EventLoop} (h : l.Consistent) {c : ChannelId}
    (hc : l.Removable c) : (l.handleClose c).Consistent where
  safe := h.safe
  nodup := h.nodup
  inBatch := h.inBatch
  current := h.current
  removed := h.removed
  closing := by
    intro d hd
    rcases List.mem_cons.mp hd with rfl | hd
    · exact hc
    · exact h.closing d hd
  finished := h.finished

/-- A removable channel is not among those still to be visited. -/
theorem Consistent.not_unvisited {l : EventLoop} (h : l.Consistent) {c : ChannelId}
    (hc : l.Removable c) : c ∉ l.unvisited.map Prod.fst := by
  cases hhandling : l.eventHandling with
  | false => simp [(h.finished hhandling).1]
  | true =>
    rcases hc hhandling with hcurrent | hactive
    · exact h.current c hcurrent
    · intro hmem
      obtain ⟨p, hp, rfl⟩ := List.mem_map.mp hmem
      exact hactive (h.inBatch p hp)

/-- Removing a removable channel passes the assertion of `removeChannel`. -/
theorem Consistent.removeChannel {l : EventLoop} (h : l.Consistent) {c : ChannelId}
    (hc : l.Removable c) : (l.removeChannel c).Consistent where
  safe := by
    refine ⟨?_, h.safe.2⟩
    cases hhandling : l.eventHandling with
    | false => simp [EventLoop.removeChannel, h.safe.1, hhandling]
    | true =>
      rcases hc hhandling with hcurrent | hactive
      · simp [EventLoop.removeChannel, h.safe.1, hcurrent]
      · simp [EventLoop.removeChannel, h.safe.1, hactive]
  nodup := h.nodup
  inBatch := h.inBatch
  current := h.current
  removed := by
    intro d hd
    rcases List.mem_cons.mp hd with rfl | hd
    · exact h.not_unvisited hc
    · exact h.removed d hd
  closing := h.closing
  finished := h.finished

/-- The chain from `closeCallback_` to `Channel::remove` keeps the batch consistent. -/
theorem Consistent.connectionClosed {l : EventLoop} (h : l.Consistent) {c : ChannelId}
    (hc : l.Removable c) : (l.connectionClosed c).Consistent := by
  have herased : ({ l with connSet := l.connSet.erase c } : EventLoop).Consistent :=
    h.congr rfl rfl rfl rfl rfl rfl rfl rfl
  exact (herased.modify c _).removeChannel hc

/-- A callback of the current channel closes at most that channel. -/
theorem Consistent.runCallback {l : EventLoop} (h : l.Consistent) {c : ChannelId}
    (hc : l.currentActiveChannel = some c) (readable : ℤ) (answer : WriteResult)
    (cb : EventCallback) : (l.runCallback c readable answer cb).Consistent := by
  have hremovable : l.Removable c := fun _ => .inl hc
  cases cb with
  | closeCallback =>
    simp only [EventLoop.runCallback]
    split
    · exact h.handleClose hremovable
    · exact h
  | errorCallback => exact h
  | readCallback =>
    simp only [EventLoop.runCallback]
    split
    · exact h.handleClose hremovable
    · exact h
  | writeCallback => exact h.modify c _

/-- `forceClose` is consistent when it meets the condition. -/
theorem Consistent.forceClose {l : EventLoop} (h : l.Consistent) {c : ChannelId}
    (hc : l.isOpen c = true → l.Removable c) : (l.forceClose c).Consistent := by
  unfold EventLoop.forceClose
  split
  · next hopen => exact (h.modify c _).handleClose (hc hopen)
  · exact h

/-- The poller's batch starts the iteration. -/
theorem Consistent.poll {l l' : EventLoop} (h : l.Consistent) {batch : List (ChannelId × ℕ)}
    (hnext : l.next (.poll batch) = some l') : l'.Consistent := by
  rw [EventLoop.next, Option.ite_none_right_eq_some, Option.some.injEq] at hnext
  obtain ⟨hguard, rfl⟩ := hnext
  simp only [Bool.and_eq_true, Bool.not_eq_true', idle, List.isEmpty_iff,
    decide_eq_true_eq] at hguard
  obtain ⟨⟨hhandling, -, hclosing⟩, hnodup⟩ := hguard
  exact {
    safe := h.safe
    nodup := hnodup
    inBatch := fun p hp => List.mem_map_of_mem hp
    current := by simp [(h.finished hhandling).2]
    removed := by simp
    closing := by simp [hclosing]
    finished := by simp }

/-- The iterator moves on to a channel that has not been removed. -/
theorem Consistent.handleEvent {l l' : EventLoop} (h : l.Consistent)
    (hnext : l.next .handleEvent = some l') : l'.Consistent := by
  cases hunvisited : l.unvisited with
  | nil => simp [EventLoop.next, hunvisited] at hnext
  | cons p rest =>
    simp only [EventLoop.next, hunvisited, Option.ite_none_right_eq_some, Option.some.injEq,
      idle, Bool.and_eq_true, List.isEmpty_iff] at hnext
    obtain ⟨⟨-, hclosing⟩, rfl⟩ := hnext
    have hnodup := h.nodup
    have hremoved := h.removed
    have hfinished := h.finished
    simp only [hunvisited, List.map_cons, List.nodup_cons, List.mem_cons, not_or] at hnodup hremoved
    have hfresh : p.1 ∉ l.removed := fun hmem => (hremoved p.1 hmem).1 rfl
    exact {
      safe := ⟨h.safe.1, by simp [h.safe.2, hfresh]⟩
      nodup := hnodup.2
      inBatch := fun q hq => h.inBatch q (by simp [hunvisited, hq])
      current := by
        rintro c hc
        obtain rfl : p.1 = c := by simpa using hc
        exact hnodup.1
      removed := fun c hc => (hremoved c hc).2
      closing := by simp [hclosing]
      finished := by
        intro hhandling
        simp [hunvisited] at hfinished
        simp [hfinished] at hhandling }

/-- The end of a batch leaves nothing to visit. -/
theorem Consistent.endBatch {l l' : EventLoop} (h : l.Consistent)
    (hnext : l.next .endBatch = some l') : l'.Consistent := by
  rw [EventLoop.next, Option.ite_none_right_eq_some, Option.some.injEq] at hnext
  obtain ⟨hguard, rfl⟩ := hnext
  simp only [Bool.and_eq_true, idle, List.isEmpty_iff] at hguard
  obtain ⟨⟨-, -, hclosing⟩, hunvisited⟩ := hguard
  exact {
    safe := h.safe
    nodup := h.nodup
    inBatch := h.inBatch
    current := by simp
    removed := h.removed
    closing := by simp [hclosing]
    finished := by simp [hunvisited] }

/-- Dropping the outstanding callbacks, or the innermost closing connection, keeps
the batch consistent. -/
theorem Consistent.popClosing {l : EventLoop} (h : l.Consistent) {c : ChannelId}
    {rest : List ChannelId} (hclosing : l.closing = c :: rest) :
    ({ l with closing := rest } : EventLoop).Consistent :=
  { h with closing := fun d hd => h.closing d (by simp [hclosing, hd]) }

/-- A step that meets the condition keeps the batch consistent. -/
theorem Consistent.step {l l' : EventLoop} (h : l.Consistent) {e : LoopEvent}
    (hcond : l.ClosesOwn e) (hnext : l.next e = some l') : l'.Consistent := by
  cases e with
  | poll batch => exact h.poll hnext
  | handleEvent => exact h.handleEvent hnext
  | callback readable answer =>
    simp only [EventLoop.next] at hnext
    split at hnext
    · next c cb rest hcurrent htodo =>
      rw [Option.ite_none_right_eq_some, Option.some.injEq] at hnext
      obtain ⟨-, rfl⟩ := hnext
      have hpopped : ({ l with todo := rest } : EventLoop).Consistent :=
        h.congr rfl rfl rfl rfl rfl rfl rfl rfl
      exact hpopped.runCallback hcurrent readable answer cb
    · cases hnext
  | closeCallback =>
    simp only [EventLoop.next] at hnext
    split at hnext
    · next c rest hclosing =>
      obtain rfl := Option.some.inj hnext
      have hremovable : l.Removable c := h.closing c (by simp [hclosing])
      exact (h.popClosing hclosing).connectionClosed hremovable
    · cases hnext
  | endBatch => exact h.endBatch hnext
  | newConnection c fd =>
    rw [EventLoop.next, Option.ite_none_right_eq_some, Option.some.injEq] at hnext
    obtain ⟨-, rfl⟩ := hnext
    exact h.congr rfl rfl rfl rfl rfl rfl rfl rfl
  | send c data answer =>
    rw [EventLoop.next, Option.ite_none_right_eq_some, Option.some.injEq] at hnext
    obtain ⟨-, rfl⟩ := hnext
    exact h.modify c _
  | shutdown c =>
    rw [EventLoop.next, Option.ite_none_right_eq_some, Option.some.injEq] at hnext
    obtain ⟨-, rfl⟩ := hnext
    exact h.modify c _
  | forceClose c =>
    rw [EventLoop.next, Option.ite_none_right_eq_some, Option.some.injEq] at hnext
    obtain ⟨-, rfl⟩ := hnext
    exact h.forceClose hcond

/-- A loop that has just been constructed is consistent. -/
theorem Consistent.init : ({} : EventLoop).Consistent where
  safe := ⟨rfl, rfl⟩
  nodup := .nil
  inBatch := by simp
  current := by simp
  removed := by simp
  closing := by simp
  finished := by simp

/-- A connection inside `handleClose` may not be removed, or the assertion has failed. -/
def Doomed (l : EventLoop) : Prop :=
  l.assertionFailed = true ∨ ∃ c ∈ l.closing, ¬ l.Removable c

/-- `Doomed` survives whatever keeps the batch and closes more connections. -/
theorem Doomed.mono {l l' : EventLoop} (h : l.Doomed)
    (hassert : l'.assertionFailed = l.assertionFailed) (hclosing : l.closing ⊆ l'.closing)
    (hactive : l'.activeChannels = l.activeChannels)
    (hcurrent : l'.currentActiveChannel = l.currentActiveChannel)
    (hhandling : l'.eventHandling = l.eventHandling) : l'.Doomed := by
  rcases h with h | ⟨c, hc, hnot⟩
  · exact .inl (hassert.trans h)
  · exact .inr ⟨c, hclosing hc, by simpa only [Removable, hactive, hcurrent, hhandling] using hnot⟩

/-- Entering `handleClose` for a channel that may not be removed dooms the batch. -/
theorem Doomed.of_forceClose {l : EventLoop} {c : ChannelId}
    (hbad : ¬ l.ClosesOwn (.forceClose c)) : (l.forceClose c).Doomed := by
  simp only [ClosesOwn, Classical.not_imp] at hbad
  rw [EventLoop.forceClose, if_pos hbad.1]
  exact .inr ⟨c, by simp [EventLoop.handleClose], hbad.2⟩

/-- Removing a channel that may not be removed fails the assertion. -/
theorem assertionFailed_of_not_removable {l : EventLoop} {c : ChannelId}
    (hbad : ¬ l.Removable c) : (l.removeChannel c).assertionFailed = true := by
  simp only [Removable, Classical.not_imp, not_or, not_not] at hbad
  simp [EventLoop.removeChannel, hbad.1, hbad.2.1, hbad.2.2]

/-- The assertion stays failed, and a doomed connection remains inside `handleClose`
until its removal fails the assertion. -/
theorem Doomed.step {l l' : EventLoop} (h : l.Doomed) {e : LoopEvent}
    (hnext : l.next e = some l') : l'.Doomed := by
  cases e with
  | poll batch =>
    rw [EventLoop.next, Option.ite_none_right_eq_some, Option.some.injEq] at hnext
    obtain ⟨hguard, rfl⟩ := hnext
    simp only [Bool.and_eq_true, idle, List.isEmpty_iff] at hguard
    exact h.elim .inl fun ⟨c, hc, _⟩ => by simp [hguard.1.2.2] at hc
  | handleEvent =>
    cases hunvisited : l.unvisited with
    | nil => simp [EventLoop.next, hunvisited] at hnext
    | cons p rest =>
      simp only [EventLoop.next, hunvisited, Option.ite_none_right_eq_some, Option.some.injEq,
        idle, Bool.and_eq_true, List.isEmpty_iff] at hnext
      obtain ⟨⟨-, hclosing⟩, rfl⟩ := hnext
      exact h.elim .inl fun ⟨c, hc, _⟩ => by simp [hclosing] at hc
  | callback readable answer =>
    simp only [EventLoop.next] at hnext
    split at hnext
    · next c cb rest hcurrent htodo =>
      rw [Option.ite_none_right_eq_some, Option.some.injEq] at hnext
      obtain ⟨-, rfl⟩ := hnext
      cases cb with
      | errorCallback | writeCallback => exact h.mono rfl (List.Subset.refl _) rfl rfl rfl
      | closeCallback | readCallback =>
        simp only [EventLoop.runCallback]
        split
        · exact h.mono rfl (List.subset_cons_self _ _) rfl rfl rfl
        · exact h.mono rfl (List.Subset.refl _) rfl rfl rfl
    · cases hnext
  | closeCallback =>
    simp only [EventLoop.next] at hnext
    split at hnext
    · next c rest hclosing =>
      obtain rfl := Option.some.inj hnext
      by_cases hc : l.Removable c
      · rcases h with h | ⟨d, hd, hnot⟩
        · left
          simp [EventLoop.connectionClosed, EventLoop.connectDestroyed,
            EventLoop.removeChannel, EventLoop.modify, h]
        · rw [hclosing, List.mem_cons] at hd
          rcases hd with rfl | hd
          · exact absurd hc hnot
          · exact .inr ⟨d, hd, hnot⟩
      · exact .inl (assertionFailed_of_not_removable hc)
    · cases hnext
  | endBatch =>
    rw [EventLoop.next, Option.ite_none_right_eq_some, Option.some.injEq] at hnext
    obtain ⟨hguard, rfl⟩ := hnext
    simp only [Bool.and_eq_true, idle, List.isEmpty_iff] at hguard
    exact h.elim .inl fun ⟨c, hc, _⟩ => by simp [hguard.1.2.2] at hc
  | newConnection c fd =>
    rw [EventLoop.next, Option.ite_none_right_eq_some, Option.some.injEq] at hnext
    obtain ⟨-, rfl⟩ := hnext
    exact h.mono rfl (List.Subset.refl _) rfl rfl rfl
  | send c data answer =>
    rw [EventLoop.next, Option.ite_none_right_eq_some, Option.some.injEq] at hnext
    obtain ⟨-, rfl⟩ := hnext
    exact h.mono rfl (List.Subset.refl _) rfl rfl rfl
  | shutdown c =>
    rw [EventLoop.next, Option.ite_none_right_eq_some, Option.some.injEq] at hnext
    obtain ⟨-, rfl⟩ := hnext
    exact h.mono rfl (List.Subset.refl _) rfl rfl rfl
  | forceClose c =>
    rw [EventLoop.next, Option.ite_none_right_eq_some, Option.some.injEq] at hnext
    obtain ⟨-, rfl⟩ := hnext
    unfold EventLoop.forceClose
    split
    · exact h.mono rfl (List.subset_cons_self _ _) rfl rfl rfl
    · exact h

/-- A step that violates the condition dooms the batch. -/
theorem Doomed.of_violation {l l' : EventLoop} {e : LoopEvent} (hbad : ¬ l.ClosesOwn e)
    (hnext : l.next e = some l') : l'.Doomed := by
  cases e with
  | forceClose c =>
    rw [EventLoop.next, Option.ite_none_right_eq_some, Option.some.injEq] at hnext
    obtain ⟨-, rfl⟩ := hnext
    exact Doomed.of_forceClose hbad
  | _ => exact absurd trivial hbad

/-- Handlers that close only their own connection, or one outside the batch, keep
every state of an execution safe. Conversely, an execution that leaves no
connection inside `handleClose` is safe throughout only if all its handlers did so. -/
theorem dispatch_safe_iff_closesOwn {trace : List (EventLoop × LoopEvent)} {last : EventLoop}
    (h : machine.Run {} trace last) :
    ((∀ p ∈ trace, p.1.ClosesOwn p.2) →
      ∀ l ∈ Machine.visited trace last, l.DispatchSafe) ∧
    (last.closing = [] → (∀ l ∈ Machine.visited trace last, l.DispatchSafe) →
      ∀ p ∈ trace, p.1.ClosesOwn p.2) := by
  constructor
  · intro hcond l hl
    have hconsistent : l.Consistent :=
      h.forall_visited (C := ClosesOwn) (I := Consistent)
        (fun s e t hs hc hstep => hs.step hc hstep) .init hcond l hl
    exact hconsistent.safe
  · intro hclosing hsafe
    by_contra hbad
    have hdoomed : last.Doomed := by
      refine h.of_violation (C := ClosesOwn) (fun s e t hc hstep => .of_violation hc hstep)
        (fun s e t hs hstep => hs.step hstep) (.inr ?_)
      simpa only [not_forall, exists_prop] using hbad
    rcases hdoomed with hfailed | ⟨c, hc, -⟩
    · have hlast : last.DispatchSafe := hsafe last (by simp [Machine.visited])
      simp [hlast.1] at hfailed
    · simp [hclosing] at hc

instance (l : EventLoop) (c : ChannelId) : Decidable (l.Removable c) :=
  inferInstanceAs (Decidable (_ → _ ∨ _))

instance (l : EventLoop) (e : LoopEvent) : Decidable (l.ClosesOwn e) :=
  match e with
  | .forceClose _ => inferInstanceAs (Decidable (_ → _))
  | .poll _ | .handleEvent | .callback _ _ | .closeCallback | .endBatch | .newConnection _ _
  | .send _ _ _ | .shutdown _ => inferInstanceAs (Decidable True)

/-- Two connections become readable together. The first reaches end of file, and
the handler of the second closes its own connection. -/
def closeOwn : List LoopEvent :=
  [.newConnection 1 11, .newConnection 2 12, .poll [(1, POLLIN), (2, POLLIN)],
    .handleEvent, .callback 0 (.count 0), .closeCallback,
    .handleEvent, .callback 5 (.count 0), .forceClose 2, .closeCallback, .endBatch]

/-- Both connections of `closeOwn` may be closed inside the batch. -/
theorem dispatch_safe_iff_closesOwn_closeOwn :
    ∃ last, closeOwn.foldlM next {} = some last ∧ last.closing = [] ∧
      ∀ l ∈ Machine.visited (Machine.traceOf next {} closeOwn) last, l.DispatchSafe := by
  have hrun : ∃ last, closeOwn.foldlM next {} = some last := ⟨_, rfl⟩
  obtain ⟨last, hlast⟩ := hrun
  have hclosing : (closeOwn.foldlM next {}).map EventLoop.closing = some [] := by decide
  refine ⟨last, hlast, by simpa [hlast] using hclosing, ?_⟩
  exact (dispatch_safe_iff_closesOwn (Machine.Run.of_foldlM hlast)).1 (by decide)

/-- Two connections become readable together, and the handler of the first closes
the second. -/
def closeOther : List LoopEvent :=
  [.newConnection 1 11, .newConnection 2 12, .poll [(1, POLLIN), (2, POLLIN)],
    .handleEvent, .callback 5 (.count 0), .forceClose 2, .closeCallback, .handleEvent]

/-- In `closeOther` the assertion of `removeChannel` fails, and `handleEvent` is then
called on the channel that was removed. -/
theorem closeOther_not_safe :
    ∃ l, machine.Reachable l ∧ l.assertionFailed = true ∧ l.dispatchedRemoved = true := by
  have hflags : (closeOther.foldlM next {}).map
      (fun l => (l.assertionFailed, l.dispatchedRemoved)) = some (true, true) := by decide
  obtain ⟨l, hl, hflags⟩ := Option.map_eq_some_iff.mp hflags
  rw [Prod.mk.injEq] at hflags
  exact ⟨l, .of_foldlM (.of_init rfl) hl, hflags⟩

end DuoDuo.Net.EventLoop
