import DuoDuo.Timers.ThreadPool

/-!
# What stop leaves behind

`addTask` holds the mutex from its test of `m_isStarted` to the end of its push, but
`stop` stores the flag without the mutex, and the workers read it and `m_tasks.empty()`
without the mutex as well. Here the test and the push are steps of their own. A push that
comes when all workers have left their loops is executed by nobody.
-/

namespace DuoDuo.Timers

open Library

namespace ThreadPool

/-- The push of `addTask`, with the worker that `notify_one` wakes. -/
def push (n : ℕ) (s : ThreadPool) (task : ℕ) (wake : Option ℕ) : Option ThreadPool :=
  if s.Notifies n wake then
    let s := { s with tasks := s.tasks ++ [task], accepted := s.accepted ++ [task] }
    some (wake.elim s fun w => s.goTo w .taking)
  else none

/-- `addTask` is its test, and its push if the test was true. -/
theorem addTask_eq (n : ℕ) (s : ThreadPool) (task : ℕ) (wake : Option ℕ) :
    s.addTask n task wake = if s.owner ≠ none then none
      else if s.isStarted then s.push n task wake else some s := rfl

/-- What the pool promises: no task is executed more often than it was pushed, and when
`stop` has returned, none is left and each was executed as often as it was pushed. -/
structure Kept (s : ThreadPool) : Prop where
  once : s.executed.Subperm s.accepted
  drained : s.stopper = .returned → s.tasks = [] ∧ s.executed.Perm s.accepted

end ThreadPool

open ThreadPool in
/-- A pool, and the call of `addTask` that is under way. -/
structure AddingPool where
  pool : ThreadPool := {}
  /-- The task of the call that holds the mutex and has found `m_isStarted` true. -/
  pushing : Option ℕ := none

namespace AddingPool

open ThreadPool (Worker Moved Kept)

/-- The steps: `addTask` locks the mutex and tests the flag, it pushes, notifies a worker
and unlocks, the caller of `stop` or a worker goes on, and a worker wakes up by itself. -/
inductive Action
  | test (task : ℕ)
  | push (wake : Option ℕ)
  | stop
  | work (w : ℕ)
  | wakeUp (w : ℕ)
  deriving DecidableEq

/-- The pool goes on. -/
def withPool (s : AddingPool) (pool : Option ThreadPool) : Option AddingPool :=
  pool.map fun pool => { s with pool }

/-- One step of a pool of `n` workers. -/
def next (n : ℕ) (s : AddingPool) : Action → Option AddingPool
  | .test task =>
    if s.pool.owner = none ∧ s.pushing = none then
      some (if s.pool.isStarted then { s with pushing := some task } else s)
    else none
  | .push wake =>
    s.pushing.bind fun task => (s.pool.push n task wake).map fun pool => { pool }
  | .stop => s.withPool (s.pool.stop n)
  | .work w =>
    -- `take` waits for the mutex
    if s.pushing ≠ none ∧ s.pool.worker w = .taking then none
    else s.withPool (s.pool.next n (.work w))
  | .wakeUp w => s.withPool (s.pool.next n (.wakeUp w))

/-- The machine of a pool of `n` workers, which has just been started. -/
def machine (n : ℕ) : Machine AddingPool Action := Machine.ofNext (· = {}) (next n)

/-- A task is pushed only while a worker has not left its loop. -/
def PushesInTime (n : ℕ) (s : AddingPool) : Action → Prop
  | .push _ => ∃ w < n, s.pool.worker w ≠ .exited
  | .test _ | .stop | .work _ | .wakeUp _ => True

instance (n : ℕ) (s : AddingPool) (a : Action) : Decidable (PushesInTime n s a) :=
  match a with
  | .push _ => inferInstanceAs (Decidable (∃ w < n, s.pool.worker w ≠ .exited))
  | .test _ | .stop | .work _ | .wakeUp _ => .isTrue trivial

/-- Where every task is, what is left when all workers have gone, and which of them have
been joined. -/
structure Inv (n : ℕ) (p : ThreadPool) : Prop where
  tasks : (p.executed : Multiset ℕ) + ∑ w ∈ Finset.range n, (p.worker w).held + p.tasks =
    p.accepted
  drained : (∀ w < n, p.worker w = .exited) → p.tasks = []
  joining : ∀ i, p.stopper = .joining i → ∀ w < n, w < i → p.worker w = .exited
  returned : p.stopper = .returned → ∀ w < n, p.worker w = .exited

/-- All workers have left their loops, and a task is left. -/
def Abandoned (n : ℕ) (p : ThreadPool) : Prop := (∀ w < n, p.worker w = .exited) ∧ p.tasks ≠ []

variable {n w : ℕ} {p p' : ThreadPool} {s s' : AddingPool}

/-- The invariant gives what the pool promises. -/
theorem Inv.kept (h : Inv n p) : Kept p where
  once := by
    rw [← Multiset.coe_le, ← h.tasks, add_assoc]
    exact Multiset.le_add_right _ _
  drained := by
    intro hreturned
    have hexited := h.returned hreturned
    have hnone := h.drained hexited
    refine ⟨hnone, Multiset.coe_eq_coe.mp ?_⟩
    have hheld : ∑ w ∈ Finset.range n, (p.worker w).held = 0 := by
      refine Finset.sum_eq_zero fun w hw => ?_
      rw [hexited w (Finset.mem_range.mp hw)]
      rfl
    rw [← h.tasks, hheld, hnone, add_zero]
    exact (add_zero _).symm

/-- A pool that has just been started has no tasks. -/
theorem inv_init (n : ℕ) : Inv n {} where
  tasks := by simp [Worker.held]
  drained := fun _ => rfl
  joining := by rintro i ⟨⟩
  returned := by rintro ⟨⟩

/-- The rule of all steps of a worker. -/
theorem Inv.moved (h : Inv n p) (hw : w < n) {point : Worker} (hmoved : Moved p w point p') :
    Inv n p' where
  tasks := hmoved.tally hw h.tasks
  drained := by
    intro hall
    have hpoint := hall w hw
    rw [hmoved.worker, Function.update_self] at hpoint
    exact (hmoved.exited hpoint).2
  joining := by
    intro i hi w' hw' hlt
    rw [hmoved.stopper] at hi
    exact hmoved.worker_exited (h.joining i hi w' hw' hlt)
  returned := by
    intro hreturned w' hw'
    rw [hmoved.stopper] at hreturned
    exact hmoved.worker_exited (h.returned hreturned w' hw')

/-- What a push does: it adds the task, and may wake a worker. -/
theorem push_ok {task : ℕ} {wake : Option ℕ} (hstep : p.push n task wake = some p') :
    p' = { p with tasks := p.tasks ++ [task], accepted := p.accepted ++ [task] } ∨
      ∃ w < n, p.worker w = .waiting ∧
        p' = { p with tasks := p.tasks ++ [task], accepted := p.accepted ++ [task] }.goTo w
          .taking := by
  unfold ThreadPool.push at hstep
  split_ifs at hstep with hnotifies
  cases wake with
  | none =>
    cases hstep
    exact .inl rfl
  | some w =>
    cases hstep
    exact .inr ⟨w, hnotifies.1, hnotifies.2, rfl⟩

/-- A push in time keeps the invariant. -/
theorem Inv.push (h : Inv n p) (htime : ∃ w < n, p.worker w ≠ .exited) {task : ℕ}
    {wake : Option ℕ} (hstep : p.push n task wake = some p') : Inv n p' := by
  have hpushed : Inv n { p with tasks := p.tasks ++ [task], accepted := p.accepted ++ [task] } := by
    refine ⟨ThreadPool.tally_push h.tasks, fun hall => ?_, h.joining, h.returned⟩
    obtain ⟨w, hw, hnot⟩ := htime
    exact absurd (hall w hw) hnot
  rcases push_ok hstep with rfl | ⟨w, hw, hwaiting, rfl⟩
  · exact hpushed
  · exact hpushed.moved hw (ThreadPool.moved_of_wakeUp hwaiting)

/-- The steps of `stop` keep the invariant. -/
theorem Inv.stop (h : Inv n p) (hstep : p.stop n = some p') : Inv n p' := by
  unfold ThreadPool.stop at hstep
  cases hp : p.stopper with
  | idle =>
    rw [hp] at hstep
    cases hstep
    exact ⟨h.tasks, h.drained, by rintro i ⟨⟩, by rintro ⟨⟩⟩
  | cleared =>
    rw [hp] at hstep
    cases hstep
    refine ⟨?_, fun hall => ?_, fun i hi => ?_, by rintro ⟨⟩⟩
    · simp only [ThreadPool.held_notifyAll]
      exact h.tasks
    · exact h.drained fun w hw => ThreadPool.notifyAll_exited.mp (hall w hw)
    · cases hi
      intro w _ hlt
      exact absurd hlt (Nat.not_lt_zero w)
  | joining i =>
    rw [hp] at hstep
    dsimp only at hstep
    split_ifs at hstep with hlt hexited
    · cases hstep
      refine ⟨h.tasks, h.drained, fun j hj w hw hwj => ?_, by rintro ⟨⟩⟩
      cases hj
      rcases Nat.lt_succ_iff_lt_or_eq.mp hwj with hwi | rfl
      · exact h.joining i hp w hw hwi
      · exact hexited
    · cases hstep
      exact ⟨h.tasks, h.drained, by rintro i ⟨⟩, fun _ w hw => h.joining i hp w hw (by omega)⟩
  | returned =>
    rw [hp] at hstep
    cases hstep

/-- A step of the pool alone is one of `stop`, or a worker moves. -/
theorem withPool_ok (hstep : s.withPool (p.next n (.work w)) = some s' ∨
    s.withPool (p.next n (.wakeUp w)) = some s') :
    w < n ∧ ∃ point p', Moved p w point p' ∧ s' = { s with pool := p' } := by
  rcases hstep with hstep | hstep
  · obtain ⟨p', hp', rfl⟩ := Option.map_eq_some_iff.mp hstep
    unfold ThreadPool.next at hp'
    dsimp only at hp'
    split_ifs at hp' with hw
    obtain ⟨point, hmoved⟩ := ThreadPool.moved_of_work hp'
    exact ⟨hw, point, p', hmoved, rfl⟩
  · obtain ⟨p', hp', rfl⟩ := Option.map_eq_some_iff.mp hstep
    unfold ThreadPool.next at hp'
    dsimp only at hp'
    split_ifs at hp' with hw
    cases hp'
    exact ⟨hw.1, .taking, _, ThreadPool.moved_of_wakeUp hw.2, rfl⟩

/-- The steps of a pool to which a task may be added. -/
theorem next_ok {a : Action} (hstep : next n s a = some s') :
    (s'.pool = s.pool) ∨ (∃ wake task, a = .push wake ∧ s.pool.push n task wake = some s'.pool) ∨
      (s.pool.stop n = some s'.pool) ∨ ∃ w < n, ∃ point, Moved s.pool w point s'.pool := by
  unfold next at hstep
  cases a with
  | test task =>
    dsimp only at hstep
    split_ifs at hstep
    all_goals
      cases hstep
      exact .inl rfl
  | push wake =>
    obtain ⟨task, -, hstep⟩ := Option.bind_eq_some_iff.mp hstep
    obtain ⟨p', hp', rfl⟩ := Option.map_eq_some_iff.mp hstep
    exact .inr (.inl ⟨wake, task, rfl, hp'⟩)
  | stop =>
    obtain ⟨p', hp', rfl⟩ := Option.map_eq_some_iff.mp hstep
    exact .inr (.inr (.inl hp'))
  | work w =>
    dsimp only at hstep
    split_ifs at hstep
    obtain ⟨hw, point, p', hmoved, rfl⟩ := withPool_ok (.inl hstep)
    exact .inr (.inr (.inr ⟨w, hw, point, hmoved⟩))
  | wakeUp w =>
    obtain ⟨hw, point, p', hmoved, rfl⟩ := withPool_ok (.inr hstep)
    exact .inr (.inr (.inr ⟨w, hw, point, hmoved⟩))

/-- Every step that meets the condition keeps the invariant. -/
theorem Inv.next (h : Inv n s.pool) {a : Action} (hc : PushesInTime n s a)
    (hstep : next n s a = some s') : Inv n s'.pool := by
  rcases next_ok hstep with hsame | ⟨wake, task, rfl, hpush⟩ | hstop | ⟨w, hw, point, hmoved⟩
  · rw [hsame]
    exact h
  · exact h.push hc hpush
  · exact h.stop hstop
  · exact h.moved hw hmoved

/-- A push that is too late abandons its task. -/
theorem abandoned_of_violation {a : Action} (hbad : ¬PushesInTime n s a)
    (hstep : next n s a = some s') : Abandoned n s'.pool := by
  cases a with
  | push wake =>
    have hall : ∀ w < n, s.pool.worker w = .exited := by
      intro w hw
      by_contra hnot
      exact hbad ⟨w, hw, hnot⟩
    obtain ⟨task, -, hstep⟩ := Option.bind_eq_some_iff.mp hstep
    obtain ⟨p', hp', rfl⟩ := Option.map_eq_some_iff.mp hstep
    rcases push_ok hp' with rfl | ⟨w, hw, hwaiting, rfl⟩
    · exact ⟨hall, by simp⟩
    · rw [hall w hw] at hwaiting
      cases hwaiting
  | test | stop | work | wakeUp => exact absurd trivial hbad

/-- `stop` runs no tasks. -/
theorem Abandoned.stop (h : Abandoned n p) (hstep : p.stop n = some p') : Abandoned n p' := by
  obtain ⟨hall, htasks⟩ := h
  unfold ThreadPool.stop at hstep
  cases hp : p.stopper with
  | idle =>
    rw [hp] at hstep
    cases hstep
    exact ⟨hall, htasks⟩
  | cleared =>
    rw [hp] at hstep
    cases hstep
    exact ⟨fun w hw => ThreadPool.notifyAll_exited.mpr (hall w hw), htasks⟩
  | joining i =>
    rw [hp] at hstep
    dsimp only at hstep
    split_ifs at hstep
    all_goals
      cases hstep
      exact ⟨hall, htasks⟩
  | returned =>
    rw [hp] at hstep
    cases hstep

/-- Nobody takes up an abandoned task. -/
theorem Abandoned.next (h : Abandoned n s.pool) {a : Action} (hstep : next n s a = some s') :
    Abandoned n s'.pool := by
  obtain ⟨hall, htasks⟩ := h
  rcases next_ok hstep with hsame | ⟨wake, task, rfl, hpush⟩ | hstop | ⟨w, hw, point, hmoved⟩
  · rw [hsame]
    exact ⟨hall, htasks⟩
  · rcases push_ok hpush with hpool | ⟨w, hw, hwaiting, -⟩
    · rw [hpool]
      exact ⟨hall, by simp⟩
    · rw [hall w hw] at hwaiting
      cases hwaiting
  · exact Abandoned.stop ⟨hall, htasks⟩ hstop
  · exact absurd (hall w hw) hmoved.not_exited

/-- In a run of a pool that has just been started, the promise is kept in all states if
every push comes while a worker has not left its loop; and if `stop` has returned at the
end, it is kept only then. -/
theorem kept_iff_pushesInTime {trace : List (AddingPool × Action)}
    (hrun : (machine n).Run {} trace s) :
    ((∀ step ∈ trace, PushesInTime n step.1 step.2) →
      ∀ u ∈ Machine.visited trace s, Kept u.pool) ∧
    (s.pool.stopper = .returned → (∀ u ∈ Machine.visited trace s, Kept u.pool) →
      ∀ step ∈ trace, PushesInTime n step.1 step.2) := by
  constructor
  · intro htime u hu
    refine Inv.kept (n := n) ?_
    exact hrun.forall_visited (C := PushesInTime n) (I := fun s => Inv n s.pool)
      (fun _ _ _ h hc hstep => h.next hc hstep) (inv_init n) htime u hu
  · intro hreturned hkept
    by_contra hlate
    push Not at hlate
    have habandoned : Abandoned n s.pool :=
      hrun.of_violation (C := PushesInTime n) (D := fun s => Abandoned n s.pool)
        (fun _ _ _ hbad hstep => abandoned_of_violation hbad hstep)
        (fun _ _ _ h hstep => h.next hstep) (.inr hlate)
    exact habandoned.2 ((hkept s (by simp [Machine.visited])).drained hreturned).1

/-- A call of `addTask` that is not interrupted is its test and its push. -/
theorem reachable_addTask (h : (machine n).Reachable { pool := p }) {task : ℕ} {wake : Option ℕ}
    (hstep : p.addTask n task wake = some p') : (machine n).Reachable { pool := p' } := by
  rw [ThreadPool.addTask_eq] at hstep
  by_cases howner : p.owner = none
  · rw [if_neg (not_not.mpr howner)] at hstep
    have htest : next n { pool := p } (.test task) =
        some (if p.isStarted then { pool := p, pushing := some task } else { pool := p }) :=
      if_pos ⟨howner, rfl⟩
    by_cases hstarted : p.isStarted
    · rw [if_pos hstarted] at hstep htest
      refine (h.tail htest).tail (a := .push wake) ?_
      exact Option.map_eq_some_iff.mpr ⟨p', hstep, rfl⟩
    · rw [if_neg hstarted] at hstep
      exact Option.some.inj hstep ▸ h
  · rw [if_pos howner] at hstep
    cases hstep

/-- Every run of a pool whose `addTask` is one step is one of this machine. -/
theorem reachable_of_pool (h : (ThreadPool.machine n).Reachable p) :
    (machine n).Reachable { pool := p } := by
  refine h.invariant (I := fun p => (machine n).Reachable { pool := p }) ?_ ?_
  · rintro p rfl
    exact .of_init rfl
  · rintro p a p' hp hstep
    cases a with
    | addTask task wake => exact reachable_addTask hp hstep
    | stop => exact hp.tail (a := .stop) (Option.map_eq_some_iff.mpr ⟨p', hstep, rfl⟩)
    | work w =>
      have hwork : next n { pool := p } (.work w) = withPool { pool := p }
          (p.next n (.work w)) := by
        rw [next]
        exact if_neg fun hne => hne.1 rfl
      refine hp.tail (a := .work w) (hwork.trans ?_)
      exact Option.map_eq_some_iff.mpr ⟨p', hstep, rfl⟩
    | wakeUp w => exact hp.tail (a := .wakeUp w) (Option.map_eq_some_iff.mpr ⟨p', hstep, rfl⟩)

/-- `stop` stores the flag between the test and the push of `addTask`, and the only worker
reads the flag, but not yet `m_tasks.empty()`, before the push. -/
def stoppedInTime : List Action :=
  [.test 7, .stop, .work 0, .push none, .work 0, .work 0, .work 0, .work 0, .work 0, .stop,
    .stop, .stop]

/-- The task is executed before `stop` returns. -/
theorem kept_iff_pushesInTime_stopped :
    ∃ s, (machine 1).Run {} (Machine.traceOf (next 1) {} stoppedInTime) s ∧
      s.pool.stopper = .returned ∧ s.pool.executed = [7] ∧
      ∀ u ∈ Machine.visited (Machine.traceOf (next 1) {} stoppedInTime) s, Kept u.pool := by
  have hrun : (machine 1).Run {} (Machine.traceOf (next 1) {} stoppedInTime)
      ((stoppedInTime.foldlM (next 1) {}).getD {}) := .of_foldlM rfl
  exact ⟨_, hrun, by decide, by decide, (kept_iff_pushesInTime hrun).1 (by decide)⟩

/-- The only worker leaves its loop between the test and the push of `addTask`. -/
def stoppedTooEarly : List Action :=
  [.test 7, .stop, .work 0, .work 0, .push none, .stop, .stop, .stop]

/-- `stop` has returned, and the task that was accepted is left. -/
theorem stoppedTooEarly_not_kept :
    ∃ s, (machine 1).Reachable s ∧ s.pool.stopper = .returned ∧ s.pool.accepted = [7] ∧
      s.pool.tasks = [7] ∧ s.pool.executed = [] ∧ ¬Kept s.pool := by
  have hinit : (machine 1).Reachable {} := .of_init rfl
  have hrun : stoppedTooEarly.foldlM (next 1) {} =
      some ((stoppedTooEarly.foldlM (next 1) {}).getD {}) := rfl
  refine ⟨_, hinit.of_foldlM hrun, by decide, by decide, by decide, by decide, fun h => ?_⟩
  exact absurd (h.drained (by decide)).1 (by decide)

end AddingPool

end DuoDuo.Timers
