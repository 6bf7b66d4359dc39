import DuoDuo.Library.Machine
import DuoDuo.Library.Tally
import Mathlib.Algebra.Order.Group.Multiset
import Mathlib.Tactic.Abel

/-!
# The thread pool

The workers of a `ThreadPool` take tasks under its mutex and wait on its condition when
there are none. `stop` clears the flag and notifies without the mutex, and then joins
the workers. Every section under the mutex is one step, except that a worker which has
tested the condition of its wait keeps the mutex until it waits. (The two steps of
`addTask` are told apart in `AddingPool`.) Tasks are functions that can be called, here
by number.
-/

namespace DuoDuo.Timers

open Library

namespace ThreadPool

/-- Where a worker is. -/
inductive Worker
  /-- `threadLoop` reads `m_isStarted`. -/
  | testing
  /-- It reads `m_tasks.empty()`. -/
  | testingEmpty
  /-- `take` locks the mutex and tests the condition of the wait. -/
  | taking
  /-- The test was true, and the worker is about to wait. It holds the mutex. -/
  | tested
  /-- The worker waits on `m_cond`. -/
  | waiting
  /-- It executes a task. -/
  | running (task : ℕ)
  /-- `threadLoop` has returned. -/
  | exited
  deriving DecidableEq, Repr

/-- The tasks that a worker has taken and not yet executed. -/
def Worker.held : Worker → Multiset ℕ
  | running task => {task}
  | _ => 0

/-- Where the thread is that calls `stop`. -/
inductive Stop
  /-- It has not been called. -/
  | idle
  /-- `m_isStarted` is false. -/
  | cleared
  /-- `notify_all` is done, and this worker is the next one to be joined. -/
  | joining (w : ℕ)
  /-- It has returned. -/
  | returned
  deriving DecidableEq, Repr

end ThreadPool

open ThreadPool in
/-- The pool, its workers, the caller of `stop`, and the tasks that were pushed and
executed. -/
structure ThreadPool where
  isStarted : Bool := true
  tasks : List ℕ := []
  /-- The worker that holds the mutex between two of its steps. -/
  owner : Option ℕ := none
  worker : ℕ → Worker := fun _ => .testing
  stopper : Stop := .idle
  accepted : List ℕ := []
  executed : List ℕ := []

namespace ThreadPool

/-- A worker goes on. -/
def goTo (s : ThreadPool) (w : ℕ) (p : Worker) : ThreadPool :=
  { s with worker := Function.update s.worker w p }

/-- `notify_all` wakes those that wait. -/
def notifyAll (worker : ℕ → Worker) (w : ℕ) : Worker :=
  if worker w = .waiting then .taking else worker w

/-- `notify_one` wakes one of those that wait, if there is one. -/
def Notifies (n : ℕ) (s : ThreadPool) : Option ℕ → Prop
  | some w => w < n ∧ s.worker w = .waiting
  | none => ∀ w < n, s.worker w ≠ .waiting

instance (n : ℕ) (s : ThreadPool) (wake : Option ℕ) : Decidable (s.Notifies n wake) := by
  cases wake
  · exact inferInstanceAs (Decidable (∀ w < n, s.worker w ≠ .waiting))
  · exact inferInstanceAs (Decidable (_ ∧ _))

/-- The steps: a call of `addTask` with the worker that it notifies, a step of the caller
of `stop`, a step of a worker, and a spurious wakeup. -/
inductive Action
  | addTask (task : ℕ) (wake : Option ℕ)
  | stop
  | work (w : ℕ)
  | wakeUp (w : ℕ)
  deriving DecidableEq, Repr

/-- `addTask`. -/
def addTask (n : ℕ) (s : ThreadPool) (task : ℕ) (wake : Option ℕ) : Option ThreadPool :=
  if s.owner ≠ none then none
  else if s.isStarted then
    if s.Notifies n wake then
      let s := { s with tasks := s.tasks ++ [task], accepted := s.accepted ++ [task] }
      some (wake.elim s fun w => s.goTo w .taking)
    else none
  else some s

/-- The next step of `stop`. -/
def stop (n : ℕ) (s : ThreadPool) : Option ThreadPool :=
  match s.stopper with
  | .idle => some { s with isStarted := false, stopper := .cleared }
  | .cleared => some { s with worker := notifyAll s.worker, stopper := .joining 0 }
  | .joining w =>
    if w < n then
      if s.worker w = .exited then some { s with stopper := .joining (w + 1) } else none
    else some { s with stopper := .returned }
  | .returned => none

/-- `take`, up to the wait. -/
def take (s : ThreadPool) (w : ℕ) : Option ThreadPool :=
  if s.owner ≠ none then none
  else
    match s.tasks with
    | task :: tasks => some ({ s with tasks }.goTo w (.running task))
    | [] => some (if s.isStarted then { s with owner := some w }.goTo w .tested
      else s.goTo w .testing)

/-- The next step of a worker. -/
def work (s : ThreadPool) (w : ℕ) : Option ThreadPool :=
  match s.worker w with
  | .testing => some (s.goTo w (if s.isStarted then .taking else .testingEmpty))
  | .testingEmpty => some (s.goTo w (if s.tasks = [] then .exited else .taking))
  | .taking => s.take w
  | .tested => some ({ s with owner := none }.goTo w .waiting)
  | .waiting => none
  | .running task => some ({ s with executed := s.executed ++ [task] }.goTo w .testing)
  | .exited => none

/-- One step of a pool of `n` workers. -/
def next (n : ℕ) (s : ThreadPool) : Action → Option ThreadPool
  | .addTask task wake => s.addTask n task wake
  | .stop => s.stop n
  | .work w => if w < n then s.work w else none
  | .wakeUp w => if w < n ∧ s.worker w = .waiting then some (s.goTo w .taking) else none

/-- The machine of a pool of `n` workers, which has just been started. -/
def machine (n : ℕ) : Machine ThreadPool Action := Machine.ofNext (· = {}) (next n)

/-- Where every task is, and what the workers and the caller of `stop` know. -/
structure Inv (n : ℕ) (s : ThreadPool) : Prop where
  tasks : (s.executed : Multiset ℕ) + ∑ w ∈ Finset.range n, (s.worker w).held + s.tasks =
    s.accepted
  stopped : s.stopper ≠ .idle → s.isStarted = false
  testingEmpty : ∀ w < n, s.worker w = .testingEmpty → s.isStarted = false
  exited : ∀ w < n, s.worker w = .exited → s.isStarted = false ∧ s.tasks = []
  joining : ∀ i, s.stopper = .joining i → ∀ w < n, w < i → s.worker w = .exited
  returned : s.stopper = .returned → ∀ w < n, s.worker w = .exited

variable {n : ℕ} {s s' : ThreadPool} {w : ℕ} {p : Worker}

/-- What a step of a worker does, with the point at which the worker is afterwards. -/
structure Moved (s : ThreadPool) (w : ℕ) (p : Worker) (s' : ThreadPool) : Prop where
  worker : s'.worker = Function.update s.worker w p
  isStarted : s'.isStarted = s.isStarted
  stopper : s'.stopper = s.stopper
  accepted : s'.accepted = s.accepted
  not_exited : s.worker w ≠ .exited
  tasks : (s'.executed : Multiset ℕ) + p.held + s'.tasks =
    s.executed + (s.worker w).held + s.tasks
  tasks_eq_nil : s.tasks = [] → s'.tasks = []
  testingEmpty : p = .testingEmpty → s.isStarted = false
  exited : p = .exited → s.worker w = .testingEmpty ∧ s'.tasks = []

/-- A step of a worker moves the tasks that it holds. -/
theorem Moved.tally (h : Moved s w p s') (hw : w < n)
    (htasks : (s.executed : Multiset ℕ) + ∑ w ∈ Finset.range n, (s.worker w).held + s.tasks =
      s.accepted) :
    (s'.executed : Multiset ℕ) + ∑ w ∈ Finset.range n, (s'.worker w).held + s'.tasks =
      s'.accepted := by
  have hsum := sum_update_add (Finset.mem_range.mpr hw) Worker.held s.worker p
  rw [← h.worker] at hsum
  rw [h.accepted, ← htasks]
  apply add_right_cancel (b := p.held + (s.worker w).held)
  calc (s'.executed : Multiset ℕ) + ∑ w ∈ Finset.range n, (s'.worker w).held + s'.tasks +
        (p.held + (s.worker w).held)
      = (s'.executed + p.held + s'.tasks) +
          (∑ w ∈ Finset.range n, (s'.worker w).held + (s.worker w).held) := by abel
    _ = (s.executed + (s.worker w).held + s.tasks) +
          (∑ w ∈ Finset.range n, (s.worker w).held + p.held) := by rw [h.tasks, hsum]
    _ = s.executed + ∑ w ∈ Finset.range n, (s.worker w).held + s.tasks +
          (p.held + (s.worker w).held) := by abel

/-- A worker that has left its loop does not move. -/
theorem Moved.worker_exited (h : Moved s w p s') {w' : ℕ} (hexited : s.worker w' = .exited) :
    s'.worker w' = .exited := by
  have hne : w' ≠ w := by
    rintro rfl
    exact h.not_exited hexited
  rw [h.worker, Function.update_of_ne hne, hexited]

/-- The rule of all steps of a worker. -/
theorem Inv.moved (h : Inv n s) (hw : w < n) (hmoved : Moved s w p s') : Inv n s' := by
  have hother : ∀ w', w' ≠ w → s'.worker w' = s.worker w' := by
    intro w' hne
    rw [hmoved.worker, Function.update_of_ne hne]
  have hself : s'.worker w = p := by rw [hmoved.worker, Function.update_self]
  refine ⟨hmoved.tally hw h.tasks, ?_, ?_, ?_, ?_, ?_⟩
  · rw [hmoved.stopper, hmoved.isStarted]
    exact h.stopped
  · intro w' hw' htest
    rw [hmoved.isStarted]
    by_cases hne : w' = w
    · rw [hne, hself] at htest
      exact hmoved.testingEmpty htest
    · rw [hother w' hne] at htest
      exact h.testingEmpty w' hw' htest
  · intro w' hw' hexited
    rw [hmoved.isStarted]
    by_cases hne : w' = w
    · rw [hne, hself] at hexited
      obtain ⟨hpoint, hnone⟩ := hmoved.exited hexited
      exact ⟨h.testingEmpty w hw hpoint, hnone⟩
    · rw [hother w' hne] at hexited
      obtain ⟨hstop, hnone⟩ := h.exited w' hw' hexited
      exact ⟨hstop, hmoved.tasks_eq_nil hnone⟩
  · intro i hi w' hw' hlt
    rw [hmoved.stopper] at hi
    exact hmoved.worker_exited (h.joining i hi w' hw' hlt)
  · intro hreturned w' hw'
    rw [hmoved.stopper] at hreturned
    exact hmoved.worker_exited (h.returned hreturned w' hw')

/-- A worker that goes on with the tasks that it had. -/
theorem moved_goTo (hnot : s.worker w ≠ .exited) (hheld : p.held = (s.worker w).held)
    (htesting : p = .testingEmpty → s.isStarted = false)
    (hexited : p = .exited → s.worker w = .testingEmpty ∧ s.tasks = []) (owner : Option ℕ) :
    Moved s w p ({ s with owner }.goTo w p) where
  worker := rfl
  isStarted := rfl
  stopper := rfl
  accepted := rfl
  not_exited := hnot
  tasks := by rw [hheld]; rfl
  tasks_eq_nil := id
  testingEmpty := htesting
  exited := hexited

/-- What `take` does. -/
theorem moved_of_take (hp : s.worker w = .taking) (hstep : s.take w = some s') :
    ∃ p, Moved s w p s' := by
  have hnot : s.worker w ≠ .exited := by rw [hp]; nofun
  unfold ThreadPool.take at hstep
  by_cases howner : s.owner ≠ none
  · rw [if_pos howner] at hstep
    cases hstep
  rw [if_neg howner] at hstep
  cases htasks : s.tasks with
  | cons task tasks =>
    rw [htasks] at hstep
    cases hstep
    refine ⟨.running task, rfl, rfl, rfl, rfl, hnot, ?_, by rw [htasks]; nofun, nofun, nofun⟩
    rw [hp, htasks]
    show (s.executed : Multiset ℕ) + {task} + tasks = s.executed + 0 + (task :: tasks : List ℕ)
    rw [add_zero, add_assoc, Multiset.singleton_add, Multiset.cons_coe]
  | nil =>
    rw [htasks] at hstep
    dsimp only at hstep
    cases hstep
    split
    · exact ⟨.tested, rfl, rfl, rfl, rfl, hnot, by rw [hp, htasks]; rfl, fun _ => rfl,
        by rintro ⟨⟩, by rintro ⟨⟩⟩
    · exact ⟨.testing, moved_goTo hnot (by rw [hp]; rfl) (by rintro ⟨⟩) (by rintro ⟨⟩) s.owner⟩

/-- What a step of a worker does. -/
theorem moved_of_work (hstep : s.work w = some s') : ∃ p, Moved s w p s' := by
  unfold ThreadPool.work at hstep
  cases hp : s.worker w with
  | testing =>
    rw [hp] at hstep
    cases hstep
    refine ⟨_, moved_goTo (by rw [hp]; nofun) ?_ ?_ ?_ s.owner⟩
    · rw [hp]
      split <;> rfl
    · intro hpoint
      split at hpoint
      · cases hpoint
      · next hno => simpa using hno
    · intro hpoint
      split at hpoint <;> cases hpoint
  | testingEmpty =>
    rw [hp] at hstep
    cases hstep
    refine ⟨_, moved_goTo (by rw [hp]; nofun) ?_ ?_ ?_ s.owner⟩
    · rw [hp]
      split <;> rfl
    · intro hpoint
      split at hpoint <;> cases hpoint
    · intro hpoint
      split at hpoint
      · next hnone => exact ⟨hp, hnone⟩
      · cases hpoint
  | taking =>
    rw [hp] at hstep
    exact moved_of_take hp hstep
  | tested =>
    rw [hp] at hstep
    cases hstep
    exact ⟨.waiting, moved_goTo (by rw [hp]; nofun) (by rw [hp]; rfl) (by rintro ⟨⟩)
      (by rintro ⟨⟩) none⟩
  | waiting =>
    rw [hp] at hstep
    cases hstep
  | running task =>
    rw [hp] at hstep
    cases hstep
    refine ⟨.testing, rfl, rfl, rfl, rfl, by rw [hp]; nofun, ?_, id, nofun, nofun⟩
    rw [hp]
    show ((s.executed ++ [task] : List ℕ) : Multiset ℕ) + 0 + s.tasks =
      s.executed + {task} + s.tasks
    rw [add_zero, ← Multiset.coe_add]
    rfl
  | exited =>
    rw [hp] at hstep
    cases hstep

/-- What the wakeup of a worker does. -/
theorem moved_of_wakeUp (hwaiting : s.worker w = .waiting) : Moved s w .taking (s.goTo w .taking) :=
  moved_goTo (by rw [hwaiting]; nofun) (by rw [hwaiting]; rfl) (by rintro ⟨⟩) (by rintro ⟨⟩)
    s.owner

/-- A push adds to the tasks and to those that are accepted. -/
theorem tally_push {held : Multiset ℕ} {task : ℕ}
    (htasks : (s.executed : Multiset ℕ) + held + s.tasks = s.accepted) :
    (s.executed : Multiset ℕ) + held + ((s.tasks ++ [task] : List ℕ) : Multiset ℕ) =
      ((s.accepted ++ [task] : List ℕ) : Multiset ℕ) := by
  rw [← Multiset.coe_add, ← Multiset.coe_add, ← add_assoc, htasks]

/-- `notify_all` leaves the workers the tasks that they hold. -/
theorem held_notifyAll (worker : ℕ → Worker) (w : ℕ) :
    (notifyAll worker w).held = (worker w).held := by
  unfold notifyAll
  split
  · next hwaiting => rw [hwaiting]; rfl
  · rfl

/-- `notify_all` makes no worker leave its loop. -/
theorem notifyAll_exited {worker : ℕ → Worker} {w : ℕ} :
    notifyAll worker w = .exited ↔ worker w = .exited := by
  unfold notifyAll
  split
  · next hwaiting =>
    rw [hwaiting]
    exact iff_of_false nofun nofun
  · exact Iff.rfl

/-- Every step of a worker keeps the invariant. -/
theorem Inv.work (h : Inv n s) (hw : w < n) (hstep : s.work w = some s') : Inv n s' := by
  obtain ⟨p, hmoved⟩ := moved_of_work hstep
  exact h.moved hw hmoved

/-- `addTask` keeps the invariant. -/
theorem Inv.addTask (h : Inv n s) {task : ℕ} {wake : Option ℕ}
    (hstep : s.addTask n task wake = some s') : Inv n s' := by
  unfold ThreadPool.addTask at hstep
  split_ifs at hstep with howner hstarted hnotifies
  · have hpushed :
        Inv n { s with tasks := s.tasks ++ [task], accepted := s.accepted ++ [task] } := by
      refine ⟨tally_push h.tasks, h.stopped, h.testingEmpty, ?_, h.joining, h.returned⟩
      intro w hw hexited
      have hstop := (h.exited w hw hexited).1
      rw [hstarted] at hstop
      cases hstop
    cases wake with
    | none =>
      cases hstep
      exact hpushed
    | some w =>
      cases hstep
      obtain ⟨hw, hwaiting⟩ := hnotifies
      exact hpushed.moved hw (moved_of_wakeUp hwaiting)
  · cases hstep
    exact h

/-- The steps of `stop` keep the invariant. -/
theorem Inv.stop (h : Inv n s) (hstep : s.stop n = some s') : Inv n s' := by
  unfold ThreadPool.stop at hstep
  cases hp : s.stopper with
  | idle =>
    rw [hp] at hstep
    cases hstep
    exact ⟨h.tasks, fun _ => rfl, fun _ _ _ => rfl,
      fun w hw hexited => ⟨rfl, (h.exited w hw hexited).2⟩,
      nofun, nofun⟩
  | cleared =>
    rw [hp] at hstep
    cases hstep
    have hstop : s.isStarted = false := h.stopped (by rw [hp]; nofun)
    refine ⟨?_, fun _ => hstop, fun _ _ _ => hstop, fun w hw hexited => ?_, fun i hi => ?_, nofun⟩
    · simp only [held_notifyAll]
      exact h.tasks
    · exact h.exited w hw (notifyAll_exited.mp hexited)
    · cases hi
      nofun
  | joining i =>
    rw [hp] at hstep
    dsimp only at hstep
    have hstop : s.isStarted = false := h.stopped (by rw [hp]; nofun)
    split_ifs at hstep with hlt hexited
    · cases hstep
      refine ⟨h.tasks, fun _ => hstop, h.testingEmpty, h.exited, fun j hj w hw hwj => ?_, nofun⟩
      cases hj
      rcases Nat.lt_succ_iff_lt_or_eq.mp hwj with hwi | rfl
      · exact h.joining i hp w hw hwi
      · exact hexited
    · cases hstep
      exact ⟨h.tasks, fun _ => hstop, h.testingEmpty, h.exited, nofun,
        fun _ w hw => h.joining i hp w hw (by omega)⟩
  | returned =>
    rw [hp] at hstep
    cases hstep

/-- Every step keeps the invariant. -/
theorem Inv.next (h : Inv n s) {a : Action} (hstep : next n s a = some s') : Inv n s' := by
  cases a with
  | addTask task wake => exact h.addTask hstep
  | stop => exact h.stop hstep
  | work w =>
    unfold ThreadPool.next at hstep
    dsimp only at hstep
    split_ifs at hstep with hw
    exact h.work hw hstep
  | wakeUp w =>
    unfold ThreadPool.next at hstep
    dsimp only at hstep
    split_ifs at hstep with hw
    cases hstep
    exact h.moved hw.1 (moved_of_wakeUp hw.2)

/-- The pool begins with the invariant. -/
theorem inv_init (n : ℕ) : Inv n {} where
  tasks := by simp [Worker.held]
  stopped := nofun
  testingEmpty := nofun
  exited := nofun
  joining := nofun
  returned := nofun

/-- A task that a worker executes has been accepted. -/
theorem Inv.mem_accepted (h : Inv n s) (hw : w < n) {task : ℕ} (hp : s.worker w = .running task) :
    task ∈ s.accepted := by
  have hheld : task ∈ ∑ w ∈ Finset.range n, (s.worker w).held := by
    refine Multiset.mem_sum.mpr ⟨w, Finset.mem_range.mpr hw, ?_⟩
    rw [hp]
    exact Multiset.mem_singleton_self task
  rw [← Multiset.mem_coe, ← h.tasks]
  exact Multiset.mem_add.mpr (.inl (Multiset.mem_add.mpr (.inr hheld)))

/-- A step of a worker neither stops the pool nor gives it a task. -/
theorem work_frame (hstep : s.work w = some s') :
    s'.isStarted = s.isStarted ∧ s'.accepted = s.accepted := by
  obtain ⟨p, hmoved⟩ := moved_of_work hstep
  exact ⟨hmoved.isStarted, hmoved.accepted⟩

/-- What `addTask` does to the tasks that the pool has accepted: it adds its own, if the pool
has not been stopped. -/
theorem addTask_frame {task : ℕ} {wake : Option ℕ} (hstep : s.addTask n task wake = some s') :
    s'.isStarted = s.isStarted ∧
      (s.isStarted = true ∧ s'.accepted = s.accepted ++ [task] ∨
        s.isStarted = false ∧ s'.accepted = s.accepted) := by
  unfold ThreadPool.addTask at hstep
  split_ifs at hstep with howner hstarted hnotifies
  · cases wake with
    | none =>
      cases hstep
      exact ⟨rfl, .inl ⟨hstarted, rfl⟩⟩
    | some w =>
      cases hstep
      exact ⟨rfl, .inl ⟨hstarted, rfl⟩⟩
  · cases hstep
    exact ⟨rfl, .inr ⟨by simpa using hstarted, rfl⟩⟩

/-- The other steps add no task, and no step starts the pool again. -/
theorem next_frame {a : Action} (hstep : next n s a = some s')
    (hne : ∀ task wake, a ≠ .addTask task wake) :
    s'.accepted = s.accepted ∧ (s'.isStarted = true → s.isStarted = true) := by
  cases a with
  | addTask task wake => exact absurd rfl (hne task wake)
  | stop =>
    have hstep : s.stop n = some s' := hstep
    unfold ThreadPool.stop at hstep
    cases hp : s.stopper with
    | idle =>
      rw [hp] at hstep
      cases hstep
      exact ⟨rfl, by rintro ⟨⟩⟩
    | cleared =>
      rw [hp] at hstep
      cases hstep
      exact ⟨rfl, id⟩
    | joining i =>
      rw [hp] at hstep
      dsimp only at hstep
      split_ifs at hstep
      all_goals
        cases hstep
        exact ⟨rfl, id⟩
    | returned =>
      rw [hp] at hstep
      cases hstep
  | work w =>
    unfold ThreadPool.next at hstep
    dsimp only at hstep
    split_ifs at hstep
    obtain ⟨hstarted, haccepted⟩ := work_frame hstep
    exact ⟨haccepted, fun h => hstarted ▸ h⟩
  | wakeUp w =>
    unfold ThreadPool.next at hstep
    dsimp only at hstep
    split_ifs at hstep
    cases hstep
    exact ⟨rfl, id⟩

/-- `stop` has issued its `notify_all`. -/
def Notified (s : ThreadPool) : Prop := s.stopper ≠ .idle ∧ s.stopper ≠ .cleared

/-- `notify_all` has been issued, `addTask` accepts no task any more, and a worker waits. -/
def Stuck (n : ℕ) (s : ThreadPool) : Prop :=
  Notified s ∧ s.isStarted = false ∧ ∃ w < n, s.worker w = .waiting

/-- The pool is not stuck, and no step leads to a state in which it is. -/
def Awake (n : ℕ) (s : ThreadPool) : Prop :=
  ¬Stuck n s ∧ ∀ a s', next n s a = some s' → ¬Stuck n s'

/-- `notify_all` is not issued while a worker has tested the condition of its wait and does
not wait yet. -/
def NotifiesAfterTest (n : ℕ) (s : ThreadPool) (a : Action) : Prop :=
  a = .stop → s.stopper = .cleared → ∀ w < n, s.worker w ≠ .tested

instance (n : ℕ) (s : ThreadPool) (a : Action) : Decidable (NotifiesAfterTest n s a) :=
  inferInstanceAs (Decidable (_ → _ → ∀ w < n, s.worker w ≠ .tested))

/-- After `notify_all`, no worker waits or is about to. -/
structure Roused (n : ℕ) (s : ThreadPool) : Prop where
  stopped : s.stopper ≠ .idle → s.isStarted = false
  roused : Notified s → ∀ w < n, s.worker w ≠ .tested ∧ s.worker w ≠ .waiting

/-- Nobody waits who is roused. -/
theorem Roused.not_stuck (h : Roused n s) : ¬Stuck n s := by
  rintro ⟨hnotified, -, w, hw, hwaiting⟩
  exact (h.roused hnotified w hw).2 hwaiting

/-- A worker that goes on, but not to a wait. -/
theorem Roused.goTo (h : Roused n s) (hstarted : s'.isStarted = s.isStarted)
    (hstopper : s'.stopper = s.stopper) (hworker : s'.worker = Function.update s.worker w p)
    (hp : Notified s → p ≠ .tested ∧ p ≠ .waiting) : Roused n s' where
  stopped := by
    rw [hstopper, hstarted]
    exact h.stopped
  roused := by
    intro hnotified w' hw'
    rw [Notified, hstopper] at hnotified
    rw [hworker]
    by_cases hne : w' = w
    · rw [hne, Function.update_self]
      exact hp hnotified
    · rw [Function.update_of_ne hne]
      exact h.roused hnotified w' hw'

/-- Every step of a worker leaves the workers roused. -/
theorem Roused.work (h : Roused n s) (hw : w < n) (hstep : s.work w = some s') : Roused n s' := by
  unfold ThreadPool.work at hstep
  cases hp : s.worker w with
  | testing =>
    rw [hp] at hstep
    cases hstep
    refine h.goTo rfl rfl rfl fun _ => ?_
    split <;> exact ⟨nofun, nofun⟩
  | testingEmpty =>
    rw [hp] at hstep
    cases hstep
    refine h.goTo rfl rfl rfl fun _ => ?_
    split <;> exact ⟨nofun, nofun⟩
  | taking =>
    rw [hp] at hstep
    unfold ThreadPool.take at hstep
    dsimp only at hstep
    by_cases howner : s.owner ≠ none
    · rw [if_pos howner] at hstep
      cases hstep
    rw [if_neg howner] at hstep
    split at hstep
    · cases hstep
      exact h.goTo rfl rfl rfl fun _ => ⟨nofun, nofun⟩
    · cases hstep
      split
      · next hstarted =>
        refine h.goTo (p := .tested) rfl rfl rfl fun hnotified => ?_
        rw [h.stopped hnotified.1] at hstarted
        cases hstarted
      · exact h.goTo rfl rfl rfl fun _ => ⟨nofun, nofun⟩
  | tested =>
    rw [hp] at hstep
    cases hstep
    exact h.goTo (p := .waiting) rfl rfl rfl fun hnotified => absurd hp (h.roused hnotified w hw).1
  | waiting =>
    rw [hp] at hstep
    cases hstep
  | running task =>
    rw [hp] at hstep
    cases hstep
    exact h.goTo rfl rfl rfl fun _ => ⟨nofun, nofun⟩
  | exited =>
    rw [hp] at hstep
    cases hstep

/-- After `notify_all`, nobody waits. -/
theorem notifyAll_ne_waiting (worker : ℕ → Worker) (w : ℕ) : notifyAll worker w ≠ .waiting := by
  unfold notifyAll
  split
  · nofun
  · assumption

/-- The steps of `stop` leave the workers roused, under the condition. -/
theorem Roused.stop (h : Roused n s) (hc : NotifiesAfterTest n s .stop)
    (hstep : s.stop n = some s') : Roused n s' := by
  unfold ThreadPool.stop at hstep
  cases hp : s.stopper with
  | idle =>
    rw [hp] at hstep
    cases hstep
    exact ⟨fun _ => rfl, fun hnotified => absurd rfl hnotified.2⟩
  | cleared =>
    rw [hp] at hstep
    cases hstep
    refine ⟨fun _ => h.stopped (by rw [hp]; nofun), fun _ w hw => ⟨?_, notifyAll_ne_waiting _ w⟩⟩
    have htested := hc rfl hp w hw
    show notifyAll s.worker w ≠ .tested
    unfold notifyAll
    split
    · nofun
    · exact htested
  | joining i =>
    have hnotified : Notified s := ⟨by rw [hp]; nofun, by rw [hp]; nofun⟩
    have hstop := h.stopped hnotified.1
    rw [hp] at hstep
    dsimp only at hstep
    split_ifs at hstep
    · cases hstep
      exact ⟨fun _ => hstop, fun _ => h.roused hnotified⟩
    · cases hstep
      exact ⟨fun _ => hstop, fun _ => h.roused hnotified⟩
  | returned =>
    rw [hp] at hstep
    cases hstep

/-- Every step that meets the condition leaves the workers roused. -/
theorem Roused.next (h : Roused n s) {a : Action} (hc : NotifiesAfterTest n s a)
    (hstep : next n s a = some s') : Roused n s' := by
  cases a with
  | addTask task wake =>
    have hstep : s.addTask n task wake = some s' := hstep
    unfold ThreadPool.addTask at hstep
    split_ifs at hstep with howner hstarted hnotifies
    · have hidle : s.stopper = .idle := by
        by_contra hne
        rw [h.stopped hne] at hstarted
        cases hstarted
      cases wake with
      | none =>
        cases hstep
        exact ⟨h.stopped, h.roused⟩
      | some w =>
        cases hstep
        exact h.goTo (p := .taking) (w := w) rfl rfl rfl fun hnotified => absurd hidle hnotified.1
    · cases hstep
      exact h
  | stop => exact h.stop hc hstep
  | work w =>
    unfold ThreadPool.next at hstep
    dsimp only at hstep
    split_ifs at hstep with hw
    exact h.work hw hstep
  | wakeUp w =>
    unfold ThreadPool.next at hstep
    dsimp only at hstep
    split_ifs at hstep with hw
    cases hstep
    exact h.goTo (p := .taking) (w := w) rfl rfl rfl fun _ => ⟨nofun, nofun⟩

/-- Roused workers stay awake for one more step, whatever it is. -/
theorem Roused.awake (h : Roused n s) : Awake n s := by
  refine ⟨h.not_stuck, fun a s' hstep => ?_⟩
  by_cases hc : NotifiesAfterTest n s a
  · exact (h.next hc hstep).not_stuck
  · simp only [NotifiesAfterTest, Classical.not_imp] at hc
    obtain ⟨rfl, hcleared, -⟩ := hc
    have hstep : s.stop n = some s' := hstep
    rw [ThreadPool.stop, hcleared] at hstep
    cases hstep
    rintro ⟨-, -, w, -, hwaiting⟩
    exact notifyAll_ne_waiting _ w hwaiting

/-- A `notify_all` that comes between the test and the wait of a worker lets it sleep. -/
theorem not_awake_of_violation (h : Roused n s) {a : Action} (hbad : ¬NotifiesAfterTest n s a)
    (hstep : next n s a = some s') : ¬Awake n s' := by
  rintro ⟨-, hawake⟩
  simp only [NotifiesAfterTest, Classical.not_imp, not_forall, not_not] at hbad
  obtain ⟨rfl, hcleared, w, hw, htested⟩ := hbad
  have hstep : s.stop n = some s' := hstep
  rw [ThreadPool.stop, hcleared] at hstep
  cases hstep
  have hstop : s.isStarted = false := h.stopped (by rw [hcleared]; nofun)
  have hstill : notifyAll s.worker w = .tested := by
    unfold notifyAll
    rw [if_neg (by rw [htested]; nofun), htested]
  have hwork : ThreadPool.next n { s with worker := notifyAll s.worker, stopper := .joining 0 }
      (.work w) = some ({ s with worker := notifyAll s.worker, stopper := .joining 0, owner := none }.goTo w
        .waiting) := by
    rw [ThreadPool.next, if_pos hw, ThreadPool.work]
    simp only [hstill]
  refine hawake _ _ hwork ⟨⟨nofun, nofun⟩, hstop, w, hw, ?_⟩
  exact Function.update_self (β := fun _ => Worker) _ _ _

/-- In a run of a pool that has just been started, no state is reached, and none is one step
away, in which `stop` has notified for good and a worker sleeps, exactly when `notify_all`
is never issued between the test and the wait of a worker. -/
theorem awake_iff_notifiesAfterTest {n : ℕ} {s : ThreadPool} {trace : List (ThreadPool × Action)}
    (hrun : (machine n).Run {} trace s) :
    (∀ u ∈ Machine.visited trace s, Awake n u) ↔
      ∀ step ∈ trace, NotifiesAfterTest n step.1 step.2 :=
  hrun.forall_visited_iff (I := Roused n) (C := NotifiesAfterTest n) (fun _ h => h.awake)
    (fun _ _ _ h hc hstep => h.next hc hstep)
    (fun _ _ _ h hbad hstep => not_awake_of_violation h hbad hstep)
    ⟨nofun, fun hnotified => absurd rfl hnotified.1⟩

/-- The steps after which a worker that waits has been notified. -/
def notifying : List Action := [.work 0, .work 0, .work 0, .stop, .stop]

/-- A worker that waits is notified. -/
theorem awake_iff_notifiesAfterTest_notified :
    ∃ s, (machine 1).Run {} (Machine.traceOf (next 1) {} notifying) s ∧
      s.worker 0 = .taking ∧
      ∀ u ∈ Machine.visited (Machine.traceOf (next 1) {} notifying) s, Awake 1 u := by
  have hrun : (machine 1).Run {} (Machine.traceOf (next 1) {} notifying)
      ((notifying.foldlM (next 1) {}).getD {}) := .of_foldlM rfl
  exact ⟨_, hrun, by decide, (awake_iff_notifiesAfterTest hrun).mpr (by decide)⟩

/-- The state in which a worker sleeps that tested the condition before `stop` cleared the
flag and notified. -/
def sleeping : ThreadPool where
  isStarted := false
  worker := Function.update (notifyAll
    (Function.update (Function.update (fun _ => .testing) 0 .taking) 0 .tested)) 0 .waiting
  stopper := .joining 0

/-- A worker tests the condition, `stop` clears the flag and notifies, and then the worker
waits. -/
theorem sleeping_not_awake : (machine 1).Reachable sleeping ∧ Stuck 1 sleeping := by
  have hinit : (machine 1).Reachable {} := .of_init rfl
  have hrun : [.work 0, .work 0, .stop, .stop, .work 0].foldlM (next 1) {} = some sleeping := rfl
  exact ⟨hinit.of_foldlM hrun, ⟨by decide, by decide⟩, rfl, 0, by decide, by decide⟩

end ThreadPool

end DuoDuo.Timers
