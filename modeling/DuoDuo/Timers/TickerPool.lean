import DuoDuo.Timers.ThreadPool
import Mathlib.Algebra.Order.BigOperators.Group.Finset

/-!
# Tickers on the thread pool

`Timer::start` gives the pool one task for each ticker. Such a task loops until
`Ticker::stop` clears the flag, so it keeps its worker for itself. The functions of the
timer's tasks go to the same pool, behind the tickers. The tickers are the tasks with the
numbers below `tickers`.
-/

namespace DuoDuo.Timers

open Library ThreadPool

/-- A timer as far as its pool is concerned. -/
structure TickerPool where
  pool : ThreadPool := {}
  startFlag : Bool := true
  /-- The tickers that `start` has given to the pool. -/
  started : ℕ := 0

/-- The steps. A call of `addTask` notifies a worker, if one waits. -/
inductive TickerPoolAction
  /-- An iteration of the loop of `Timer::start`. -/
  | start (wake : Option ℕ)
  /-- `addTimerTaskEntry` gives the pool a function. -/
  | addTask (function : ℕ) (wake : Option ℕ)
  /-- A step of a worker. -/
  | work (w : ℕ)
  /-- A spurious wakeup. -/
  | wakeUp (w : ℕ)
  /-- `Ticker::stop`. -/
  | stopTicker
  /-- The next step of `ThreadPool::stop`. -/
  | stopPool
  deriving DecidableEq, Repr

namespace TickerPool

/-- A worker is in the loop of `startTick`, and the loop goes on. -/
def Ticks (tickers : ℕ) (s : TickerPool) (w : ℕ) : Prop :=
  s.startFlag ∧ match s.pool.worker w with
    | .running task => task < tickers
    | _ => False

instance (tickers : ℕ) (s : TickerPool) (w : ℕ) : Decidable (s.Ticks tickers w) := by
  unfold Ticks
  cases s.pool.worker w <;> infer_instance

/-- A step of the pool. -/
def withPool (s : TickerPool) (pool : Option ThreadPool) : Option TickerPool :=
  pool.map fun pool => { s with pool }

/-- One step of a timer with so many workers and tickers. -/
def next (n tickers : ℕ) (s : TickerPool) : TickerPoolAction → Option TickerPool
  | .start wake =>
    if s.started < tickers then
      { s with started := s.started + 1 }.withPool
        (s.pool.next n (.addTask s.started wake))
    else none
  | .addTask function wake => s.withPool (s.pool.next n (.addTask (tickers + function) wake))
  | .work w => if s.Ticks tickers w then none else s.withPool (s.pool.next n (.work w))
  | .wakeUp w => s.withPool (s.pool.next n (.wakeUp w))
  | .stopTicker => some { s with startFlag := false }
  | .stopPool => s.withPool (s.pool.next n .stop)

/-- The machine of a timer that has just been constructed. -/
def machine (n tickers : ℕ) : Machine TickerPool TickerPoolAction :=
  Machine.ofNext (· = {}) (next n tickers)

/-- A step of one of the workers. -/
def Works (n tickers : ℕ) (s t : TickerPool) : Prop := ∃ w, next n tickers s (.work w) = some t

/-- The workers can go on so that a task is executed, without any other step. -/
def Executes (n tickers : ℕ) (s : TickerPool) (task : ℕ) : Prop :=
  ∃ t, Relation.ReflTransGen (Works n tickers) s t ∧ task ∈ t.pool.executed

end TickerPool

namespace ThreadPool

/-- A worker that is about to take a task counts as one. -/
def Worker.takes : Worker → ℕ
  | .taking => 1
  | _ => 0

/-- The mutex is held between two steps only by a worker that found no task. While one
worker waits, there are at least as many workers about to take a task as there are tasks. -/
structure Alert (n : ℕ) (s : ThreadPool) : Prop where
  owner : ∀ w, s.owner = some w → w < n ∧ s.worker w = .tested
  tested : ∀ w < n, s.worker w = .tested → s.owner = some w ∧ s.tasks = []
  notified : s.isStarted = true → ∀ w < n, s.worker w = .waiting →
    s.tasks.length ≤ ∑ w ∈ Finset.range n, (s.worker w).takes

variable {n : ℕ} {s s' : ThreadPool} {w : ℕ} {p : Worker}

/-- A worker with no task to take leaves the mutex alone. -/
theorem Alert.owner_eq_none (h : Alert n s) (htasks : s.tasks ≠ []) : s.owner = none := by
  cases howner : s.owner with
  | none => rfl
  | some w =>
    obtain ⟨hw, htested⟩ := h.owner w howner
    exact absurd (h.tested w hw htested).2 htasks

/-- The rule of the steps of a worker that neither begin nor end its holding of the mutex. -/
theorem Alert.goTo (h : Alert n s) (hw : w < n)
    (hworker : s'.worker = Function.update s.worker w p) (hstarted : s'.isStarted = s.isStarted)
    (howner : s'.owner = s.owner) (hfrom : s.worker w ≠ .tested)
    (hto : p ≠ .tested ∧ p ≠ .waiting) (htasks : s.owner ≠ none → s'.tasks = s.tasks)
    (hcount : s.isStarted = true →
      s'.tasks.length + (s.worker w).takes ≤ s.tasks.length + p.takes) : Alert n s' := by
  have hother : ∀ w', w' ≠ w → s'.worker w' = s.worker w' := by
    intro w' hne
    rw [hworker, Function.update_of_ne hne]
  have hself : s'.worker w = p := by rw [hworker, Function.update_self]
  refine ⟨?_, ?_, ?_⟩
  · intro w' hw'
    rw [howner] at hw'
    obtain ⟨hlt, htested⟩ := h.owner w' hw'
    refine ⟨hlt, ?_⟩
    rw [hother w' (by rintro rfl; exact hfrom htested)]
    exact htested
  · intro w' hw' htested
    have hne : w' ≠ w := by
      rintro rfl
      exact hto.1 (hself ▸ htested)
    rw [hother w' hne] at htested
    obtain ⟨hown, hnone⟩ := h.tested w' hw' htested
    rw [howner, htasks (by rw [hown]; nofun)]
    exact ⟨hown, hnone⟩
  · intro hstart w' hw' hwaiting
    rw [hstarted] at hstart
    have hne : w' ≠ w := by
      rintro rfl
      exact hto.2 (hself ▸ hwaiting)
    rw [hother w' hne] at hwaiting
    have hsum := sum_update_add (Finset.mem_range.mpr hw) Worker.takes s.worker p
    rw [← hworker] at hsum
    have hlen := h.notified hstart w' hw' hwaiting
    have hless := hcount hstart
    omega

/-- `take` keeps the workers alert. -/
theorem Alert.take (h : Alert n s) (hw : w < n) (hp : s.worker w = .taking)
    (hstep : s.take w = some s') : Alert n s' := by
  have hfrom : s.worker w ≠ .tested := by rw [hp]; nofun
  unfold ThreadPool.take at hstep
  by_cases howner : s.owner ≠ none
  · rw [if_pos howner] at hstep
    cases hstep
  rw [if_neg howner] at hstep
  rw [not_not] at howner
  cases htasks : s.tasks with
  | cons task tasks =>
    rw [htasks] at hstep
    cases hstep
    refine h.goTo hw rfl rfl rfl hfrom ⟨nofun, nofun⟩ (fun hne => absurd howner hne) fun _ => ?_
    rw [hp, htasks]
    exact le_rfl
  | nil =>
    rw [htasks] at hstep
    dsimp only at hstep
    cases hstep
    cases hstarted : s.isStarted with
    | false =>
      refine h.goTo (p := .testing) hw rfl rfl rfl hfrom ⟨nofun, nofun⟩
        (fun hne => absurd howner hne) fun htrue => ?_
      rw [hstarted] at htrue
      cases htrue
    | true =>
      -- the worker takes the mutex, and there is no task
      rw [if_pos rfl]
      refine ⟨?_, ?_, ?_⟩
      · rintro w' hw'
        cases hw'
        exact ⟨hw, Function.update_self (β := fun _ => Worker) _ _ _⟩
      · intro w' hw' htested
        by_cases hne : w' = w
        · exact ⟨by rw [hne]; rfl, rfl⟩
        · have hold : Function.update s.worker w .tested w' = .tested := htested
          rw [Function.update_of_ne hne] at hold
          have hown := (h.tested w' hw' hold).1
          rw [howner] at hown
          cases hown
      · intro _ _ _ _
        exact Nat.zero_le _

/-- Every step of a worker keeps the workers alert. -/
theorem Alert.work (h : Alert n s) (hw : w < n) (hstep : s.work w = some s') : Alert n s' := by
  unfold ThreadPool.work at hstep
  cases hp : s.worker w with
  | testing =>
    rw [hp] at hstep
    cases hstep
    refine h.goTo hw rfl rfl rfl (by rw [hp]; nofun) ?_ (fun _ => rfl) fun hstarted => ?_
    · split <;> exact ⟨nofun, nofun⟩
    · rw [hp, hstarted]
      exact Nat.le_succ _
  | testingEmpty =>
    rw [hp] at hstep
    cases hstep
    refine h.goTo hw rfl rfl rfl (by rw [hp]; nofun) ?_ (fun _ => rfl) fun _ => ?_
    · split <;> exact ⟨nofun, nofun⟩
    · rw [hp]
      exact Nat.add_le_add_left (Nat.zero_le _) _
  | taking =>
    rw [hp] at hstep
    exact h.take hw hp hstep
  | tested =>
    rw [hp] at hstep
    cases hstep
    obtain ⟨hown, hnone⟩ := h.tested w hw hp
    refine ⟨nofun, ?_, ?_⟩
    · intro w' hw' htested
      have hold : Function.update s.worker w .waiting w' = .tested := htested
      by_cases hne : w' = w
      · rw [hne, Function.update_self] at hold
        cases hold
      · rw [Function.update_of_ne hne] at hold
        have hown' := (h.tested w' hw' hold).1
        rw [hown] at hown'
        exact absurd (Option.some.inj hown').symm hne
    · intro _ _ _ _
      show s.tasks.length ≤ _
      rw [hnone]
      exact Nat.zero_le _
  | waiting =>
    rw [hp] at hstep
    cases hstep
  | running task =>
    rw [hp] at hstep
    cases hstep
    refine h.goTo (p := .testing) hw rfl rfl rfl (by rw [hp]; nofun) ⟨nofun, nofun⟩
      (fun _ => rfl) fun _ => ?_
    rw [hp]
    exact le_rfl
  | exited =>
    rw [hp] at hstep
    cases hstep

/-- `addTask` notifies a worker for the task that it adds. -/
theorem Alert.addTask (h : Alert n s) {task : ℕ} {wake : Option ℕ}
    (hstep : s.addTask n task wake = some s') : Alert n s' := by
  unfold ThreadPool.addTask at hstep
  split_ifs at hstep with howner hstarted hnotifies
  · rw [not_not] at howner
    cases wake with
    | none =>
      cases hstep
      refine ⟨h.owner, ?_, fun _ w hw hwaiting => absurd hwaiting (hnotifies w hw)⟩
      intro w hw htested
      have hown := (h.tested w hw htested).1
      rw [howner] at hown
      cases hown
    | some w =>
      cases hstep
      refine h.goTo (p := .taking) hnotifies.1 rfl rfl rfl (by rw [hnotifies.2]; nofun)
        ⟨nofun, nofun⟩ (fun hne => absurd howner hne) fun _ => ?_
      rw [hnotifies.2]
      show (s.tasks ++ [task]).length + 0 ≤ _
      rw [List.length_append]
      exact le_rfl
  · cases hstep
    exact h

/-- `notifyAll` wakes those that wait, and no others. -/
theorem notifyAll_eq_tested {worker : ℕ → Worker} :
    notifyAll worker w = .tested ↔ worker w = .tested := by
  unfold notifyAll
  split
  · next hwaiting => rw [hwaiting]; exact ⟨nofun, nofun⟩
  · rfl

/-- The steps of `stop` keep the workers alert. -/
theorem Alert.stop (h : Alert n s) (hstep : s.stop n = some s') : Alert n s' := by
  unfold ThreadPool.stop at hstep
  cases hp : s.stopper with
  | idle =>
    rw [hp] at hstep
    cases hstep
    exact ⟨h.owner, h.tested, nofun⟩
  | cleared =>
    rw [hp] at hstep
    cases hstep
    refine ⟨fun w hw => ?_, fun w hw htested => ?_, fun _ w _ hwaiting => ?_⟩
    · exact ⟨(h.owner w hw).1, notifyAll_eq_tested.mpr (h.owner w hw).2⟩
    · exact h.tested w hw (notifyAll_eq_tested.mp htested)
    · exact absurd hwaiting (notifyAll_ne_waiting _ w)
  | joining i =>
    rw [hp] at hstep
    dsimp only at hstep
    split_ifs at hstep
    · cases hstep
      exact ⟨h.owner, h.tested, h.notified⟩
    · cases hstep
      exact ⟨h.owner, h.tested, h.notified⟩
  | returned =>
    rw [hp] at hstep
    cases hstep

/-- Every step keeps the workers alert. -/
theorem Alert.next (h : Alert n s) {a : Action} (hstep : next n s a = some s') : Alert n s' := by
  cases a with
  | addTask task wake => exact h.addTask hstep
  | stop => exact h.stop hstep
  | work w =>
    unfold ThreadPool.next at hstep
    dsimp only at hstep
    split_ifs at hstep with hw
    exact h.work hw hstep
  | wakeUp w =>
    unfold ThreadPool.next at hstep
    dsimp only at hstep
    split_ifs at hstep with hw
    cases hstep
    refine h.goTo (p := .taking) hw.1 rfl rfl rfl (by rw [hw.2]; nofun) ⟨nofun, nofun⟩
      (fun _ => rfl) fun _ => ?_
    rw [hw.2]
    exact Nat.le_succ _

/-- A pool that has just been started is alert. -/
theorem alert_init (n : ℕ) : Alert n {} := ⟨nofun, nofun, nofun⟩

end ThreadPool

namespace TickerPool

/-- The tasks of a multiset that are tickers. -/
def tickersIn (tickers : ℕ) (tasks : Multiset ℕ) : ℕ := tasks.countP (· < tickers)

/-- What holds of a timer in every state that is reached. -/
structure Inv (n tickers : ℕ) (s : TickerPool) : Prop where
  pool : ThreadPool.Inv n s.pool
  alert : Alert n s.pool
  started : s.started ≤ tickers
  accepted : tickersIn tickers s.pool.accepted ≤ s.started

variable {n tickers : ℕ} {s t : TickerPool} {w : ℕ} {p : ThreadPool}

/-- A step of the pool that does not count on a new ticker. -/
theorem Inv.of_next (h : s.Inv n tickers) {a : ThreadPool.Action}
    (hstep : s.pool.next n a = some p) {started : ℕ} (hstarted : started ≤ tickers)
    (haccepted : tickersIn tickers p.accepted ≤ started) {startFlag : Bool} :
    Inv n tickers { pool := p, startFlag, started } :=
  ⟨h.pool.next hstep, h.alert.next hstep, hstarted, haccepted⟩

/-- The tickers of two multisets together. -/
theorem tickersIn_add (tasks tasks' : Multiset ℕ) :
    tickersIn tickers (tasks + tasks') = tickersIn tickers tasks + tickersIn tickers tasks' :=
  Multiset.countP_add _ _ _

/-- One more task is one more ticker, or none. -/
theorem tickersIn_append (tasks : List ℕ) (task : ℕ) :
    tickersIn tickers ((tasks ++ [task] : List ℕ) : Multiset ℕ) =
      tickersIn tickers tasks + if task < tickers then 1 else 0 := by
  simp [tickersIn, List.countP_append, List.countP_singleton]

/-- A step of the pool, of a timer. -/
theorem withPool_eq_some {pool : Option ThreadPool} (h : s.withPool pool = some t) :
    ∃ p, pool = some p ∧ t = { s with pool := p } := by
  obtain ⟨p, hp, rfl⟩ := Option.map_eq_some_iff.mp h
  exact ⟨p, hp, rfl⟩

/-- Every step keeps the invariant. -/
theorem Inv.next (h : s.Inv n tickers) {a : TickerPoolAction}
    (hstep : next n tickers s a = some t) : t.Inv n tickers := by
  cases a with
  | start wake =>
    unfold TickerPool.next at hstep
    dsimp only at hstep
    split_ifs at hstep with hless
    obtain ⟨p, hp, rfl⟩ := withPool_eq_some hstep
    refine h.of_next hp hless ?_
    rcases (addTask_frame hp).2 with ⟨-, haccepted⟩ | ⟨-, haccepted⟩
    · rw [haccepted, tickersIn_append, if_pos hless]
      exact Nat.succ_le_succ h.accepted
    · rw [haccepted]
      exact h.accepted.trans (Nat.le_succ _)
  | addTask function wake =>
    obtain ⟨p, hp, rfl⟩ := withPool_eq_some hstep
    refine h.of_next hp h.started ?_
    rcases (addTask_frame hp).2 with ⟨-, haccepted⟩ | ⟨-, haccepted⟩
    · rw [haccepted, tickersIn_append, if_neg (by omega)]
      exact h.accepted
    · rw [haccepted]
      exact h.accepted
  | work w =>
    unfold TickerPool.next at hstep
    dsimp only at hstep
    split_ifs at hstep
    obtain ⟨p, hp, rfl⟩ := withPool_eq_some hstep
    exact h.of_next hp h.started (by rw [(next_frame hp nofun).1]; exact h.accepted)
  | wakeUp w =>
    obtain ⟨p, hp, rfl⟩ := withPool_eq_some hstep
    exact h.of_next hp h.started (by rw [(next_frame hp nofun).1]; exact h.accepted)
  | stopTicker =>
    cases hstep
    exact ⟨h.pool, h.alert, h.started, h.accepted⟩
  | stopPool =>
    obtain ⟨p, hp, rfl⟩ := withPool_eq_some hstep
    exact h.of_next hp h.started (by rw [(next_frame hp nofun).1]; exact h.accepted)

/-- The invariant holds of a timer that has just been constructed. -/
theorem inv_init (n tickers : ℕ) : Inv n tickers {} :=
  ⟨ThreadPool.inv_init n, alert_init n, Nat.zero_le _, le_rfl⟩

/-- With fewer tickers than workers, there is a worker without a ticker. -/
theorem Inv.exists_free (h : s.Inv n tickers) (hn : tickers < n) :
    ∃ w < n, ∀ task < tickers, s.pool.worker w ≠ .running task := by
  by_contra hall
  push Not at hall
  have hshare : ∀ w ∈ Finset.range n, tickersIn tickers (s.pool.worker w).held = 1 := by
    intro w hw
    obtain ⟨task, htask, hrunning⟩ := hall w (Finset.mem_range.mp hw)
    rw [hrunning]
    exact Multiset.countP_cons_of_pos (p := (· < tickers)) 0 htask
  have hsum : tickersIn tickers (∑ w ∈ Finset.range n, (s.pool.worker w).held) = n := by
    calc tickersIn tickers (∑ w ∈ Finset.range n, (s.pool.worker w).held)
        = ∑ w ∈ Finset.range n, tickersIn tickers (s.pool.worker w).held :=
          map_sum (Multiset.countPAddMonoidHom (· < tickers)) _ _
      _ = n := by rw [Finset.sum_congr rfl hshare, ← Finset.card_eq_sum_ones, Finset.card_range]
  have haccepted := h.accepted
  rw [← h.pool.tasks, tickersIn_add, tickersIn_add, hsum] at haccepted
  have hstarted := h.started
  omega

/-- A worker that does not run a ticker takes its next step. -/
theorem works_of_work (hw : w < n) (hfree : ∀ task < tickers, s.pool.worker w ≠ .running task)
    (hwork : s.pool.work w = some p) : Works n tickers s { s with pool := p } := by
  refine ⟨w, ?_⟩
  have hnot : ¬s.Ticks tickers w := by
    rintro ⟨-, hticks⟩
    split at hticks
    · next task hrunning => exact hfree task hticks hrunning
    · exact hticks
  rw [next, if_neg hnot, ThreadPool.next, if_pos hw, hwork]
  rfl

/-- A step of a worker is a step of the pool. -/
theorem Works.exists_work (h : Works n tickers s t) : ∃ w < n, ∃ p, ¬s.Ticks tickers w ∧
    s.pool.work w = some p ∧ t = { s with pool := p } := by
  obtain ⟨w, hstep⟩ := h
  unfold next at hstep
  dsimp only at hstep
  split_ifs at hstep with hticks
  obtain ⟨p, hp, rfl⟩ := withPool_eq_some hstep
  unfold ThreadPool.next at hp
  dsimp only at hp
  split_ifs at hp with hw
  exact ⟨w, hw, p, hticks, hp, rfl⟩

/-- The steps of the workers keep the invariant, and the pool goes on. -/
theorem Inv.works (h : s.Inv n tickers) (hstarted : s.pool.isStarted = true)
    (hworks : Works n tickers s t) : t.Inv n tickers ∧ t.pool.isStarted = true := by
  refine ⟨h.next hworks.choose_spec, ?_⟩
  obtain ⟨w, -, p, -, hp, rfl⟩ := hworks.exists_work
  exact (work_frame hp).1.trans hstarted

/-- As `Inv.works`, for a run of the workers. -/
theorem Inv.worksMany (h : s.Inv n tickers) (hstarted : s.pool.isStarted = true)
    (hworks : Relation.ReflTransGen (Works n tickers) s t) :
    t.Inv n tickers ∧ t.pool.isStarted = true := by
  induction hworks with
  | refl => exact ⟨h, hstarted⟩
  | tail _ hstep ih => exact ih.1.works ih.2 hstep

/-- A worker that is about to take a task takes the first one. -/
theorem Inv.exists_take (h : s.Inv n tickers) (hw : w < n) (hp : s.pool.worker w = .taking)
    {task : ℕ} {tasks : List ℕ} (htasks : s.pool.tasks = task :: tasks) :
    ∃ t, Works n tickers s t ∧ t.pool.tasks = tasks ∧ t.pool.worker w = .running task := by
  have hne : s.pool.tasks ≠ [] := by
    rw [htasks]
    exact List.cons_ne_nil _ _
  have howner : s.pool.owner = none := h.alert.owner_eq_none hne
  have hwork : s.pool.work w = some ({ s.pool with tasks }.goTo w (.running task)) := by
    simp only [ThreadPool.work, hp, ThreadPool.take, htasks]
    exact if_neg (not_not.mpr howner)
  exact ⟨_, works_of_work hw (by rw [hp]; rintro _ _ ⟨⟩) hwork, rfl,
    Function.update_self (β := fun _ => Worker) _ _ _⟩

/-- While the pool is started, a worker that tests the flag goes on to take a task. -/
theorem Inv.exists_test (h : s.Inv n tickers) (hstarted : s.pool.isStarted = true) (hw : w < n)
    (hp : s.pool.worker w = .testing) {task : ℕ} {tasks : List ℕ}
    (htasks : s.pool.tasks = task :: tasks) :
    ∃ t, Relation.ReflTransGen (Works n tickers) s t ∧ t.pool.tasks = tasks ∧
      t.pool.worker w = .running task := by
  have hwork : s.pool.work w = some (s.pool.goTo w .taking) := by
    simp only [ThreadPool.work, hp, hstarted, if_true]
  have hworks : Works n tickers s { s with pool := s.pool.goTo w .taking } :=
    works_of_work hw (by rw [hp]; rintro _ _ ⟨⟩) hwork
  obtain ⟨t, ht, htail, hrunning⟩ := (h.works hstarted hworks).1.exists_take hw
    (Function.update_self (β := fun _ => Worker) _ _ _) htasks
  exact ⟨t, .head hworks (.single ht), htail, hrunning⟩

/-- A worker finishes a function. -/
theorem works_execute (hw : w < n) {task : ℕ} (hp : s.pool.worker w = .running task)
    (htask : tickers ≤ task) : Works n tickers s { s with
      pool := { s.pool with executed := s.pool.executed ++ [task] }.goTo w .testing } := by
  refine works_of_work hw ?_ (by rw [ThreadPool.work, hp])
  intro task' hless hrunning
  rw [hp] at hrunning
  cases hrunning
  omega

/-- With fewer tickers than workers, the first task can be taken. -/
theorem Inv.exists_first (h : s.Inv n tickers) (hstarted : s.pool.isStarted = true)
    (hn : tickers < n) {task : ℕ} {tasks : List ℕ} (htasks : s.pool.tasks = task :: tasks) :
    ∃ t, Relation.ReflTransGen (Works n tickers) s t ∧ t.pool.tasks = tasks ∧
      ∃ w < n, t.pool.worker w = .running task := by
  obtain ⟨w, hw, hfree⟩ := h.exists_free hn
  cases hp : s.pool.worker w with
  | testing =>
    obtain ⟨t, ht, htail, hrunning⟩ := h.exists_test hstarted hw hp htasks
    exact ⟨t, ht, htail, w, hw, hrunning⟩
  | taking =>
    obtain ⟨t, ht, htail, hrunning⟩ := h.exists_take hw hp htasks
    exact ⟨t, .single ht, htail, w, hw, hrunning⟩
  | running function =>
    -- the worker finishes its function first
    have hfunction : tickers ≤ function := not_lt.mp fun hless => hfree function hless hp
    have hworks := works_execute hw hp hfunction
    obtain ⟨hinv, hstarted'⟩ := h.works hstarted hworks
    obtain ⟨t, ht, htail, hrunning⟩ := hinv.exists_test hstarted' hw
      (Function.update_self (β := fun _ => Worker) _ _ _) htasks
    exact ⟨t, .head hworks ht, htail, w, hw, hrunning⟩
  | waiting =>
    -- somebody else was notified for the first task
    have hcount := h.alert.notified hstarted w hw hp
    rw [htasks] at hcount
    have hpos : 0 < ∑ w ∈ Finset.range n, (s.pool.worker w).takes :=
      (Nat.succ_pos _).trans_le hcount
    obtain ⟨w', hw', htakes⟩ := Finset.exists_ne_zero_of_sum_ne_zero hpos.ne'
    have hw' : w' < n := Finset.mem_range.mp hw'
    have hp' : s.pool.worker w' = .taking := by
      cases hp' : s.pool.worker w' <;> rw [hp'] at htakes <;> first | rfl | exact absurd rfl htakes
    obtain ⟨t, ht, htail, hrunning⟩ := h.exists_take hw' hp' htasks
    exact ⟨t, .single ht, htail, w', hw', hrunning⟩
  | tested =>
    have hnone := (h.alert.tested w hw hp).2
    rw [htasks] at hnone
    cases hnone
  | testingEmpty =>
    have hstop := h.pool.testingEmpty w hw hp
    rw [hstarted] at hstop
    cases hstop
  | exited =>
    have hstop := (h.pool.exited w hw hp).1
    rw [hstarted] at hstop
    cases hstop

/-- With fewer tickers than workers, a function that was not yet taken can be executed. -/
theorem Inv.executes (hn : tickers < n) {tasks : List ℕ} {task : ℕ} (htask : tickers ≤ task) :
    ∀ {s : TickerPool}, s.Inv n tickers → s.pool.isStarted = true → s.pool.tasks = tasks →
      task ∈ tasks → s.Executes n tickers task := by
  induction tasks with
  | nil => nofun
  | cons first rest ih =>
    intro s h hstarted htasks hmem
    obtain ⟨t, ht, htail, w, hw, hrunning⟩ := h.exists_first hstarted hn htasks
    obtain ⟨hinv, hstarted'⟩ := h.worksMany hstarted ht
    rcases List.mem_cons.mp hmem with rfl | hrest
    · exact ⟨_, ht.tail (works_execute hw hrunning htask),
        List.mem_append_right _ (List.mem_singleton_self _)⟩
    · obtain ⟨u, hu, hexecuted⟩ := ih hinv hstarted' htail hrest
      exact ⟨u, ht.trans hu, hexecuted⟩

/-- A worker that runs a task counts as one. -/
def runs : Worker → ℕ
  | .running _ => 1
  | _ => 0

/-- The number of workers that run a task. -/
def busy (n : ℕ) (s : TickerPool) : ℕ := ∑ w ∈ Finset.range n, runs (s.pool.worker w)

/-- The tickers run, in the order of `start`, and a function waits behind those that do
not run yet. -/
structure Starved (n tickers : ℕ) (s : TickerPool) : Prop where
  startFlag : s.startFlag = true
  executed : s.pool.executed = []
  tasks : s.pool.tasks = List.range' (s.busy n) (tickers - s.busy n) ++ [tickers]
  running : ∀ w < n, ∀ task, s.pool.worker w = .running task → task < tickers

/-- No more workers run than there are. -/
theorem busy_le (n : ℕ) (s : TickerPool) : s.busy n ≤ n := by
  have hone : ∀ p : Worker, runs p ≤ 1 := by
    intro p
    cases p <;> first | exact le_rfl | exact Nat.zero_le _
  calc s.busy n ≤ ∑ _w ∈ Finset.range n, 1 := Finset.sum_le_sum fun w _ => hone _
    _ = n := by rw [← Finset.card_eq_sum_ones, Finset.card_range]

/-- A worker that goes on, and runs no task after it. -/
theorem Starved.goTo (h : s.Starved n tickers) {q : Worker}
    (hworker : p.worker = Function.update s.pool.worker w q)
    (hexecuted : p.executed = s.pool.executed) (htasks : p.tasks = s.pool.tasks)
    (hq : ∀ task, q ≠ .running task) (hruns : runs q = runs (s.pool.worker w)) :
    Starved n tickers { s with pool := p } := by
  have hbusy : busy n { s with pool := p } = s.busy n := by
    show ∑ w ∈ Finset.range n, runs (p.worker w) = _
    rw [hworker]
    exact sum_update_same runs hruns
  refine ⟨h.startFlag, hexecuted.trans h.executed, ?_, ?_⟩
  · rw [hbusy]
    exact htasks.trans h.tasks
  · intro w' hw' task hrunning
    have hrunning : p.worker w' = .running task := hrunning
    rw [hworker] at hrunning
    by_cases hne : w' = w
    · rw [hne, Function.update_self] at hrunning
      exact absurd hrunning (hq task)
    · rw [Function.update_of_ne hne] at hrunning
      exact h.running w' hw' task hrunning

/-- While there is a ticker for every worker, a worker that takes a task takes a ticker. -/
theorem Starved.take (h : s.Starved n tickers) (hn : n ≤ tickers) (hw : w < n)
    (hp : s.pool.worker w = .taking) (hstep : s.pool.take w = some p) :
    Starved n tickers { s with pool := p } := by
  unfold ThreadPool.take at hstep
  by_cases howner : s.pool.owner ≠ none
  · rw [if_pos howner] at hstep
    cases hstep
  rw [if_neg howner] at hstep
  have hcount : ∀ task, ∑ w' ∈ Finset.range n,
      runs (Function.update s.pool.worker w (.running task) w') = s.busy n + 1 := by
    intro task
    have hsum := sum_update_add (Finset.mem_range.mpr hw) runs s.pool.worker (.running task)
    rw [hp] at hsum
    exact hsum
  have hless : s.busy n < tickers := by
    have hle := busy_le n { s with pool := s.pool.goTo w (.running 0) }
    have hle : ∑ w' ∈ Finset.range n,
        runs (Function.update s.pool.worker w (.running 0) w') ≤ n := hle
    rw [hcount] at hle
    omega
  have hhead : s.pool.tasks =
      s.busy n :: (List.range' (s.busy n + 1) (tickers - (s.busy n + 1)) ++ [tickers]) := by
    rw [h.tasks, show tickers - s.busy n = tickers - (s.busy n + 1) + 1 by omega,
      List.range'_succ, List.cons_append]
  rw [hhead] at hstep
  cases hstep
  set pool := { s.pool with tasks := List.range' (s.busy n + 1) (tickers - (s.busy n + 1)) ++
    [tickers] }
  refine ⟨h.startFlag, h.executed, ?_, ?_⟩
  · have hbusy : busy n { s with pool := pool.goTo w (.running (s.busy n)) } = s.busy n + 1 :=
      hcount _
    rw [hbusy]
    rfl
  · intro w' hw' task hrunning
    have hrunning : Function.update s.pool.worker w (.running (s.busy n)) w' = .running task :=
      hrunning
    by_cases hne : w' = w
    · rw [hne, Function.update_self] at hrunning
      cases hrunning
      exact hless
    · rw [Function.update_of_ne hne] at hrunning
      exact h.running w' hw' task hrunning

/-- The steps of the workers leave the function where it is. -/
theorem Starved.works (h : s.Starved n tickers) (hn : n ≤ tickers)
    (hworks : Works n tickers s t) : t.Starved n tickers := by
  obtain ⟨w, hw, p, hticks, hstep, rfl⟩ := hworks.exists_work
  unfold ThreadPool.work at hstep
  cases hp : s.pool.worker w with
  | testing =>
    rw [hp] at hstep
    cases hstep
    refine h.goTo rfl rfl rfl ?_ ?_
    · split <;> nofun
    · rw [hp]
      split <;> rfl
  | testingEmpty =>
    rw [hp] at hstep
    cases hstep
    refine h.goTo rfl rfl rfl ?_ ?_
    · split <;> nofun
    · rw [hp]
      split <;> rfl
  | taking =>
    rw [hp] at hstep
    exact h.take hn hw hp hstep
  | tested =>
    rw [hp] at hstep
    cases hstep
    exact h.goTo (q := .waiting) rfl rfl rfl nofun (by rw [hp]; rfl)
  | running task =>
    -- it is a ticker, and its loop goes on
    refine absurd ⟨h.startFlag, ?_⟩ hticks
    rw [hp]
    exact h.running w hw task hp
  | waiting =>
    rw [hp] at hstep
    cases hstep
  | exited =>
    rw [hp] at hstep
    cases hstep

/-- As `Starved.works`, for a run of the workers. -/
theorem Starved.worksMany (h : s.Starved n tickers) (hn : n ≤ tickers)
    (hworks : Relation.ReflTransGen (Works n tickers) s t) : t.Starved n tickers := by
  induction hworks with
  | refl => exact h
  | tail _ hstep ih => exact ih.works hn hstep

/-- A pool whose workers have not gone on since its construction. -/
def idle (tasks : List ℕ) : ThreadPool := { tasks, accepted := tasks }

/-- Such a pool accepts a task, and nobody is notified. -/
theorem addTask_idle (n : ℕ) (tasks : List ℕ) (task : ℕ) :
    (idle tasks).next n (.addTask task none) = some (idle (tasks ++ [task])) := by
  have hnotifies : (idle tasks).Notifies n none := fun _ _ => nofun
  show (idle tasks).addTask n task none = _
  rw [ThreadPool.addTask, if_neg (by nofun), if_pos (show (idle tasks).isStarted = true from rfl),
    if_pos hnotifies]
  rfl

/-- The state after so many iterations of the loop of `start`, before the workers go on. -/
def startedAll (k : ℕ) : TickerPool := { pool := idle (List.range k), started := k }

/-- The loop of `start` can run before any worker goes on. -/
theorem reachable_startedAll {k : ℕ} (hk : k ≤ tickers) :
    (machine n tickers).Reachable (startedAll k) := by
  induction k with
  | zero => exact .of_init rfl
  | succ k ih =>
    refine (ih (by omega)).tail (a := .start none) ?_
    have hless : (startedAll k).started < tickers := hk
    show next n tickers (startedAll k) (.start none) = some (startedAll (k + 1))
    rw [next, if_pos hless]
    show withPool _ ((idle (List.range k)).next n (.addTask k none)) = _
    rw [addTask_idle, ← List.range_succ]
    rfl

/-- The first function behind the tickers. -/
def behindTickers (tickers : ℕ) : TickerPool :=
  { pool := idle (List.range tickers ++ [tickers]), started := tickers }

/-- A function can be added before any worker goes on. -/
theorem reachable_behindTickers (n tickers : ℕ) :
    (machine n tickers).Reachable (behindTickers tickers) := by
  refine (reachable_startedAll le_rfl).tail (a := .addTask 0 none) ?_
  show withPool _ ((idle (List.range tickers)).next n (.addTask (tickers + 0) none)) = _
  rw [addTask_idle]
  rfl

/-- It waits behind the tickers. -/
theorem starved_behindTickers (n tickers : ℕ) : (behindTickers tickers).Starved n tickers := by
  have hbusy : (behindTickers tickers).busy n = 0 := Finset.sum_eq_zero fun _ _ => rfl
  refine ⟨rfl, rfl, ?_, nofun⟩
  rw [hbusy, Nat.sub_zero, ← List.range_eq_range']
  rfl

/-- While the pool is started, the workers can always go on to execute every function that
the pool has accepted, exactly when there are fewer tickers than workers. -/
theorem executes_iff_lt (n tickers : ℕ) :
    (∀ s, (machine n tickers).Reachable s → s.pool.isStarted = true →
      ∀ function, tickers + function ∈ s.pool.accepted →
        s.Executes n tickers (tickers + function)) ↔ tickers < n := by
  constructor
  · intro hall
    by_contra hn
    have hmem : tickers + 0 ∈ (behindTickers tickers).pool.accepted :=
      List.mem_append_right _ (List.mem_singleton_self _)
    obtain ⟨t, ht, hexecuted⟩ :=
      hall _ (reachable_behindTickers n tickers) rfl 0 hmem
    have hstarved := (starved_behindTickers n tickers).worksMany (not_lt.mp hn) ht
    rw [hstarved.executed] at hexecuted
    cases hexecuted
  · intro hn s hs hstarted function hmem
    have h : s.Inv n tickers :=
      hs.invariant (fun _ hinit => hinit ▸ inv_init n tickers) fun _ _ _ h hstep => h.next hstep
    have hmem : tickers + function ∈ (s.pool.accepted : Multiset ℕ) := hmem
    rw [← h.pool.tasks, Multiset.mem_add, Multiset.mem_add] at hmem
    rcases hmem with (hexecuted | hheld) | hqueued
    · exact ⟨s, .refl, hexecuted⟩
    · obtain ⟨w, hw, hheld⟩ := Multiset.mem_sum.mp hheld
      cases hp : s.pool.worker w with
      | running task =>
        rw [hp] at hheld
        cases Multiset.mem_singleton.mp hheld
        exact ⟨_, .single (works_execute (Finset.mem_range.mp hw) hp (Nat.le_add_right _ _)),
          List.mem_append_right _ (List.mem_singleton_self _)⟩
      | testing | testingEmpty | taking | tested | waiting | exited =>
        rw [hp] at hheld
        exact absurd hheld (Multiset.notMem_zero _)
    · exact Inv.executes hn (Nat.le_add_right _ _) h hstarted rfl hqueued

end TickerPool

end DuoDuo.Timers
