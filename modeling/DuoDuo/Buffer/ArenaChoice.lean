import DuoDuo.Library.Machine
import Mathlib.Data.Fintype.Basic
import Mathlib.Logic.Function.Basic

/-!
# The choice of an arena

A thread that calls `ALLOCATOR` for the first time looks for the arena with the fewest
thread caches under a lock, but increments the number of its choice in the constructor
of `PoolThreadCache`, without the lock. The numbers are atomic, so every load and every
increment is one step.
-/

namespace DuoDuo.Buffer

open Library

namespace ArenaChoice

/-- Where a thread is. -/
inductive Point
  /-- It has not called `ALLOCATOR`. -/
  | idle
  /-- It has called it, and reads `DEFAULT_ALLOC`. -/
  | calling
  /-- It has found no allocator, and makes one under `m_lockSingleton`. -/
  | creating
  /-- `leastUsedArena` takes `m_arenas[0]` and locks `m_lockThreadcache`. -/
  | locking
  /-- The loop of `leastUsedArena` loads the number of arena `i`. -/
  | loading (i minArena : ℕ)
  /-- It compares this number with that of `minArena`. -/
  | comparing (i minArena number : ℕ)
  /-- The constructor of `PoolThreadCache` increments the number of the arena. -/
  | counting (arena : ℕ)
  /-- The call has returned. -/
  | returned
  deriving DecidableEq

/-- A thread calls `ALLOCATOR` for the first time, or it goes on. -/
inductive Action (T : Type)
  | call (t : T)
  | work (t : T)

end ArenaChoice

open ArenaChoice in
/-- The allocator and the threads. -/
structure ArenaChoice (T : Type) where
  /-- `DEFAULT_ALLOC` is set. -/
  created : Bool := false
  /-- `m_numThreadCaches` of each arena. -/
  numThreadCaches : ℕ → ℕ := fun _ => 0
  /-- The thread that holds `m_lockThreadcache`. -/
  lockThreadcache : Option T := none
  point : T → Point := fun _ => .idle

namespace ArenaChoice

variable {T : Type} [DecidableEq T]

/-- A thread goes on. -/
def goTo (s : ArenaChoice T) (t : T) (p : Point) : ArenaChoice T :=
  { s with point := Function.update s.point t p }

/-- The next step of a thread, with `n` arenas. -/
def work (n : ℕ) (s : ArenaChoice T) (t : T) : Option (ArenaChoice T) :=
  match s.point t with
  | .idle => none
  | .calling => some (s.goTo t (if s.created then .locking else .creating))
  | .creating =>
    if s.created then some (s.goTo t .locking)
    else some ({ s with created := true, numThreadCaches := fun _ => 0 }.goTo t .locking)
  | .locking =>
    -- without arenas, `m_arenas[0]` is undefined
    if 0 < n ∧ s.lockThreadcache = none then
      some ({ s with lockThreadcache := some t }.goTo t (.loading 0 0))
    else none
  | .loading i minArena =>
    if i < n then some (s.goTo t (.comparing i minArena (s.numThreadCaches i)))
    else some ({ s with lockThreadcache := none }.goTo t (.counting minArena))
  | .comparing i minArena number =>
    some (s.goTo t (.loading (i + 1)
      (if number < s.numThreadCaches minArena then i else minArena)))
  | .counting arena =>
    some ({ s with
      numThreadCaches := Function.update s.numThreadCaches arena
        (s.numThreadCaches arena + 1) }.goTo t .returned)
  | .returned => none

/-- One step, with `n` arenas. -/
def next (n : ℕ) (s : ArenaChoice T) : Action T → Option (ArenaChoice T)
  | .call t => if s.point t = .idle then some (s.goTo t .calling) else none
  | .work t => s.work n t

/-- The machine of threads that choose among `n` arenas. -/
def machine (n : ℕ) : Machine (ArenaChoice T) (Action T) := Machine.ofNext (· = {}) (next n)

/-- The numbers of thread caches of any two arenas differ by at most one. -/
def Balanced (n : ℕ) (s : ArenaChoice T) : Prop :=
  ∀ i < n, ∀ j < n, s.numThreadCaches i ≤ s.numThreadCaches j + 1

/-- The arena whose number a thread increments next. -/
def Point.counted : Point → Option ℕ
  | .counting arena => some arena
  | _ => none

/-- A thread that increments the number of the arena it has chosen finds this arena least
used. -/
def CountsLeast (n : ℕ) (s : ArenaChoice T) : Action T → Prop
  | .call _ => True
  | .work t => ∀ arena ∈ (s.point t).counted,
      ∀ j < n, s.numThreadCaches arena ≤ s.numThreadCaches j

instance (n : ℕ) (s : ArenaChoice T) (a : Action T) : Decidable (CountsLeast n s a) :=
  match a with
  | .call _ => .isTrue trivial
  | .work t => inferInstanceAs (Decidable (∀ arena ∈ (s.point t).counted,
      ∀ j < n, s.numThreadCaches arena ≤ s.numThreadCaches j))

/-- The arenas from which a thread chooses. -/
def Point.arenas : Point → List ℕ
  | .loading _ minArena => [minArena]
  | .comparing i minArena _ => [i, minArena]
  | .counting arena => [arena]
  | .idle | .calling | .creating | .locking | .returned => []

/-- The invariant: the numbers are balanced, and every thread chooses from arenas that
exist. -/
structure Inv (n : ℕ) (s : ArenaChoice T) : Prop where
  balanced : Balanced n s
  arenas : ∀ t, ∀ i ∈ (s.point t).arenas, i < n

variable {n : ℕ} {s s' : ArenaChoice T} {t : T} {p : Point}

/-- A thread goes on without a change of the numbers. -/
theorem Inv.goTo (h : Inv n s) (hpoint : s'.point = Function.update s.point t p)
    (hbalanced : Balanced n s') (harena : ∀ i ∈ p.arenas, i < n) : Inv n s' where
  balanced := hbalanced
  arenas := by
    intro u i hi
    rw [hpoint] at hi
    by_cases hu : u = t
    · rw [hu, Function.update_self] at hi
      exact harena i hi
    · rw [Function.update_of_ne hu] at hi
      exact h.arenas u i hi

/-- One more thread cache for the least used arena. -/
theorem balanced_update {number : ℕ → ℕ} (h : ∀ i < n, ∀ j < n, number i ≤ number j + 1) {k : ℕ}
    (hleast : ∀ j < n, number k ≤ number j) :
    ∀ i < n, ∀ j < n, Function.update number k (number k + 1) i ≤
      Function.update number k (number k + 1) j + 1 := by
  intro i hi j hj
  by_cases hik : i = k
  · rw [hik, Function.update_self]
    by_cases hjk : j = k
    · rw [hjk, Function.update_self]
      omega
    · rw [Function.update_of_ne hjk]
      exact Nat.succ_le_succ (hleast j hj)
  · rw [Function.update_of_ne hik]
    by_cases hjk : j = k
    · have hle := h i hi j hj
      rw [hjk, Function.update_self]
      rw [hjk] at hle
      omega
    · rw [Function.update_of_ne hjk]
      exact h i hi j hj

/-- Every step that meets the condition keeps the invariant. -/
theorem Inv.next (h : Inv n s) {a : Action T} (hc : CountsLeast n s a)
    (hstep : next n s a = some s') : Inv n s' := by
  cases a with
  | call t =>
    unfold ArenaChoice.next at hstep
    dsimp only at hstep
    split_ifs at hstep
    cases hstep
    exact h.goTo rfl h.balanced nofun
  | work t =>
    have hstep : s.work n t = some s' := hstep
    unfold ArenaChoice.work at hstep
    cases hp : s.point t with
    | idle =>
      rw [hp] at hstep
      cases hstep
    | calling =>
      rw [hp] at hstep
      cases hstep
      refine h.goTo rfl h.balanced ?_
      split <;> nofun
    | creating =>
      rw [hp] at hstep
      dsimp only at hstep
      split_ifs at hstep
      · cases hstep
        exact h.goTo rfl h.balanced nofun
      · cases hstep
        exact h.goTo rfl (fun _ _ _ _ => Nat.zero_le _) nofun
    | locking =>
      rw [hp] at hstep
      dsimp only at hstep
      split_ifs at hstep with hlock
      cases hstep
      exact h.goTo rfl h.balanced (List.forall_mem_singleton.mpr hlock.1)
    | loading i minArena =>
      rw [hp] at hstep
      dsimp only at hstep
      have hmin : minArena < n := h.arenas t minArena (by rw [hp]; simp [Point.arenas])
      split_ifs at hstep with hi
      · cases hstep
        refine h.goTo rfl h.balanced ?_
        exact List.forall_mem_cons.mpr ⟨hi, List.forall_mem_singleton.mpr hmin⟩
      · cases hstep
        exact h.goTo rfl h.balanced (List.forall_mem_singleton.mpr hmin)
    | comparing i minArena number =>
      rw [hp] at hstep
      cases hstep
      refine h.goTo rfl h.balanced (List.forall_mem_singleton.mpr ?_)
      split
      · exact h.arenas t i (by rw [hp]; simp [Point.arenas])
      · exact h.arenas t minArena (by rw [hp]; simp [Point.arenas])
    | counting arena =>
      rw [hp] at hstep
      cases hstep
      exact h.goTo rfl (balanced_update h.balanced (hc arena (by rw [hp]; rfl))) nofun
    | returned =>
      rw [hp] at hstep
      cases hstep

/-- An increment of an arena that is not least used any more leaves two arenas two apart. -/
theorem not_balanced_of_violation (h : Inv n s) {a : Action T} (hbad : ¬CountsLeast n s a)
    (hstep : next n s a = some s') : ¬Balanced n s' := by
  cases a with
  | call t => exact absurd trivial hbad
  | work t =>
    simp only [CountsLeast, not_forall, not_le] at hbad
    obtain ⟨arena, hcounted, j, hj, hless⟩ := hbad
    have hp : s.point t = .counting arena := by
      revert hcounted
      cases s.point t with
      | counting arena' =>
        rintro ⟨⟩
        rfl
      | _ => nofun
    have harena : arena < n := h.arenas t arena (by rw [hp]; simp [Point.arenas])
    have hstep : s.work n t = some s' := hstep
    rw [ArenaChoice.work, hp] at hstep
    cases hstep
    intro hbalanced
    have hle := hbalanced arena harena j hj
    have hne : j ≠ arena := by
      rintro rfl
      exact lt_irrefl _ hless
    dsimp only [ArenaChoice.goTo] at hle
    rw [Function.update_self, Function.update_of_ne hne] at hle
    omega

/-- The arenas are balanced throughout a run, whichever calls have returned, exactly when
every thread finds the arena of its choice least used when it increments its number. -/
theorem balanced_iff_countsLeast {trace : List (ArenaChoice T × Action T)}
    (hrun : (machine n).Run {} trace s) :
    (∀ u ∈ Machine.visited trace s, Balanced n u) ↔
      ∀ step ∈ trace, CountsLeast n step.1 step.2 :=
  hrun.forall_visited_iff (I := Inv n) (C := CountsLeast n) (fun _ h => h.balanced)
    (fun _ _ _ h hc hstep => h.next hc hstep)
    (fun _ _ _ h hbad hstep => not_balanced_of_violation h hbad hstep)
    ⟨fun _ _ _ _ => Nat.zero_le _, nofun⟩

/-- The thread has loaded a number of thread caches, and not yet incremented the one of its
choice. -/
def Point.Choosing : Point → Prop
  | .loading i _ => 0 < i
  | .comparing _ _ _ | .counting _ => True
  | .idle | .calling | .creating | .locking | .returned => False

instance (p : Point) : Decidable p.Choosing :=
  match p with
  | .loading i _ => inferInstanceAs (Decidable (0 < i))
  | .comparing _ _ _ | .counting _ => .isTrue trivial
  | .idle | .calling | .creating | .locking | .returned => .isFalse id

/-- No thread increments a number between the first load of another thread and the
increment of that thread. -/
def CountsAlone (s : ArenaChoice T) : Action T → Prop
  | .call _ => True
  | .work t => (s.point t).counted.isSome → ∀ u, u ≠ t → ¬(s.point u).Choosing

instance [Fintype T] (s : ArenaChoice T) (a : Action T) : Decidable (CountsAlone s a) :=
  match a with
  | .call _ => .isTrue trivial
  | .work t => inferInstanceAs
      (Decidable ((s.point t).counted.isSome = true → ∀ u, u ≠ t → ¬(s.point u).Choosing))

/-- The allocator has been made before a thread gets here. -/
def Point.NeedsArenas : Point → Prop
  | .idle | .calling | .creating | .returned => False
  | .locking | .loading _ _ | .comparing _ _ _ | .counting _ => True

/-- What the scan knows of the numbers: the arena taken so far is least used among those
looked at. -/
def Point.Least (n : ℕ) (number : ℕ → ℕ) : Point → Prop
  | .loading i minArena => ∀ j < n, j < i → number minArena ≤ number j
  | .comparing i minArena loaded =>
    loaded = number i ∧ ∀ j < n, j < i → number minArena ≤ number j
  | .counting arena => ∀ j < n, number arena ≤ number j
  | .idle | .calling | .creating | .locking | .returned => True

/-- The invariant of the scans: they take place once the allocator exists, and what each
has found so far is still true. -/
structure Scanned (n : ℕ) (s : ArenaChoice T) : Prop where
  created : ∀ t, (s.point t).NeedsArenas → s.created
  least : ∀ t, (s.point t).Least n s.numThreadCaches

/-- A thread goes on, and what the others have found remains true. -/
theorem Scanned.goTo (h : Scanned n s) (hpoint : s'.point = Function.update s.point t p)
    (hcreated : s.created → s'.created) (harenas : p.NeedsArenas → s'.created)
    (hothers : ∀ u, u ≠ t → (s.point u).Least n s'.numThreadCaches)
    (hleast : p.Least n s'.numThreadCaches) : Scanned n s' := by
  constructor
  · intro u hu
    rw [hpoint] at hu
    by_cases hut : u = t
    · rw [hut, Function.update_self] at hu
      exact harenas hu
    · rw [Function.update_of_ne hut] at hu
      exact hcreated (h.created u hu)
  · intro u
    rw [hpoint]
    by_cases hut : u = t
    · rw [hut, Function.update_self]
      exact hleast
    · rw [Function.update_of_ne hut]
      exact hothers u hut

/-- A thread that has not loaded a number knows nothing of the numbers. -/
theorem Point.Least.of_not_choosing {number : ℕ → ℕ} (h : ¬p.Choosing) : p.Least n number := by
  cases p with
  | loading i minArena =>
    intro j _ hj
    exact absurd (Nat.zero_lt_of_lt hj) h
  | comparing i minArena loaded => exact absurd trivial h
  | counting arena => exact absurd trivial h
  | _ => exact trivial

/-- The loop of `leastUsedArena` takes the lesser of two arenas. -/
theorem Point.Least.compare {i minArena loaded : ℕ} {number : ℕ → ℕ}
    (h : (Point.comparing i minArena loaded).Least n number) :
    (Point.loading (i + 1) (if loaded < number minArena then i else minArena)).Least n
      number := by
  obtain ⟨hloaded, hleast⟩ := h
  intro j hj hji
  by_cases hlt : loaded < number minArena
  · rw [if_pos hlt]
    by_cases heq : j = i
    · exact le_of_eq (congrArg number heq.symm)
    · have hle := hleast j hj (by omega)
      omega
  · rw [if_neg hlt]
    by_cases heq : j = i
    · rw [heq]
      omega
    · exact hleast j hj (by omega)

/-- A step that is no increment during the scan of another thread leaves all scans right. -/
theorem Scanned.next (h : Scanned n s) {a : Action T} (hc : CountsAlone s a)
    (hstep : next n s a = some s') : Scanned n s' := by
  have hsame (u : T) : (s.point u).Least n s.numThreadCaches := h.least u
  cases a with
  | call t =>
    unfold ArenaChoice.next at hstep
    dsimp only at hstep
    split_ifs at hstep
    cases hstep
    exact h.goTo rfl id False.elim (fun u _ => hsame u) trivial
  | work t =>
    have hstep : s.work n t = some s' := hstep
    have hat := hsame t
    have hmade := h.created t
    unfold ArenaChoice.work at hstep
    cases hp : s.point t with
    | idle =>
      rw [hp] at hstep
      cases hstep
    | calling =>
      rw [hp] at hstep
      cases hstep
      by_cases hcreated : s.created
      · exact h.goTo (p := .locking) (by rw [if_pos hcreated]; rfl) id (fun _ => hcreated)
          (fun u _ => hsame u) trivial
      · exact h.goTo (p := .creating) (by rw [if_neg hcreated]; rfl) id False.elim
          (fun u _ => hsame u) trivial
    | creating =>
      rw [hp] at hstep
      dsimp only at hstep
      split_ifs at hstep with hcreated
      · cases hstep
        exact h.goTo rfl id (fun _ => hcreated) (fun u _ => hsame u) trivial
      · cases hstep
        -- no thread has begun its scan when the allocator is made
        refine h.goTo rfl (fun _ => rfl) (fun _ => rfl) (fun u _ => .of_not_choosing ?_) trivial
        intro hchoosing
        apply hcreated (h.created u _)
        cases hu : s.point u <;> rw [hu] at hchoosing <;> first | exact trivial | cases hchoosing
    | locking =>
      rw [hp] at hstep hmade
      dsimp only at hstep
      split_ifs at hstep with hlock
      cases hstep
      exact h.goTo rfl id (fun _ => hmade trivial) (fun u _ => hsame u)
        (.of_not_choosing (lt_irrefl 0))
    | loading i minArena =>
      rw [hp] at hstep hmade hat
      dsimp only at hstep
      split_ifs at hstep with hi
      · cases hstep
        exact h.goTo rfl id (fun _ => hmade trivial) (fun u _ => hsame u) ⟨rfl, hat⟩
      · cases hstep
        exact h.goTo rfl id (fun _ => hmade trivial) (fun u _ => hsame u)
          (fun j hj => hat j hj (by omega))
    | comparing i minArena loaded =>
      rw [hp] at hstep hmade hat
      cases hstep
      exact h.goTo rfl id (fun _ => hmade trivial) (fun u _ => hsame u) hat.compare
    | counting arena =>
      have halone := hc (by rw [hp]; rfl)
      rw [hp] at hstep
      cases hstep
      exact h.goTo rfl id False.elim (fun u hu => .of_not_choosing (halone u hu)) trivial
    | returned =>
      rw [hp] at hstep
      cases hstep

omit [DecidableEq T] in
/-- A thread whose scan is right increments the number of a least used arena. -/
theorem Scanned.countsLeast (h : Scanned n s) (a : Action T) : CountsLeast n s a := by
  cases a with
  | call t => exact trivial
  | work t =>
    intro arena hcounted j hj
    have hleast := h.least t
    revert hcounted hleast
    cases s.point t with
    | counting arena' =>
      rintro ⟨⟩ hleast
      exact hleast j hj
    | _ => rintro ⟨⟩

/-- The arenas are balanced throughout a run, whichever calls have returned, if no thread
increments a number while another thread is between its first load and its increment. -/
theorem balanced_of_countsAlone {trace : List (ArenaChoice T × Action T)}
    (hrun : (machine n).Run {} trace s) (halone : ∀ step ∈ trace, CountsAlone step.1 step.2) :
    ∀ u ∈ Machine.visited trace s, Balanced n u := by
  have hinit : Scanned n ({} : ArenaChoice T) := ⟨fun _ => False.elim, fun _ => trivial⟩
  have hleast := hrun.forall_steps (C := CountsAlone) (I := Scanned n)
    (fun _ _ _ h hc hstep => h.next hc hstep) (fun _ a _ h _ _ => h.countsLeast a) hinit halone
  exact (balanced_iff_countsLeast hrun).mpr hleast

/-- A thread calls `ALLOCATOR` for the first time, with two arenas. -/
def called (t : Fin 2) : List (Action (Fin 2)) := .call t :: List.replicate 8 (.work t)

/-- The first thread makes the allocator, and chooses an arena. -/
def firstCall : List (Action (Fin 2)) := .call 0 :: List.replicate 9 (.work 0)

/-- A second thread has called and locked `m_lockThreadcache` when the first increments the
number of its choice, and goes on then. -/
def staggered : List (Action (Fin 2)) :=
  firstCall.dropLast ++ (called 1).take 3 ++ [.work 0] ++ (called 1).drop 3

/-- The state after both calls. -/
def afterStaggered : ArenaChoice (Fin 2) := (staggered.foldlM (next 2) {}).getD {}

/-- The steps can be taken. -/
theorem afterStaggered_eq : staggered.foldlM (next 2) {} = some afterStaggered := by
  have hsome : (staggered.foldlM (next 2) ({} : ArenaChoice (Fin 2))).isSome = true := by
    decide +kernel
  exact (Option.getD_of_ne_none (Option.isSome_iff_ne_none.mp hsome) _).symm

/-- The two threads get different arenas. -/
theorem balanced_of_countsAlone_staggered :
    (∀ u ∈ Machine.visited (Machine.traceOf (next 2) {} staggered) afterStaggered, Balanced 2 u) ∧
      (∀ t, afterStaggered.point t = .returned) ∧ afterStaggered.numThreadCaches 0 = 1 ∧
      afterStaggered.numThreadCaches 1 = 1 := by
  have hrun : (machine 2).Run {} (Machine.traceOf (next 2) {} staggered) afterStaggered :=
    .of_foldlM afterStaggered_eq
  exact ⟨balanced_of_countsAlone hrun (by decide +kernel), by decide +kernel, by decide +kernel,
    by decide +kernel⟩

/-- The second thread chooses before the first has incremented the number of its choice. -/
def overlapping : List (Action (Fin 2)) :=
  firstCall.dropLast ++ called 1 ++ [.work 0]

/-- The state after both calls. -/
def afterOverlapping : ArenaChoice (Fin 2) := (overlapping.foldlM (next 2) {}).getD {}

/-- The steps can be taken. -/
theorem afterOverlapping_eq : overlapping.foldlM (next 2) {} = some afterOverlapping := by
  have hsome : (overlapping.foldlM (next 2) ({} : ArenaChoice (Fin 2))).isSome = true := by
    decide +kernel
  exact (Option.getD_of_ne_none (Option.isSome_iff_ne_none.mp hsome) _).symm

/-- Both threads have chosen the first of two arenas. -/
theorem overlapping_not_balanced :
    (machine 2).Reachable afterOverlapping ∧ (∀ t, afterOverlapping.point t = .returned) ∧
      ¬Balanced 2 afterOverlapping := by
  have hinit : (machine 2).Reachable ({} : ArenaChoice (Fin 2)) := .of_init rfl
  exact ⟨hinit.of_foldlM afterOverlapping_eq, by decide +kernel,
    fun h => absurd (h 0 (by decide) 1 (by decide)) (by decide +kernel)⟩

end ArenaChoice

end DuoDuo.Buffer
