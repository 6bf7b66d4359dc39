import Mathlib.Data.Set.Basic
import Mathlib.Logic.Relation
import Mathlib.Tactic.Common

/-!
# Labelled machines and their runs

A machine has initial states and a labelled step relation. Properties of whole
executions are proved from one fact about a single step, so the induction over
an execution is carried out here once. A step condition restricts attention to
the executions all of whose steps satisfy it. Labels, states and conditions are
arbitrary.
-/

namespace DuoDuo.Library

/-- A machine over states `S` and actions `A`. -/
structure Machine (S A : Type*) where
  /-- The states in which an execution may begin. -/
  init : S → Prop
  /-- One step of the machine, labelled by the action that it performs. -/
  step : S → A → S → Prop

namespace Machine

variable {S A : Type*} {M : Machine S A}

/-- One step whose state and action satisfy `C`. -/
def StepWhere (M : Machine S A) (C : S → A → Prop) (s t : S) : Prop :=
  ∃ a, C s a ∧ M.step s a t

/-- The states of executions all of whose steps satisfy `C`. -/
def ReachableWhere (M : Machine S A) (C : S → A → Prop) (t : S) : Prop :=
  ∃ s, M.init s ∧ Relation.ReflTransGen (M.StepWhere C) s t

/-- The states of all executions. -/
def Reachable (M : Machine S A) (t : S) : Prop := M.ReachableWhere (fun _ _ => True) t

/-- An initial state is reachable under every condition. -/
theorem ReachableWhere.of_init {C : S → A → Prop} {s : S} (h : M.init s) :
    M.ReachableWhere C s :=
  ⟨s, h, .refl⟩

/-- An execution extends by one more step that satisfies the condition. -/
theorem ReachableWhere.tail {C : S → A → Prop} {s t : S} {a : A}
    (h : M.ReachableWhere C s) (hc : C s a) (hstep : M.step s a t) :
    M.ReachableWhere C t := by
  obtain ⟨s₀, h₀, hrun⟩ := h
  exact ⟨s₀, h₀, hrun.tail ⟨a, hc, hstep⟩⟩

/-- Every execution extends by one more step. -/
theorem Reachable.tail {s t : S} {a : A} (h : M.Reachable s) (hstep : M.step s a t) :
    M.Reachable t :=
  ReachableWhere.tail h trivial hstep

/-- The invariant rule: a predicate that holds initially, and that every step
satisfying `C` preserves, holds in every state reached by such steps. -/
theorem ReachableWhere.invariant {C : S → A → Prop} {I : S → Prop} {t : S}
    (h : M.ReachableWhere C t) (hinit : ∀ s, M.init s → I s)
    (hstep : ∀ s a u, I s → C s a → M.step s a u → I u) : I t := by
  obtain ⟨s₀, h₀, hrun⟩ := h
  induction hrun with
  | refl => exact hinit _ h₀
  | tail _ hlast ih =>
    obtain ⟨a, hc, ha⟩ := hlast
    exact hstep _ a _ ih hc ha

/-- The invariant rule for unrestricted executions. -/
theorem Reachable.invariant {I : S → Prop} {t : S} (h : M.Reachable t)
    (hinit : ∀ s, M.init s → I s) (hstep : ∀ s a u, I s → M.step s a u → I u) : I t :=
  ReachableWhere.invariant h hinit fun s a u hI _ => hstep s a u hI

/-- The machine of a partial transition function. -/
def ofNext (init : S → Prop) (next : S → A → Option S) : Machine S A where
  init := init
  step s a t := next s a = some t

/-- Performing a list of actions in order reaches the resulting state. -/
theorem Reachable.of_foldlM {init : S → Prop} {next : S → A → Option S} {actions : List A}
    {s t : S} (h : (ofNext init next).Reachable s) (hrun : actions.foldlM next s = some t) :
    (ofNext init next).Reachable t := by
  induction actions generalizing s with
  | nil =>
    have hst : s = t := by simpa using hrun
    exact hst ▸ h
  | cons a actions ih =>
    rw [List.foldlM_cons] at hrun
    obtain ⟨u, hstep, hrest⟩ := Option.bind_eq_some_iff.mp hrun
    exact ih (h.tail hstep) hrest

/-- A finite execution, with the state and the action of each of its steps. -/
inductive Run (M : Machine S A) : S → List (S × A) → S → Prop
  | nil (s : S) : Run M s [] s
  | cons {s t u : S} {a : A} {trace : List (S × A)} : M.step s a t → Run M t trace u →
      Run M s ((s, a) :: trace) u

/-- The states that an execution visits, its last state included. -/
def visited (trace : List (S × A)) (last : S) : List S := trace.map Prod.fst ++ [last]

@[simp] theorem visited_nil (s : S) : visited ([] : List (S × A)) s = [s] := rfl

@[simp] theorem visited_cons (s u : S) (a : A) (trace : List (S × A)) :
    visited ((s, a) :: trace) u = s :: visited trace u := rfl

/-- The first state of an execution is one of those that it visits. -/
theorem Run.start_mem_visited {s u : S} {trace : List (S × A)} (h : M.Run s trace u) :
    s ∈ visited trace u := by
  cases h <;> simp

/-- A run all of whose steps satisfy `C` ends in a state reachable under `C`. -/
theorem Run.reachableWhere {C : S → A → Prop} {s u : S} {trace : List (S × A)}
    (h : M.Run s trace u) (hs : M.ReachableWhere C s)
    (hcond : ∀ p ∈ trace, C p.1 p.2) : M.ReachableWhere C u := by
  induction h with
  | nil => exact hs
  | cons hstep _ ih =>
    rw [List.forall_mem_cons] at hcond
    exact ih (hs.tail hcond.1 hstep) hcond.2

/-- A predicate that steps satisfying `C` preserve holds throughout a run all of
whose steps satisfy it. -/
theorem Run.forall_visited {C : S → A → Prop} {I : S → Prop}
    (hkeep : ∀ s a t, I s → C s a → M.step s a t → I t)
    {s u : S} {trace : List (S × A)} (h : M.Run s trace u) (hs : I s)
    (hcond : ∀ p ∈ trace, C p.1 p.2) : ∀ t ∈ visited trace u, I t := by
  induction h with
  | nil s => simpa using hs
  | @cons s t u a trace hstep hrun ih =>
    rw [List.forall_mem_cons] at hcond
    rw [visited_cons, List.forall_mem_cons]
    exact ⟨hs, ih (hkeep s a t hs hcond.1 hstep) hcond.2⟩

/-- What holds of every step from an invariant that steps satisfying `C` preserve holds of
all steps of a run that satisfy it. -/
theorem Run.forall_steps {C Q : S → A → Prop} {I : S → Prop}
    (hkeep : ∀ s a t, I s → C s a → M.step s a t → I t)
    (hstep : ∀ s a t, I s → C s a → M.step s a t → Q s a)
    {s u : S} {trace : List (S × A)} (h : M.Run s trace u) (hs : I s)
    (hcond : ∀ p ∈ trace, C p.1 p.2) : ∀ p ∈ trace, Q p.1 p.2 := by
  induction h with
  | nil => nofun
  | @cons s t u a trace hfirst hrun ih =>
    rw [List.forall_mem_cons] at hcond ⊢
    exact ⟨hstep s a t hs hcond.1 hfirst, ih (hkeep s a t hs hcond.1 hfirst) hcond.2⟩

/-- Under an invariant `J`, a predicate that every step preserves, and that a step
violating `C` brings about, holds at the end of a run that has such a step. -/
theorem Run.of_violation_where {C : S → A → Prop} {J D : S → Prop}
    (hinv : ∀ s a t, J s → M.step s a t → J t)
    (hbreak : ∀ s a t, J s → ¬ C s a → M.step s a t → D t)
    (hkeep : ∀ s a t, J s → D s → M.step s a t → D t)
    {s u : S} {trace : List (S × A)} (h : M.Run s trace u) (hJ : J s)
    (hbad : D s ∨ ∃ p ∈ trace, ¬ C p.1 p.2) : D u := by
  induction h with
  | nil s => simpa using hbad
  | @cons s t u a trace hstep hrun ih =>
    apply ih (hinv s a t hJ hstep)
    rcases hbad with hs | ⟨p, hp, hbad⟩
    · exact .inl (hkeep s a t hJ hs hstep)
    · rcases List.mem_cons.mp hp with rfl | hp
      · exact .inl (hbreak s a t hJ hbad hstep)
      · exact .inr ⟨p, hp, hbad⟩

/-- A predicate that every step preserves, and that a step violating `C` brings
about, holds at the end of a run that has such a step. -/
theorem Run.of_violation {C : S → A → Prop} {D : S → Prop}
    (hbreak : ∀ s a t, ¬ C s a → M.step s a t → D t)
    (hkeep : ∀ s a t, D s → M.step s a t → D t)
    {s u : S} {trace : List (S × A)} (h : M.Run s trace u)
    (hbad : D s ∨ ∃ p ∈ trace, ¬ C p.1 p.2) : D u :=
  h.of_violation_where (J := fun _ => True) (fun _ _ _ _ _ => trivial)
    (fun s a t _ => hbreak s a t) (fun s a t _ => hkeep s a t) trivial hbad

/-- Two runs in succession. -/
theorem Run.append {s t u : S} {trace trace' : List (S × A)} (h : M.Run s trace t)
    (h' : M.Run t trace' u) : M.Run s (trace ++ trace') u := by
  induction h with
  | nil => exact h'
  | cons hfirst _ ih => exact .cons hfirst (ih h')

/-- A run is made of two in succession wherever its steps are parted. -/
theorem Run.of_append {s u : S} {trace trace' : List (S × A)} (h : M.Run s (trace ++ trace') u) :
    ∃ t, M.Run s trace t ∧ M.Run t trace' u := by
  induction trace generalizing s with
  | nil => exact ⟨s, .nil s, h⟩
  | cons p trace ih =>
    cases h with
    | cons hfirst hrest =>
      obtain ⟨t, hrun, hrun'⟩ := ih hrest
      exact ⟨t, .cons hfirst hrun, hrun'⟩

/-- A run is one of every machine that can perform its steps. -/
theorem Run.mono {N : Machine S A} (hstep : ∀ s a t, M.step s a t → N.step s a t) {s u : S}
    {trace : List (S × A)} (h : M.Run s trace u) : N.Run s trace u := by
  induction h with
  | nil s => exact .nil s
  | cons hfirst _ ih => exact .cons (hstep _ _ _ hfirst) ih

/-- The exact-condition rule. Suppose that steps satisfying `C` preserve the
invariant, that the invariant implies the property, and that a step from the
invariant violating `C` leads to a state without the property. Then the
property holds throughout a run exactly when all steps satisfy `C`. -/
theorem Run.forall_visited_iff {C : S → A → Prop} {I P : S → Prop}
    (hP : ∀ s, I s → P s)
    (hkeep : ∀ s a t, I s → C s a → M.step s a t → I t)
    (hbreak : ∀ s a t, I s → ¬ C s a → M.step s a t → ¬ P t)
    {s u : S} {trace : List (S × A)} (h : M.Run s trace u) (hs : I s) :
    (∀ t ∈ visited trace u, P t) ↔ ∀ p ∈ trace, C p.1 p.2 := by
  induction h with
  | nil s => simpa using hP s hs
  | @cons s t u a trace hstep hrun ih =>
    rw [visited_cons, List.forall_mem_cons, List.forall_mem_cons]
    constructor
    · rintro ⟨-, hvisited⟩
      have hc : C s a := by
        by_contra hbad
        exact hbreak s a t hs hbad hstep (hvisited t hrun.start_mem_visited)
      exact ⟨hc, (ih (hkeep s a t hs hc hstep)).mp hvisited⟩
    · rintro ⟨hc, htrace⟩
      exact ⟨hP s hs, (ih (hkeep s a t hs hc hstep)).mpr htrace⟩

/-- A predicate that lasts until a state satisfies `G` holds in a state that satisfies it. -/
theorem Run.exists_visited {D G : S → Prop}
    (hkeep : ∀ s a t, D s → ¬ G s → M.step s a t → D t)
    {s u : S} {trace : List (S × A)} (h : M.Run s trace u) (hs : D s) (hu : G u) :
    ∃ t ∈ visited trace u, D t ∧ G t := by
  induction h with
  | nil s => exact ⟨s, by simp, hs, hu⟩
  | @cons s t u a trace hstep hrun ih =>
    by_cases hG : G s
    · exact ⟨s, by simp, hs, hG⟩
    · obtain ⟨v, hv, hbad⟩ := ih (hkeep s a t hs hG hstep) hu
      exact ⟨v, by rw [visited_cons]; exact List.mem_cons_of_mem _ hv, hbad⟩

/-- The exact-condition rule for a property of the states that satisfy `G`, between which
there are others. What a violation of `C` leads to lasts until such a state, which is then
without the property. The last state has to be one of them. -/
theorem Run.forall_visited_iff_between {C : S → A → Prop} {I D G P : S → Prop}
    (hP : ∀ s, I s → P s)
    (hkeep : ∀ s a t, I s → C s a → M.step s a t → I t)
    (hbreak : ∀ s a t, I s → ¬ C s a → M.step s a t → D t)
    (hlasts : ∀ s a t, D s → ¬ G s → M.step s a t → D t)
    (hshow : ∀ s, D s → G s → ¬ P s)
    {s u : S} {trace : List (S × A)} (h : M.Run s trace u) (hs : I s) (hu : G u) :
    (∀ t ∈ visited trace u, G t → P t) ↔ ∀ p ∈ trace, C p.1 p.2 := by
  induction h with
  | nil s => simpa using fun _ => hP s hs
  | @cons s t u a trace hstep hrun ih =>
    rw [visited_cons, List.forall_mem_cons, List.forall_mem_cons]
    constructor
    · rintro ⟨-, hvisited⟩
      have hc : C s a := by
        by_contra hbad
        obtain ⟨v, hv, hD, hG⟩ := hrun.exists_visited hlasts (hbreak s a t hs hbad hstep) hu
        exact hshow v hD hG (hvisited v hv hG)
      exact ⟨hc, (ih (hkeep s a t hs hc hstep) hu).mp hvisited⟩
    · rintro ⟨hc, htrace⟩
      exact ⟨fun _ => hP s hs, (ih (hkeep s a t hs hc hstep) hu).mpr htrace⟩

/-- The exact-condition rule for a violation that shows one step later. Steps satisfying
`C` preserve the invariant, a step violating it leads to `D`, and every step from `D` leads
to a state without the property. The property holds throughout a run exactly when all
steps but the last satisfy `C`. -/
theorem Run.forall_visited_iff_dropLast {C : S → A → Prop} {I D P : S → Prop}
    (hP : ∀ s, I s ∨ D s → P s)
    (hkeep : ∀ s a t, I s → C s a → M.step s a t → I t)
    (hbreak : ∀ s a t, I s → ¬ C s a → M.step s a t → D t)
    (hshow : ∀ s a t, D s → M.step s a t → ¬ P t)
    {s u : S} {trace : List (S × A)} (h : M.Run s trace u) (hs : I s) :
    (∀ t ∈ visited trace u, P t) ↔ ∀ p ∈ trace.dropLast, C p.1 p.2 := by
  induction h with
  | nil s => simpa using hP s (.inl hs)
  | @cons s t u a trace hstep hrun ih =>
    by_cases hc : C s a
    · have hrest := ih (hkeep s a t hs hc hstep)
      rw [visited_cons, List.forall_mem_cons, hrest]
      cases trace with
      | nil => simpa using hP s (.inl hs)
      | cons q trace =>
        rw [List.dropLast_cons_cons, List.forall_mem_cons]
        exact ⟨fun h => ⟨hc, h.2⟩, fun h => ⟨hP s (.inl hs), h.2⟩⟩
    · have hD := hbreak s a t hs hc hstep
      cases hrun with
      | nil => simpa using ⟨hP s (.inl hs), hP t (.inr hD)⟩
      | @cons _ v _ b trace hnext hrun =>
        rw [List.dropLast_cons_cons, List.forall_mem_cons]
        refine iff_of_false (fun hvisited => ?_) (fun hall => hc hall.1)
        refine hshow t b v hD hnext (hvisited v ?_)
        rw [visited_cons, visited_cons]
        exact List.mem_cons_of_mem _ (List.mem_cons_of_mem _ hrun.start_mem_visited)

/-- An invariant with a set to which every step adds something holds at the end of a run
with what all its steps have added. -/
theorem Run.collect {B : Type*} {I : Set B → S → Prop} {E : S → A → Set B}
    (hstep : ∀ D s a t, I D s → M.step s a t → I (D ∪ E s a) t) {D : Set B} {s u : S}
    {trace : List (S × A)} (h : M.Run s trace u) (hs : I D s) :
    I (D ∪ {b | ∃ p ∈ trace, b ∈ E p.1 p.2}) u := by
  induction h generalizing D with
  | nil s => simpa using hs
  | @cons s t u a trace hfirst hrun ih =>
    have hcons : {b | ∃ p ∈ (s, a) :: trace, b ∈ E p.1 p.2} =
        E s a ∪ {b | ∃ p ∈ trace, b ∈ E p.1 p.2} := by
      ext b
      simp
    rw [hcons, ← Set.union_assoc]
    exact ih (hstep D s a t hs hfirst)

/-- The trace of a list of actions, as far as the actions can be performed. -/
def traceOf (next : S → A → Option S) : S → List A → List (S × A)
  | _, [] => []
  | s, a :: actions => (s, a) :: (next s a).elim [] (traceOf next · actions)

/-- If all actions can be performed, the execution performs them in order. -/
theorem map_snd_traceOf {next : S → A → Option S} {s t : S} {actions : List A}
    (h : actions.foldlM next s = some t) : (traceOf next s actions).map Prod.snd = actions := by
  induction actions generalizing s with
  | nil => rfl
  | cons a actions ih =>
    rw [List.foldlM_cons] at h
    obtain ⟨u, hstep, hrest⟩ := Option.bind_eq_some_iff.mp h
    rw [traceOf, hstep, List.map_cons, Option.elim_some, ih hrest]

/-- Performing a list of actions in order is a run. -/
theorem Run.of_foldlM {init : S → Prop} {next : S → A → Option S} {actions : List A}
    {s t : S} (hrun : actions.foldlM next s = some t) :
    (ofNext init next).Run s (traceOf next s actions) t := by
  induction actions generalizing s with
  | nil =>
    obtain rfl : s = t := by simpa using hrun
    exact .nil s
  | cons a actions ih =>
    rw [List.foldlM_cons] at hrun
    obtain ⟨u, hstep, hrest⟩ := Option.bind_eq_some_iff.mp hrun
    rw [traceOf, hstep]
    exact .cons hstep (ih hrest)

end Machine

end DuoDuo.Library
