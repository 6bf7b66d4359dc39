import DuoDuo.Library.Machine
import Mathlib.Logic.Function.Basic
import Mathlib.Logic.Relation

/-!
# Sections under a spin lock

Threads run sections on shared data, step by step. Before a section a thread exchanges the
flag of a lock for `true` until it was `false`, and after the section it stores `false`.
Then the sections are atomic: whatever the threads do, they leave the data and give the
answers of sections that run one after another. Threads, data and sections are arbitrary.
-/

namespace DuoDuo.Library

/-- What sections do: where a section begins, and what a step does to the data, after which
the section goes on or answers. A step may depend on an input. -/
structure Sections (S I C L R : Type*) where
  enter : C → L
  step : I → L → S → Option (S × (L ⊕ R))

/-- Where a thread is with respect to the lock. -/
inductive SpinPoint (C L R : Type*)
  | outside
  /-- It is about to exchange the flag. -/
  | locking (c : C)
  | inside (c : C) (l : L)
  /-- It is about to clear the flag. -/
  | unlocking (c : C) (r : R)

/-- The shared data, the flag of the lock, the threads, and the sections that have ended. -/
structure SpinLocked (T S C L R : Type*) where
  shared : S
  locked : Bool := false
  point : T → SpinPoint C L R := fun _ => .outside
  log : List (C × R) := []

/-- The steps of the threads. -/
inductive SpinAction (T I C : Type*)
  | call (t : T) (c : C)
  | lock (t : T)
  | work (t : T) (i : I)
  | unlock (t : T)

variable {T S I C L R : Type*}

/-- The thread has the lock. -/
def SpinPoint.holds : SpinPoint C L R → Prop
  | .outside | .locking _ => False
  | .inside _ _ | .unlocking _ _ => True

namespace Sections

variable (b : Sections S I C L R)

/-- A section goes on. -/
def Goes (p q : L × S) : Prop := ∃ i, b.step i p.1 p.2 = some (q.2, .inl q.1)

/-- A section ends with an answer. -/
def Ends (p : L × S) (r : R) (s : S) : Prop := ∃ i, b.step i p.1 p.2 = some (s, .inr r)

/-- A whole section, run alone. -/
def Performs (c : C) (s : S) (r : R) (s' : S) : Prop :=
  ∃ p, Relation.ReflTransGen b.Goes (b.enter c, s) p ∧ b.Ends p r s'

/-- Sections that run one after another. -/
inductive Sequence (s : S) : List (C × R) → S → Prop
  | nil : Sequence s [] s
  | snoc {log : List (C × R)} {s' s'' : S} {c : C} {r : R} :
    Sequence s log s' → b.Performs c s' r s'' → Sequence s (log ++ [(c, r)]) s''

end Sections

namespace SpinLocked

variable [DecidableEq T]

/-- A thread goes on. -/
def goTo (s : SpinLocked T S C L R) (t : T) (p : SpinPoint C L R) : SpinLocked T S C L R :=
  { s with point := Function.update s.point t p }

/-- One step. An exchange that finds the flag set changes nothing. -/
def next (b : Sections S I C L R) (s : SpinLocked T S C L R) :
    SpinAction T I C → Option (SpinLocked T S C L R)
  | .call t c =>
    match s.point t with
    | .outside => some (s.goTo t (.locking c))
    | _ => none
  | .lock t =>
    match s.point t with
    | .locking c =>
      some (if s.locked then s else { s with locked := true }.goTo t (.inside c (b.enter c)))
    | _ => none
  | .work t i =>
    match s.point t with
    | .inside c l =>
      match b.step i l s.shared with
      | none => none
      | some (shared, .inl l) => some ({ s with shared }.goTo t (.inside c l))
      | some (shared, .inr r) =>
        some ({ s with shared, log := s.log ++ [(c, r)] }.goTo t (.unlocking c r))
    | _ => none
  | .unlock t =>
    match s.point t with
    | .unlocking _ _ => some ({ s with locked := false }.goTo t .outside)
    | _ => none

/-- The machine of threads on the given data. -/
def machine (b : Sections S I C L R) (shared : S) :
    Machine (SpinLocked T S C L R) (SpinAction T I C) :=
  Machine.ofNext (· = { shared }) (next b)

variable {b : Sections S I C L R} {shared : S} {s s' : SpinLocked T S C L R} {t u : T}

/-- The thread with the lock is where its section has come from the data `a`. -/
def Owns (b : Sections S I C L R) (s : SpinLocked T S C L R) (a : S) :
    SpinPoint C L R → Prop
  | .inside c l => Relation.ReflTransGen b.Goes (b.enter c, a) (l, s.shared)
  | .unlocking _ _ => s.shared = a
  | _ => False

/-- The ended sections lead to the data `a`, and at most one more is under way. -/
structure Inv (b : Sections S I C L R) (shared : S) (s : SpinLocked T S C L R) (a : S) :
    Prop where
  sequence : b.Sequence shared s.log a
  free : s.locked = false → (∀ t, ¬(s.point t).holds) ∧ s.shared = a
  owned : s.locked = true → ∃ t, Owns b s a (s.point t) ∧ ∀ u, (s.point u).holds → u = t

omit [DecidableEq T] in
/-- A thread that has the lock is the only one. -/
theorem Inv.of_holds {a : S} (h : s.Inv b shared a) (ht : (s.point t).holds) :
    s.locked = true ∧ Owns b s a (s.point t) ∧ ∀ u, (s.point u).holds → u = t := by
  cases hlocked : s.locked with
  | false => exact absurd ht ((h.free hlocked).1 t)
  | true =>
    obtain ⟨u, howns, hu⟩ := h.owned hlocked
    obtain rfl := hu t ht
    exact ⟨rfl, howns, hu⟩

/-- A step of a thread that has the lock neither before nor after it. -/
theorem Inv.goTo {a : S} (h : s.Inv b shared a) (ht : ¬(s.point t).holds)
    {p : SpinPoint C L R} (hp : ¬p.holds) : (s.goTo t p).Inv b shared a := by
  have hiff : ∀ u, (Function.update s.point t p u).holds ↔ (s.point u).holds := by
    intro u
    by_cases hu : u = t
    · rw [hu, Function.update_self]
      exact iff_of_false hp ht
    · rw [Function.update_of_ne hu]
  refine ⟨h.sequence, fun hfree => ?_, fun hlocked => ?_⟩
  · obtain ⟨hnone, hshared⟩ := h.free hfree
    exact ⟨fun u hu => hnone u ((hiff u).mp hu), hshared⟩
  · obtain ⟨v, howns, hv⟩ := h.owned hlocked
    have hne : v ≠ t := by
      rintro rfl
      refine ht ?_
      cases hpoint : s.point v with
      | outside | locking =>
        rw [hpoint] at howns
        exact howns.elim
      | inside | unlocking => exact trivial
    refine ⟨v, ?_, fun u hu => hv u ((hiff u).mp hu)⟩
    show Owns b _ a (Function.update s.point t p v)
    rw [Function.update_of_ne hne]
    cases hpoint : s.point v <;> rw [hpoint] at howns <;> exact howns

/-- A thread has the lock after a step, and nobody else has it. -/
theorem inv_of_owner {a : S} (hsequence : b.Sequence shared s.log a)
    (hlocked : s.locked = true) (howns : Owns b s a (s.point t))
    (hothers : ∀ u, u ≠ t → ¬(s.point u).holds) : s.Inv b shared a := by
  refine ⟨hsequence, fun hfree => ?_, fun _ => ⟨t, howns, fun u hu => ?_⟩⟩
  · rw [hlocked] at hfree
    cases hfree
  · by_contra hne
    exact hothers u hne hu

/-- Every step keeps the invariant, for the data that the ended sections lead to. -/
theorem Inv.next {a : S} (h : s.Inv b shared a) {e : SpinAction T I C}
    (hstep : next b s e = some s') : ∃ a', s'.Inv b shared a' := by
  cases e with
  | call t c =>
    simp only [SpinLocked.next] at hstep
    split at hstep
    · next hpoint =>
      cases hstep
      exact ⟨a, h.goTo (by rw [hpoint]; exact id) id⟩
    · cases hstep
  | lock t =>
    simp only [SpinLocked.next] at hstep
    split at hstep
    · next c hpoint =>
      cases hstep
      cases hlocked : s.locked with
      | true => exact ⟨a, h⟩
      | false =>
        obtain ⟨hnone, hshared⟩ := h.free hlocked
        refine ⟨a, inv_of_owner (t := t) h.sequence rfl ?_ fun u hu => ?_⟩
        · show Owns b _ a (Function.update s.point t (.inside c (b.enter c)) t)
          rw [Function.update_self]
          show Relation.ReflTransGen b.Goes (b.enter c, a) (b.enter c, s.shared)
          rw [hshared]
        · show ¬(Function.update s.point t _ u).holds
          rw [Function.update_of_ne hu]
          exact hnone u
    · cases hstep
  | work t i =>
    simp only [SpinLocked.next] at hstep
    split at hstep
    · next c l hpoint =>
      obtain ⟨hlocked, howns, honly⟩ := h.of_holds (t := t) (by rw [hpoint]; exact trivial)
      rw [hpoint] at howns
      have howns : Relation.ReflTransGen b.Goes (b.enter c, a) (l, s.shared) := howns
      have hothers : ∀ (p : SpinPoint C L R) (u : T), u ≠ t →
          ¬(Function.update s.point t p u).holds := by
        intro p u hu hholds
        rw [Function.update_of_ne hu] at hholds
        exact hu (honly u hholds)
      split at hstep
      · cases hstep
      · next shared' l' hbody =>
        cases hstep
        refine ⟨a, inv_of_owner (t := t) h.sequence hlocked ?_ (hothers _)⟩
        show Owns b _ a (Function.update s.point t (.inside c l') t)
        rw [Function.update_self]
        exact howns.tail ⟨i, hbody⟩
      · next shared' r hbody =>
        cases hstep
        -- the section ends here, and takes its place in the sequence
        refine ⟨shared', inv_of_owner (t := t)
          (h.sequence.snoc ⟨(l, s.shared), howns, i, hbody⟩) hlocked ?_ (hothers _)⟩
        show Owns b _ shared' (Function.update s.point t (.unlocking c r) t)
        rw [Function.update_self]
        exact rfl
    · cases hstep
  | unlock t =>
    simp only [SpinLocked.next] at hstep
    split at hstep
    · next c r hpoint =>
      cases hstep
      obtain ⟨-, howns, honly⟩ := h.of_holds (t := t) (by rw [hpoint]; exact trivial)
      rw [hpoint] at howns
      refine ⟨a, h.sequence, fun _ => ⟨fun u hu => ?_, howns⟩, nofun⟩
      have hu : (Function.update s.point t .outside u).holds := hu
      by_cases hne : u = t
      · rw [hne, Function.update_self] at hu
        exact hu
      · rw [Function.update_of_ne hne] at hu
        exact hne (honly u hu)
    · cases hstep

/-- In every state, the ended sections lead one after another to data from which at most one
section is under way. -/
theorem exists_inv (h : (machine b shared).Reachable s) : ∃ a, s.Inv b shared a := by
  refine h.invariant (I := fun s => ∃ a, s.Inv b shared a) ?_ ?_
  · rintro s rfl
    exact ⟨shared, .nil, fun _ => ⟨fun _ => id, rfl⟩, nofun⟩
  · rintro s e t ⟨a, ha⟩ hstep
    exact ha.next hstep

/-- No two threads have the lock. -/
theorem eq_of_holds (h : (machine b shared).Reachable s) (ht : (s.point t).holds)
    (hu : (s.point u).holds) : u = t := by
  obtain ⟨a, ha⟩ := exists_inv h
  exact (ha.of_holds ht).2.2 u hu

/-- Whatever the threads have done, their sections have had the answers of sections that run
one after another, and left the data that these leave, up to a section under way. -/
theorem exists_sequence (h : (machine b shared).Reachable s) :
    ∃ a, b.Sequence shared s.log a ∧ ((∀ t, ¬(s.point t).holds) → s.shared = a) := by
  obtain ⟨a, ha⟩ := exists_inv h
  refine ⟨a, ha.sequence, fun hnone => ?_⟩
  cases hlocked : s.locked with
  | false => exact (ha.free hlocked).2
  | true =>
    obtain ⟨t, howns, -⟩ := ha.owned hlocked
    have ht := hnone t
    cases hpoint : s.point t with
    | outside | locking =>
      rw [hpoint] at howns
      exact howns.elim
    | inside | unlocking =>
      rw [hpoint] at ht
      exact absurd trivial ht

end SpinLocked

end DuoDuo.Library
