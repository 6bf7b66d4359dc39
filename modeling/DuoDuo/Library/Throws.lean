import Mathlib.Tactic.Common

/-!
# Computations that may throw

A computation changes a state. It returns a value or it throws, and in both cases the
state that it has reached remains; a failed assertion leaves no state. A scope is left
through its own last step, also when an exception passes. States and values are arbitrary.
-/

namespace DuoDuo.Library

/-- A computation over states `S` with a value in `α`. -/
def Throws (S α : Type) : Type := S → Option (Except Unit α × S)

namespace Throws

variable {S α β : Type}

/-- The value is returned at once. -/
def ret (a : α) : Throws S α := fun s => some (.ok a, s)

/-- One computation after another one, which has returned. -/
def andThen (x : Throws S α) (f : α → Throws S β) : Throws S β := fun s =>
  match x s with
  | none => none
  | some (.ok a, s) => f a s
  | some (.error e, s) => some (.error e, s)

instance : Monad (Throws S) where
  pure := ret
  bind := andThen

/-- An exception. -/
def throwNow : Throws S α := fun s => some (.error (), s)

/-- An assertion that fails. -/
def abort : Throws S α := fun _ => none

/-- An operation that does not throw. -/
def lift (f : S → Option (α × S)) : Throws S α := fun s => (f s).map fun p => (.ok p.1, p.2)

/-- The state as it is. -/
def get : Throws S S := fun s => some (.ok s, s)

/-- A scope, which is entered and left. -/
def scope (enter : S → Option S) (leave : S → S) (x : Throws S α) : Throws S α := fun s =>
  (enter s).bind fun s => (x s).map fun p => (p.1, leave p.2)

variable {x : Throws S α} {f : α → Throws S β} {s s' : S}

/-- The second part of a sequence follows when the first part has returned, and does not
follow when it has thrown. -/
theorem bind_eq {r : Except Unit β} (h : (x >>= f) s = some (r, s')) :
    (∃ a s₁, x s = some (.ok a, s₁) ∧ f a s₁ = some (r, s')) ∨
      (x s = some (.error (), s') ∧ r = .error ()) := by
  change andThen x f s = _ at h
  rw [andThen] at h
  match hx : x s with
  | none =>
    rw [hx] at h
    cases h
  | some (.ok a, s₁) =>
    rw [hx] at h
    exact .inl ⟨a, s₁, rfl, h⟩
  | some (.error (), s₁) =>
    rw [hx] at h
    cases h
    exact .inr ⟨rfl, rfl⟩

/-- The second part of a sequence follows when the first part has returned. -/
theorem bind_of_ok {a : α} {s₁ : S} (h : x s = some (.ok a, s₁)) : (x >>= f) s = f a s₁ := by
  change andThen x f s = _
  rw [andThen, h]

/-- A scope is entered before and left after what is done in it. -/
theorem scope_eq {enter : S → Option S} {leave : S → S} {r : Except Unit α}
    (h : scope enter leave x s = some (r, s')) :
    ∃ s₁ s₂, enter s = some s₁ ∧ x s₁ = some (r, s₂) ∧ s' = leave s₂ := by
  obtain ⟨s₁, henter, h⟩ := Option.bind_eq_some_iff.mp h
  obtain ⟨⟨r', s₂⟩, hx, h⟩ := Option.map_eq_some_iff.mp h
  cases h
  exact ⟨s₁, s₂, henter, hx, rfl⟩

/-- An operation that does not throw returns. -/
theorem lift_eq {g : S → Option (α × S)} {r : Except Unit α} (h : lift g s = some (r, s')) :
    ∃ a, r = .ok a ∧ g s = some (a, s') := by
  obtain ⟨⟨a, s₁⟩, hg, h⟩ := Option.map_eq_some_iff.mp h
  cases h
  exact ⟨a, rfl, hg⟩

/-- What an operation that does not throw leaves to the rest of a sequence. -/
theorem lift_bind {g : S → Option (α × S)} {r : Except Unit β}
    (h : (lift g >>= f) s = some (r, s')) : ∃ a s₁, g s = some (a, s₁) ∧ f a s₁ = some (r, s') := by
  rcases bind_eq h with ⟨a, s₁, hlift, h⟩ | ⟨hlift, -⟩
  · obtain ⟨a', ha, hg⟩ := lift_eq hlift
    cases ha
    exact ⟨a, s₁, hg, h⟩
  · obtain ⟨_, ⟨⟩, _⟩ := lift_eq hlift

/-- The state is known to the rest of a sequence. -/
theorem get_bind {f : S → Throws S β} : (get >>= f) s = f s s := rfl

end Throws

end DuoDuo.Library
