import Mathlib.Data.List.Basic
import Mathlib.Tactic.Common

/-!
# Tables filled by loops

A table has a fixed length, and its elements are indeterminate until they are assigned.
Access beyond its end and reading an indeterminate element fail. A loop is run for a
number of tests of its condition, and fails if it needs more. Whether a loop that fills a
table stays inside it is settled by the sequence of its states.
-/

namespace DuoDuo.Library

/-- A loop with a condition and a body that may fail, for at most `fuel` tests. -/
def whileLoop {S : Type} (cond : S → Bool) (body : S → Option S) : ℕ → S → Option S
  | 0, _ => none
  | fuel + 1, s => if cond s then (body s).bind (whileLoop cond body fuel) else some s

/-- A loop ends in the last state of a sequence of which each state satisfies the
condition and leads to the next one. -/
theorem whileLoop_eq {S : Type} {cond : S → Bool} {body : S → Option S} {f : ℕ → S} {n fuel : ℕ}
    (hcond : ∀ i < n, cond (f i) = true) (hbody : ∀ i < n, body (f i) = some (f (i + 1)))
    (hend : cond (f n) = false) (hfuel : n < fuel) :
    whileLoop cond body fuel (f 0) = some (f n) := by
  induction n generalizing f fuel with
  | zero =>
    obtain ⟨fuel, rfl⟩ : ∃ k, fuel = k + 1 := ⟨fuel - 1, by omega⟩
    rw [whileLoop, hend, if_neg Bool.false_ne_true]
  | succ n ih =>
    obtain ⟨fuel, rfl⟩ : ∃ k, fuel = k + 1 := ⟨fuel - 1, by omega⟩
    rw [whileLoop, if_pos (hcond 0 (by omega)), hbody 0 (by omega), Option.bind_some]
    exact ih (f := fun i => f (i + 1)) (fun i hi => hcond (i + 1) (by omega))
      (fun i hi => hbody (i + 1) (by omega)) hend (by omega)

/-- An array whose elements are indeterminate until they are assigned. -/
abbrev Table (α : Type) := List (Option α)

namespace Table

variable {α : Type}

/-- A new table. -/
def new (n : ℕ) : Table α := List.replicate n none

/-- Assign an element. -/
def write (t : Table α) (i : ℕ) (a : α) : Option (Table α) :=
  if i < t.length then some (t.set i (some a)) else none

/-- Read an element. -/
def read (t : Table α) (i : ℕ) : Option α := t[i]?.join

/-- The table of length `n` whose first elements have been assigned. -/
def filled (n : ℕ) (l : List α) : Table α := l.map some ++ List.replicate (n - l.length) none

/-- The first element that is indeterminate can be assigned. -/
theorem write_filled {n i : ℕ} {l : List α} (hi : l.length = i) (h : i < n) (a : α) :
    (filled n l).write i a = some (filled n (l ++ [a])) := by
  subst hi
  have hrest : n - l.length = n - (l.length + 1) + 1 := by omega
  rw [write, if_pos (by simp [filled]; omega), filled, filled, hrest, List.replicate_succ,
    List.set_append_right _ _ (by simp)]
  simp

/-- An element that has been assigned can be read. -/
theorem read_filled {n i : ℕ} {l : List α} (h : i < l.length) :
    (filled n l).read i = some l[i] := by
  rw [read, filled, List.getElem?_append_left (by simpa using h)]
  simp [h]

/-- An element that has not been assigned cannot be read. -/
theorem read_filled_of_le {n i : ℕ} {l : List α} (h : l.length ≤ i) : (filled n l).read i = none := by
  rw [read, filled, List.getElem?_append_right (by simpa using h), List.getElem?_replicate]
  split_ifs
  · rfl
  · rfl

end Table

end DuoDuo.Library
