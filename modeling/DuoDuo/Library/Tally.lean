import Mathlib.Algebra.BigOperators.Group.Finset.Basic
import Mathlib.Algebra.BigOperators.Group.Finset.Piecewise

/-!
# Tallies over threads

What the threads of a system hold together is a sum over their points. A step of one
thread changes one summand. Threads, points and the monoid of the sums are arbitrary.
-/

namespace DuoDuo.Library

variable {T P M : Type*} [DecidableEq T] [AddCommMonoid M] {s : Finset T} {t : T}

/-- A thread that goes on exchanges its old share for the new one. -/
theorem sum_update_add (ht : t ∈ s) (share : P → M) (point : T → P) (p : P) :
    ∑ u ∈ s, share (Function.update point t p u) + share (point t) =
      ∑ u ∈ s, share (point u) + share p := by
  have hcomp : (fun u => share (Function.update point t p u)) =
      Function.update (fun u => share (point u)) t (share p) := by
    funext u
    by_cases hu : u = t
    · rw [hu, Function.update_self, Function.update_self]
    · rw [Function.update_of_ne hu, Function.update_of_ne hu]
  rw [hcomp, Finset.sum_update_of_mem ht, ← Finset.add_sum_erase s _ ht,
    Finset.sdiff_singleton_eq_erase, add_comm (share (point t)), add_comm (share p)]
  rw [add_assoc, add_assoc, add_comm (share p)]

/-- A thread that goes on without a change of its share leaves the sum as it is. -/
theorem sum_update_same (share : P → M) {point : T → P} {p : P}
    (hshare : share p = share (point t)) :
    ∑ u ∈ s, share (Function.update point t p u) = ∑ u ∈ s, share (point u) := by
  refine Finset.sum_congr rfl fun u _ => ?_
  by_cases hu : u = t
  · rw [hu, Function.update_self, hshare]
  · rw [Function.update_of_ne hu]

end DuoDuo.Library
