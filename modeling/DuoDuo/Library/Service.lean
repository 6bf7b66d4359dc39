import Mathlib.Data.List.Induction
import Mathlib.Order.Monotone.Basic
import Mathlib.Tactic.Common

/-!
# Serving at most one item per arrival

Items become available in order: item `i` once the running total of what has
arrived reaches `need i`. At each arrival at most one item is served. The number
of items served has a closed form, from which it follows when all are served.
-/

namespace DuoDuo.Library

/-- The number of items served, after one more arrival that brings the total to `total`. -/
def serve (need : ℕ → ℕ) (n served total : ℕ) : ℕ :=
  if served < n ∧ need served ≤ total then served + 1 else served

/-- No more than all items are served. -/
theorem foldl_serve_le (need : ℕ → ℕ) (n : ℕ) (totals : List ℕ) :
    totals.foldl (serve need n) 0 ≤ n := by
  induction totals using List.reverseRecOn with
  | nil => simp
  | append_singleton totals total ih =>
    rw [List.foldl_append, List.foldl_cons, List.foldl_nil, serve]
    split <;> omega

/-- The number of items served is the least number of arrivals that any item still
allows: `i` items before it, and one for each arrival at which it is available. -/
theorem foldl_serve_spec {need : ℕ → ℕ} (hneed : Monotone need) (n : ℕ) {totals : List ℕ}
    (htotals : totals.Pairwise (· ≤ ·)) :
    (∀ i < n, totals.foldl (serve need n) 0 ≤ i + totals.countP (need i ≤ ·)) ∧
      (totals.foldl (serve need n) 0 < n →
        ∃ i < n, totals.foldl (serve need n) 0 = i + totals.countP (need i ≤ ·)) := by
  induction totals using List.reverseRecOn with
  | nil => exact ⟨by simp, fun h => ⟨0, h, by simp⟩⟩
  | append_singleton totals total ih =>
    rw [List.pairwise_append] at htotals
    obtain ⟨hsorted, -, hlast⟩ := htotals
    obtain ⟨hle, hattained⟩ := ih hsorted
    simp only [List.foldl_append, List.foldl_cons, List.foldl_nil, List.countP_append,
      List.countP_singleton]
    set served := totals.foldl (serve need n) 0 with hserved
    by_cases hnext : served < n ∧ need served ≤ total
    · rw [serve, if_pos hnext]
      constructor
      · intro i hi
        have hi' := hle i hi
        by_cases hreach : need i ≤ total
        · simp [hreach]
          omega
        · have hlt : served < i := by
            by_contra hge
            exact hreach ((hneed (by omega)).trans hnext.2)
          omega
      · intro _
        obtain ⟨i, hi, heq⟩ := hattained hnext.1
        refine ⟨i, hi, ?_⟩
        have hreach : need i ≤ total := (hneed (by omega)).trans hnext.2
        simp [hreach]
        omega
    · rw [serve, if_neg hnext]
      refine ⟨fun i hi => (hle i hi).trans (by omega), fun hlt => ⟨served, hlt, ?_⟩⟩
      have hreach : ¬ need served ≤ total := fun h => hnext ⟨hlt, h⟩
      have hnone : totals.countP (need served ≤ ·) = 0 := by
        rw [List.countP_eq_zero]
        intro t ht
        have htotal : t ≤ total := hlast t ht total (by simp)
        simp only [decide_eq_true_eq]
        omega
      simp [hnone, hreach]

/-- All items are served exactly when each item, once available, is followed by
enough arrivals for itself and the items behind it. -/
theorem foldl_serve_eq_iff {need : ℕ → ℕ} (hneed : Monotone need) (n : ℕ) {totals : List ℕ}
    (htotals : totals.Pairwise (· ≤ ·)) :
    totals.foldl (serve need n) 0 = n ↔ ∀ i < n, n - i ≤ totals.countP (need i ≤ ·) := by
  obtain ⟨hle, hattained⟩ := foldl_serve_spec hneed n htotals
  have hmax := foldl_serve_le need n totals
  constructor
  · intro hall i hi
    have hi' := hle i hi
    omega
  · intro henough
    by_contra hne
    obtain ⟨i, hi, heq⟩ := hattained (by omega)
    have hi' := henough i hi
    omega

end DuoDuo.Library
