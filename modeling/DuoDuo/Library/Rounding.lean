import Mathlib.Algebra.Order.Ring.Int
import Mathlib.Data.Int.ModEq
import Mathlib.Tactic.Linarith
import Mathlib.Tactic.Ring

/-!
# Rounding down to a multiple

A time is rounded down to a multiple of a tick. Rounding to a finer tick first does
not matter, and two slots of a ring with equal positions are equal when they lie in
one turn of the ring.
-/

namespace DuoDuo.Library

/-- Round down to a multiple of a tick. -/
def roundDown (tick x : ℤ) : ℤ := tick * (x / tick)

variable {tick x y m : ℤ}

/-- A rounded time is a multiple of the tick. -/
theorem dvd_roundDown (tick x : ℤ) : tick ∣ roundDown tick x := Dvd.intro _ rfl

/-- Rounding down does not increase. -/
theorem roundDown_le (htick : 0 < tick) (x : ℤ) : roundDown tick x ≤ x :=
  Int.mul_ediv_self_le htick.ne'

/-- Rounding down takes away less than a tick. -/
theorem lt_roundDown_add (htick : 0 < tick) (x : ℤ) : x < roundDown tick x + tick :=
  Int.lt_mul_ediv_self_add htick

/-- The rounded time is the greatest multiple that is not later. -/
theorem le_roundDown_iff (htick : 0 < tick) (hm : tick ∣ m) : m ≤ roundDown tick x ↔ m ≤ x := by
  obtain ⟨k, rfl⟩ := hm
  rw [roundDown, mul_le_mul_iff_right₀ htick, Int.le_ediv_iff_mul_le htick, mul_comm]

/-- Rounding down is monotone. -/
theorem roundDown_mono (htick : 0 < tick) (hxy : x ≤ y) : roundDown tick x ≤ roundDown tick y :=
  (le_roundDown_iff htick (dvd_roundDown tick x)).mpr ((roundDown_le htick x).trans hxy)

/-- Multiples are rounded already. -/
theorem roundDown_of_dvd (hm : tick ∣ m) : roundDown tick m = m := Int.mul_ediv_cancel' hm

/-- Different multiples are a tick apart. -/
theorem add_le_of_lt_of_dvd (htick : 0 < tick) {k : ℤ} (hm : tick ∣ m) (hk : tick ∣ k)
    (hlt : m < k) : m + tick ≤ k := by
  obtain ⟨i, rfl⟩ := hm
  obtain ⟨j, rfl⟩ := hk
  have hij : i < j := (mul_lt_mul_iff_right₀ htick).mp hlt
  calc tick * i + tick = tick * (i + 1) := by ring
    _ ≤ tick * j := (mul_le_mul_iff_right₀ htick).mpr hij

/-- A time before the next multiple is rounded to that multiple or an earlier one. -/
theorem roundDown_le_of_lt (htick : 0 < tick) (hm : tick ∣ m) (hx : x < m + tick) :
    roundDown tick x ≤ m := by
  by_contra hlt
  have hnext := add_le_of_lt_of_dvd htick hm (dvd_roundDown tick x) (not_le.mp hlt)
  have hle := roundDown_le htick x
  linarith

/-- Rounding to a finer tick first does not matter. -/
theorem roundDown_roundDown {fine : ℤ} (hfine : 0 < fine) (htick : 0 < tick) (h : fine ∣ tick)
    (x : ℤ) : roundDown tick (roundDown fine x) = roundDown tick x := by
  refine le_antisymm (roundDown_mono htick (roundDown_le hfine x)) ?_
  rw [le_roundDown_iff htick (dvd_roundDown tick x),
    le_roundDown_iff hfine (h.trans (dvd_roundDown tick x))]
  exact roundDown_le htick x

/-- Rounding commutes with the later of two times. -/
theorem roundDown_max (htick : 0 < tick) (x y : ℤ) :
    roundDown tick (max x y) = max (roundDown tick x) (roundDown tick y) := by
  rcases le_total x y with h | h
  · rw [max_eq_right h, max_eq_right (roundDown_mono htick h)]
  · rw [max_eq_left h, max_eq_left (roundDown_mono htick h)]

/-- Two slots with the same position in a ring are equal when they lie in one turn. -/
theorem eq_of_emod_eq {size c v w : ℤ} (hv : c ≤ v) (hv' : v < c + size) (hw : c ≤ w)
    (hw' : w < c + size) (h : v % size = w % size) : v = w := by
  have hdvd : size ∣ v - w := Int.ModEq.dvd (Eq.symm h)
  have hzero : v - w = 0 := Int.eq_zero_of_abs_lt_dvd hdvd (abs_lt.mpr ⟨by linarith, by linarith⟩)
  linarith

end DuoDuo.Library
