import DuoDuo.Buffer.ByteQueue
import Mathlib.Order.Bounds.Basic

/-!
# The capacity to which a buffer grows

`calculateNewCapacity` in `int`. Below the threshold the capacity doubles from 64 until it
is large enough, and above it the capacity is a multiple of the threshold, unless that
would exceed the maximum. No sum, difference, product or shift leaves the range of `int`.
-/

namespace DuoDuo.Buffer

/-- Why `calculateNewCapacity` has not returned. -/
inductive GrowthFault
  /-- Its assertion has failed. -/
  | assertion
  /-- It has thrown an exception. -/
  | exception
  /-- An `int` has overflowed. -/
  | overflow
  /-- Its loop goes on. -/
  | running
  deriving DecidableEq

namespace Growth

/-- The result of an operation on `int`. -/
def int (x : ℤ) : Except GrowthFault ℤ :=
  if -2 ^ 31 ≤ x ∧ x < 2 ^ 31 then .ok x else .error .overflow

theorem int_of_lt {x : ℤ} (hx : 0 ≤ x) (hlt : x < 2 ^ 31) : int x = .ok x :=
  if_pos ⟨by omega, hlt⟩

theorem ok_bind {β γ : Type} (x : β) (f : β → Except GrowthFault γ) : (.ok x >>= f) = f x :=
  rfl

/-- The loop of `calculateNewCapacity`, for at most `fuel` tests of its condition. -/
def doubleLoop (minNewCapacity : ℤ) : ℕ → ℤ → Except GrowthFault ℤ
  | 0, _ => .error .running
  | fuel + 1, newCapacity =>
    if newCapacity < minNewCapacity then do
      let newCapacity ← int (newCapacity * 2)
      doubleLoop minNewCapacity fuel newCapacity
    else .ok newCapacity

/-- `PoolByteBufAllocator::calculateNewCapacity` in `int`. -/
def calculateNewCapacity (fuel : ℕ) (minNewCapacity maxCapacity : ℤ) : Except GrowthFault ℤ :=
  if minNewCapacity < 0 then .error .assertion
  else if maxCapacity < minNewCapacity then .error .exception
  else if minNewCapacity = CALCULATE_THRESHOLD then .ok CALCULATE_THRESHOLD
  else if CALCULATE_THRESHOLD < minNewCapacity then do
    let newCapacity ← int (minNewCapacity.tdiv CALCULATE_THRESHOLD * CALCULATE_THRESHOLD)
    let limit ← int (maxCapacity - CALCULATE_THRESHOLD)
    if limit < newCapacity then .ok maxCapacity else int (newCapacity + CALCULATE_THRESHOLD)
  else do
    let newCapacity ← doubleLoop minNewCapacity fuel 64
    .ok (min newCapacity maxCapacity)

/-- Doubling a power of two ends with the first power that is large enough. -/
theorem doubleUntil_two_pow {n e fuel : ℕ} (hfuel : Nat.clog 2 n ≤ e + fuel) :
    doubleUntil n fuel (2 ^ e) = 2 ^ max e (Nat.clog 2 n) := by
  induction fuel generalizing e with
  | zero => rw [doubleUntil, max_eq_left (by simpa using hfuel)]
  | succ fuel ih =>
    rw [doubleUntil]
    split
    · next hlt =>
      have hclog : e < Nat.clog 2 n := (Nat.lt_clog_iff_pow_lt (by decide)).mpr hlt
      rw [Nat.shiftLeft_eq, pow_one, ← pow_succ, ih (by omega), max_eq_right hclog.le,
        max_eq_right hclog]
    · next hge =>
      have hclog : Nat.clog 2 n ≤ e := (Nat.clog_le_iff_le_pow (by decide)).mpr (not_lt.mp hge)
      rw [max_eq_left hclog]

/-- The loop does the same in `int`, as long as the numbers are small. -/
theorem doubleLoop_eq {n m fuel : ℕ} (hn : n < 2 ^ 30) (hfuel : n ≤ m * 2 ^ fuel) :
    doubleLoop n (fuel + 1) m = .ok (doubleUntil n fuel m : ℕ) := by
  induction fuel generalizing m with
  | zero =>
    rw [pow_zero, mul_one] at hfuel
    rw [doubleLoop, if_neg (by omega), doubleUntil]
  | succ fuel ih =>
    rw [doubleLoop, doubleUntil]
    by_cases hlt : m < n
    · have hint : int ((m : ℤ) * 2) = .ok ((m <<< 1 : ℕ) : ℤ) := by
        rw [Nat.shiftLeft_eq, pow_one, int_of_lt (by omega) (by omega)]
        push_cast
        rfl
      rw [if_pos (by omega), if_pos hlt, hint]
      refine ih ?_
      rw [Nat.shiftLeft_eq, pow_one, mul_assoc, ← pow_succ']
      exact hfuel
    · rw [if_neg (by omega), if_neg hlt]

/-- In `int`, `calculateNewCapacity` computes what it computes without a bound. -/
theorem calculateNewCapacity_eq {minNewCapacity maxCapacity fuel : ℕ}
    (hle : minNewCapacity ≤ maxCapacity) (hmax : maxCapacity < 2 ^ 31) (hfuel : 16 < fuel) :
    ∃ newCapacity : ℕ, Buffer.calculateNewCapacity minNewCapacity maxCapacity = some newCapacity ∧
      calculateNewCapacity fuel minNewCapacity maxCapacity = .ok (newCapacity : ℤ) := by
  have hthreshold : CALCULATE_THRESHOLD = 4194304 := rfl
  rw [Buffer.calculateNewCapacity, if_neg (show ¬ maxCapacity < minNewCapacity by omega),
    calculateNewCapacity, if_neg (show ¬ (minNewCapacity : ℤ) < 0 by omega),
    if_neg (show ¬ (maxCapacity : ℤ) < minNewCapacity by omega)]
  by_cases heq : minNewCapacity = CALCULATE_THRESHOLD
  · exact ⟨_, if_pos heq, if_pos (by omega)⟩
  rw [if_neg heq, if_neg (show ¬ (minNewCapacity : ℤ) = CALCULATE_THRESHOLD by omega)]
  by_cases hlarge : CALCULATE_THRESHOLD < minNewCapacity
  · have hfloor := Nat.div_mul_le_self minNewCapacity CALCULATE_THRESHOLD
    have hdiv : (minNewCapacity : ℤ).tdiv CALCULATE_THRESHOLD * CALCULATE_THRESHOLD =
        ((minNewCapacity / CALCULATE_THRESHOLD * CALCULATE_THRESHOLD : ℕ) : ℤ) := by
      rw [Nat.cast_mul, Int.ofNat_tdiv]
    have hlimit : (maxCapacity : ℤ) - CALCULATE_THRESHOLD =
        ((maxCapacity - CALCULATE_THRESHOLD : ℕ) : ℤ) :=
      (Nat.cast_sub (by omega)).symm
    rw [if_pos hlarge, if_pos (show (CALCULATE_THRESHOLD : ℤ) < minNewCapacity by omega), hdiv,
      hlimit]
    generalize minNewCapacity / CALCULATE_THRESHOLD * CALCULATE_THRESHOLD = newCapacity
      at hfloor ⊢
    rw [int_of_lt (by omega) (by omega), ok_bind, int_of_lt (by omega) (by omega), ok_bind]
    by_cases hover : maxCapacity - CALCULATE_THRESHOLD < newCapacity
    · rw [if_pos hover, if_pos (Nat.cast_lt.mpr hover)]
      exact ⟨_, rfl, rfl⟩
    · rw [if_neg hover, if_neg (mt Nat.cast_lt.mp hover)]
      refine ⟨_, rfl, ?_⟩
      rw [← Nat.cast_add, int_of_lt (by omega) (by omega)]
  · rw [if_neg hlarge, if_neg (show ¬ (CALCULATE_THRESHOLD : ℤ) < minNewCapacity by omega)]
    obtain ⟨fuel, rfl⟩ : ∃ m, fuel = m + 1 := ⟨fuel - 1, by omega⟩
    have hclog : Nat.clog 2 minNewCapacity ≤ 22 := by
      rw [Nat.clog_le_iff_le_pow (by decide)]
      omega
    have hpow : 2 ^ 16 ≤ 2 ^ fuel := Nat.pow_le_pow_right (by decide) (by omega)
    have hsame : doubleUntil minNewCapacity fuel 64 = doubleUntil minNewCapacity 32 64 := by
      rw [show 64 = 2 ^ 6 by rfl, doubleUntil_two_pow (by omega), doubleUntil_two_pow (by omega)]
    have hloop : doubleLoop minNewCapacity (fuel + 1) 64 =
        .ok ((doubleUntil minNewCapacity 32 64 : ℕ) : ℤ) := by
      rw [← hsame]
      exact doubleLoop_eq (n := minNewCapacity) (m := 64) (by omega) (by omega)
    refine ⟨_, rfl, ?_⟩
    rw [hloop, ok_bind, Nat.cast_min]

/-- The first power of two that is at least 64 and large enough. -/
theorem isLeast_two_pow (n : ℕ) :
    IsLeast {p : ℕ | (∃ e, p = 2 ^ e) ∧ 64 ≤ p ∧ n ≤ p} (2 ^ max 6 (Nat.clog 2 n)) := by
  constructor
  · refine ⟨⟨_, rfl⟩, ?_, ?_⟩
    · exact Nat.pow_le_pow_right (n := 2) (by decide) (le_max_left 6 _)
    · exact (Nat.clog_le_iff_le_pow (by decide)).mp (le_max_right 6 _)
  · rintro _ ⟨⟨e, rfl⟩, hmin, hn⟩
    refine Nat.pow_le_pow_right (by decide) (max_le ?_ ?_)
    · exact (Nat.pow_le_pow_iff_right (a := 2) (by decide)).mp hmin
    · exact (Nat.clog_le_iff_le_pow (by decide)).mpr hn

/-- What `calculateNewCapacity` promises of its result. -/
structure Safe (minNewCapacity maxCapacity newCapacity : ℤ) : Prop where
  enough : minNewCapacity ≤ newCapacity
  bounded : newCapacity ≤ maxCapacity
  below : minNewCapacity < CALCULATE_THRESHOLD →
    ∃ p : ℕ, IsLeast {p : ℕ | (∃ e, p = 2 ^ e) ∧ 64 ≤ p ∧ minNewCapacity ≤ p} p ∧
      newCapacity = min maxCapacity p
  above : CALCULATE_THRESHOLD < minNewCapacity →
    newCapacity ≤ minNewCapacity + CALCULATE_THRESHOLD

/-- The result without a bound keeps the promise. -/
theorem safe_of_calculateNewCapacity {minNewCapacity maxCapacity newCapacity : ℕ}
    (h : Buffer.calculateNewCapacity minNewCapacity maxCapacity = some newCapacity) :
    Safe minNewCapacity maxCapacity newCapacity := by
  obtain ⟨henough, hbounded⟩ := le_of_calculateNewCapacity h
  rw [Buffer.calculateNewCapacity] at h
  refine ⟨by omega, by omega, fun hsmall => ?_, fun hlarge => ?_⟩
  · have hthreshold : CALCULATE_THRESHOLD = 4194304 := rfl
    rw [if_neg (by omega), if_neg (by omega), if_neg (by omega)] at h
    have hclog : Nat.clog 2 minNewCapacity ≤ 22 := by
      rw [Nat.clog_le_iff_le_pow (by decide)]
      omega
    refine ⟨2 ^ max 6 (Nat.clog 2 minNewCapacity), ?_, ?_⟩
    · simpa only [Nat.cast_le] using isLeast_two_pow minNewCapacity
    · rw [← Option.some.inj h, show (64 : ℕ) = 2 ^ 6 by rfl, doubleUntil_two_pow (by omega),
        Nat.cast_min, min_comm]
  · have hfloor := Nat.div_add_mod minNewCapacity CALCULATE_THRESHOLD
    have hmod := Nat.mod_lt minNewCapacity (show 0 < CALCULATE_THRESHOLD by decide)
    rw [mul_comm] at hfloor
    rw [if_neg (by omega), if_neg (by omega), if_pos (by omega)] at h
    dsimp only at h
    split_ifs at h
    · obtain rfl := Option.some.inj h
      omega
    · obtain rfl := Option.some.inj h
      omega

/-- For all minimal and maximal capacities of type `int`, the loop of `calculateNewCapacity`
ends after at most 17 tests, nothing overflows, and the result keeps the promise. -/
theorem calculateNewCapacity_safe {minNewCapacity maxCapacity : ℤ} (hmin : 0 ≤ minNewCapacity)
    (hle : minNewCapacity ≤ maxCapacity) (hmax : maxCapacity < 2 ^ 31) {fuel : ℕ}
    (hfuel : 16 < fuel) : ∃ newCapacity,
      calculateNewCapacity fuel minNewCapacity maxCapacity = .ok newCapacity ∧
        Safe minNewCapacity maxCapacity newCapacity := by
  obtain ⟨minNewCapacity, rfl⟩ := Int.eq_ofNat_of_zero_le hmin
  obtain ⟨maxCapacity, rfl⟩ := Int.eq_ofNat_of_zero_le (hmin.trans hle)
  obtain ⟨newCapacity, hnat, hint⟩ := @calculateNewCapacity_eq minNewCapacity maxCapacity fuel
    (by omega) (by omega) hfuel
  exact ⟨newCapacity, hint, safe_of_calculateNewCapacity hnat⟩

/-- The largest `int` as both capacities, where the sum with the threshold would overflow. -/
theorem calculateNewCapacity_safe_intMax : ∃ newCapacity,
    calculateNewCapacity 17 (2 ^ 31 - 1) (2 ^ 31 - 1) = .ok newCapacity ∧
      Safe (2 ^ 31 - 1) (2 ^ 31 - 1) newCapacity :=
  calculateNewCapacity_safe (by decide) (by decide) (by decide) (by decide)

end Growth

end DuoDuo.Buffer
