import Mathlib.Data.Nat.Log
import Mathlib.Order.Monotone.Basic
import Mathlib.Tactic

/-!
# A ladder with four steps for each doubling

The ladder 1, 2, 3, 4, 5, 6, 7, 8, 10, 12, 14, 16, 20, … spaces four rungs evenly
between consecutive powers of two. Rounding up and rounding down to a rung are
adjoint to the ladder, and the index of the rung above a number is found from its
binary logarithm with shifts.
-/

namespace DuoDuo.Library

/-- The rung at an index. -/
def ladder (i : ℕ) : ℕ := if i < 4 then i + 1 else 2 ^ (i / 4 - 1) * (i % 4 + 5)

/-- The rungs from the fifth on, by group and position in the group. -/
theorem ladder_group (g m : ℕ) (hm : m < 4) : ladder (4 * (g + 1) + m) = 2 ^ g * (m + 5) := by
  have hdiv : (4 * (g + 1) + m) / 4 = g + 1 := by omega
  have hmod : (4 * (g + 1) + m) % 4 = m := by omega
  rw [ladder, if_neg (by omega), hdiv, hmod, Nat.add_sub_cancel]

/-- The first rungs are the first numbers. -/
theorem ladder_of_lt {i : ℕ} (hi : i < 4) : ladder i = i + 1 := by
  rw [ladder, if_pos hi]

/-- Every index from the fifth on lies in a group. -/
theorem exists_group {i : ℕ} (hi : 4 ≤ i) : ∃ g m, m < 4 ∧ i = 4 * (g + 1) + m :=
  ⟨i / 4 - 1, i % 4, Nat.mod_lt _ (by omega), by omega⟩

/-- Each rung is above the one before. -/
theorem ladder_lt_succ (i : ℕ) : ladder i < ladder (i + 1) := by
  rcases Nat.lt_or_ge i 4 with hi | hi
  · rcases Nat.lt_or_ge (i + 1) 4 with hi' | hi'
    · rw [ladder_of_lt hi, ladder_of_lt hi']
      omega
    · obtain rfl : i = 3 := by omega
      decide
  · obtain ⟨g, m, hm, rfl⟩ := exists_group hi
    rw [ladder_group g m hm]
    rcases Nat.lt_or_ge (m + 1) 4 with hm' | hm'
    · rw [show 4 * (g + 1) + m + 1 = 4 * (g + 1) + (m + 1) by omega, ladder_group g (m + 1) hm']
      exact Nat.mul_lt_mul_of_pos_left (by omega) (Nat.two_pow_pos g)
    · obtain rfl : m = 3 := by omega
      rw [show 4 * (g + 1) + 3 + 1 = 4 * (g + 1 + 1) + 0 by omega, ladder_group (g + 1) 0 (by omega),
        pow_succ]
      have hpos := Nat.two_pow_pos g
      omega

/-- The ladder ascends. -/
theorem ladder_strictMono : StrictMono ladder := strictMono_nat_of_lt_succ ladder_lt_succ

/-- No rung is zero. -/
theorem ladder_pos (i : ℕ) : 0 < ladder i :=
  lt_of_lt_of_le (by decide) (ladder_strictMono.monotone (Nat.zero_le i) : ladder 0 ≤ ladder i)

/-- The index of the least rung that is not below a number. -/
def ladderIdx (n : ℕ) : ℕ :=
  let k := Nat.clog 2 n
  if k ≤ 2 then n - 1 else 4 * (k - 2) + ((n - 1) / 2 ^ (k - 3) - 4)

/-- Beyond the first rungs, a number lies in the group of its binary logarithm. -/
theorem ladderIdx_group {n : ℕ} (hn : 4 < n) :
    ∃ g m, m < 4 ∧ ladderIdx n = 4 * (g + 1) + m ∧ 2 ^ g * (m + 4) < n ∧ n ≤ 2 ^ g * (m + 5) := by
  have hk : 2 < Nat.clog 2 n := (Nat.lt_clog_iff_pow_lt (by decide)).mpr (by omega)
  obtain ⟨g, hg⟩ : ∃ g, Nat.clog 2 n = g + 3 := ⟨Nat.clog 2 n - 3, by omega⟩
  have hle : n ≤ 2 ^ g * 8 := by
    have hpow := Nat.le_pow_clog (b := 2) (by decide) n
    rwa [hg, pow_add] at hpow
  have hlt : 2 ^ g * 4 < n := by
    have hpow := (Nat.lt_clog_iff_pow_lt (b := 2) (y := g + 2) (x := n) (by decide)).mp (by omega)
    rwa [pow_add] at hpow
  have hpos := Nat.two_pow_pos g
  have hfour : 4 ≤ (n - 1) / 2 ^ g := (Nat.le_div_iff_mul_le hpos).mpr (by omega)
  have height : (n - 1) / 2 ^ g < 8 := (Nat.div_lt_iff_lt_mul hpos).mpr (by omega)
  have hdiv := Nat.div_add_mod (n - 1) (2 ^ g)
  have hmod := Nat.mod_lt (n - 1) hpos
  obtain ⟨m, hm⟩ : ∃ m, (n - 1) / 2 ^ g = m + 4 := ⟨(n - 1) / 2 ^ g - 4, by omega⟩
  rw [hm] at hdiv
  refine ⟨g, m, by omega, ?_, by omega, ?_⟩
  · simp only [ladderIdx, hg]
    rw [if_neg (by omega), show g + 3 - 3 = g by omega, hm]
    omega
  · have hexpand : 2 ^ g * (m + 5) = 2 ^ g * (m + 4) + 2 ^ g := by ring
    omega

/-- The first numbers are rungs. -/
theorem ladderIdx_of_le {n : ℕ} (hn : n ≤ 4) : ladderIdx n = n - 1 := by
  have hk : Nat.clog 2 n ≤ 2 := (Nat.clog_le_iff_le_pow (by decide)).mpr (by omega)
  simp only [ladderIdx, if_pos hk]

/-- The rungs before one of a group do not exceed the rung before it. -/
theorem ladder_le_of_lt_group {g m i : ℕ} (hm : m < 4) (hi : i < 4 * (g + 1) + m) :
    ladder i ≤ 2 ^ g * (m + 4) := by
  refine (ladder_strictMono.monotone (show i ≤ 4 * (g + 1) + m - 1 by omega)).trans ?_
  cases m with
  | succ m =>
    rw [show 4 * (g + 1) + (m + 1) - 1 = 4 * (g + 1) + m by omega, ladder_group g m (by omega)]
  | zero =>
    cases g with
    | zero => decide
    | succ g =>
      rw [show 4 * (g + 1 + 1) + 0 - 1 = 4 * (g + 1) + 3 by omega, ladder_group g 3 (by omega),
        pow_succ]
      omega

/-- No rung lies between two neighbours of a group. -/
theorem le_ladder_of_lt {g m i : ℕ} (hm : m < 4) (h : 2 ^ g * (m + 4) < ladder i) :
    2 ^ g * (m + 5) ≤ ladder i := by
  rw [← ladder_group g m hm]
  refine ladder_strictMono.monotone ?_
  by_contra hi
  have hle := ladder_le_of_lt_group hm (not_le.mp hi)
  omega

/-- The rung at the index of a number is the least one that is not below it. -/
theorem ladderIdx_spec {n : ℕ} (hn : 0 < n) :
    n ≤ ladder (ladderIdx n) ∧ ∀ j < ladderIdx n, ladder j < n := by
  rcases Nat.lt_or_ge 4 n with h | h
  · obtain ⟨g, m, hm, hidx, hlt, hle⟩ := ladderIdx_group h
    rw [hidx, ladder_group g m hm]
    exact ⟨hle, fun j hj => (ladder_le_of_lt_group hm hj).trans_lt hlt⟩
  · rw [ladderIdx_of_le h, ladder_of_lt (by omega)]
    refine ⟨by omega, fun j hj => ?_⟩
    rw [ladder_of_lt (by omega)]
    omega

/-- Rounding up to a rung is adjoint to the ladder. -/
theorem ladderIdx_le_iff {n : ℕ} (hn : 0 < n) (i : ℕ) : ladderIdx n ≤ i ↔ n ≤ ladder i := by
  obtain ⟨hle, hleast⟩ := ladderIdx_spec hn
  constructor
  · intro hi
    exact hle.trans (ladder_strictMono.monotone hi)
  · intro hi
    by_contra hlt
    have hbelow := hleast i (by omega)
    omega

/-- A rung is found at its own index. -/
@[simp] theorem ladderIdx_ladder (i : ℕ) : ladderIdx (ladder i) = i := by
  apply le_antisymm
  · exact (ladderIdx_le_iff (ladder_pos i) i).mpr le_rfl
  · have hle := (ladderIdx_spec (ladder_pos i)).1
    exact ladder_strictMono.le_iff_le.mp hle

/-- The index of the greatest rung that is not above a number. -/
def ladderFloor (n : ℕ) : ℕ :=
  if n < ladder (ladderIdx n) then ladderIdx n - 1 else ladderIdx n

/-- Rounding down to a rung is adjoint to the ladder. -/
theorem le_ladderFloor_iff {n : ℕ} (hn : 0 < n) (i : ℕ) : i ≤ ladderFloor n ↔ ladder i ≤ n := by
  obtain ⟨hle, hleast⟩ := ladderIdx_spec hn
  unfold ladderFloor
  split
  · next h =>
    have hpos : 0 < ladderIdx n := by
      by_contra hzero
      have hzero' : ladderIdx n = 0 := by omega
      rw [hzero'] at h
      have hone : ladder 0 = 1 := rfl
      omega
    constructor
    · intro hi
      exact (hleast i (by omega)).le
    · intro hi
      by_contra hgt
      have hmono := ladder_strictMono.monotone (show ladderIdx n ≤ i by omega)
      omega
  · next h =>
    have heq : ladder (ladderIdx n) = n := by omega
    constructor
    · intro hi
      exact (ladder_strictMono.monotone hi).trans heq.le
    · intro hi
      exact ladder_strictMono.le_iff_le.mp (hi.trans heq.ge)

/-- A rung rounds down to its own index. -/
@[simp] theorem ladderFloor_ladder (i : ℕ) : ladderFloor (ladder i) = i := by
  rw [ladderFloor, ladderIdx_ladder, if_neg (lt_irrefl _)]

/-- The last rung of a group is a power of two. -/
theorem ladder_last (g : ℕ) : ladder (4 * g + 3) = 2 ^ (g + 2) := by
  cases g with
  | zero => rfl
  | succ g =>
    rw [ladder_group g 3 (by omega)]
    ring

/-- A power of two is a rung. -/
theorem ladder_two_pow (k : ℕ) : ladder (ladderIdx (2 ^ k)) = 2 ^ k := by
  have hrung : ∃ i, ladder i = 2 ^ k := by
    rcases Nat.lt_or_ge k 3 with hk | hk
    · interval_cases k
      · exact ⟨0, rfl⟩
      · exact ⟨1, rfl⟩
      · exact ⟨3, rfl⟩
    · obtain ⟨g, rfl⟩ : ∃ g, k = g + 3 := ⟨k - 3, by omega⟩
      exact ⟨4 * (g + 1) + 3, by rw [ladder_group g 3 (by omega), pow_add]; norm_num⟩
  obtain ⟨i, hi⟩ := hrung
  rw [← hi, ladderIdx_ladder]

/-- A rung scaled by a power of two, of at least eight, is again a rung. -/
theorem exists_ladder_eq_mul (q j : ℕ) (hq : 3 ≤ q) : ∃ i, ladder i = 2 ^ q * ladder j := by
  obtain ⟨r, rfl⟩ : ∃ r, q = r + 3 := ⟨q - 3, by omega⟩
  rcases Nat.lt_or_ge j 4 with hj | hj
  · have hscaled : ∀ i < 4, ∃ g m, m < 4 ∧ 2 ^ g * (m + 5) = 2 ^ (r + 3) * (i + 1) := by
      intro i hi
      interval_cases i
      · exact ⟨r, 3, by omega, by ring⟩
      · exact ⟨r + 1, 3, by omega, by ring⟩
      · exact ⟨r + 2, 1, by omega, by ring⟩
      · exact ⟨r + 2, 3, by omega, by ring⟩
    obtain ⟨g, m, hm, heq⟩ := hscaled j hj
    exact ⟨4 * (g + 1) + m, by rw [ladder_group g m hm, ladder_of_lt hj, heq]⟩
  · obtain ⟨g, m, hm, rfl⟩ := exists_group hj
    refine ⟨4 * (r + 3 + g + 1) + m, ?_⟩
    rw [ladder_group (r + 3 + g) m hm, ladder_group g m hm, pow_add _ (r + 3) g, mul_assoc]

/-- The rungs that a power of two divides are the scaled rungs. -/
theorem exists_ladder_of_dvd {q i : ℕ} (h : 2 ^ q ∣ ladder i) (hq : 3 ≤ q) :
    ∃ j, ladder i = 2 ^ q * ladder j := by
  rcases Nat.lt_or_ge i 4 with hi | hi
  · rw [ladder_of_lt hi] at h
    have hle := Nat.le_of_dvd (by omega) h
    have hpow : 2 ^ 3 ≤ 2 ^ q := Nat.pow_le_pow_right (by decide) hq
    omega
  · obtain ⟨g, m, hm, rfl⟩ := exists_group hi
    rw [ladder_group g m hm] at h ⊢
    rcases Nat.lt_or_ge g q with hg | hg
    · obtain ⟨d, rfl⟩ : ∃ d, q = g + (d + 1) := ⟨q - g - 1, by omega⟩
      have hdvd : 2 ^ (d + 1) ∣ m + 5 := by
        rw [pow_add] at h
        exact Nat.dvd_of_mul_dvd_mul_left (Nat.two_pow_pos g) h
      have hle : 2 ^ (d + 1) ≤ 8 := (Nat.le_of_dvd (by omega) hdvd).trans (by omega)
      have hd : d + 1 ≤ 3 := (Nat.pow_le_pow_iff_right (a := 2) (by decide)).mp hle
      obtain ⟨c, hc⟩ := hdvd
      have hc4 : 0 < c ∧ c ≤ 4 := by
        constructor
        · rcases Nat.eq_zero_or_pos c with rfl | hpos
          · omega
          · exact hpos
        · have htwo : 2 ^ 1 ≤ 2 ^ (d + 1) := Nat.pow_le_pow_right (by decide) (by omega)
          nlinarith
      refine ⟨c - 1, ?_⟩
      rw [ladder_of_lt (by omega), hc, Nat.sub_add_cancel hc4.1, pow_add 2 g, mul_assoc]
    · obtain ⟨d, rfl⟩ : ∃ d, g = q + d := ⟨g - q, by omega⟩
      exact ⟨4 * (d + 1) + m, by rw [ladder_group d m hm, pow_add, mul_assoc]⟩

/-- The logarithm that rounds up, by the one that rounds down. -/
theorem log2_two_mul_sub_one {n : ℕ} (hn : 0 < n) : Nat.log2 (2 * n - 1) = Nat.clog 2 n := by
  rw [Nat.log2_eq_iff (by omega)]
  have hle := Nat.le_pow_clog (b := 2) (by decide) n
  constructor
  · rcases Nat.eq_zero_or_pos (Nat.clog 2 n) with hzero | hpos
    · rw [hzero]
      omega
    · obtain ⟨k, hk⟩ : ∃ k, Nat.clog 2 n = k + 1 := ⟨Nat.clog 2 n - 1, by omega⟩
      have hlt := (Nat.lt_clog_iff_pow_lt (b := 2) (y := k) (x := n) (by decide)).mp (by omega)
      rw [hk, pow_succ]
      omega
  · rw [pow_succ]
    omega

/-- The number of units below a size, by the group and position of its rung. -/
theorem div_two_pow_add {q g m d s : ℕ} (hd : s / 2 ^ q = d) (hlow : 2 ^ g * (m + 4) ≤ d)
    (hhigh : d < 2 ^ g * (m + 5)) : s / 2 ^ (q + g) = m + 4 := by
  rw [pow_add, ← Nat.div_div_eq_div_mul, hd]
  apply Nat.div_eq_of_lt_le
  · rwa [mul_comm] at hlow
  · rwa [mul_comm] at hhigh

/-- The binary logarithm, rounded up, of a size in a group. -/
theorem clog_two_eq {k m size : ℕ} (hm : m < 4) (hlow : 2 ^ k * (m + 4) < size)
    (hhigh : size ≤ 2 ^ k * (m + 5)) : Nat.clog 2 size = k + 3 := by
  apply le_antisymm
  · have hbound := Nat.mul_le_mul_left (2 ^ k) (show m + 5 ≤ 2 ^ 3 by omega)
    rw [Nat.clog_le_iff_le_pow (by decide), pow_add]
    omega
  · have hbound := Nat.mul_le_mul_left (2 ^ k) (show 2 ^ 2 ≤ m + 4 by omega)
    rw [Nat.succ_le_iff, Nat.lt_clog_iff_pow_lt (by decide), pow_add]
    omega

/-- The index of the rung above a number of units of `2 ^ q`, found by shifts from
the binary logarithm of the size. -/
theorem ladderIdx_eq_shift {q size x : ℕ} (hsize : 0 < size) (hx : x = Nat.log2 (2 * size - 1)) :
    4 * (if x < q + 3 then 0 else x - (q + 2)) +
        (size - 1) / 2 ^ (if x < q + 3 then q else x - 3) % 4 =
      ladderIdx ((size - 1) / 2 ^ q + 1) := by
  rw [log2_two_mul_sub_one hsize] at hx
  obtain ⟨d, hd⟩ : ∃ d, (size - 1) / 2 ^ q = d := ⟨_, rfl⟩
  have hunit := Nat.two_pow_pos q
  split
  · next hlt =>
    have hle : size ≤ 2 ^ (q + 2) := by
      rw [← Nat.clog_le_iff_le_pow (by decide)]
      omega
    have hfour : d < 4 := by
      rw [← hd, Nat.div_lt_iff_lt_mul hunit, mul_comm]
      rw [pow_add] at hle
      omega
    rw [hd, ladderIdx_of_le (by omega)]
    omega
  · next hge =>
    have hlt : 2 ^ (q + 2) < size := by
      rw [← Nat.lt_clog_iff_pow_lt (by decide)]
      omega
    have hfour : 4 ≤ d := by
      rw [← hd, Nat.le_div_iff_mul_le hunit, mul_comm]
      rw [pow_add] at hlt
      omega
    obtain ⟨g, m, hm, hidx, hlow, hhigh⟩ := ladderIdx_group (n := d + 1) (by omega)
    have hquot := div_two_pow_add hd (Nat.le_of_lt_succ hlow) hhigh
    have hpos := Nat.two_pow_pos (q + g)
    have hlow' : 2 ^ (q + g) * (m + 4) ≤ size - 1 := by
      have h := (Nat.le_div_iff_mul_le hpos).mp hquot.ge
      rwa [mul_comm] at h
    have hhigh' : size - 1 < 2 ^ (q + g) * (m + 5) := by
      have h := (Nat.div_lt_iff_lt_mul hpos).mp (hquot.trans_lt (Nat.lt_succ_self _))
      rwa [mul_comm] at h
    have hclog : Nat.clog 2 size = q + g + 3 := clog_two_eq hm (by omega) (by omega)
    rw [hd, hx, hclog, hidx, show q + g + 3 - 3 = q + g by omega, hquot]
    omega

/-- A number between two multiples rounds up to the second one. -/
theorem add_pred_div_mul {b n size : ℕ} (hlow : b * n < size) (hhigh : size ≤ b * (n + 1)) :
    (size + (b - 1)) / b * b = b * (n + 1) := by
  have hexpand : b * (n + 1) = b * n + b := by ring
  have hpos : 0 < b := by
    rcases Nat.eq_zero_or_pos b with rfl | hpos
    · omega
    · exact hpos
  have hdiv : (size + (b - 1)) / b = n + 1 := by
    apply Nat.div_eq_of_lt_le
    · rw [mul_comm, hexpand]
      omega
    · have hnext : (n + 1 + 1) * b = b * n + b + b := by ring
      rw [hnext]
      omega
  rw [hdiv, mul_comm]

/-- A size is rounded up to the rung above its number of units of `2 ^ q` with shifts from
its binary logarithm. -/
theorem ladder_eq_shift {q size x : ℕ} (hsize : 0 < size) (hx : x = Nat.log2 (2 * size - 1)) :
    (size + (2 ^ (if x < q + 3 then q else x - 3) - 1)) / 2 ^ (if x < q + 3 then q else x - 3) *
        2 ^ (if x < q + 3 then q else x - 3) =
      2 ^ q * ladder (ladderIdx ((size - 1) / 2 ^ q + 1)) := by
  rw [log2_two_mul_sub_one hsize] at hx
  obtain ⟨d, hd⟩ : ∃ d, (size - 1) / 2 ^ q = d := ⟨_, rfl⟩
  have hunit := Nat.two_pow_pos q
  have hlow : 2 ^ q * d < size := by
    have hle := Nat.div_mul_le_self (size - 1) (2 ^ q)
    rw [hd, mul_comm] at hle
    omega
  have hhigh : size ≤ 2 ^ q * (d + 1) := by
    have hlt := Nat.lt_div_mul_add hunit (a := size - 1)
    rw [hd] at hlt
    have hexpand : 2 ^ q * (d + 1) = d * 2 ^ q + 2 ^ q := by ring
    omega
  rw [hd]
  rcases Nat.lt_or_ge d 4 with hfour | hfour
  · have hclog : Nat.clog 2 size ≤ q + 2 := by
      rw [Nat.clog_le_iff_le_pow (by decide), pow_add]
      exact hhigh.trans (Nat.mul_le_mul_left _ (by omega))
    rw [if_pos (by omega), ladderIdx_of_le (by omega), ladder_of_lt (by omega),
      Nat.add_sub_cancel]
    exact add_pred_div_mul hlow hhigh
  · obtain ⟨g, m, hm, hidx, hlow', hhigh'⟩ := ladderIdx_group (n := d + 1) (by omega)
    have hbelow : 2 ^ (q + g) * (m + 4) < size := by
      have hmul := Nat.mul_le_mul_left (2 ^ q) (Nat.le_of_lt_succ hlow')
      rw [pow_add, mul_assoc]
      omega
    have habove : size ≤ 2 ^ (q + g) * (m + 5) := by
      rw [pow_add, mul_assoc]
      exact hhigh.trans (Nat.mul_le_mul_left _ hhigh')
    rw [hx, clog_two_eq hm hbelow habove, if_neg (by omega), hidx, ladder_group g m hm,
      Nat.add_sub_cancel, add_pred_div_mul hbelow habove, pow_add, mul_assoc]

end DuoDuo.Library
