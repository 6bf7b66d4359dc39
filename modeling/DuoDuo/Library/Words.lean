import Mathlib.Data.Nat.Bitwise
import Mathlib.Tactic.Common
import Mathlib.Tactic.Ring

/-!
# Machine words that hold small numbers

The operations of fixed-width words on natural numbers. Sums, products, shifts to the left
and masks of words are those of the numbers, modulo the width, without any condition. The
signed comparisons and shifts to the right are those of the numbers below the sign bit.
-/

namespace DuoDuo.Library

variable {w v : ℕ} {a b : ℕ}

/-- A number below the sign bit is its own signed value. -/
theorem toInt_ofNat_of_lt (ha : 2 * a < 2 ^ w) : (BitVec.ofNat w a).toInt = a := by
  have hmod : a % 2 ^ w = a := Nat.mod_eq_of_lt (by omega)
  rw [BitVec.toInt_eq_toNat_of_lt (by rw [BitVec.toNat_ofNat, hmod]; exact ha),
    BitVec.toNat_ofNat, hmod]

/-- Small numbers are compared as themselves. -/
theorem slt_ofNat (ha : 2 * a < 2 ^ w) (hb : 2 * b < 2 ^ w) :
    (BitVec.ofNat w a).slt (BitVec.ofNat w b) = decide (a < b) := by
  rw [BitVec.slt_eq_decide, toInt_ofNat_of_lt ha, toInt_ofNat_of_lt hb]
  exact decide_eq_decide.mpr Int.ofNat_lt

/-- Small numbers are compared as themselves. -/
theorem sle_ofNat (ha : 2 * a < 2 ^ w) (hb : 2 * b < 2 ^ w) :
    (BitVec.ofNat w a).sle (BitVec.ofNat w b) = decide (a ≤ b) := by
  rw [BitVec.sle_eq_decide, toInt_ofNat_of_lt ha, toInt_ofNat_of_lt hb]
  exact decide_eq_decide.mpr Int.ofNat_le

/-- Numbers that fit into a word are equal if the words are. -/
theorem ofNat_inj_of_lt (ha : a < 2 ^ w) (hb : b < 2 ^ w) :
    BitVec.ofNat w a = BitVec.ofNat w b ↔ a = b := by
  rw [← BitVec.toNat_inj, BitVec.toNat_ofNat, BitVec.toNat_ofNat, Nat.mod_eq_of_lt ha,
    Nat.mod_eq_of_lt hb]

/-- A quotient of numbers below the sign bit. -/
theorem sdiv_ofNat (ha : 2 * a < 2 ^ w) (hb : 2 * b < 2 ^ w) :
    (BitVec.ofNat w a).sdiv (BitVec.ofNat w b) = BitVec.ofNat w (a / b) := by
  have hmsb {c : ℕ} (hc : 2 * c < 2 ^ w) : (BitVec.ofNat w c).msb = false := by
    rw [BitVec.msb_eq_false_iff_two_mul_lt, BitVec.toNat_ofNat, Nat.mod_eq_of_lt (by omega)]
    exact hc
  have hle := Nat.div_le_self a b
  apply BitVec.eq_of_toNat_eq
  rw [BitVec.sdiv_eq, hmsb ha, hmsb hb]
  dsimp only
  rw [BitVec.udiv_eq, BitVec.toNat_udiv, BitVec.toNat_ofNat, BitVec.toNat_ofNat,
    BitVec.toNat_ofNat, Nat.mod_eq_of_lt (by omega), Nat.mod_eq_of_lt (by omega),
    Nat.mod_eq_of_lt (by omega)]

/-- A number below the sign bit is widened to itself. -/
theorem signExtend_ofNat (ha : 2 * a < 2 ^ w) (hwv : w ≤ v) :
    (BitVec.ofNat w a).signExtend v = BitVec.ofNat v a := by
  have hmod : a % 2 ^ w = a := Nat.mod_eq_of_lt (by omega)
  have hmsb : (BitVec.ofNat w a).msb = false := by
    rw [BitVec.msb_eq_false_iff_two_mul_lt, BitVec.toNat_ofNat, hmod]
    exact ha
  rw [BitVec.signExtend_eq_setWidth_of_msb_false hmsb, BitVec.setWidth_ofNat_of_le_of_lt hwv
    (by omega)]

/-- A shift to the left. -/
theorem shiftLeft_ofNat (hb : b < 2 ^ v) :
    BitVec.ofNat w a <<< BitVec.ofNat v b = BitVec.ofNat w (a <<< b) := by
  rw [BitVec.shiftLeft_eq', BitVec.toNat_ofNat, Nat.mod_eq_of_lt hb]
  apply BitVec.eq_of_toNat_eq
  rw [BitVec.toNat_shiftLeft, BitVec.toNat_ofNat, BitVec.toNat_ofNat, Nat.shiftLeft_eq,
    Nat.shiftLeft_eq, Nat.mod_mul_mod]

/-- An arithmetic shift to the right of a number below the sign bit. -/
theorem sshiftRight_ofNat (ha : 2 * a < 2 ^ w) (b : ℕ) :
    (BitVec.ofNat w a).sshiftRight b = BitVec.ofNat w (a >>> b) := by
  have hmod : a % 2 ^ w = a := Nat.mod_eq_of_lt (by omega)
  have hle : a >>> b ≤ a := Nat.shiftRight_le a b
  have hmsb : (BitVec.ofNat w a).msb = false := by
    rw [BitVec.msb_eq_false_iff_two_mul_lt, BitVec.toNat_ofNat, hmod]
    exact ha
  rw [BitVec.sshiftRight_eq_of_msb_false hmsb]
  apply BitVec.eq_of_toNat_eq
  rw [BitVec.toNat_ushiftRight, BitVec.toNat_ofNat, BitVec.toNat_ofNat, hmod,
    Nat.mod_eq_of_lt (by omega)]

/-- The mask that clears the low bits, as a shift of minus one. -/
theorem and_neg_one_shiftLeft (d : ℕ) :
    BitVec.ofNat w a &&& ((-1#w) <<< d) = BitVec.ofNat w ((a >>> d) <<< d) := by
  apply BitVec.eq_of_getLsbD_eq
  intro i hi
  rw [BitVec.getLsbD_and, BitVec.getLsbD_shiftLeft, BitVec.getLsbD_ofNat, BitVec.getLsbD_ofNat,
    Nat.testBit_shiftLeft, Nat.testBit_shiftRight]
  rcases Nat.lt_or_ge i d with hlow | hhigh
  · simp [hlow]
  · simp [hi, hhigh, Nat.sub_lt_of_lt hi, Nat.add_sub_cancel' hhigh, BitVec.neg_one_eq_allOnes]

/-- The mask that clears the low bits, as the complement of theirs. -/
theorem and_not_two_pow_sub_one (d : ℕ) :
    BitVec.ofNat w a &&& ~~~(BitVec.ofNat w (2 ^ d - 1)) = BitVec.ofNat w ((a >>> d) <<< d) := by
  apply BitVec.eq_of_getLsbD_eq
  intro i hi
  rw [BitVec.getLsbD_and, BitVec.getLsbD_not, BitVec.getLsbD_ofNat, BitVec.getLsbD_ofNat,
    BitVec.getLsbD_ofNat, Nat.testBit_shiftLeft, Nat.testBit_shiftRight,
    Nat.testBit_two_pow_sub_one]
  rcases Nat.lt_or_ge i d with hlow | hhigh
  · simp [hlow]
  · simp [hi, hhigh, Nat.add_sub_cancel' hhigh]

end DuoDuo.Library
