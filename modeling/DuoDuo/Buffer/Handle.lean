import Mathlib.Data.Nat.Bitwise
import Mathlib.Tactic

/-!
# Handles

A handle packs a run and, for a part of a subpage, a bitmap index into 64 bits:
15 bits of run offset, 15 of run pages, the used bit, the subpage bit and 32 of
bitmap index. Handles are never negative, and `-1` is the absence of a handle.
-/

namespace DuoDuo.Buffer.PoolChunk

/-- `toRunHandle`. -/
def toRunHandle (runOffset runPages inUsed : ℕ) : ℕ :=
  runOffset <<< 49 ||| runPages <<< 34 ||| inUsed <<< 33

/-- `calculateRunOffset`. -/
def calculateRunOffset (handle : ℕ) : ℕ := handle >>> 49

/-- `calculateRunPages`. -/
def calculateRunPages (handle : ℕ) : ℕ := handle >>> 34 &&& 0x7fff

/-- `runSize` and `calculateRunSize` of a handle. -/
def runSize (pageShifts handle : ℕ) : ℕ := calculateRunPages handle <<< pageShifts

/-- `isUsed`. -/
def isUsed (handle : ℕ) : Bool := handle >>> 33 &&& 1 = 1

/-- `isSubpage`. -/
def isSubpage (handle : ℕ) : Bool := handle >>> 32 &&& 1 = 1

/-- `calculateBitmapIdx`. -/
def calculateBitmapIdx (handle : ℕ) : ℕ := handle % 2 ^ 32

/-- Marking a handle as used. -/
def setUsed (handle : ℕ) : ℕ := handle ||| 1 <<< 33

/-- Clearing the used and the subpage bit, as `free` does. -/
def clearUse (handle : ℕ) : ℕ := (handle.ldiff (1 <<< 33)).ldiff (1 <<< 32)

theorem isUsed_eq_testBit (handle : ℕ) : isUsed handle = handle.testBit 33 := by
  rw [isUsed, Nat.testBit, Nat.and_comm, Nat.one_and_eq_mod_two]
  rcases Nat.mod_two_eq_zero_or_one (handle >>> 33) with h | h <;> simp [h]

theorem isSubpage_eq_testBit (handle : ℕ) : isSubpage handle = handle.testBit 32 := by
  rw [isSubpage, Nat.testBit, Nat.and_comm, Nat.one_and_eq_mod_two]
  rcases Nat.mod_two_eq_zero_or_one (handle >>> 32) with h | h <;> simp [h]

theorem calculateRunPages_eq (handle : ℕ) :
    calculateRunPages handle = handle / 2 ^ 34 % 2 ^ 15 := by
  rw [calculateRunPages, show 0x7fff = 2 ^ 15 - 1 by rfl, Nat.and_two_pow_sub_one_eq_mod,
    Nat.shiftRight_eq_div_pow]

theorem calculateRunPages_lt (handle : ℕ) : calculateRunPages handle < 2 ^ 15 := by
  rw [calculateRunPages_eq]
  exact Nat.mod_lt _ (Nat.two_pow_pos 15)

/-- A run handle is the sum of its fields at their places. -/
theorem toRunHandle_eq {runOffset runPages inUsed : ℕ} (hp : runPages < 2 ^ 15)
    (hu : inUsed < 2) :
    toRunHandle runOffset runPages inUsed =
      runOffset * 2 ^ 49 + runPages * 2 ^ 34 + inUsed * 2 ^ 33 := by
  have hlow : inUsed <<< 33 < 2 ^ 34 := by rw [Nat.shiftLeft_eq]; omega
  have hmid : runPages <<< 34 + inUsed <<< 33 < 2 ^ 49 := by
    rw [Nat.shiftLeft_eq, Nat.shiftLeft_eq]
    omega
  rw [toRunHandle, Nat.lor_assoc, ← Nat.shiftLeft_add_eq_or_of_lt hlow,
    ← Nat.shiftLeft_add_eq_or_of_lt hmid]
  simp only [Nat.shiftLeft_eq]
  omega

section Fields

variable {runOffset runPages inUsed : ℕ} (hp : runPages < 2 ^ 15) (hu : inUsed < 2)
include hp hu

theorem calculateRunOffset_toRunHandle :
    calculateRunOffset (toRunHandle runOffset runPages inUsed) = runOffset := by
  rw [toRunHandle_eq hp hu, calculateRunOffset, Nat.shiftRight_eq_div_pow]
  omega

theorem calculateRunPages_toRunHandle :
    calculateRunPages (toRunHandle runOffset runPages inUsed) = runPages := by
  rw [toRunHandle_eq hp hu, calculateRunPages_eq]
  omega

theorem isUsed_toRunHandle :
    isUsed (toRunHandle runOffset runPages inUsed) = (inUsed = 1 : Bool) := by
  rw [toRunHandle_eq hp hu, isUsed, Nat.and_one_is_mod, Nat.shiftRight_eq_div_pow]
  congr 1
  apply propext
  omega

theorem isSubpage_toRunHandle :
    isSubpage (toRunHandle runOffset runPages inUsed) = false := by
  rw [toRunHandle_eq hp hu, isSubpage, Nat.and_one_is_mod, Nat.shiftRight_eq_div_pow,
    decide_eq_false_iff_not]
  omega

end Fields

theorem testBit_clearUse (handle i : ℕ) :
    (clearUse handle).testBit i = (handle.testBit i && !(i = 33 : Bool) && !(i = 32 : Bool)) := by
  rw [clearUse, Nat.testBit_ldiff, Nat.testBit_ldiff, Nat.shiftLeft_eq, Nat.shiftLeft_eq, one_mul,
    one_mul, Nat.testBit_two_pow, Nat.testBit_two_pow]
  simp only [eq_comm]

theorem testBit_setUsed (handle i : ℕ) :
    (setUsed handle).testBit i = (handle.testBit i || (i = 33 : Bool)) := by
  rw [setUsed, Nat.testBit_or, Nat.shiftLeft_eq, one_mul, Nat.testBit_two_pow]
  simp only [eq_comm]

@[simp] theorem calculateRunOffset_clearUse (handle : ℕ) :
    calculateRunOffset (clearUse handle) = calculateRunOffset handle := by
  apply Nat.eq_of_testBit_eq
  intro i
  rw [calculateRunOffset, calculateRunOffset, Nat.testBit_shiftRight, Nat.testBit_shiftRight,
    testBit_clearUse, decide_eq_false (by omega), decide_eq_false (by omega)]
  simp

@[simp] theorem calculateRunPages_clearUse (handle : ℕ) :
    calculateRunPages (clearUse handle) = calculateRunPages handle := by
  apply Nat.eq_of_testBit_eq
  intro i
  rw [calculateRunPages, calculateRunPages, Nat.testBit_and, Nat.testBit_and,
    Nat.testBit_shiftRight, Nat.testBit_shiftRight, testBit_clearUse,
    decide_eq_false (show ¬34 + i = 33 by omega), decide_eq_false (show ¬34 + i = 32 by omega)]
  simp

@[simp] theorem isUsed_clearUse (handle : ℕ) : isUsed (clearUse handle) = false := by
  rw [isUsed_eq_testBit, testBit_clearUse]
  simp

@[simp] theorem isSubpage_clearUse (handle : ℕ) : isSubpage (clearUse handle) = false := by
  rw [isSubpage_eq_testBit, testBit_clearUse]
  simp

@[simp] theorem calculateRunOffset_setUsed (handle : ℕ) :
    calculateRunOffset (setUsed handle) = calculateRunOffset handle := by
  apply Nat.eq_of_testBit_eq
  intro i
  rw [calculateRunOffset, calculateRunOffset, Nat.testBit_shiftRight, Nat.testBit_shiftRight,
    testBit_setUsed, decide_eq_false (by omega), Bool.or_false]

@[simp] theorem calculateRunPages_setUsed (handle : ℕ) :
    calculateRunPages (setUsed handle) = calculateRunPages handle := by
  apply Nat.eq_of_testBit_eq
  intro i
  rw [calculateRunPages, calculateRunPages, Nat.testBit_and, Nat.testBit_and,
    Nat.testBit_shiftRight, Nat.testBit_shiftRight, testBit_setUsed,
    decide_eq_false (show ¬34 + i = 33 by omega), Bool.or_false]

@[simp] theorem isUsed_setUsed (handle : ℕ) : isUsed (setUsed handle) = true := by
  rw [isUsed_eq_testBit, testBit_setUsed]
  simp

@[simp] theorem isSubpage_setUsed (handle : ℕ) :
    isSubpage (setUsed handle) = isSubpage handle := by
  rw [isSubpage_eq_testBit, isSubpage_eq_testBit, testBit_setUsed]
  simp

end DuoDuo.Buffer.PoolChunk
