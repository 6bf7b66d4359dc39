import Mathlib.Data.Nat.Bitwise
import Mathlib.Tactic

/-!
# Size classes

`MathUtils` and `SizeClass`: the loops that build the tables, and the lookups.
Sizes and indices are natural numbers, and an `int` is reduced to 32 bits wherever
the source can leave its range. A mask `& (-1 << d)` is written as a shift right
and back left.
-/

namespace DuoDuo.Buffer

namespace MathUtils

/-- One of the comparisons of `numberOfLeadingZeros`: skip `s` zero bits. -/
def skipZeros (s : ℕ) (p : ℕ × ℕ) : ℕ × ℕ :=
  if p.2 >>> (32 - s) = 0 then (p.1 + s, (p.2 <<< s) % 2 ^ 32) else p

/-- `numberOfLeadingZeros` of a 32-bit value. -/
def numberOfLeadingZeros (val : ℕ) : ℕ :=
  if val = 0 then 32
  else
    let p := skipZeros 2 (skipZeros 4 (skipZeros 8 (skipZeros 16 (1, val))))
    p.1 - p.2 >>> 31

/-- `log2` of an `int` given by its 32 bits. -/
def log2 (val : ℕ) : ℕ := 31 - numberOfLeadingZeros (val % 2 ^ 32)

/-- Skipping zeros normalises the value further, and counts the bits it shifts. -/
theorem skipZeros_spec {s n val : ℕ} (hs : s ≤ 16) (hval : val < 2 ^ 32)
    (hlow : 2 ^ (32 - 2 * s) ≤ val) :
    ∃ k, skipZeros s (n, val) = (n + k, val * 2 ^ k) ∧ 2 ^ (32 - s) ≤ val * 2 ^ k ∧
      val * 2 ^ k < 2 ^ 32 := by
  have hsplit : 2 ^ 32 = 2 ^ (32 - s) * 2 ^ s := by rw [← pow_add]; congr 1; omega
  simp only [skipZeros]
  by_cases hzero : val >>> (32 - s) = 0
  · have hlt : val < 2 ^ (32 - s) := by
      rw [Nat.shiftRight_eq_div_pow] at hzero
      exact (Nat.div_eq_zero_iff_lt (Nat.two_pow_pos _)).mp hzero
    have hfits : val * 2 ^ s < 2 ^ 32 := by
      rw [hsplit]
      exact Nat.mul_lt_mul_of_pos_right hlt (Nat.two_pow_pos s)
    rw [if_pos hzero, Nat.shiftLeft_eq, Nat.mod_eq_of_lt hfits]
    refine ⟨s, rfl, ?_, hfits⟩
    calc 2 ^ (32 - s) = 2 ^ (32 - 2 * s) * 2 ^ s := by rw [← pow_add]; congr 1; omega
      _ ≤ val * 2 ^ s := Nat.mul_le_mul_right _ hlow
  · rw [if_neg hzero]
    refine ⟨0, by simp, ?_, by simpa using hval⟩
    rw [Nat.shiftRight_eq_div_pow, Nat.div_eq_zero_iff_lt (Nat.two_pow_pos _), not_lt] at hzero
    simpa using hzero

/-- `log2` is the binary logarithm of a positive 32-bit value. -/
theorem log2_eq {val : ℕ} (hpos : 0 < val) (hval : val < 2 ^ 32) : log2 val = Nat.log2 val := by
  obtain ⟨k₁, h₁, hlow₁, hlt₁⟩ := skipZeros_spec (n := 1) (s := 16) (by decide) hval
    (by simpa using Nat.one_le_of_lt hpos)
  obtain ⟨k₂, h₂, hlow₂, hlt₂⟩ := skipZeros_spec (n := 1 + k₁) (s := 8) (by decide) hlt₁
    (by simpa using hlow₁)
  obtain ⟨k₃, h₃, hlow₃, hlt₃⟩ := skipZeros_spec (n := 1 + k₁ + k₂) (s := 4) (by decide) hlt₂
    (by simpa using hlow₂)
  obtain ⟨k₄, h₄, hlow₄, hlt₄⟩ := skipZeros_spec (n := 1 + k₁ + k₂ + k₃) (s := 2) (by decide) hlt₃
    (by simpa using hlow₃)
  have hshift : val * 2 ^ k₁ * 2 ^ k₂ * 2 ^ k₃ * 2 ^ k₄ = val * 2 ^ (k₁ + k₂ + k₃ + k₄) := by
    ring
  rw [hshift] at h₄ hlow₄ hlt₄
  have hcount : 1 + k₁ + k₂ + k₃ + k₄ = 1 + (k₁ + k₂ + k₃ + k₄) := by omega
  rw [hcount] at h₄
  have hnorm : numberOfLeadingZeros val =
      1 + (k₁ + k₂ + k₃ + k₄) - (val * 2 ^ (k₁ + k₂ + k₃ + k₄)) >>> 31 := by
    rw [numberOfLeadingZeros, if_neg hpos.ne', h₁, h₂, h₃, h₄]
  generalize k₁ + k₂ + k₃ + k₄ = k at hnorm hlow₄ hlt₄
  obtain ⟨hlow, hhigh⟩ := (Nat.log2_eq_iff hpos.ne').mp (rfl : Nat.log2 val = Nat.log2 val)
  have hlow' : 2 ^ (Nat.log2 val + k) ≤ val * 2 ^ k := by
    rw [pow_add]
    exact Nat.mul_le_mul_right _ hlow
  have hhigh' : val * 2 ^ k < 2 ^ (Nat.log2 val + 1 + k) := by
    rw [pow_add]
    exact Nat.mul_lt_mul_of_pos_right hhigh (Nat.two_pow_pos k)
  have hmin : 30 < Nat.log2 val + 1 + k :=
    (Nat.pow_lt_pow_iff_right (by decide)).mp (hlow₄.trans_lt hhigh')
  rw [log2, Nat.mod_eq_of_lt hval, hnorm, Nat.shiftRight_eq_div_pow]
  rcases Nat.lt_or_ge (val * 2 ^ k) (2 ^ 31) with hbit | hbit
  · have hmax : Nat.log2 val + k < 31 :=
      (Nat.pow_lt_pow_iff_right (by decide)).mp (hlow'.trans_lt hbit)
    rw [Nat.div_eq_of_lt hbit]
    omega
  · have hmax : Nat.log2 val + k < 32 :=
      (Nat.pow_lt_pow_iff_right (by decide)).mp (hlow'.trans_lt hlt₄)
    have hmin' : 31 < Nat.log2 val + 1 + k :=
      (Nat.pow_lt_pow_iff_right (by decide)).mp (hbit.trans_lt hhigh')
    have hone : val * 2 ^ k / 2 ^ 31 = 1 :=
      Nat.div_eq_of_lt_le (by simpa using hbit) (by simpa using hlt₄)
    rw [hone]
    omega

end MathUtils

/-- One row of `m_sizeClasses`. -/
structure SizeClassRow where
  index : ℕ
  log2Group : ℕ
  log2Delta : ℕ
  nDelta : ℕ
  isMultiPageSize : Bool
  isSubPage : Bool
  log2DeltaSearch : ℕ
  deriving DecidableEq, Repr

/-- The size that a row stands for. -/
def SizeClassRow.size (row : SizeClassRow) : ℕ :=
  1 <<< row.log2Group + (1 <<< row.log2Delta) * row.nDelta

/-- The row that `sizeClass` computes. -/
def sizeClassRow (pageShifts index log2Group log2Delta nDelta : ℕ) : SizeClassRow :=
  let size := 1 <<< log2Group + (1 <<< log2Delta) * nDelta
  let log2nDelta := if nDelta = 0 then 0 else MathUtils.log2 nDelta
  let log2size := if log2nDelta + log2Delta = log2Group then log2Group + 1 else log2Group
  let mark := log2size = log2Group ∨ 1 <<< log2nDelta < nDelta
  { index, log2Group, log2Delta, nDelta
    isMultiPageSize := pageShifts ≤ log2Delta ∨ size &&& (1 <<< pageShifts - 1) = 0
    isSubPage := log2size < pageShifts + 2
    log2DeltaSearch := if log2size < 12 ∨ log2size = 12 ∧ ¬mark then log2Delta else 0 }

/-- The fields that are filled while the classes are built, with the last size. -/
structure SizeClassBuild where
  rows : List SizeClassRow
  nPSizes : ℕ
  nSubpages : ℕ
  smallMaxSizeIdx : ℕ
  searchMaxSize : ℕ
  size : ℕ
  deriving DecidableEq, Repr

/-- Nothing built yet. -/
def SizeClassBuild.init : SizeClassBuild := ⟨[], 0, 0, 0, 0, 0⟩

/-- `sizeClass`, at the next index. -/
def SizeClassBuild.sizeClass (b : SizeClassBuild) (pageShifts log2Group log2Delta nDelta : ℕ) :
    SizeClassBuild :=
  let index := b.rows.length
  let row := sizeClassRow pageShifts index log2Group log2Delta nDelta
  { rows := b.rows ++ [row]
    nPSizes := if row.isMultiPageSize then b.nPSizes + 1 else b.nPSizes
    nSubpages := if row.isSubPage then b.nSubpages + 1 else b.nSubpages
    smallMaxSizeIdx := if row.isSubPage then index else b.smallMaxSizeIdx
    searchMaxSize := if row.log2DeltaSearch ≠ 0 then row.size else b.searchMaxSize
    size := row.size }

/-- The inner loop of `sizeClasses`, with the number of rows left in the group. -/
def groupLoop (pageShifts chunkSize log2Group log2Delta : ℕ) : ℕ → SizeClassBuild → SizeClassBuild
  | 0, b => b
  | left + 1, b =>
    if b.size < chunkSize then
      groupLoop pageShifts chunkSize log2Group log2Delta left
        (b.sizeClass pageShifts log2Group log2Delta (4 - left))
    else b

/-- The outer loop of `sizeClasses`, for at most `fuel` groups. -/
def sizeClassesLoop (pageShifts chunkSize : ℕ) : ℕ → ℕ → ℕ → SizeClassBuild → SizeClassBuild
  | 0, _, _, b => b
  | fuel + 1, log2Group, log2Delta, b =>
    if b.size < chunkSize then
      sizeClassesLoop pageShifts chunkSize fuel (log2Group + 1) (log2Delta + 1)
        (groupLoop pageShifts chunkSize log2Group log2Delta 4 b)
    else b

/-- `sizeClasses`. A group doubles the size, so an `int` is reached within 32 groups. -/
def sizeClasses (pageShifts chunkSize : ℕ) : SizeClassBuild :=
  sizeClassesLoop pageShifts chunkSize 32 6 4
    ((List.range 4).foldl (fun b nDelta => b.sizeClass pageShifts 4 4 nDelta) .init)

/-- The inner loop of `size2idxTab`, with the table filled so far and its next size. -/
def fillIdx (searchMaxSize i : ℕ) : ℕ → List ℕ × ℕ → List ℕ × ℕ
  | 0, acc => acc
  | times + 1, (tab, size) =>
    if size ≤ searchMaxSize then
      fillIdx searchMaxSize i times (tab ++ [i], (tab.length + 2) <<< 4)
    else (tab, size)

/-- `size2idxTab`, from the indices of the rows with the logarithms of their spacing. -/
def size2idxTab (searchMaxSize : ℕ) (deltas : List (ℕ × ℕ)) : List ℕ :=
  (deltas.foldl (fun acc d =>
    if acc.2 ≤ searchMaxSize then fillIdx searchMaxSize d.1 (1 <<< (d.2 - 4)) acc else acc)
    ([], 0)).1

/-- The size classes of an arena. -/
structure SizeClass where
  pageSize : ℕ
  pageShifts : ℕ
  chunkSize : ℕ
  nSizes : ℕ
  nSubpages : ℕ
  nPSizes : ℕ
  smallMaxSizeIdx : ℕ
  searchMaxSize : ℕ
  sizeIdx2sizeTab : List ℕ
  pageIdx2sizeTab : List ℕ
  size2idxTab : List ℕ
  deriving DecidableEq, Repr

namespace SizeClass

/-- The constructor. -/
def new (pageSize pageShifts chunkSize : ℕ) : SizeClass :=
  let b := sizeClasses pageShifts chunkSize
  { pageSize, pageShifts, chunkSize
    nSizes := b.rows.length
    nSubpages := b.nSubpages
    nPSizes := b.nPSizes
    smallMaxSizeIdx := b.smallMaxSizeIdx
    searchMaxSize := b.searchMaxSize
    sizeIdx2sizeTab := b.rows.map SizeClassRow.size
    pageIdx2sizeTab := (b.rows.filter SizeClassRow.isMultiPageSize).map SizeClassRow.size
    size2idxTab := Buffer.size2idxTab b.searchMaxSize
      (b.rows.map fun row => (row.index, row.log2Delta)) }

variable (c : SizeClass)

/-- `size2sizeIdx`. -/
def size2sizeIdx (size : ℕ) : ℕ :=
  if size = 0 then 0
  else if c.chunkSize < size then c.nSizes
  else if size ≤ c.searchMaxSize then c.size2idxTab.getD ((size - 1) >>> 4) 0
  else
    let x := MathUtils.log2 (size <<< 1 - 1)
    let shift := if x < 7 then 0 else x - 6
    let log2Delta := if x < 7 then 4 else x - 3
    shift <<< 2 + ((((size - 1) >>> log2Delta) <<< log2Delta) >>> log2Delta &&& 3)

/-- `sizeIdx2size`. -/
def sizeIdx2size (sizeIdx : ℕ) : ℕ := c.sizeIdx2sizeTab.getD sizeIdx 0

/-- `pageIdx2size`. -/
def pageIdx2size (pageIdx : ℕ) : ℕ := c.pageIdx2sizeTab.getD pageIdx 0

/-- `pages2pageIdxCompute`. -/
def pages2pageIdxCompute (pages : ℕ) (floor : Bool) : ℕ :=
  let pageSize := pages <<< c.pageShifts
  if c.chunkSize < pageSize then c.nPSizes
  else
    let x := MathUtils.log2 (pageSize <<< 1 - 1)
    let shift := if x < 2 + c.pageShifts then 0 else x - (2 + c.pageShifts)
    let log2Delta := if x < 2 + c.pageShifts + 1 then c.pageShifts else x - 3
    let pageIdx :=
      shift <<< 2 + ((((pageSize - 1) >>> log2Delta) <<< log2Delta) >>> log2Delta &&& 3)
    if floor ∧ pages <<< c.pageShifts < c.pageIdx2size pageIdx then pageIdx - 1 else pageIdx

/-- `page2pageIdx`. -/
def page2pageIdx (pages : ℕ) : ℕ := c.pages2pageIdxCompute pages false

/-- `page2pageIdxFloor`. -/
def page2pageIdxFloor (pages : ℕ) : ℕ := c.pages2pageIdxCompute pages true

/-- `normalizeSizeCompute`, with the wrap-around of an `int`. -/
def normalizeSizeCompute (size : ℕ) : ℤ :=
  let x := MathUtils.log2 (size <<< 1 - 1)
  let log2Delta := if x < 7 then 4 else x - 3
  let deltaMask := 1 <<< log2Delta - 1
  (((((size + deltaMask) >>> log2Delta) <<< log2Delta : ℕ) : ℤ)).bmod (2 ^ 32)

/-- `normalizeSize`. -/
def normalizeSize (size : ℕ) : ℤ :=
  if size = 0 then c.sizeIdx2size 0
  else if size ≤ c.searchMaxSize then c.sizeIdx2size (c.size2idxTab.getD ((size - 1) >>> 4) 0)
  else normalizeSizeCompute size

end SizeClass

end DuoDuo.Buffer
