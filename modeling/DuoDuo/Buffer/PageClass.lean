import DuoDuo.Buffer.SizeClassLookup
import Mathlib.Order.Bounds.Basic

/-!
# Rounding a number of pages to a class

The lookups of page classes in 32 bits. The index is computed by shifts and masks that do
not look at the table. For every page size and chunk size it is the index of the least
class that is not below the pages or, rounded down, of the greatest that is not above them.
-/

namespace DuoDuo.Buffer.SizeClassInt

open Library SizeClassTables

variable {p m : ℕ}

/-- The table of page classes holds the rungs up to the pages of a chunk. -/
theorem pageSizes_built (hp : 12 ≤ p) : pageSizes p (4 * (p + m - 5)) =
    (List.range (ladderIdx (2 ^ m) + 1)).map fun j => int (2 ^ p * ladder j) := by
  have hsizes := congrArg (List.map int) (multiPageSizes_eq (m := m) hp)
  rwa [List.map_map, List.map_map] at hsizes

/-- The index of the last page class is small. -/
theorem ladderIdx_two_pow_le (hsum : p + m ≤ 30) (hp : 12 ≤ p) : ladderIdx (2 ^ m) ≤ 2 ^ 18 := by
  have hpages : 2 ^ m ≤ 2 ^ 18 := Nat.pow_le_pow_right (by decide) (by omega)
  have hrung := ladder_strictMono.le_apply (x := ladderIdx (2 ^ m))
  rw [ladder_two_pow] at hrung
  exact hrung.trans hpages

/-- There are as many queues as rungs. -/
theorem toNat_nPSizes (hp : 12 ≤ p) (hsum : p + m ≤ 30) :
    (built p m).nPSizes.toNat = ladderIdx (2 ^ m) + 1 := by
  have hle := ladderIdx_two_pow_le hsum hp
  rw [built, pageSizes_built hp, List.length_map, List.length_range, BitVec.toNat_ofNat,
    Nat.mod_eq_of_lt (by omega)]

/-- A page class fits into a chunk. -/
theorem pageClass_le (hsum : p + m ≤ 30) {j : ℕ} (hj : j ≤ ladderIdx (2 ^ m)) :
    2 ^ p * ladder j ≤ 2 ^ 30 := by
  have hrung := ladder_strictMono.monotone hj
  rw [ladder_two_pow] at hrung
  calc 2 ^ p * ladder j ≤ 2 ^ p * 2 ^ m := Nat.mul_le_mul_left _ hrung
    _ = 2 ^ (p + m) := (pow_add 2 p m).symm
    _ ≤ 2 ^ 30 := Nat.pow_le_pow_right (by decide) hsum

/-- The table holds the class. -/
theorem read_pageIdx2sizeTab (hp : 12 ≤ p) (hsum : p + m ≤ 30) {j : ℕ}
    (hj : j ≤ ladderIdx (2 ^ m)) :
    (built p m).pageIdx2sizeTab.read (int j).toNat = some (int (2 ^ p * ladder j)) := by
  have hle := ladderIdx_two_pow_le hsum hp
  have hlength : j < (pageSizes p (4 * (p + m - 5))).length := by
    rw [pageSizes_built hp, List.length_map, List.length_range]
    omega
  rw [BitVec.toNat_ofNat, Nat.mod_eq_of_lt (by omega), built, Table.read_filled hlength]
  simp only [pageSizes_built hp, List.getElem_map, List.getElem_range]

/-- `pageIdx2size` reads the class. -/
theorem pageIdx2size_int (hp : 12 ≤ p) (hsum : p + m ≤ 30) {j : ℕ}
    (hj : j ≤ ladderIdx (2 ^ m)) :
    (built p m).pageIdx2size (int j) = some (BitVec.ofNat 64 (2 ^ p * ladder j)) := by
  have hclass := pageClass_le hsum hj
  rw [pageIdx2size, read_pageIdx2sizeTab hp hsum hj, Option.map_some,
    signExtend_ofNat (by omega) (by decide)]

/-- `pageIdx2sizeCompute` computes the class. -/
theorem pageIdx2sizeCompute_int (hp : 12 ≤ p) (hsum : p + m ≤ 30) {j : ℕ}
    (hj : j ≤ ladderIdx (2 ^ m)) :
    (built p m).pageIdx2sizeCompute (int j) = BitVec.ofNat 64 (2 ^ p * ladder j) := by
  have hle := ladderIdx_two_pow_le hsum hp
  have hclass := pageClass_le hsum hj
  have hgroup : (int j).sshiftRight 2 = int (j / 4) := by
    rw [sshiftRight_ofNat (by omega), Nat.shiftRight_eq_div_pow]
  have hmod : int j &&& ((1#32 <<< LOG2_SIZE_CLASS_GROUP) - 1) = int (j % 4) := by
    rw [show (1#32 <<< LOG2_SIZE_CLASS_GROUP) - 1 = int (2 ^ 2 - 1) from rfl, ← BitVec.ofNat_and,
      Nat.and_two_pow_sub_one_eq_mod]
  have hdelta (g : ℕ) : int (g + 1) + int p - 1 = int (g + p) := by
    rw [BitVec.ofNat_add_ofNat, int_pred (by omega)]
    congr 1
    omega
  have hbase : int p + LOG2_SIZE_CLASS_GROUP - 1 = int (p + 1) := by
    rw [show LOG2_SIZE_CLASS_GROUP = int (1 + 1) from rfl, BitVec.add_comm, hdelta, add_comm]
  rw [pageIdx2sizeCompute, hgroup, hmod, int_succ]
  dsimp only [built]
  rcases Nat.lt_or_ge j 4 with hsmall | hlarge
  · rw [ladder_of_lt hsmall] at hclass ⊢
    have hshift : (1 : BitVec 32) + int p - 1 = int p := (hdelta 0).trans (by rw [zero_add])
    rw [Nat.div_eq_of_lt hsmall, if_pos (show int 0 = 0 from rfl),
      if_pos (show int 0 = 0 from rfl), hshift, shiftLeft_ofNat (by omega),
      Nat.mod_eq_of_lt hsmall, Nat.shiftLeft_eq, mul_comm,
      signExtend_ofNat (by omega) (by decide)]
    exact BitVec.zero_add _
  · obtain ⟨g, i, hi, rfl⟩ := exists_group hlarge
    have hdiv : (4 * (g + 1) + i) / 4 = g + 1 := by omega
    have hrest : (4 * (g + 1) + i) % 4 = i := by omega
    have hne : int (g + 1) ≠ 0 := by
      refine mt (ofNat_inj_of_lt (b := 0) ?_ (by decide)).mp (by omega)
      omega
    rw [ladder_group g i hi] at hclass ⊢
    have hsum' : 2 ^ p * (2 ^ g * (i + 5)) = 2 ^ (p + 1) * 2 ^ (g + 1) + (i + 1) * 2 ^ (g + p) := by
      ring
    rw [hdiv, hrest, if_neg hne, if_neg hne, hbase, hdelta, shiftLeft_ofNat (by omega),
      shiftLeft_ofNat (by omega),
      shiftLeft_ofNat (by omega), Nat.shiftLeft_eq, Nat.shiftLeft_eq, Nat.shiftLeft_eq,
      signExtend_ofNat (by omega) (by decide), BitVec.ofNat_add_ofNat, one_mul, hsum']

/-- The number of groups that the lookup takes from the logarithm. -/
theorem pageShift_int {x : ℕ} (hx : x ≤ 30) (hp : p ≤ 30) :
    (if (int x).slt (LOG2_SIZE_CLASS_GROUP + int p) then 0
      else int x - (LOG2_SIZE_CLASS_GROUP + int p)) =
    int (if x < p + 3 then 0 else x - (p + 2)) := by
  have hlow : (if x < p + 3 then 0 else x - (p + 2)) = if x < p + 2 then 0 else x - (p + 2) := by
    split_ifs <;> omega
  rw [hlow, show LOG2_SIZE_CLASS_GROUP + int p = int (p + 2) by
    rw [add_comm p 2]; exact BitVec.ofNat_add_ofNat 2 p]
  refine ite_slt_int (by omega) (by omega) (fun _ => rfl) fun h => ?_
  exact BitVec.ofNat_sub_ofNat_of_le x (p + 2) (by omega) h

/-- The spacing that the lookup takes from the logarithm. -/
theorem pageDelta_int {x : ℕ} (hx : x ≤ 30) (hp : p ≤ 30) :
    (if (int x).slt (LOG2_SIZE_CLASS_GROUP + int p + 1) then int p
      else int x - LOG2_SIZE_CLASS_GROUP - 1) = int (if x < p + 3 then p else x - 3) := by
  rw [show LOG2_SIZE_CLASS_GROUP = int 2 from rfl, BitVec.ofNat_add_ofNat, int_succ,
    show 2 + p + 1 = p + 3 by omega]
  refine ite_slt_int (by omega) (by omega) (fun _ => rfl) fun h => ?_
  rw [BitVec.ofNat_sub_ofNat_of_le _ _ (by decide) (by omega), int_pred (by omega), Nat.sub_sub]

/-- The lookup finds the index of the rung above a number of pages, less one where it is to
be rounded down and is no rung. -/
theorem pages2pageIdxCompute_int (hp : 12 ≤ p) (hsum : p + m ≤ 30) {pages : ℕ} (hpos : 0 < pages)
    (hle : pages ≤ 2 ^ m) (floor : Bool) :
    (built p m).pages2pageIdxCompute (int pages) floor =
      some (int (if floor then ladderFloor pages else ladderIdx pages)) := by
  have hidx : ladderIdx pages ≤ ladderIdx (2 ^ m) := by
    rw [ladderIdx_le_iff hpos, ladder_two_pow]
    exact hle
  have hclass := pageClass_le hsum hidx
  have hread := read_pageIdx2sizeTab hp hsum hidx
  obtain ⟨size, hsize⟩ : ∃ size, pages * 2 ^ p = size := ⟨_, rfl⟩
  have hshift : int pages <<< int p = int size := by
    rw [shiftLeft_ofNat (by omega), Nat.shiftLeft_eq, hsize]
  have hsizePos : 0 < size := by
    rw [← hsize]
    exact Nat.mul_pos hpos (Nat.two_pow_pos p)
  have hfits : size ≤ 2 ^ (p + m) := by
    rw [← hsize, pow_add, mul_comm]
    exact Nat.mul_le_mul_left _ hle
  have hchunk : 2 ^ (p + m) ≤ 2 ^ 30 := Nat.pow_le_pow_right (by decide) hsum
  have hunits : (size - 1) / 2 ^ p + 1 = pages := by
    rw [← hsize]
    exact PoolConfig.pred_mul_div_add_one hpos (Nat.two_pow_pos p)
  obtain ⟨x, hx⟩ : ∃ x, MathUtils.log2 (size <<< 1 - 1) = x := ⟨_, rfl⟩
  have hxle := log2_double_le hsizePos (hfits.trans hchunk)
  rw [hx] at hxle
  have hlookup := PoolConfig.shift_lookup (q := p) hsizePos (hfits.trans hchunk) hx.symm
  obtain ⟨d, hd⟩ : ∃ d, (if x < p + 3 then p else x - 3) = d := ⟨_, rfl⟩
  have hdle : d ≤ 30 := by
    rw [← hd]
    split_ifs <;> omega
  rw [hunits, hd] at hlookup
  have hnot : (int (2 ^ (p + m))).slt (int size) = false := by
    rw [slt_ofNat (by omega) (by omega)]
    exact decide_eq_false (by omega)
  rw [pages2pageIdxCompute]
  rw [show (built p m).pageShifts = int p from rfl,
    show (built p m).chunkSize = int (2 ^ (p + m)) from rfl, hshift, hnot,
    if_neg Bool.false_ne_true]
  dsimp only
  rw [log2_double hsizePos (hfits.trans hchunk), hx, pageShift_int hxle (by omega),
    pageDelta_int hxle (by omega), hd, int_pred hsizePos, mod_int (by omega) hdle,
    show LOG2_SIZE_CLASS_GROUP = int 2 from rfl, shiftLeft_ofNat (by decide),
    BitVec.ofNat_add_ofNat, hlookup]
  cases floor with
  | false => rfl
  | true =>
    have hcompare : (int size).slt (int (2 ^ p * ladder (ladderIdx pages))) =
        decide (pages < ladder (ladderIdx pages)) := by
      rw [slt_ofNat (by omega) (by omega), ← hsize, mul_comm pages]
      exact decide_eq_decide.mpr (Nat.mul_lt_mul_left (Nat.two_pow_pos p))
    rw [if_pos rfl, if_pos rfl, hread, Option.map_some, hcompare, ladderFloor]
    by_cases hround : pages < ladder (ladderIdx pages)
    · have hidxPos : 0 < ladderIdx pages := by
        refine Nat.pos_of_ne_zero fun hzero => ?_
        rw [hzero, ladder_of_lt (by decide)] at hround
        omega
      rw [if_pos (decide_eq_true hround), if_pos hround, int_pred hidxPos]
    · rw [if_neg (by simpa using hround), if_neg hround]

/-- The indices of the queues whose class is as described. -/
def pageClasses (c : SizeClassInt) (P : ℤ → Prop) : Set ℕ :=
  {j | j < c.nPSizes.toNat ∧ ∃ size, c.pageIdx2size (int j) = some size ∧ P size.toInt}

/-- What the lookups of page classes promise. The two computations of a class agree, and a
number of pages is rounded to the least class that is not below it or to the greatest that
is not above it. -/
structure PageRounding (c : SizeClassInt) : Prop where
  agree : ∀ j < c.nPSizes.toNat, c.pageIdx2size (int j) = some (c.pageIdx2sizeCompute (int j))
  up : ∀ pages : Int32Word, 1 ≤ pages.toInt → pages.toInt ≤ c.chunkSize.toInt / c.pageSize.toInt →
    ∃ j, c.page2pageIdx pages = some (int j) ∧
      IsLeast (c.pageClasses (pages.toInt * c.pageSize.toInt ≤ ·)) j
  down : ∀ pages : Int32Word, 1 ≤ pages.toInt →
    pages.toInt ≤ c.chunkSize.toInt / c.pageSize.toInt →
    ∃ j, c.page2pageIdxFloor pages = some (int j) ∧
      IsGreatest (c.pageClasses (· ≤ pages.toInt * c.pageSize.toInt)) j

/-- A queue is described by its rung. -/
theorem mem_pageClasses (hp : 12 ≤ p) (hsum : p + m ≤ 30) {P : ℤ → Prop} {j : ℕ} :
    j ∈ (built p m).pageClasses P ↔ j ≤ ladderIdx (2 ^ m) ∧ P (2 ^ p * ladder j : ℕ) := by
  rw [pageClasses, Set.mem_ofPred_eq, toNat_nPSizes hp hsum, Nat.lt_succ_iff]
  refine and_congr_right fun hj => ?_
  have hclass := pageClass_le hsum hj
  rw [pageIdx2size_int hp hsum hj]
  constructor
  · rintro ⟨size, hsize, hP⟩
    obtain rfl := Option.some.inj hsize
    rwa [toInt_ofNat_of_lt (by omega)] at hP
  · intro hP
    refine ⟨_, rfl, ?_⟩
    rwa [toInt_ofNat_of_lt (by omega)]

/-- A number of pages of a chunk, in 32 bits. -/
theorem exists_pages (hsum : p + m ≤ 30) {pages : Int32Word}
    (hlow : 1 ≤ pages.toInt)
    (hhigh : pages.toInt ≤ (built p m).chunkSize.toInt / (built p m).pageSize.toInt) :
    ∃ n, 0 < n ∧ n ≤ 2 ^ m ∧ pages = int n ∧
      pages.toInt * (built p m).pageSize.toInt = (2 ^ p * n : ℕ) := by
  have hpage : 2 ^ p ≤ 2 ^ 30 := Nat.pow_le_pow_right (by decide) (by omega)
  have hchunk : 2 ^ (p + m) ≤ 2 ^ 30 := Nat.pow_le_pow_right (by decide) hsum
  have hpageInt : (built p m).pageSize.toInt = (2 ^ p : ℕ) := toInt_ofNat_of_lt (by omega)
  have hchunkInt : (built p m).chunkSize.toInt = (2 ^ (p + m) : ℕ) := toInt_ofNat_of_lt (by omega)
  have hpages : pages.toInt = pages.toNat := by
    have hlt := pages.isLt
    have hcond := BitVec.toInt_eq_toNat_cond pages
    split_ifs at hcond <;> omega
  rw [hpageInt, hchunkInt, ← Int.natCast_ediv, pow_add, Nat.mul_div_cancel_left _
    (Nat.two_pow_pos p), hpages, Nat.cast_le] at hhigh
  refine ⟨pages.toNat, by omega, hhigh, (BitVec.ofNat_toNat 32 pages).symm, ?_⟩
  rw [hpages, hpageInt, mul_comm, Nat.cast_mul]

/-- The tables that the constructor builds keep the promise. -/
theorem pageRounding_built (hp : 12 ≤ p) (hsum : p + m ≤ 30) : (built p m).PageRounding := by
  refine ⟨?_, ?_, ?_⟩
  · intro j hj
    rw [toNat_nPSizes hp hsum, Nat.lt_succ_iff] at hj
    rw [pageIdx2size_int hp hsum hj, pageIdx2sizeCompute_int hp hsum hj]
  · intro pages hlow hhigh
    obtain ⟨n, hpos, hle, rfl, hbytes⟩ := exists_pages hsum hlow hhigh
    have hidx : ladderIdx n ≤ ladderIdx (2 ^ m) := by
      rwa [ladderIdx_le_iff hpos, ladder_two_pow]
    obtain ⟨hrung, hleast⟩ := ladderIdx_spec hpos
    refine ⟨ladderIdx n, pages2pageIdxCompute_int hp hsum hpos hle false, ?_, fun j hj => ?_⟩
    · rw [mem_pageClasses hp hsum, hbytes]
      exact ⟨hidx, Nat.cast_le.mpr (Nat.mul_le_mul_left _ hrung)⟩
    · rw [mem_pageClasses hp hsum, hbytes, Nat.cast_le] at hj
      rw [ladderIdx_le_iff hpos]
      exact Nat.le_of_mul_le_mul_left hj.2 (Nat.two_pow_pos p)
  · intro pages hlow hhigh
    obtain ⟨n, hpos, hle, rfl, hbytes⟩ := exists_pages hsum hlow hhigh
    have hfloor := (le_ladderFloor_iff hpos _).mp le_rfl
    have hidx : ladderFloor n ≤ ladderIdx (2 ^ m) := by
      rw [← ladder_strictMono.le_iff_le, ladder_two_pow]
      exact hfloor.trans hle
    refine ⟨ladderFloor n, pages2pageIdxCompute_int hp hsum hpos hle true, ?_, fun j hj => ?_⟩
    · rw [mem_pageClasses hp hsum, hbytes]
      exact ⟨hidx, Nat.cast_le.mpr (Nat.mul_le_mul_left _ hfloor)⟩
    · rw [mem_pageClasses hp hsum, hbytes, Nat.cast_le] at hj
      rw [le_ladderFloor_iff hpos]
      exact Nat.le_of_mul_le_mul_left hj.2 (Nat.two_pow_pos p)

/-- For every page size of at least 4096 bytes and every chunk size up to `2 ^ 30` bytes,
the constructor ends, and its page classes keep the promise. -/
theorem pageIdx_rounds {p m : ℕ} (hp : 12 ≤ p) (hsum : p + m ≤ 30) :
    ∃ fuel c, new fuel (int (2 ^ p)) (int p) (int (2 ^ (p + m))) = some c ∧ c.PageRounding :=
  ⟨257, built p m, new_built hp hsum (by decide), pageRounding_built hp hsum⟩

/-- Pages of 8192 bytes, and the greatest chunks. -/
theorem pageIdx_rounds_greatest :
    ∃ fuel c, new fuel (int (2 ^ 13)) (int 13) (int (2 ^ (13 + 17))) = some c ∧ c.PageRounding :=
  pageIdx_rounds (by decide) (by decide)

end DuoDuo.Buffer.SizeClassInt
