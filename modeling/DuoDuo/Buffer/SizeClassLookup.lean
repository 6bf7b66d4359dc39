import DuoDuo.Buffer.SizeClassInt
import DuoDuo.Buffer.SizeClassSpec
import DuoDuo.Library.Words

/-!
# The tables and the lookups in 32 bits

The constructor builds its tables without leaving them, and its loops pass through the
rows and entries of the tables of natural numbers. The lookups then find the least class
that is not below a size, in 32 bits as over the natural numbers.
-/

namespace DuoDuo.Buffer

open Library SizeClassTables

/-- A number as an `int`. -/
abbrev int (n : ℕ) : BitVec 32 := BitVec.ofNat 32 n

/-- An increment. -/
theorem int_succ (n : ℕ) : int n + 1 = int (n + 1) := (BitVec.ofNat_add n 1).symm

theorem int_pred {n : ℕ} (hn : 0 < n) : int n - 1 = int (n - 1) :=
  BitVec.ofNat_sub_ofNat_of_le n 1 (by decide) hn

/-- Skipping zeros counts no more bits than it tests. -/
theorem MathUtils.skipZeros_fst_le (s : ℕ) (x : ℕ × ℕ) : (skipZeros s x).1 ≤ x.1 + s := by
  unfold skipZeros
  split_ifs
  · exact le_rfl
  · exact Nat.le_add_right _ _

/-- A positive value has a bit that is not a leading zero. -/
theorem MathUtils.numberOfLeadingZeros_le {val : ℕ} (hpos : 0 < val) :
    numberOfLeadingZeros val ≤ 31 := by
  have h₁ := skipZeros_fst_le 16 (1, val)
  have h₂ := skipZeros_fst_le 8 (skipZeros 16 (1, val))
  have h₃ := skipZeros_fst_le 4 (skipZeros 8 (skipZeros 16 (1, val)))
  have h₄ := skipZeros_fst_le 2 (skipZeros 4 (skipZeros 8 (skipZeros 16 (1, val))))
  rw [numberOfLeadingZeros, if_neg hpos.ne']
  dsimp only at h₁ ⊢
  omega

namespace SizeClassTables

/-- `log2` in 32 bits. -/
theorem log2_int {n : ℕ} (hpos : 0 < n) (hn : n < 2 ^ 32) :
    log2 (int n) = int (MathUtils.log2 n) := by
  have hmod : n % 2 ^ 32 = n := Nat.mod_eq_of_lt hn
  rw [log2, MathUtils.log2, BitVec.toNat_ofNat, hmod]
  exact BitVec.ofNat_sub_ofNat_of_le 31 _
    (Nat.lt_of_le_of_lt (MathUtils.numberOfLeadingZeros_le hpos) (by decide))
    (MathUtils.numberOfLeadingZeros_le hpos)

/-- The row as the constructor stores it. -/
def words (r : SizeClassRow) : Row where
  index := .ofNat 16 r.index
  log2Group := .ofNat 16 r.log2Group
  log2Delta := .ofNat 16 r.log2Delta
  nDelta := .ofNat 16 r.nDelta
  isMultiPageSize := if r.isMultiPageSize then 1 else 0
  isSubPage := if r.isSubPage then 1 else 0
  log2DeltaSearch := .ofNat 16 r.log2DeltaSearch

/-- The size of a row. -/
theorem sizeOf_int {g d : ℕ} (hg : g < 2 ^ 32) (hd : d < 2 ^ 32) (n : ℕ) :
    sizeOf (int g) (int d) (int n) = int (1 <<< g + (1 <<< d) * n) := by
  rw [sizeOf, shiftLeft_ofNat hg, shiftLeft_ofNat hd, ← BitVec.ofNat_mul, ← BitVec.ofNat_add]

/-- The size of a row is positive, and an `int`. -/
theorem size_bounds {g d n : ℕ} (hg : g ≤ 29) (hd : d ≤ 27) (hn : n ≤ 4) :
    1 <<< g + (1 <<< d) * n < 2 ^ 31 := by
  simp only [Nat.shiftLeft_eq, one_mul]
  have hgpow : 2 ^ g ≤ 2 ^ 29 := Nat.pow_le_pow_right (by decide) hg
  have hdpow : 2 ^ d ≤ 2 ^ 27 := Nat.pow_le_pow_right (by decide) hd
  have hmul := Nat.mul_le_mul hdpow hn
  omega

/-- The test for a whole number of pages. -/
theorem multiPage_int {p d size : ℕ} (hp : p ≤ 30) (hd : d ≤ 27) (hsize : size < 2 ^ 31) :
    (if (int p).sle (int d) then (1 : BitVec 16)
      else if int size &&& (1#32 <<< int p - (1 : BitVec 32)) = 0 then 1 else 0) =
      if decide (p ≤ d ∨ size &&& (1 <<< p - 1) = 0) then 1 else 0 := by
  have hpage : 1 <<< p < 2 ^ 31 := by
    rw [Nat.shiftLeft_eq, one_mul]
    exact Nat.pow_lt_pow_right (by decide) (by omega)
  have hpos : 1 ≤ 1 <<< p := by
    rw [Nat.shiftLeft_eq, one_mul]
    exact Nat.one_le_two_pow
  have hmask : int size &&& (1#32 <<< int p - (1 : BitVec 32)) = int (size &&& (1 <<< p - 1)) := by
    rw [show 1#32 <<< int p = int (1 <<< p) from shiftLeft_ofNat (by omega),
      show int (1 <<< p) - (1 : BitVec 32) = int (1 <<< p - 1) from
        BitVec.ofNat_sub_ofNat_of_le _ _ (by decide) hpos, ← BitVec.ofNat_and]
  have hzero : int (size &&& (1 <<< p - 1)) = 0 ↔ size &&& (1 <<< p - 1) = 0 :=
    ofNat_inj_of_lt (Nat.lt_of_le_of_lt Nat.and_le_left (by omega)) (by decide)
  rw [hmask, sle_ofNat (by omega) (by omega)]
  by_cases hpd : p ≤ d
  · simp [hpd]
  · simp only [hpd, hzero, decide_false, Bool.false_eq_true, if_false, false_or, decide_eq_true_eq]

/-- A row in 32 bits. -/
theorem row_int {p i g d n : ℕ} (hp : p ≤ 30) (hg : g ≤ 29) (hd : d ≤ 27) (hn : n ≤ 4) :
    row (int p) (int i) (int g) (int d) (int n) = words (sizeClassRow p i g d n) := by
  have hlog : (if int n = 0 then 0 else log2 (int n)) =
      int (if n = 0 then 0 else MathUtils.log2 n) := by
    interval_cases n <;> decide
  obtain ⟨l, hl, hlle⟩ : ∃ l, (if n = 0 then 0 else MathUtils.log2 n) = l ∧ l ≤ 2 :=
    ⟨_, rfl, by interval_cases n <;> decide⟩
  have hlow : 1 <<< l ≤ 4 := by interval_cases l <;> decide
  have hsum : int l + int d = int g ↔ l + d = g := by
    rw [← BitVec.ofNat_add, ofNat_inj_of_lt (by omega) (by omega)]
  have hlog2size : (if int l + int d = int g then int g + 1 else int g) =
      int (if l + d = g then g + 1 else g) := by
    by_cases h : l + d = g
    · rw [if_pos (hsum.mpr h), if_pos h]
      exact (BitVec.ofNat_add g 1).symm
    · rw [if_neg (mt hsum.mp h), if_neg h]
  obtain ⟨k, hk, hkle⟩ : ∃ k, (if l + d = g then g + 1 else g) = k ∧ k ≤ 30 :=
    ⟨_, rfl, by split_ifs <;> omega⟩
  have hkg : int k = int g ↔ k = g := ofNat_inj_of_lt (by omega) (by omega)
  have hk12 : int k = LOG2_MAX_SEARCH_SIZE ↔ k = 12 := ofNat_inj_of_lt (by omega) (by decide)
  have hmark : (1#32 <<< int l).slt (int n) = decide (1 <<< l < n) := by
    rw [show 1#32 <<< int l = int (1 <<< l) from shiftLeft_ofNat (by omega),
      slt_ofNat (by omega) (by omega)]
  have hsub : (int k).slt (int p + LOG2_SIZE_CLASS_GROUP) = decide (k < p + 2) := by
    rw [show int p + LOG2_SIZE_CLASS_GROUP = int (p + 2) from (BitVec.ofNat_add p 2).symm,
      slt_ofNat (by omega) (by omega)]
  have hsearch : (int k).slt LOG2_MAX_SEARCH_SIZE = decide (k < 12) :=
    slt_ofNat (by omega) (by decide)
  have hmulti := multiPage_int hp hd (size_bounds hg hd hn)
  unfold row sizeClassRow words
  rw [hlog, hl, sizeOf_int (by omega) (by omega)]
  dsimp only
  rw [Row.mk.injEq]
  refine ⟨BitVec.setWidth_ofNat_of_le (by decide) i, BitVec.setWidth_ofNat_of_le (by decide) g,
    BitVec.setWidth_ofNat_of_le (by decide) d, BitVec.setWidth_ofNat_of_le (by decide) n, hmulti,
    ?_, ?_⟩
  · simp only [hlog2size, hk, hsub]
  · simp only [hlog2size, hk, hsearch, hmark, hkg, hk12]
    have hcond : (decide (k < 12) || (decide (k = 12) &&
        decide ((if k = g then (1 : BitVec 8) else if decide (1 <<< l < n) = true then 1 else 0) = 0)))
          = true ↔ k < 12 ∨ k = 12 ∧ ¬ (k = g ∨ 1 <<< l < n) := by
      by_cases hkg' : k = g <;> by_cases hn' : 1 <<< l < n <;> simp [hkg', hn']
    simp only [hcond]
    split_ifs
    · exact BitVec.setWidth_ofNat_of_le (by decide) d
    · rfl

/-- The fields after the first rows have been built. -/
def buildAt (p cap n : ℕ) : Build where
  sizeClasses := .filled cap ((buildTo p n).rows.map words)
  nPSizes := int (buildTo p n).nPSizes
  nSubpages := int (buildTo p n).nSubpages
  smallMaxSizeIdx := int (buildTo p n).smallMaxSizeIdx
  searchMaxSize := int (buildTo p n).searchMaxSize

/-- The shape of a row, by its bounds. -/
theorem rowShape_le {n : ℕ} (hn : n < 100) :
    (rowShape n).1 ≤ 29 ∧ (rowShape n).2.1 ≤ 27 ∧ (rowShape n).2.2 ≤ 4 := by
  unfold rowShape
  split_ifs <;> dsimp only <;> omega

/-- The flags of a row that is stored. -/
theorem words_isMultiPageSize (r : SizeClassRow) :
    (words r).isMultiPageSize = 1 ↔ r.isMultiPageSize = true := by
  cases h : r.isMultiPageSize <;> simp [words, h]

theorem words_isSubPage (r : SizeClassRow) : (words r).isSubPage = 1 ↔ r.isSubPage = true := by
  cases h : r.isSubPage <;> simp [words, h]

/-- `sizeClass` builds the next row inside the table. -/
theorem sizeClass_buildAt {p cap n : ℕ} (hp : p ≤ 30) (hn : n < cap) (hn' : n < 100) :
    (buildAt p cap n).sizeClass (int p) (int n) (int (rowShape n).1) (int (rowShape n).2.1)
      (int (rowShape n).2.2) = some (buildAt p cap (n + 1)) := by
  obtain ⟨hg, hd, hnd⟩ := rowShape_le hn'
  have hrow := row_int (i := n) hp hg hd hnd
  have hwrite : (Table.filled cap ((buildTo p n).rows.map words)).write n (words (rowAt p n)) =
      some (.filled cap ((buildTo p (n + 1)).rows.map words)) := by
    rw [Table.write_filled (by rw [List.length_map, length_rows_buildTo]) hn, buildTo_succ_eq,
      List.map_append, List.map_singleton]
  have hsearch : (words (rowAt p n)).log2DeltaSearch ≠ 0 ↔ (rowAt p n).log2DeltaSearch ≠ 0 := by
    have hlt : (rowAt p n).log2DeltaSearch < 2 ^ 16 := by
      unfold rowAt sizeClassRow
      dsimp only
      split_ifs <;> omega
    exact not_congr (ofNat_inj_of_lt hlt (by decide))
  have hsize : sizeOf (int (rowShape n).1) (int (rowShape n).2.1) (int (rowShape n).2.2) =
      int (rowAt p n).size := sizeOf_int (by omega) (by omega) _
  unfold Build.sizeClass
  rw [hrow, BitVec.toNat_ofNat, Nat.mod_eq_of_lt (by omega)]
  dsimp only [buildAt]
  rw [show sizeClassRow p n (rowShape n).1 (rowShape n).2.1 (rowShape n).2.2 = rowAt p n from rfl,
    hwrite, Option.map_some, buildTo_succ_eq, hsize]
  simp only [words_isMultiPageSize, words_isSubPage, hsearch, Option.some.injEq, Build.mk.injEq,
    true_and]
  refine ⟨?_, ?_, ?_, ?_⟩ <;> split_ifs <;> first | rfl | exact (BitVec.ofNat_add _ 1).symm

/-- The variables of the loops after the first rows have been built. -/
def loopAt (p cap n g d nd : ℕ) (normalMaxSize : BitVec 32) : Loop where
  build := buildAt p cap n
  normalMaxSize := normalMaxSize
  index := int n
  size := int (buildTo p n).size
  log2Group := int g
  log2Delta := int d
  nDelta := int nd

/-- One more row is built. -/
theorem sizeClass_loopAt {p cap n : ℕ} (hp : p ≤ 30) (hn : n < cap) (hn' : n < 100)
    {g d nd : ℕ} (hshape : rowShape n = (g, d, nd)) (normalMaxSize : BitVec 32) :
    (loopAt p cap n g d nd normalMaxSize).sizeClass (int p) =
      some (loopAt p cap (n + 1) g d (nd + 1) normalMaxSize) := by
  have hbuild := sizeClass_buildAt hp hn hn'
  have hbounds := rowShape_le hn'
  have hsize : sizeOf (int g) (int d) (int nd) = int (buildTo p (n + 1)).size := by
    have hrow : (buildTo p (n + 1)).size = (rowAt p n).size := by rw [buildTo_succ_eq]
    rw [hrow, sizeOf_int (by rw [hshape] at hbounds; dsimp only at hbounds; omega)
      (by rw [hshape] at hbounds; dsimp only at hbounds; omega), rowAt, hshape]
    rfl
  rw [hshape] at hbuild
  dsimp only [Loop.sizeClass, loopAt] at hbuild ⊢
  rw [hbuild, Option.map_some, hsize, int_succ, int_succ]

/-- The size after some rows is an `int`. -/
theorem size_buildTo_le {p n : ℕ} (hn : n < 100) : (buildTo p (n + 1)).size ≤ 2 ^ 30 := by
  rw [size_buildTo]
  have hmono := ladder_strictMono.monotone (show n ≤ 4 * 24 + 3 by omega)
  rw [ladder_last] at hmono
  omega

/-- The loop for one group builds its four rows below the chunk size. -/
theorem groupLoop_loopAt {p cap c g fuel : ℕ} (hp : p ≤ 30) (hc : c ≤ 30) (hg : g + 7 ≤ c)
    (hcap : 4 * (g + 2) ≤ cap) (hfuel : 4 < fuel) (normalMaxSize : BitVec 32) :
    groupLoop fuel (int p) (int (2 ^ c))
        (loopAt p cap (4 * (g + 1)) (6 + g) (4 + g) 1 normalMaxSize) =
      some (loopAt p cap (4 * (g + 2)) (6 + g) (4 + g) 5 (int (2 ^ (g + 7)))) := by
  have hchunk : 2 ^ c ≤ 2 ^ 30 := Nat.pow_le_pow_right (by decide) hc
  have hsize : ∀ m ≤ 4, (buildTo p (4 * (g + 1) + m)).size ≤ 2 ^ 30 := by
    intro m hm
    rw [show 4 * (g + 1) + m = (4 * g + 3 + m) + 1 by omega]
    exact size_buildTo_le (by omega)
  have hbelow : ∀ m < 4, (buildTo p (4 * (g + 1) + m)).size < 2 ^ c := by
    intro m hm
    rw [show 4 * (g + 1) + m = (4 * g + 3 + m) + 1 by omega, size_buildTo]
    have hlt := ladder_strictMono (show 4 * g + 3 + m < 4 * (g + 1) + 3 by omega)
    have hle : 2 ^ (g + 7) ≤ 2 ^ c := Nat.pow_le_pow_right (by decide) hg
    rw [ladder_last, pow_add] at hlt
    rw [pow_add] at hle
    omega
  have hnormal : int (buildTo p (4 * (g + 2))).size = int (2 ^ (g + 7)) := by
    rw [show 4 * (g + 2) = (4 * (g + 1) + 3) + 1 by omega, size_buildTo, ladder_last]
    congr 1
    ring
  rw [← hnormal]
  exact whileLoop_eq (n := 4)
    (f := fun m => loopAt p cap (4 * (g + 1) + m) (6 + g) (4 + g) (m + 1)
      (if m = 0 then normalMaxSize else int (buildTo p (4 * (g + 1) + m)).size))
    (fun m hm => by
      dsimp only [loopAt]
      rw [show ndeltaLimit = int 4 from rfl, sle_ofNat (by omega) (by omega),
        slt_ofNat (by have := hsize m (by omega); omega) (by omega)]
      simp [hbelow m hm, show m + 1 ≤ 4 by omega])
    (fun m hm => by
      rw [sizeClass_loopAt hp (by omega) (by omega) (rowShape_group g m hm), Option.map_some]
      rfl)
    (by
      dsimp only [loopAt]
      rw [show ndeltaLimit = int 4 from rfl, sle_ofNat (by omega) (by omega)]
      rfl) hfuel

/-- `sizeClasses` builds the rows of all groups, inside the table. -/
theorem sizeClasses_eq {p cap c fuel : ℕ} (hp : p ≤ 30) (hc : c ≤ 30) (hc' : 7 ≤ c)
    (hcap : 4 * (c - 5) ≤ cap) (hfuel : c ≤ fuel) :
    SizeClassTables.sizeClasses fuel (int p) (int (2 ^ c)) { sizeClasses := Table.new cap } =
      some (loopAt p cap (4 * (c - 5)) c (c - 2) 5 (int (2 ^ c))) := by
  have hchunk : 2 ^ c ≤ 2 ^ 30 := Nat.pow_le_pow_right (by decide) hc
  have hfirst : whileLoop (fun s : Loop => s.nDelta.slt ndeltaLimit) (Loop.sizeClass (int p)) fuel
      { build := { sizeClasses := Table.new cap } } = some (loopAt p cap 4 4 4 4 (-1)) := by
    exact whileLoop_eq (n := 4) (f := fun i => loopAt p cap i 4 4 i (-1))
      (fun i hi => by
        dsimp only [loopAt]
        rw [show ndeltaLimit = int 4 from rfl, slt_ofNat (by omega) (by omega)]
        simpa using hi)
      (fun i hi => sizeClass_loopAt hp (by omega) (by omega) (rowShape_of_lt hi) (-1))
      (show (int 4).slt ndeltaLimit = false by decide) (by omega)
  have hsize : ∀ g, (buildTo p (4 * (g + 1))).size = 2 ^ (g + 6) := by
    intro g
    rw [show 4 * (g + 1) = (4 * g + 3) + 1 by omega, size_buildTo, ladder_last]
    ring
  have hgroups : whileLoop (fun s : Loop => s.size.slt (int (2 ^ c)))
      (fun s => (groupLoop fuel (int p) (int (2 ^ c)) { s with nDelta := 1 }).map fun s =>
        { s with log2Delta := s.log2Delta + 1, log2Group := s.log2Group + 1 }) fuel
      (loopAt p cap 4 6 4 4 (-1)) = some (loopAt p cap (4 * (c - 5)) c (c - 2) 5 (int (2 ^ c))) := by
    have hlast : loopAt p cap (4 * (c - 5)) c (c - 2) 5 (int (2 ^ c)) =
        loopAt p cap (4 * (c - 6 + 1)) (6 + (c - 6)) (4 + (c - 6)) (if c - 6 = 0 then 4 else 5)
          (if c - 6 = 0 then -1 else int (2 ^ (c - 6 + 6))) := by
      rw [if_neg (by omega), if_neg (by omega), show c - 6 + 1 = c - 5 by omega,
        show 6 + (c - 6) = c by omega, show 4 + (c - 6) = c - 2 by omega,
        Nat.sub_add_cancel (by omega)]
    rw [hlast]
    exact whileLoop_eq (n := c - 6)
      (f := fun g => loopAt p cap (4 * (g + 1)) (6 + g) (4 + g) (if g = 0 then 4 else 5)
        (if g = 0 then -1 else int (2 ^ (g + 6))))
      (fun g hg => by
        have hlt : 2 ^ (g + 6) < 2 ^ c := Nat.pow_lt_pow_right (by decide) (by omega)
        dsimp only [loopAt]
        rw [hsize, slt_ofNat (by omega) (by omega)]
        exact decide_eq_true hlt)
      (fun g hg => by
        have hgroup := @groupLoop_loopAt p cap c g fuel hp hc (by omega) (by omega) (by omega)
          (if g = 0 then -1 else int (2 ^ (g + 6)))
        rw [show ({ loopAt p cap (4 * (g + 1)) (6 + g) (4 + g) (if g = 0 then 4 else 5)
            (if g = 0 then -1 else int (2 ^ (g + 6))) with nDelta := 1 } : Loop) =
          loopAt p cap (4 * (g + 1)) (6 + g) (4 + g) 1
            (if g = 0 then -1 else int (2 ^ (g + 6))) from rfl, hgroup, Option.map_some,
          if_neg (Nat.succ_ne_zero g), if_neg (Nat.succ_ne_zero g)]
        dsimp only [loopAt]
        rw [int_succ, int_succ]
        rfl)
      (by
        dsimp only [loopAt]
        rw [hsize, show c - 6 + 6 = c by omega, slt_ofNat (by omega) (by omega)]
        exact decide_eq_false (lt_irrefl _)) (by omega)
  rw [SizeClassTables.sizeClasses, hfirst, Option.bind_eq_bind, Option.bind_some]
  change (whileLoop _ _ fuel (loopAt p cap 4 6 4 4 (-1))).bind _ = _
  rw [hgroups, Option.bind_some]
  exact if_pos rfl

/-- The rows of the table that `sizeClasses` has filled. -/
theorem read_sizeClasses {p cap n i : ℕ} (hi : i < n) :
    (buildAt p cap n).sizeClasses.read i = some (words (rowAt p i)) := by
  have hlength : i < ((buildTo p n).rows.map words).length := by
    rwa [List.length_map, length_rows_buildTo]
  rw [buildAt, Table.read_filled hlength, List.getElem_map]
  simp only [rows_buildTo, List.getElem_map, List.getElem_range]

/-- The sizes of the first rows that are whole numbers of pages. -/
def pageSizes (p n : ℕ) : List (BitVec 32) :=
  ((List.range n).filter fun i => (rowAt p i).isMultiPageSize).map fun i => int (16 * ladder i)

/-- One more row. -/
theorem pageSizes_succ (p n : ℕ) : pageSizes p (n + 1) =
    pageSizes p n ++ if (rowAt p n).isMultiPageSize then [int (16 * ladder n)] else [] := by
  rw [pageSizes, List.range_succ, List.filter_append, List.map_append, List.filter_singleton]
  cases (rowAt p n).isMultiPageSize <;> rfl

/-- More rows include at least as many whole numbers of pages. -/
theorem length_pageSizes_le {p i n : ℕ} (h : i ≤ n) :
    (pageSizes p i).length ≤ (pageSizes p n).length := by
  induction n, h using Nat.le_induction with
  | base => exact le_rfl
  | succ n _ ih =>
    rw [pageSizes_succ, List.length_append]
    exact ih.trans (Nat.le_add_right _ _)

/-- Not all rows need to be whole numbers of pages. -/
theorem length_pageSizes (p n : ℕ) : (pageSizes p n).length ≤ n := by
  rw [pageSizes, List.length_map]
  exact (List.length_filter_le _ _).trans_eq List.length_range

/-- The variables of `idx2SizeTab` after the first rows. -/
def sizeTabsAt (p nSizes nPSizes n : ℕ) : SizeTabs where
  i := int n
  pageIdx := int (pageSizes p n).length
  sizeIdx2sizeTab := .filled nSizes ((List.range n).map fun i => int (16 * ladder i))
  pageIdx2sizeTab := .filled nPSizes (pageSizes p n)

/-- A stored number is read as an `int`. -/
theorem setWidth_int {m : ℕ} (hm : m < 2 ^ 16) : (BitVec.ofNat 16 m).setWidth 32 = int m := by
  apply BitVec.eq_of_toNat_eq
  rw [BitVec.toNat_setWidth, BitVec.toNat_ofNat, BitVec.toNat_ofNat, Nat.mod_eq_of_lt hm]

/-- The size of a stored row. -/
theorem sizeOf_words {p n : ℕ} (hn : n < 100) :
    sizeOf ((words (rowAt p n)).log2Group.setWidth 32) ((words (rowAt p n)).log2Delta.setWidth 32)
      ((words (rowAt p n)).nDelta.setWidth 32) = int (16 * ladder n) := by
  obtain ⟨hg, hd, hnd⟩ := rowShape_le hn
  rw [← size_rowAt p n, words]
  dsimp only
  rw [setWidth_int (by dsimp only [rowAt, sizeClassRow]; omega),
    setWidth_int (by dsimp only [rowAt, sizeClassRow]; omega),
    setWidth_int (by dsimp only [rowAt, sizeClassRow]; omega),
    sizeOf_int (by dsimp only [rowAt, sizeClassRow]; omega)
      (by dsimp only [rowAt, sizeClassRow]; omega)]
  rfl

/-- `idx2SizeTab` stays inside both tables, and fills them. -/
theorem idx2SizeTab_eq {p cap n fuel : ℕ} (hn : n ≤ 100) (hfuel : n < fuel) :
    idx2SizeTab fuel (buildAt p cap n).sizeClasses (int n)
        (sizeTabsAt p n (pageSizes p n).length 0) =
      some (sizeTabsAt p n (pageSizes p n).length n) := by
  refine whileLoop_eq (n := n) (f := sizeTabsAt p n (pageSizes p n).length) ?_ ?_ ?_ hfuel
  · intro i hi
    dsimp only [sizeTabsAt]
    rw [slt_ofNat (by omega) (by omega)]
    exact decide_eq_true hi
  · intro i hi
    have hpages := length_pageSizes p i
    have hsizes : (Table.filled n ((List.range i).map fun i => int (16 * ladder i))).write i
        (int (16 * ladder i)) =
        some (.filled n ((List.range (i + 1)).map fun i => int (16 * ladder i))) := by
      rw [Table.write_filled (by simp) hi, List.range_succ, List.map_append, List.map_singleton]
    have hread : (buildAt p cap n).sizeClasses.read (int i).toNat = some (words (rowAt p i)) := by
      rw [BitVec.toNat_ofNat, Nat.mod_eq_of_lt (by omega), read_sizeClasses hi]
    rw [SizeTabs.fill, show (sizeTabsAt p n (pageSizes p n).length i).i = int i from rfl, hread]
    dsimp only [Option.bind_eq_bind, Option.bind_some, sizeTabsAt]
    rw [sizeOf_words (by omega), BitVec.toNat_ofNat, Nat.mod_eq_of_lt (by omega), hsizes,
      Option.bind_some]
    have hnext := pageSizes_succ p i
    by_cases hmulti : (rowAt p i).isMultiPageSize = true
    · rw [if_pos hmulti] at hnext
      have hlt : (pageSizes p i).length < (pageSizes p n).length := by
        have hle := length_pageSizes_le (p := p) (show i + 1 ≤ n from hi)
        rw [hnext, List.length_append, List.length_singleton] at hle
        omega
      rw [if_pos ((words_isMultiPageSize _).mpr hmulti), BitVec.toNat_ofNat,
        Nat.mod_eq_of_lt (by omega), Table.write_filled rfl hlt, Option.bind_some, hnext,
        List.length_append, List.length_singleton, int_succ, int_succ]
    · rw [if_neg hmulti, List.append_nil] at hnext
      rw [if_neg (mt (words_isMultiPageSize _).mp hmulti), hnext, int_succ]
  · dsimp only [sizeTabsAt]
    rw [slt_ofNat (by omega) (by omega)]
    exact decide_eq_false (lt_irrefl n)

/-- The spacing of a row is the step up to its rung from the one before. -/
theorem ladder_step (i : ℕ) :
    (if i = 0 then 0 else ladder (i - 1)) + 1 <<< ((rowShape i).2.1 - 4) = ladder i := by
  rw [Nat.shiftLeft_eq, one_mul]
  rcases Nat.lt_or_ge i 4 with hi | hi
  · interval_cases i <;> rfl
  · obtain ⟨g, m, hm, rfl⟩ := exists_group hi
    rw [if_neg (by omega), rowShape_group g m hm, ladder_group g m hm]
    dsimp only
    rw [Nat.add_sub_cancel_left]
    cases m with
    | zero =>
      rw [show 4 * (g + 1) + 0 - 1 = 4 * g + 3 by omega, ladder_last]
      ring
    | succ m =>
      rw [show 4 * (g + 1) + (m + 1) - 1 = 4 * (g + 1) + m by omega, ladder_group g m (by omega)]
      ring

/-- The variables of `size2idxTab` at row `i`, after the first entries. -/
def idxTabAt (i k times : ℕ) : IdxTab where
  idx := int k
  size := if k = 0 then 0 else int (16 * (k + 1))
  i := int i
  times := int times
  size2idxTab := .filled 256 ((List.range k).map fun j => int (ladderIdx (j + 1)))

/-- The size at an entry of the table does not exceed the largest one. -/
theorem size_idxTabAt (i k times : ℕ) (hk : k ≤ 256) :
    (idxTabAt i k times).size.sle (int 4096) = decide (k < 256) := by
  dsimp only [idxTabAt]
  split_ifs with hzero
  · subst hzero
    decide
  · rw [sle_ofNat (by omega) (by omega)]
    exact decide_eq_decide.mpr (by omega)

/-- One entry is assigned. -/
theorem assign_idxTabAt {i k times : ℕ} (hk : k < 256) (hi : ladderIdx (k + 1) = i) :
    (idxTabAt i k (times + 1)).assign = some (idxTabAt i (k + 1) times) := by
  have hwrite : (Table.filled 256 ((List.range k).map fun j => int (ladderIdx (j + 1)))).write k
      (int i) = some (.filled 256 ((List.range (k + 1)).map fun j => int (ladderIdx (j + 1)))) := by
    rw [Table.write_filled (by simp) hk, List.range_succ, List.map_append, List.map_singleton, hi]
  have htimes : int (times + 1) - 1 = int times := by
    rw [← int_succ, BitVec.add_sub_cancel]
  have hsize : (int (k + 1) + 1) <<< LOG2_QUANTUM = int (16 * (k + 1 + 1)) := by
    rw [int_succ, show LOG2_QUANTUM = int 4 from rfl, shiftLeft_ofNat (by decide),
      Nat.shiftLeft_eq, mul_comm]
  dsimp only [IdxTab.assign, idxTabAt]
  rw [BitVec.toNat_ofNat, Nat.mod_eq_of_lt (by omega), hwrite, Option.map_some, htimes, int_succ,
    hsize, if_neg (Nat.succ_ne_zero k)]

/-- The entries of one row are assigned. -/
theorem fill_idxTabAt {p cap n i fuel : ℕ} (hi : i < 28) (hn : 28 ≤ n) (hfuel : 256 < fuel) :
    (idxTabAt i (if i = 0 then 0 else ladder (i - 1)) 0).fill fuel (buildAt p cap n).sizeClasses
        (int 4096) = some (idxTabAt (i + 1) (ladder i) 0) := by
  have hstep := ladder_step i
  obtain ⟨k, hk⟩ : ∃ k, (if i = 0 then 0 else ladder (i - 1)) = k := ⟨_, rfl⟩
  obtain ⟨times, htimes⟩ : ∃ times, 1 <<< ((rowShape i).2.1 - 4) = times := ⟨_, rfl⟩
  rw [hk, htimes] at hstep
  have hladder : ladder i ≤ 256 := by
    have hmono := ladder_strictMono.monotone (show i ≤ 4 * 6 + 3 by omega)
    rwa [ladder_last] at hmono
  have hbelow : ∀ j < i, ladder j ≤ k := by
    intro j hj
    rw [← hk, if_neg (by omega)]
    exact ladder_strictMono.monotone (by omega)
  have hidx : ∀ j < times, ladderIdx (k + j + 1) = i := by
    intro j hj
    apply le_antisymm
    · exact (ladderIdx_le_iff (by omega) i).mpr (by omega)
    · by_contra hlt
      have hle := hbelow (ladderIdx (k + j + 1)) (by omega)
      have hrung := (ladderIdx_spec (show 0 < k + j + 1 by omega)).1
      omega
  have hread : (buildAt p cap n).sizeClasses.read (int i).toNat = some (words (rowAt p i)) := by
    rw [BitVec.toNat_ofNat, Nat.mod_eq_of_lt (by omega), read_sizeClasses (by omega)]
  have hspacing : 1#32 <<< ((words (rowAt p i)).log2Delta.setWidth 32 - LOG2_QUANTUM) =
      int times := by
    have hdelta : 4 ≤ (rowShape i).2.1 ∧ (rowShape i).2.1 ≤ 27 := by
      unfold rowShape
      split_ifs <;> dsimp only <;> omega
    have hwide : (words (rowAt p i)).log2Delta.setWidth 32 = int (rowShape i).2.1 :=
      setWidth_int (m := (rowShape i).2.1) (by omega)
    rw [hwide, show LOG2_QUANTUM = int 4 from rfl,
      BitVec.ofNat_sub_ofNat_of_le _ _ (by decide) hdelta.1, shiftLeft_ofNat (by omega), htimes]
  have hloop : whileLoop (fun s : IdxTab => s.size.sle (int 4096) && s.times ≠ 0) IdxTab.assign fuel
      (idxTabAt i k times) = some (idxTabAt i (ladder i) 0) := by
    rw [← hstep, ← Nat.sub_self times]
    refine whileLoop_eq (n := times) (f := fun j => idxTabAt i (k + j) (times - j)) ?_ ?_ ?_
      (by omega)
    · intro j hj
      have hpositive : int (times - j) ≠ 0 :=
        mt (ofNat_inj_of_lt (b := 0) (by omega) (by decide)).mp (by omega)
      rw [size_idxTabAt _ _ _ (by omega), Bool.and_eq_true]
      exact ⟨decide_eq_true (by omega), decide_eq_true hpositive⟩
    · intro j hj
      have hleft : times - j = times - (j + 1) + 1 := by omega
      rw [hleft]
      exact assign_idxTabAt (by omega) (hidx j hj)
    · rw [Nat.sub_self]
      exact Bool.and_false _
  rw [hk, IdxTab.fill, show (idxTabAt i k 0).i = int i from rfl, hread]
  dsimp only [Option.bind_eq_bind, Option.bind_some]
  rw [hspacing]
  change (whileLoop _ _ fuel (idxTabAt i k times)).bind _ = _
  rw [hloop, Option.bind_some]
  exact congrArg some (congrArg (fun x => ({ idxTabAt i (ladder i) 0 with i := x } : IdxTab))
    (int_succ i))

/-- `size2idxTab` stays inside its table, and fills it. -/
theorem size2idxTab_eq {p cap n fuel : ℕ} (hn : 28 ≤ n) (hfuel : 256 < fuel) :
    SizeClassTables.size2idxTab fuel (buildAt p cap n).sizeClasses (int 4096) (idxTabAt 0 0 0) =
      some (idxTabAt 28 256 0) := by
  refine whileLoop_eq (n := 28)
    (f := fun i => idxTabAt i (if i = 0 then 0 else ladder (i - 1)) 0) ?_ ?_ ?_ (by omega)
  · intro i hi
    have hlt : (if i = 0 then 0 else ladder (i - 1)) < 256 := by
      split_ifs with hzero
      · decide
      · have hmono := ladder_strictMono (show i - 1 < 4 * 6 + 3 by omega)
        rwa [ladder_last] at hmono
    rw [size_idxTabAt _ _ _ hlt.le]
    exact decide_eq_true hlt
  · intro i hi
    rw [fill_idxTabAt hi hn hfuel, if_neg (Nat.succ_ne_zero i), Nat.add_sub_cancel]
  · rw [show (if 28 = 0 then 0 else ladder (28 - 1)) = 256 by decide, size_idxTabAt _ _ _ le_rfl]
    decide

/-- A choice between two values by a comparison. -/
theorem ite_slt_int {x b m n : ℕ} {u v : BitVec 32} (hx : x < 2 ^ 31) (hb : b < 2 ^ 31)
    (hu : x < b → u = int m) (hv : b ≤ x → v = int n) :
    (if (int x).slt (int b) then u else v) = int (if x < b then m else n) := by
  rw [slt_ofNat (by omega) (by omega)]
  rcases Nat.lt_or_ge x b with h | h
  · rw [if_pos (decide_eq_true h), if_pos h, hu h]
  · rw [if_neg (by simpa using h), if_neg (by omega), hv h]

end SizeClassTables

namespace SizeClassInt

open SizeClassTables

/-- The result of the constructor for `2 ^ m` pages of `2 ^ p` bytes. -/
def built (p m : ℕ) : SizeClassInt where
  pageSize := int (2 ^ p)
  pageShifts := int p
  chunkSize := int (2 ^ (p + m))
  nSizes := int (4 * (p + m - 5))
  nSubpages := (buildAt p 0 (4 * (p + m - 5))).nSubpages
  nPSizes := int (pageSizes p (4 * (p + m - 5))).length
  smallMaxSizeIdx := (buildAt p 0 (4 * (p + m - 5))).smallMaxSizeIdx
  searchMaxSize := int 4096
  sizeClasses := (buildAt p (4 * (p + m - 3)) (4 * (p + m - 5))).sizeClasses
  sizeIdx2sizeTab :=
    .filled (4 * (p + m - 5)) ((List.range (4 * (p + m - 5))).map fun i => int (16 * ladder i))
  pageIdx2sizeTab :=
    .filled (pageSizes p (4 * (p + m - 5))).length (pageSizes p (4 * (p + m - 5)))
  size2idxTab := .filled 256 ((List.range 256).map fun j => int (ladderIdx (j + 1)))

/-- The constructor stays inside its tables, and fills them. -/
theorem new_built {p m fuel : ℕ} (hp : 12 ≤ p) (hsum : p + m ≤ 30) (hfuel : 256 < fuel) :
    new fuel (int (2 ^ p)) (int p) (int (2 ^ (p + m))) = some (built p m) := by
  obtain ⟨c, hcdef⟩ : ∃ c, p + m = c := ⟨_, rfl⟩
  have hlt : 2 ^ c < 2 ^ 32 := Nat.pow_lt_pow_right (by decide) (by omega)
  have hlog : log2 (int (2 ^ c)) = int c := by
    rw [log2_int (Nat.two_pow_pos c) hlt, MathUtils.log2_eq (Nat.two_pow_pos c) hlt,
      Nat.log2_two_pow]
  have hcap : ((log2 (int (2 ^ c)) + 1 - LOG2_QUANTUM) <<< LOG2_SIZE_CLASS_GROUP).toNat =
      4 * (c - 3) := by
    rw [hlog, int_succ, show LOG2_QUANTUM = int 4 from rfl,
      BitVec.ofNat_sub_ofNat_of_le _ _ (by decide) (by omega),
      show LOG2_SIZE_CLASS_GROUP = int 2 from rfl, shiftLeft_ofNat (by decide), BitVec.toNat_ofNat,
      Nat.shiftLeft_eq, Nat.mod_eq_of_lt (by omega)]
    omega
  have hrows := @SizeClassTables.sizeClasses_eq p (4 * (c - 3)) c fuel (by omega)
    (by omega) (by omega) (by omega) (by omega)
  have hnSizes : (int (4 * (c - 5))).toNat = 4 * (c - 5) := by
    rw [BitVec.toNat_ofNat, Nat.mod_eq_of_lt (by omega)]
  have hnPSizes : (buildTo p (4 * (c - 5))).nPSizes = (pageSizes p (4 * (c - 5))).length := by
    rw [nPSizes_buildTo, pageSizes, List.length_map]
  have hsearch : (buildTo p (4 * (c - 5))).searchMaxSize = 4096 :=
    searchMaxSize_buildTo _ (by omega)
  have hpages := length_pageSizes p (4 * (c - 5))
  have hsizeTabs := @idx2SizeTab_eq p (4 * (c - 3)) (4 * (c - 5)) fuel (by omega) (by omega)
  have hidxTab := @SizeClassTables.size2idxTab_eq p (4 * (c - 3)) (4 * (c - 5)) fuel
    (by omega) hfuel
  rw [hcdef, new]
  dsimp only
  rw [hcap, hrows, Option.bind_eq_bind, Option.bind_some]
  dsimp only [loopAt]
  rw [hnSizes, show (buildAt p (4 * (c - 3)) (4 * (c - 5))).nPSizes =
    int (pageSizes p (4 * (c - 5))).length from congrArg int hnPSizes,
    show (buildAt p (4 * (c - 3)) (4 * (c - 5))).searchMaxSize = int 4096 from
      congrArg int hsearch, BitVec.toNat_ofNat, Nat.mod_eq_of_lt (by omega),
    show ((int 4096).sshiftRight 4).toNat = 256 by decide]
  change (idx2SizeTab fuel _ _ (sizeTabsAt p (4 * (c - 5)) _ 0)).bind _ = _
  rw [hsizeTabs, Option.bind_some]
  change (SizeClassTables.size2idxTab fuel _ _ (idxTabAt 0 0 0)).bind _ = _
  rw [hidxTab, Option.bind_some, built, hcdef]
  rfl

/-- The result of the constructor. -/
def ofConfig (k : PoolConfig) : SizeClassInt where
  pageSize := int k.pageSize
  pageShifts := int k.pageShifts
  chunkSize := int k.chunkSize
  nSizes := int k.numSizes
  nSubpages := (buildAt k.pageShifts 0 k.numSizes).nSubpages
  nPSizes := int (pageSizes k.pageShifts k.numSizes).length
  smallMaxSizeIdx := (buildAt k.pageShifts 0 k.numSizes).smallMaxSizeIdx
  searchMaxSize := int 4096
  sizeClasses :=
    (buildAt k.pageShifts (4 * (k.pageShifts + k.maxOrder - 3)) k.numSizes).sizeClasses
  sizeIdx2sizeTab := .filled k.numSizes ((List.range k.numSizes).map fun i => int (16 * ladder i))
  pageIdx2sizeTab :=
    .filled (pageSizes k.pageShifts k.numSizes).length (pageSizes k.pageShifts k.numSizes)
  size2idxTab := .filled 256 ((List.range 256).map fun j => int (ladderIdx (j + 1)))

/-- The constructor stays inside its tables, and fills them. -/
theorem new_eq (k : PoolConfig) {fuel : ℕ} (hfuel : 256 < fuel) :
    new fuel (int k.pageSize) (int k.pageShifts) (int k.chunkSize) = some (ofConfig k) :=
  new_built k.minPageSize k.maxChunkSize hfuel

/-- The logarithm from which the lookups take their shifts. -/
theorem log2_double {size : ℕ} (hpos : 0 < size) (hle : size ≤ 2 ^ 30) :
    log2 ((int size <<< 1) - 1) = int (MathUtils.log2 (size <<< 1 - 1)) := by
  have hdouble : size <<< 1 = 2 * size := by rw [Nat.shiftLeft_eq, mul_comm]
  have hshift : int size <<< 1 = int (2 * size) := by
    rw [show int size <<< 1 = int size <<< int 1 from rfl, shiftLeft_ofNat (by decide), hdouble]
  rw [hshift, show int (2 * size) - 1 = int (2 * size) - int 1 from rfl,
    BitVec.ofNat_sub_ofNat_of_le _ _ (by decide) (by omega), log2_int (by omega) (by omega),
    hdouble]

/-- The logarithm is at most 30. -/
theorem log2_double_le {size : ℕ} (hpos : 0 < size) (hle : size ≤ 2 ^ 30) :
    MathUtils.log2 (size <<< 1 - 1) ≤ 30 := by
  have hdouble : size <<< 1 = 2 * size := by rw [Nat.shiftLeft_eq, mul_comm]
  rw [hdouble, MathUtils.log2_eq (by omega) (by omega)]
  have hlt := (Nat.log2_lt (show 2 * size - 1 ≠ 0 by omega) (k := 31)).mpr (by omega)
  omega

/-- The spacing that the lookups take from the logarithm. -/
theorem log2Delta_int {x : ℕ} (hx : x ≤ 30) :
    (if (int x).slt (LOG2_SIZE_CLASS_GROUP + LOG2_QUANTUM + 1) then LOG2_QUANTUM
      else int x - LOG2_SIZE_CLASS_GROUP - 1) = int (if x < 7 then 4 else x - 3) := by
  refine ite_slt_int (b := 7) (by omega) (by decide) (fun _ => rfl) fun h => ?_
  rw [show LOG2_SIZE_CLASS_GROUP = int 2 from rfl,
    BitVec.ofNat_sub_ofNat_of_le _ _ (by decide) (by omega), int_pred (by omega), Nat.sub_sub]

/-- The number of groups that `size2sizeIdx` takes from the logarithm. -/
theorem shift_int {x : ℕ} (hx : x ≤ 30) :
    (if (int x).slt (LOG2_QUANTUM + LOG2_SIZE_CLASS_GROUP + 1) then 0
      else int x - (LOG2_SIZE_CLASS_GROUP + LOG2_QUANTUM)) = int (if x < 7 then 0 else x - 6) := by
  refine ite_slt_int (b := 7) (by omega) (by decide) (fun _ => rfl) fun h => ?_
  exact BitVec.ofNat_sub_ofNat_of_le x 6 (by decide) (by omega)

/-- The position in a group, which the lookups take from the bits above the spacing. -/
theorem mod_int {n d : ℕ} (hn : n < 2 ^ 30) (hd : d ≤ 30) :
    (int n &&& ((-1#32) <<< int d)).sshiftRight (int d).toNat &&&
        ((1#32 <<< LOG2_SIZE_CLASS_GROUP) - 1) =
      int (((n >>> d) <<< d) >>> d &&& 3) := by
  have hclear : (n >>> d) <<< d ≤ n := by
    rw [Nat.shiftLeft_eq, Nat.shiftRight_eq_div_pow]
    exact Nat.div_mul_le_self _ _
  rw [BitVec.shiftLeft_eq', BitVec.toNat_ofNat, Nat.mod_eq_of_lt (by omega),
    and_neg_one_shiftLeft, sshiftRight_ofNat (by omega),
    show (1#32 <<< LOG2_SIZE_CLASS_GROUP) - 1 = int 3 from rfl, ← BitVec.ofNat_and]

/-- `size2sizeIdx` finds the index of the rung above a size. -/
theorem size2sizeIdx_int (k : PoolConfig) {size : ℕ} (hpos : 0 < size) (hle : size ≤ k.chunkSize) :
    (ofConfig k).size2sizeIdx (int size) = some (int (ladderIdx ((size - 1) / 16 + 1))) := by
  have hchunk := k.chunkSize_le
  have hzero : int size ≠ 0 := mt (ofNat_inj_of_lt (b := 0) (by omega) (by decide)).mp (by omega)
  have hpred := int_pred hpos
  rw [size2sizeIdx, if_neg hzero, if_neg]
  · have hsearch : (int size).sle (int 4096) = decide (size ≤ 4096) :=
      sle_ofNat (by omega) (by decide)
    rw [show (ofConfig k).searchMaxSize = int 4096 from rfl, hsearch]
    by_cases hsmall : size ≤ 4096
    · have hindex : ((int size - 1).sshiftRight 4).toNat = (size - 1) / 16 := by
        rw [hpred, sshiftRight_ofNat (by omega), BitVec.toNat_ofNat, Nat.shiftRight_eq_div_pow,
          Nat.mod_eq_of_lt (by omega)]
      have hlt : (size - 1) / 16 <
          ((List.range 256).map fun j => int (ladderIdx (j + 1))).length := by
        rw [List.length_map, List.length_range]
        omega
      rw [if_pos (decide_eq_true hsmall), hindex, ofConfig, Table.read_filled hlt, List.getElem_map,
        List.getElem_range]
    · rw [if_neg (by simpa using hsmall)]
      obtain ⟨x, hx⟩ : ∃ x, MathUtils.log2 (size <<< 1 - 1) = x := ⟨_, rfl⟩
      have hxle := log2_double_le hpos (hle.trans hchunk)
      rw [hx] at hxle
      have hlookup := PoolConfig.shift_lookup (q := 4) hpos (hle.trans hchunk) hx.symm
      obtain ⟨d, hd⟩ : ∃ d, (if x < 7 then 4 else x - 3) = d := ⟨_, rfl⟩
      have hdle : d ≤ 27 := by
        rw [← hd]
        split_ifs <;> omega
      rw [hd] at hlookup
      dsimp only
      rw [log2_double hpos (hle.trans hchunk), hx, log2Delta_int hxle, hpred, hd,
        mod_int (by omega) (by omega), shift_int hxle,
        show LOG2_SIZE_CLASS_GROUP = int 2 from rfl, shiftLeft_ofNat (by decide),
        BitVec.ofNat_add_ofNat]
      exact congrArg some (congrArg int hlookup)
  · dsimp only [ofConfig]
    rw [slt_ofNat (by omega) (by omega), decide_eq_true_eq]
    omega

/-- The number of classes is an `int`, and at most a hundred. -/
theorem toNat_nSizes (k : PoolConfig) :
    (ofConfig k).nSizes.toNat = k.numSizes ∧ k.numSizes ≤ 100 := by
  have hc := k.maxChunkSize
  have hnum : k.numSizes ≤ 100 := by
    unfold PoolConfig.numSizes
    omega
  exact ⟨by rw [ofConfig, BitVec.toNat_ofNat, Nat.mod_eq_of_lt (by omega)], hnum⟩

/-- `sizeIdx2size` reads the class. -/
theorem sizeIdx2size_built {p m i : ℕ} (hsum : p + m ≤ 30) (hi : i < 4 * (p + m - 5)) :
    (built p m).sizeIdx2size (int i) = some (int (16 * ladder i)) := by
  have hlt : i < ((List.range (4 * (p + m - 5))).map fun i => int (16 * ladder i)).length := by
    rwa [List.length_map, List.length_range]
  rw [sizeIdx2size, BitVec.toNat_ofNat, Nat.mod_eq_of_lt (by omega), built,
    Table.read_filled hlt, List.getElem_map, List.getElem_range]

/-- `sizeIdx2size` reads the class. -/
theorem sizeIdx2size_int (k : PoolConfig) {i : ℕ} (hi : i < k.numSizes) :
    (ofConfig k).sizeIdx2size (int i) = some (int (16 * ladder i)) :=
  sizeIdx2size_built k.maxChunkSize hi

/-- `sizeIdx2sizeCompute` computes the class. -/
theorem sizeIdx2sizeCompute_int {i : ℕ} (hi : i < 100) :
    sizeIdx2sizeCompute (int i) = int (16 * ladder i) := by
  revert i
  decide +kernel

/-- `normalizeSizeCompute` rounds a size up to its class. -/
theorem normalizeSizeCompute_int {size : ℕ} (hpos : 0 < size) (hle : size ≤ 2 ^ 30) :
    normalizeSizeCompute (int size) = int (16 * ladder (ladderIdx ((size - 1) / 16 + 1))) := by
  obtain ⟨x, hx⟩ : ∃ x, MathUtils.log2 (size <<< 1 - 1) = x := ⟨_, rfl⟩
  have hxle := log2_double_le hpos hle
  have hround : (size + (2 ^ (if x < 7 then 4 else x - 3) - 1)) / 2 ^ (if x < 7 then 4 else x - 3) *
      2 ^ (if x < 7 then 4 else x - 3) = 16 * ladder (ladderIdx ((size - 1) / 16 + 1)) := by
    refine ladder_eq_shift (q := 4) hpos ?_
    have hdouble : size <<< 1 = 2 * size := by rw [Nat.shiftLeft_eq, mul_comm]
    rw [← hx, hdouble, MathUtils.log2_eq (by omega) (by omega)]
  rw [hx] at hxle
  obtain ⟨d, hd⟩ : ∃ d, (if x < 7 then 4 else x - 3) = d := ⟨_, rfl⟩
  have hmask : (1#32 <<< int d) - 1 = int (2 ^ d - 1) := by
    rw [shiftLeft_ofNat (by rw [← hd]; split_ifs <;> omega), Nat.shiftLeft_eq, one_mul]
    exact BitVec.ofNat_sub_ofNat_of_le _ _ (by decide) Nat.one_le_two_pow
  rw [hd] at hround
  rw [normalizeSizeCompute, log2_double hpos hle, hx, log2Delta_int hxle, hd, hmask,
    BitVec.ofNat_add_ofNat, and_not_two_pow_sub_one, Nat.shiftLeft_eq, Nat.shiftRight_eq_div_pow, hround]

/-- `normalizeSize` rounds a size up to its class, by the table or by bit arithmetic. -/
theorem normalizeSize_int (k : PoolConfig) {size : ℕ} (hpos : 0 < size)
    (hle : size ≤ k.chunkSize) : (ofConfig k).normalizeSize (int size) =
      some (int (16 * ladder (ladderIdx ((size - 1) / 16 + 1)))) := by
  have hchunk := k.chunkSize_le
  have hzero : int size ≠ 0 := mt (ofNat_inj_of_lt (b := 0) (by omega) (by decide)).mp (by omega)
  have hsearch : (int size).sle (ofConfig k).searchMaxSize = decide (size ≤ 4096) :=
    sle_ofNat (by omega) (by decide)
  have hcompute := normalizeSizeCompute_int hpos (hle.trans hchunk)
  rw [normalizeSize, if_neg hzero, hsearch]
  by_cases hsmall : size ≤ 4096
  · have hlookup := size2sizeIdx_int k hpos hle
    have hclass := sizeIdx2size_int k (k.ladderIdx_lt_numSizes hpos hle)
    have hnot : (ofConfig k).chunkSize.slt (int size) = false := by
      rw [show (ofConfig k).chunkSize = int k.chunkSize from rfl, slt_ofNat (by omega) (by omega)]
      exact decide_eq_false (by omega)
    rw [size2sizeIdx, if_neg hzero, hnot, if_neg Bool.false_ne_true, hsearch,
      if_pos (decide_eq_true hsmall)] at hlookup
    rw [if_pos (decide_eq_true hsmall), hlookup, Option.bind_eq_bind, Option.bind_some]
    rw [sizeIdx2size] at hclass
    rw [hclass, Option.bind_some, hcompute]
    exact if_pos rfl
  · rw [if_neg (by simpa using hsmall), hcompute]

/-- What the lookups promise. The two computations of a class agree, the classes ascend
and end with the chunk size, and the lookups of a size find the least class that is not
below it. -/
structure LeastUpper (c : SizeClassInt) : Prop where
  agree : ∀ i < c.nSizes.toNat, c.sizeIdx2size (int i) = some (sizeIdx2sizeCompute (int i))
  ascending : ∀ i j, i < j → j < c.nSizes.toNat →
    (sizeIdx2sizeCompute (int i)).toInt < (sizeIdx2sizeCompute (int j)).toInt
  last : sizeIdx2sizeCompute (int (c.nSizes.toNat - 1)) = c.chunkSize
  least : ∀ size : BitVec 32, 1 ≤ size.toInt → size.toInt ≤ c.chunkSize.toInt →
    ∃ i < c.nSizes.toNat, c.size2sizeIdx size = some (int i) ∧
      size.toInt ≤ (sizeIdx2sizeCompute (int i)).toInt ∧
      (∀ j < i, (sizeIdx2sizeCompute (int j)).toInt < size.toInt) ∧
      c.normalizeSize size = c.sizeIdx2size (int i)

/-- A class is a positive `int`. -/
theorem toInt_sizeIdx2sizeCompute (k : PoolConfig) {i : ℕ} (hi : i < k.numSizes) :
    (sizeIdx2sizeCompute (int i)).toInt = 16 * ladder i := by
  have hnum := (toNat_nSizes k).2
  have hchunk := k.chunkSize_le
  have hmono := ladder_strictMono.monotone (show i ≤ k.numSizes - 1 by omega)
  have hlast := k.last_size
  rw [sizeIdx2sizeCompute_int (by omega), toInt_ofNat_of_lt (by omega)]
  push_cast
  rfl

/-- The tables of every configuration keep the promise. -/
theorem leastUpper_ofConfig (k : PoolConfig) : (ofConfig k).LeastUpper := by
  obtain ⟨hnSizes, hnum⟩ := toNat_nSizes k
  have hpositive := k.numSizes_ge
  have hchunk := k.chunkSize_le
  have hchunkInt : (ofConfig k).chunkSize.toInt = k.chunkSize := toInt_ofNat_of_lt (by omega)
  refine ⟨?_, ?_, ?_, ?_⟩
  · intro i hi
    rw [hnSizes] at hi
    rw [sizeIdx2size_int k hi, sizeIdx2sizeCompute_int (by omega)]
  · intro i j hij hj
    rw [hnSizes] at hj
    rw [toInt_sizeIdx2sizeCompute k (by omega), toInt_sizeIdx2sizeCompute k hj]
    have hlt := ladder_strictMono hij
    omega
  · rw [hnSizes, sizeIdx2sizeCompute_int (by omega), k.last_size]
    rfl
  · intro word hlow hhigh
    rw [hchunkInt] at hhigh
    obtain ⟨size, rfl, hsize⟩ : ∃ size, word = int size ∧ word.toInt = size := by
      refine ⟨word.toNat, (BitVec.ofNat_toNat 32 word).symm, ?_⟩
      have hlt := word.isLt
      have hcond := BitVec.toInt_eq_toNat_cond word
      split_ifs at hcond <;> omega
    rw [hsize] at hlow hhigh ⊢
    have hpos : 0 < size := by omega
    have hle : size ≤ k.chunkSize := by omega
    have hidx := k.ladderIdx_lt_numSizes hpos hle
    have hrung := ladderIdx_spec (show 0 < (size - 1) / 16 + 1 by omega)
    refine ⟨ladderIdx ((size - 1) / 16 + 1), by rw [hnSizes]; exact hidx,
      size2sizeIdx_int k hpos hle, ?_, fun j hj => ?_, ?_⟩
    · rw [toInt_sizeIdx2sizeCompute k hidx]
      omega
    · rw [toInt_sizeIdx2sizeCompute k (by omega)]
      have hlt := hrung.2 j hj
      omega
    · rw [normalizeSize_int k hpos hle, sizeIdx2size_int k hidx]

end SizeClassInt

/-- An accepted chunk size is the page size times a power of two. -/
theorem chunkSizeLoop_eq {m p : ℕ} {chunkSize : Int32Word} (hp : p ≤ 30)
    (h : chunkSizeLoop m (int (2 ^ p)) = some chunkSize) :
    p + m ≤ 30 ∧ chunkSize = int (2 ^ (p + m)) := by
  induction m generalizing p with
  | zero => exact ⟨hp, (Option.some.inj h).symm⟩
  | succ m ih =>
    have hpow : 2 ^ p ≤ 2 ^ 30 := Nat.pow_le_pow_right (by decide) hp
    rw [chunkSizeLoop, show MAX_CHUNK_SIZE.sdiv 2 = int (2 ^ 29) by decide,
      slt_ofNat (by decide) (by omega)] at h
    split_ifs at h with hlarge
    have hp' : p + 1 ≤ 30 := by
      by_contra hgt
      obtain rfl : p = 30 := by omega
      exact hlarge (by decide)
    rw [show int (2 ^ p) <<< 1 = int (2 ^ p) <<< int 1 from rfl, shiftLeft_ofNat (by decide),
      Nat.shiftLeft_eq, ← pow_succ] at h
    obtain ⟨hsum, hchunk⟩ := ih hp' h
    exact ⟨by omega, by rw [hchunk]; congr 2; omega⟩

/-- For every page size that is a power of two and every chunk size that is accepted for
it, the constructor builds its tables without leaving them, and the lookups by the tables
and by bit arithmetic are the least upper class. -/
theorem sizeClass_leastUpper {p m : ℕ} {chunkSize : Int32Word} (hp : 12 ≤ p)
    (hp' : p ≤ 30)
    (haccepted : validateAndCalculateChunkSize (int (2 ^ p)) m = some chunkSize) :
    ∃ fuel c, SizeClassInt.new fuel (int (2 ^ p)) (int p) chunkSize = some c ∧
      c.chunkSize = chunkSize ∧ c.LeastUpper := by
  rw [validateAndCalculateChunkSize] at haccepted
  split_ifs at haccepted with hmax
  obtain ⟨hsum, rfl⟩ := chunkSizeLoop_eq hp' haccepted
  exact ⟨257, SizeClassInt.ofConfig ⟨p, m, hp, hmax, hsum⟩,
    SizeClassInt.new_eq ⟨p, m, hp, hmax, hsum⟩ (by decide), rfl,
    SizeClassInt.leastUpper_ofConfig _⟩

/-- The page and chunk sizes of the allocator are accepted. -/
theorem sizeClass_leastUpper_default :
    ∃ fuel c, SizeClassInt.new fuel (int (2 ^ 13)) (int 13) (int (2 ^ 24)) = some c ∧
      c.chunkSize = int (2 ^ 24) ∧ c.LeastUpper :=
  sizeClass_leastUpper (m := 11) (by decide) (by decide) (by decide)

end DuoDuo.Buffer
