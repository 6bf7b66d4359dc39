import DuoDuo.Buffer.SizeClass
import DuoDuo.Library.Ladder

/-!
# Size classes are rungs

For the page and chunk sizes that the allocator accepts, the classes are the
sixteenfold rungs of the ladder, the page classes the rungs scaled by the page
size, and the two lookups round up or down to a rung.
-/

namespace DuoDuo.Buffer

open Library

/-- The shape of a row, by its index: group, spacing and position in the group. -/
def rowShape (i : ℕ) : ℕ × ℕ × ℕ := if i < 4 then (4, 4, i) else (5 + i / 4, 3 + i / 4, i % 4 + 1)

theorem rowShape_of_lt {i : ℕ} (hi : i < 4) : rowShape i = (4, 4, i) := by
  rw [rowShape, if_pos hi]

theorem rowShape_group (g m : ℕ) (hm : m < 4) :
    rowShape (4 * (g + 1) + m) = (6 + g, 4 + g, m + 1) := by
  rw [rowShape, if_neg (by omega)]
  refine Prod.ext ?_ (Prod.ext ?_ ?_) <;> dsimp only <;> omega

/-- The row at an index. -/
def rowAt (pageShifts i : ℕ) : SizeClassRow :=
  sizeClassRow pageShifts i (rowShape i).1 (rowShape i).2.1 (rowShape i).2.2

/-- The first rows, built one after another. -/
def buildTo (pageShifts n : ℕ) : SizeClassBuild :=
  (List.range n).foldl (fun b i =>
    b.sizeClass pageShifts (rowShape i).1 (rowShape i).2.1 (rowShape i).2.2) .init

theorem buildTo_succ (p n : ℕ) :
    buildTo p (n + 1) =
      (buildTo p n).sizeClass p (rowShape n).1 (rowShape n).2.1 (rowShape n).2.2 := by
  rw [buildTo, List.range_succ, List.foldl_append]
  rfl

/-- The rows are built in the order of their indices. -/
theorem rows_buildTo (p n : ℕ) : (buildTo p n).rows = (List.range n).map (rowAt p) := by
  induction n with
  | zero => rfl
  | succ n ih =>
    have hlength : (buildTo p n).rows.length = n := by rw [ih, List.length_map, List.length_range]
    rw [buildTo_succ, SizeClassBuild.sizeClass, List.range_succ, List.map_append, ← ih, hlength]
    rfl

theorem length_rows_buildTo (p n : ℕ) : (buildTo p n).rows.length = n := by
  rw [rows_buildTo, List.length_map, List.length_range]

/-- One more row is built. -/
theorem buildTo_succ_eq (p n : ℕ) : buildTo p (n + 1) =
    { rows := (buildTo p n).rows ++ [rowAt p n]
      nPSizes :=
        if (rowAt p n).isMultiPageSize then (buildTo p n).nPSizes + 1 else (buildTo p n).nPSizes
      nSubpages :=
        if (rowAt p n).isSubPage then (buildTo p n).nSubpages + 1 else (buildTo p n).nSubpages
      smallMaxSizeIdx :=
        if (rowAt p n).isSubPage then n else (buildTo p n).smallMaxSizeIdx
      searchMaxSize :=
        if (rowAt p n).log2DeltaSearch ≠ 0 then (rowAt p n).size else (buildTo p n).searchMaxSize
      size := (rowAt p n).size } := by
  rw [buildTo_succ, SizeClassBuild.sizeClass, length_rows_buildTo]
  rfl

/-- The size of a row is sixteen times its rung. -/
theorem size_rowAt (p i : ℕ) : (rowAt p i).size = 16 * ladder i := by
  simp only [rowAt, SizeClassRow.size, sizeClassRow, Nat.shiftLeft_eq, one_mul]
  rcases Nat.lt_or_ge i 4 with hi | hi
  · rw [rowShape_of_lt hi, ladder_of_lt hi]
    dsimp only
    omega
  · obtain ⟨g, m, hm, rfl⟩ := exists_group hi
    rw [ladder_group g m hm, rowShape_group g m hm]
    ring

/-- The size in hand after some rows is the size of the last one. -/
theorem size_buildTo (p n : ℕ) : (buildTo p (n + 1)).size = 16 * ladder n := by
  rw [buildTo_succ_eq, size_rowAt]

/-- Within a group below the chunk size, the inner loop builds the rows that are left. -/
theorem groupLoop_buildTo {p c g : ℕ} (hc : g + 7 ≤ c) :
    ∀ left ≤ 4, groupLoop p (2 ^ c) (6 + g) (4 + g) left (buildTo p (4 * (g + 1) + (4 - left))) =
      buildTo p (4 * (g + 2)) := by
  intro left hleft
  induction left with
  | zero => rfl
  | succ left ih =>
    have hindex : 4 * (g + 1) + (4 - (left + 1)) = 4 * (g + 1) + (3 - left) := by omega
    have hsize : (buildTo p (4 * (g + 1) + (3 - left))).size < 2 ^ c := by
      rw [show 4 * (g + 1) + (3 - left) = (4 * g + 3 + (3 - left)) + 1 by omega, size_buildTo]
      calc 16 * ladder (4 * g + 3 + (3 - left)) < 16 * ladder (4 * (g + 1) + 3) := by
            have hlt := ladder_strictMono (show 4 * g + 3 + (3 - left) < 4 * (g + 1) + 3 by omega)
            omega
        _ = 2 ^ (g + 7) := by rw [ladder_last]; ring
        _ ≤ 2 ^ c := Nat.pow_le_pow_right (by decide) hc
    have hnext := buildTo_succ p (4 * (g + 1) + (3 - left))
    rw [rowShape_group g (3 - left) (by omega), show 3 - left + 1 = 4 - left by omega] at hnext
    rw [groupLoop, hindex, if_pos hsize, ← hnext,
      show 4 * (g + 1) + (3 - left) + 1 = 4 * (g + 1) + (4 - left) by omega]
    exact ih (by omega)

/-- The outer loop builds the groups that are left below the chunk size. -/
theorem sizeClassesLoop_buildTo {p c : ℕ} (fuel g : ℕ) (hc : g + 6 ≤ c) (hfuel : c ≤ g + 6 + fuel) :
    sizeClassesLoop p (2 ^ c) fuel (6 + g) (4 + g) (buildTo p (4 * (g + 1))) =
      buildTo p (4 * (c - 5)) := by
  have hlast : (buildTo p (4 * (g + 1))).size = 2 ^ (g + 6) := by
    rw [show 4 * (g + 1) = 4 * g + 3 + 1 by omega, size_buildTo, ladder_last]
    ring
  induction fuel generalizing g with
  | zero =>
    obtain rfl : c = g + 6 := by omega
    rfl
  | succ fuel ih =>
    rw [sizeClassesLoop, hlast]
    rcases Nat.lt_or_ge (g + 6) c with hlt | hge
    · have hnext : (buildTo p (4 * (g + 1 + 1))).size = 2 ^ (g + 1 + 6) := by
        rw [show 4 * (g + 1 + 1) = 4 * (g + 1) + 3 + 1 by omega, size_buildTo, ladder_last]
        ring
      have hgroup := groupLoop_buildTo (p := p) (c := c) (g := g) (by omega) 4 le_rfl
      rw [if_pos (Nat.pow_lt_pow_right (by decide) hlt)]
      rw [show 4 * (g + 1) = 4 * (g + 1) + (4 - 4) by omega, hgroup]
      exact ih (g + 1) (by omega) (by omega) hnext
    · obtain rfl : c = g + 6 := by omega
      rw [if_neg (lt_irrefl _)]
      rfl

/-- The classes of a chunk of `2 ^ c` bytes. -/
theorem sizeClasses_eq (p : ℕ) {c : ℕ} (hc : 6 ≤ c) (hc' : c ≤ 30) :
    sizeClasses p (2 ^ c) = buildTo p (4 * (c - 5)) :=
  sizeClassesLoop_buildTo 32 0 (by omega) (by omega)

/-- The logarithm of a position in a group. -/
theorem log2_nDelta {m : ℕ} (hm : m < 4) :
    (if m + 1 = 0 then 0 else MathUtils.log2 (m + 1)) = if m = 0 then 0 else if m < 3 then 1 else 2 := by
  interval_cases m <;> decide

/-- The logarithm of a size of a group, which only its last row raises. -/
theorem log2size_group (g : ℕ) {m : ℕ} (hm : m < 4) :
    (if (if m + 1 = 0 then 0 else MathUtils.log2 (m + 1)) + (4 + g) = 6 + g then 6 + g + 1
      else 6 + g) = if m = 3 then g + 7 else g + 6 := by
  rw [log2_nDelta hm]
  split_ifs <;> omega

/-- A row is a multiple of the page size exactly when its rung is. -/
theorem isMultiPageSize_rowAt {p : ℕ} (hp : 4 ≤ p) (i : ℕ) :
    (rowAt p i).isMultiPageSize = true ↔ 2 ^ (p - 4) ∣ ladder i := by
  have hscale : 2 ^ p = 16 * 2 ^ (p - 4) := by
    rw [show (16 : ℕ) = 2 ^ 4 by rfl, ← pow_add]
    congr 1
    omega
  have hsize := size_rowAt p i
  rw [SizeClassRow.size] at hsize
  have hdvd : (rowAt p i).size % 2 ^ p = 0 ↔ 2 ^ (p - 4) ∣ ladder i := by
    rw [size_rowAt, ← Nat.dvd_iff_mod_eq_zero, hscale]
    exact Nat.mul_dvd_mul_iff_left (by decide)
  rw [← hdvd]
  simp only [rowAt, sizeClassRow, SizeClassRow.size, Bool.decide_or, Bool.or_eq_true,
    decide_eq_true_eq, Nat.shiftLeft_eq, one_mul, Nat.and_two_pow_sub_one_eq_mod]
  constructor
  · rintro (hdelta | hmod)
    · have hgroup : 2 ^ p ∣ 2 ^ (rowShape i).1 := by
        apply Nat.pow_dvd_pow
        rcases Nat.lt_or_ge i 4 with hi | hi
        · rwa [rowShape_of_lt hi] at hdelta ⊢
        · obtain ⟨g, m, hm, rfl⟩ := exists_group hi
          rw [rowShape_group g m hm] at hdelta ⊢
          exact hdelta.trans (show 4 + g ≤ 6 + g by omega)
      exact Nat.mod_eq_zero_of_dvd
        (Nat.dvd_add hgroup (Dvd.dvd.mul_right (Nat.pow_dvd_pow 2 hdelta) _))
    · exact hmod
  · exact Or.inr

/-- The rows of subpages are the first ones. -/
theorem isSubPage_rowAt {p : ℕ} (hp : 12 ≤ p) (i : ℕ) :
    (rowAt p i).isSubPage = true ↔ i < 4 * p - 13 := by
  simp only [rowAt, sizeClassRow, decide_eq_true_eq]
  rcases Nat.lt_or_ge i 4 with hi | hi
  · have hsmall : 5 < p + 2 ∧ 4 < p + 2 ∧ i < 4 * p - 13 := by omega
    rw [rowShape_of_lt hi, iff_true_right hsmall.2.2]
    dsimp only
    split_ifs
    all_goals omega
  · obtain ⟨g, m, hm, rfl⟩ := exists_group hi
    rw [rowShape_group g m hm]
    dsimp only
    rw [log2size_group g hm]
    split_ifs <;> omega

/-- The rows that the lookup table covers are the first 28. -/
theorem log2DeltaSearch_rowAt (p i : ℕ) : (rowAt p i).log2DeltaSearch ≠ 0 ↔ i < 28 := by
  simp only [rowAt, sizeClassRow]
  rcases Nat.lt_or_ge i 4 with hi | hi
  · interval_cases i <;> decide
  · obtain ⟨g, m, hm, rfl⟩ := exists_group hi
    rw [rowShape_group g m hm]
    dsimp only
    rw [log2size_group g hm, log2_nDelta hm]
    interval_cases m <;> simp <;> omega

/-- The number of subpage rows and the last of them. -/
theorem subpages_buildTo {p : ℕ} (hp : 12 ≤ p) (n : ℕ) :
    (buildTo p n).nSubpages = min n (4 * p - 13) ∧
      (buildTo p n).smallMaxSizeIdx = min n (4 * p - 13) - 1 := by
  induction n with
  | zero => exact ⟨by simp [buildTo, SizeClassBuild.init], by simp [buildTo, SizeClassBuild.init]⟩
  | succ n ih =>
    obtain ⟨hsub, hmax⟩ := ih
    rw [buildTo_succ_eq]
    dsimp only
    by_cases hrow : (rowAt p n).isSubPage = true
    · have hlt := (isSubPage_rowAt hp n).mp hrow
      rw [if_pos hrow, if_pos hrow]
      omega
    · have hge : ¬n < 4 * p - 13 := fun hlt => hrow ((isSubPage_rowAt hp n).mpr hlt)
      rw [if_neg hrow, if_neg hrow]
      omega

/-- The table covers the sizes up to 4096. -/
theorem searchMaxSize_buildTo (p : ℕ) {n : ℕ} (hn : 28 ≤ n) :
    (buildTo p n).searchMaxSize = 4096 := by
  obtain ⟨k, rfl⟩ : ∃ k, n = 28 + k := ⟨n - 28, by omega⟩
  induction k with
  | zero =>
    rw [buildTo_succ_eq]
    dsimp only
    rw [if_pos ((log2DeltaSearch_rowAt p 27).mpr (by omega)), size_rowAt]
    decide
  | succ k ih =>
    have hrow : ¬(rowAt p (28 + k)).log2DeltaSearch ≠ 0 := by
      rw [log2DeltaSearch_rowAt]
      omega
    rw [← Nat.add_assoc, buildTo_succ_eq]
    dsimp only
    rw [if_neg hrow]
    exact ih (by omega)

/-- The page classes are counted while they are built. -/
theorem nPSizes_buildTo (p n : ℕ) :
    (buildTo p n).nPSizes =
      ((List.range n).filter fun i => (rowAt p i).isMultiPageSize).length := by
  induction n with
  | zero => rfl
  | succ n ih =>
    rw [buildTo_succ_eq, List.range_succ, List.filter_append, List.length_append]
    dsimp only
    rw [ih]
    by_cases hrow : (rowAt p n).isMultiPageSize = true
    · rw [if_pos hrow, List.filter_singleton, hrow, cond_true, List.length_singleton]
    · have hfalse : (rowAt p n).isMultiPageSize = false := by rwa [Bool.not_eq_true] at hrow
      rw [if_neg hrow, List.filter_singleton, hfalse, cond_false, List.length_nil, Nat.add_zero]

/-- Once the table is full, the remaining rows add nothing. -/
theorem size2idxTab_full {searchMaxSize : ℕ} {acc : List ℕ × ℕ} (h : searchMaxSize < acc.2) :
    ∀ deltas : List (ℕ × ℕ), deltas.foldl (fun acc d =>
      if acc.2 ≤ searchMaxSize then fillIdx searchMaxSize d.1 (1 <<< (d.2 - 4)) acc else acc)
      acc = acc := by
  intro deltas
  induction deltas with
  | nil => rfl
  | cons d deltas ih =>
    rw [List.foldl_cons, if_neg (by omega)]
    exact ih

/-- The lookup table rounds up to a rung. -/
theorem size2idxTab_eq {n : ℕ} (hn : 28 ≤ n) :
    size2idxTab 4096 ((List.range n).map fun i => (i, (rowShape i).2.1)) =
      (List.range 256).map fun k => ladderIdx (k + 1) := by
  obtain ⟨k, rfl⟩ : ∃ k, n = 28 + k := ⟨n - 28, by omega⟩
  have hfirst : ((List.range 28).map fun i => (i, (rowShape i).2.1)).foldl (fun acc d =>
      if acc.2 ≤ 4096 then fillIdx 4096 d.1 (1 <<< (d.2 - 4)) acc else acc) ([], 0) =
        ((List.range 256).map fun k => ladderIdx (k + 1), 4112) := by decide +kernel
  rw [List.range_add, List.map_append, size2idxTab, List.foldl_append, hfirst,
    size2idxTab_full (by decide)]

/-- The last class of a chunk of `2 ^ c` bytes is its size. -/
theorem last_rung {c : ℕ} (hc : 12 ≤ c) : 16 * ladder (4 * (c - 5) - 1) = 2 ^ c := by
  rw [show 4 * (c - 5) - 1 = 4 * (c - 6) + 3 by omega, ladder_last,
    show (16 : ℕ) = 2 ^ 4 by rfl, ← pow_add]
  congr 1
  omega

/-- The page classes of `2 ^ m` pages of `2 ^ p` bytes are the rungs up to `2 ^ m`, scaled
by the page size. -/
theorem multiPageSizes_eq {p m : ℕ} (hp : 12 ≤ p) :
    ((List.range (4 * (p + m - 5))).filter fun i => (rowAt p i).isMultiPageSize).map
        (fun i => 16 * ladder i) =
      (List.range (ladderIdx (2 ^ m) + 1)).map fun j => 2 ^ p * ladder j := by
  have hscale : 2 ^ p = 16 * 2 ^ (p - 4) := by
    rw [show (16 : ℕ) = 2 ^ 4 by rfl, ← pow_add]
    congr 1
    omega
  have hmono : StrictMono fun i => 16 * ladder i := fun a b hab =>
    Nat.mul_lt_mul_of_pos_left (ladder_strictMono hab) (by decide)
  have hmono' : StrictMono fun j => 2 ^ p * ladder j := fun a b hab =>
    Nat.mul_lt_mul_of_pos_left (ladder_strictMono hab) (Nat.two_pow_pos _)
  have hlast : 16 * ladder (4 * (p + m - 5) - 1) = 2 ^ p * 2 ^ m := by
    rw [last_rung (by omega), pow_add]
  have hbound : ∀ j, j < ladderIdx (2 ^ m) + 1 ↔ ladder j ≤ 2 ^ m := by
    intro j
    rw [Nat.lt_succ_iff, ← ladder_strictMono.le_iff_le (a := j), ladder_two_pow]
  refine @List.Perm.eq_of_pairwise ℕ (· < ·) _ _ ?_ ?_ ?_ ?_
  · intro a b _ _ hab hba
    exact absurd (hab.trans hba) (lt_irrefl a)
  · exact ((List.pairwise_lt_range).filter _).map _ fun a b hab => hmono hab
  · exact List.pairwise_lt_range.map _ fun a b hab => hmono' hab
  · rw [List.perm_ext_iff_of_nodup]
    · intro size
      simp only [List.mem_map, List.mem_filter, List.mem_range,
        isMultiPageSize_rowAt (show 4 ≤ p by omega)]
      constructor
      · rintro ⟨i, ⟨hi, hdvd⟩, rfl⟩
        obtain ⟨j, hj⟩ := exists_ladder_of_dvd hdvd (by omega)
        have hsize : 16 * ladder i = 2 ^ p * ladder j := by rw [hj, hscale, mul_assoc]
        refine ⟨j, (hbound j).mpr ?_, hsize.symm⟩
        have hle := hmono.monotone (show i ≤ 4 * (p + m - 5) - 1 by omega)
        rw [hsize, hlast] at hle
        exact Nat.le_of_mul_le_mul_left hle (Nat.two_pow_pos _)
      · rintro ⟨j, hj, rfl⟩
        obtain ⟨i, hi⟩ := exists_ladder_eq_mul (p - 4) j (by omega)
        have hsize : 16 * ladder i = 2 ^ p * ladder j := by rw [hi, hscale, mul_assoc]
        refine ⟨i, ⟨?_, ⟨ladder j, hi⟩⟩, hsize⟩
        have hle := Nat.mul_le_mul_left (2 ^ p) ((hbound j).mp hj)
        rw [← hsize, ← hlast] at hle
        have hidx := hmono.le_iff_le.mp hle
        omega
    · exact ((List.nodup_range).filter _).map hmono.injective
    · exact List.nodup_range.map hmono'.injective

/-- The page and chunk sizes that the allocator accepts. -/
structure PoolConfig where
  pageShifts : ℕ
  maxOrder : ℕ
  minPageSize : 12 ≤ pageShifts
  maxOrder_lt : maxOrder < 14
  maxChunkSize : pageShifts + maxOrder ≤ 30

namespace PoolConfig

/-- The sizes that every arena of the allocator is built with. -/
def default : PoolConfig := ⟨13, 11, by decide, by decide, by decide⟩

variable (k : PoolConfig)

/-- The bytes of a page. -/
def pageSize : ℕ := 2 ^ k.pageShifts

/-- The pages of a chunk. -/
def chunkPages : ℕ := 2 ^ k.maxOrder

/-- The bytes of a chunk. -/
def chunkSize : ℕ := 2 ^ (k.pageShifts + k.maxOrder)

/-- The size classes of the configuration. -/
def sizeClass : SizeClass := SizeClass.new k.pageSize k.pageShifts k.chunkSize

/-- The number of size classes. -/
def numSizes : ℕ := 4 * (k.pageShifts + k.maxOrder - 5)

theorem chunkPages_pos : 0 < k.chunkPages := Nat.two_pow_pos _

theorem chunkPages_lt : k.chunkPages < 2 ^ 14 :=
  Nat.pow_lt_pow_right (by decide) k.maxOrder_lt

theorem chunkSize_eq : k.chunkSize = k.chunkPages * k.pageSize := by
  rw [chunkSize, chunkPages, pageSize, pow_add, mul_comm]

theorem chunkSize_le : k.chunkSize ≤ 2 ^ 30 := Nat.pow_le_pow_right (by decide) k.maxChunkSize

theorem sizeClasses_eq :
    sizeClasses k.pageShifts k.chunkSize = buildTo k.pageShifts k.numSizes := by
  have hmin := k.minPageSize
  exact Buffer.sizeClasses_eq k.pageShifts (by omega) k.maxChunkSize

theorem numSizes_ge : 28 ≤ k.numSizes := by
  have hmin := k.minPageSize
  unfold numSizes
  omega

@[simp] theorem pageSize_sizeClass : k.sizeClass.pageSize = k.pageSize := rfl

@[simp] theorem pageShifts_sizeClass : k.sizeClass.pageShifts = k.pageShifts := rfl

@[simp] theorem chunkSize_sizeClass : k.sizeClass.chunkSize = k.chunkSize := rfl

@[simp] theorem nSizes_sizeClass : k.sizeClass.nSizes = k.numSizes := by
  rw [sizeClass, SizeClass.new, sizeClasses_eq, length_rows_buildTo]

@[simp] theorem searchMaxSize_sizeClass : k.sizeClass.searchMaxSize = 4096 := by
  rw [sizeClass, SizeClass.new, sizeClasses_eq, searchMaxSize_buildTo _ k.numSizes_ge]

@[simp] theorem nSubpages_sizeClass :
    k.sizeClass.nSubpages = min k.numSizes (4 * k.pageShifts - 13) := by
  rw [sizeClass, SizeClass.new, sizeClasses_eq, (subpages_buildTo k.minPageSize _).1]

@[simp] theorem smallMaxSizeIdx_sizeClass :
    k.sizeClass.smallMaxSizeIdx = min k.numSizes (4 * k.pageShifts - 13) - 1 := by
  rw [sizeClass, SizeClass.new, sizeClasses_eq, (subpages_buildTo k.minPageSize _).2]

@[simp] theorem size2idxTab_sizeClass :
    k.sizeClass.size2idxTab = (List.range 256).map fun j => ladderIdx (j + 1) := by
  have hsearch := k.searchMaxSize_sizeClass
  rw [sizeClass, SizeClass.new] at hsearch ⊢
  dsimp only at hsearch ⊢
  rw [hsearch, sizeClasses_eq, rows_buildTo, List.map_map]
  exact size2idxTab_eq k.numSizes_ge

/-- Each class is sixteen times its rung. -/
theorem sizeIdx2size_eq {i : ℕ} (hi : i < k.numSizes) :
    k.sizeClass.sizeIdx2size i = 16 * ladder i := by
  have htab : k.sizeClass.sizeIdx2sizeTab = (List.range k.numSizes).map fun i => 16 * ladder i := by
    rw [sizeClass, SizeClass.new, sizeClasses_eq, rows_buildTo, List.map_map]
    exact List.map_congr_left fun i _ => size_rowAt k.pageShifts i
  rw [SizeClass.sizeIdx2size, htab, List.getD_eq_getElem _ _ (by simpa using hi)]
  simp

/-- The last class is the chunk size. -/
theorem last_size : 16 * ladder (k.numSizes - 1) = k.chunkSize :=
  last_rung (k.minPageSize.trans (Nat.le_add_right _ _))

/-- The page classes are the rungs up to the pages of a chunk. -/
theorem filter_isMultiPageSize :
    ((List.range k.numSizes).filter fun i => (rowAt k.pageShifts i).isMultiPageSize).map
        (fun i => 16 * ladder i) =
      (List.range (ladderIdx k.chunkPages + 1)).map fun j => k.pageSize * ladder j :=
  multiPageSizes_eq k.minPageSize

@[simp] theorem nPSizes_sizeClass : k.sizeClass.nPSizes = ladderIdx k.chunkPages + 1 := by
  rw [sizeClass, SizeClass.new, sizeClasses_eq]
  dsimp only
  rw [nPSizes_buildTo, ← List.length_map (f := fun i => 16 * ladder i), filter_isMultiPageSize,
    List.length_map, List.length_range]

/-- Each page class is a rung scaled by the page size. -/
theorem pageIdx2size_eq {j : ℕ} (hj : j < k.sizeClass.nPSizes) :
    k.sizeClass.pageIdx2size j = k.pageSize * ladder j := by
  rw [nPSizes_sizeClass] at hj
  have htab : k.sizeClass.pageIdx2sizeTab =
      (List.range (ladderIdx k.chunkPages + 1)).map fun j => k.pageSize * ladder j := by
    rw [sizeClass, SizeClass.new, sizeClasses_eq, ← filter_isMultiPageSize]
    dsimp only
    rw [rows_buildTo, List.filter_map, List.map_map]
    exact List.map_congr_left fun i _ => size_rowAt k.pageShifts i
  rw [SizeClass.pageIdx2size, htab, List.getD_eq_getElem _ _ (by simpa using hj)]
  simp

/-- Rounding up a whole number of units changes nothing. -/
theorem pred_mul_div_add_one {n b : ℕ} (hn : 0 < n) (hb : 0 < b) : (n * b - 1) / b + 1 = n := by
  have hpos := Nat.mul_pos hn hb
  have hdiv : (n * b - 1) / b = n - 1 := by
    apply Nat.div_eq_of_lt_le
    · rw [Nat.sub_mul]
      omega
    · rw [Nat.sub_add_cancel hn]
      omega
  omega

/-- The bit arithmetic of both lookups finds the rung above a number of units. -/
theorem shift_lookup {q size : ℕ} (hsize : 0 < size) (hle : size ≤ 2 ^ 30) {x : ℕ}
    (hx : x = MathUtils.log2 (size <<< 1 - 1)) :
    (if x < q + 3 then 0 else x - (q + 2)) <<< 2 +
        ((((size - 1) >>> (if x < q + 3 then q else x - 3)) <<<
          (if x < q + 3 then q else x - 3)) >>> (if x < q + 3 then q else x - 3) &&& 3) =
      ladderIdx ((size - 1) / 2 ^ q + 1) := by
  have hdouble : size <<< 1 - 1 = 2 * size - 1 := by rw [Nat.shiftLeft_eq]; omega
  rw [hdouble, MathUtils.log2_eq (by omega) (by omega)] at hx
  rw [← ladderIdx_eq_shift hsize hx, Nat.shiftLeft_shiftRight, Nat.shiftLeft_eq,
    Nat.shiftRight_eq_div_pow, show (3 : ℕ) = 2 ^ 2 - 1 by rfl, Nat.and_two_pow_sub_one_eq_mod]
  omega

/-- A size is looked up as the rung above its number of sixteen bytes. -/
theorem size2sizeIdx_eq {size : ℕ} (hpos : 0 < size) (hle : size ≤ k.chunkSize) :
    k.sizeClass.size2sizeIdx size = ladderIdx ((size - 1) / 16 + 1) := by
  have hchunk := k.chunkSize_le
  rw [SizeClass.size2sizeIdx, if_neg (by omega), if_neg (by simpa using hle)]
  rw [searchMaxSize_sizeClass]
  split
  · next hsearch =>
    rw [size2idxTab_sizeClass, Nat.shiftRight_eq_div_pow,
      List.getD_eq_getElem _ _ (by simp; omega), List.getElem_map, List.getElem_range]
  · exact shift_lookup (q := 4) hpos (hle.trans hchunk) rfl

/-- The class of a size lies within the tables. -/
theorem ladderIdx_lt_numSizes {size : ℕ} (hpos : 0 < size) (hle : size ≤ k.chunkSize) :
    ladderIdx ((size - 1) / 16 + 1) < k.numSizes := by
  have hlast := k.last_size
  have hidx := (ladderIdx_le_iff (show 0 < (size - 1) / 16 + 1 by omega) (k.numSizes - 1)).mpr
    (by omega)
  have hnum := k.numSizes_ge
  omega

/-- A size that fits into a chunk has a class, which is large enough. -/
theorem size2sizeIdx_spec {size : ℕ} (hle : size ≤ k.chunkSize) :
    k.sizeClass.size2sizeIdx size < k.numSizes ∧
      size ≤ k.sizeClass.sizeIdx2size (k.sizeClass.size2sizeIdx size) := by
  rcases Nat.eq_zero_or_pos size with rfl | hpos
  · have hnum := k.numSizes_ge
    exact ⟨by rw [SizeClass.size2sizeIdx, if_pos rfl]; omega, Nat.zero_le _⟩
  · have hlt := k.ladderIdx_lt_numSizes hpos hle
    have hrung := (ladderIdx_spec (show 0 < (size - 1) / 16 + 1 by omega)).1
    rw [k.size2sizeIdx_eq hpos hle, k.sizeIdx2size_eq hlt]
    exact ⟨hlt, by omega⟩

/-- A size that does not fit into a chunk has no class. -/
theorem size2sizeIdx_of_lt {size : ℕ} (hlt : k.chunkSize < size) :
    k.sizeClass.size2sizeIdx size = k.numSizes := by
  rw [SizeClass.size2sizeIdx, if_neg (by omega), if_pos (by simpa using hlt), nSizes_sizeClass]

/-- The lookup of a class is its index. -/
theorem size2sizeIdx_sizeIdx2size {i : ℕ} (hi : i < k.numSizes) :
    k.sizeClass.size2sizeIdx (k.sizeClass.sizeIdx2size i) = i := by
  have hpos := ladder_pos i
  have hlast := k.last_size
  have hmono := ladder_strictMono.monotone (show i ≤ k.numSizes - 1 by omega)
  rw [k.sizeIdx2size_eq hi, k.size2sizeIdx_eq (by omega) (by omega),
    show (16 * ladder i - 1) / 16 + 1 = ladder i by omega, ladderIdx_ladder]

/-- A number of pages is looked up as the rung above it, less one where it is to be
rounded down and is no rung. -/
theorem pages2pageIdxCompute_eq {pages : ℕ} (hpos : 0 < pages) (hle : pages ≤ k.chunkPages)
    (floor : Bool) : k.sizeClass.pages2pageIdxCompute pages floor =
      if floor ∧ pages < ladder (ladderIdx pages) then ladderIdx pages - 1 else ladderIdx pages := by
  have hpage : 0 < k.pageSize := Nat.two_pow_pos _
  have hbytes : pages * k.pageSize ≤ k.chunkSize := by
    rw [chunkSize_eq]
    exact Nat.mul_le_mul_right _ hle
  have hchunk := k.chunkSize_le
  have hbytes_pos := Nat.mul_pos hpos hpage
  have hunits : (pages * k.pageSize - 1) / 2 ^ k.pageShifts + 1 = pages :=
    pred_mul_div_add_one hpos hpage
  have hidx : ladderIdx pages < k.sizeClass.nPSizes := by
    have hrung := hle.trans (ladder_two_pow k.maxOrder).ge
    rw [nPSizes_sizeClass, Nat.lt_succ_iff, ladderIdx_le_iff hpos]
    exact hrung
  have hshift := shift_lookup (q := k.pageShifts) hbytes_pos (hbytes.trans hchunk) rfl
  rw [hunits] at hshift
  rw [SizeClass.pages2pageIdxCompute]
  simp only [pageShifts_sizeClass, chunkSize_sizeClass, Nat.shiftLeft_eq pages]
  rw [show 2 ^ k.pageShifts = k.pageSize by rfl, if_neg (by omega)]
  generalize MathUtils.log2 ((pages * k.pageSize) <<< 1 - 1) = x at hshift
  have hlow : (if x < 2 + k.pageShifts then 0 else x - (2 + k.pageShifts)) =
      if x < k.pageShifts + 3 then 0 else x - (k.pageShifts + 2) := by
    split_ifs <;> omega
  have hdelta : (if x < 2 + k.pageShifts + 1 then k.pageShifts else x - 3) =
      if x < k.pageShifts + 3 then k.pageShifts else x - 3 := by
    split_ifs <;> omega
  rw [hlow, hdelta, hshift, k.pageIdx2size_eq hidx, mul_comm pages]
  simp only [Nat.mul_lt_mul_left hpage]

/-- A number of pages is looked up as the rung above it. -/
theorem page2pageIdx_eq {pages : ℕ} (hpos : 0 < pages) (hle : pages ≤ k.chunkPages) :
    k.sizeClass.page2pageIdx pages = ladderIdx pages := by
  rw [SizeClass.page2pageIdx, k.pages2pageIdxCompute_eq hpos hle]
  simp

/-- Rounded down, a number of pages is looked up as the rung below it. -/
theorem page2pageIdxFloor_eq {pages : ℕ} (hpos : 0 < pages) (hle : pages ≤ k.chunkPages) :
    k.sizeClass.page2pageIdxFloor pages = ladderFloor pages := by
  rw [SizeClass.page2pageIdxFloor, k.pages2pageIdxCompute_eq hpos hle, ladderFloor]
  simp

/-- Every number of pages of a chunk is filed in one of the queues. -/
theorem page2pageIdxFloor_lt {pages : ℕ} (hpos : 0 < pages) (hle : pages ≤ k.chunkPages) :
    k.sizeClass.page2pageIdxFloor pages < k.sizeClass.nPSizes := by
  have hfloor := (le_ladderFloor_iff hpos _).mp (le_refl (ladderFloor pages))
  have hrung : k.chunkPages ≤ ladder (ladderIdx k.chunkPages) :=
    (ladderIdx_spec k.chunkPages_pos).1
  rw [k.page2pageIdxFloor_eq hpos hle, nPSizes_sizeClass, Nat.lt_succ_iff]
  exact ladder_strictMono.le_iff_le.mp (hfloor.trans (hle.trans hrung))

/-- A queue from the index of a request on holds runs that are long enough for it. -/
theorem pages_le_of_page2pageIdx_le {pages runPages : ℕ} (hpos : 0 < pages)
    (hle : pages ≤ k.chunkPages) (hrun : 0 < runPages) (hrunle : runPages ≤ k.chunkPages)
    (hidx : k.sizeClass.page2pageIdx pages ≤ k.sizeClass.page2pageIdxFloor runPages) :
    pages ≤ runPages := by
  rw [k.page2pageIdx_eq hpos hle, k.page2pageIdxFloor_eq hrun hrunle] at hidx
  calc pages ≤ ladder (ladderIdx pages) := (ladderIdx_spec hpos).1
    _ ≤ runPages := (le_ladderFloor_iff hrun _).mp hidx

/-- A whole chunk is filed in the last queue of available runs. -/
theorem page2pageIdxFloor_chunkPages :
    k.sizeClass.page2pageIdxFloor k.chunkPages = k.sizeClass.nPSizes - 1 := by
  have hrung : ladder (ladderIdx k.chunkPages) = k.chunkPages := ladder_two_pow k.maxOrder
  rw [k.page2pageIdxFloor_eq k.chunkPages_pos le_rfl, nPSizes_sizeClass, Nat.add_sub_cancel,
    ladderFloor, hrung, if_neg (lt_irrefl _)]

end PoolConfig

end DuoDuo.Buffer
