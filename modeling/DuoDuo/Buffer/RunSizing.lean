import DuoDuo.Buffer.PageClass
import DuoDuo.Buffer.ChunkProgress
import Mathlib.Algebra.Ring.Parity

/-!
# The sizes of runs for subpages

The first loop of `calculateRunSize` adds pages. For every class that is served by
subpages it ends with the least common multiple of page and element, before it reaches
the limit of elements, and the second loop does nothing.
-/

namespace DuoDuo.Buffer

open Library PoolChunk SizeClassTables

/-- The least common multiple with a power of two. -/
theorem lcm_two_pow {p t o : ℕ} (ht : t ≤ p) (ho : Odd o) :
    Nat.lcm (2 ^ p) (2 ^ t * o) = 2 ^ p * o := by
  refine Nat.dvd_antisymm (Nat.lcm_dvd (Nat.dvd_mul_right _ _) ?_) ?_
  · exact Nat.mul_dvd_mul_right (Nat.pow_dvd_pow 2 ht) o
  · have hcoprime : Nat.Coprime (2 ^ p) o := ho.coprime_two_left.pow_left p
    exact hcoprime.mul_dvd_of_dvd_of_dvd (Nat.dvd_lcm_left _ _)
      ((Nat.dvd_mul_left o _).trans (Nat.dvd_lcm_right _ _))

/-- A class below four pages has a multiple of at most seven pages. -/
theorem exists_pages_lcm {p i : ℕ} (hp : 12 ≤ p) (hi : i < 4 * p - 13) :
    ∃ n, 0 < n ∧ n ≤ 7 ∧ Nat.lcm (2 ^ p) (16 * ladder i) = 2 ^ p * n := by
  rcases Nat.lt_or_ge i 4 with hsmall | hlarge
  · rw [ladder_of_lt hsmall]
    interval_cases i
    · exact ⟨1, by decide, by decide, lcm_two_pow (t := 4) (o := 1) (by omega) (by decide)⟩
    · exact ⟨1, by decide, by decide, lcm_two_pow (t := 5) (o := 1) (by omega) (by decide)⟩
    · exact ⟨3, by decide, by decide, lcm_two_pow (t := 4) (o := 3) (by omega) (by decide)⟩
    · exact ⟨1, by decide, by decide, lcm_two_pow (t := 6) (o := 1) (by omega) (by decide)⟩
  · obtain ⟨g, j, hj, rfl⟩ := exists_group hlarge
    have hshape : 16 * ladder (4 * (g + 1) + j) = 2 ^ (g + 4) * (j + 5) := by
      rw [ladder_group g j hj, pow_add]
      ring
    rw [hshape]
    interval_cases j
    · exact ⟨5, by decide, by decide, lcm_two_pow (by omega) (by decide)⟩
    · refine ⟨3, by decide, by decide, ?_⟩
      rw [show 2 ^ (g + 4) * (1 + 5) = 2 ^ (g + 5) * 3 by ring]
      exact lcm_two_pow (by omega) (by decide)
    · exact ⟨7, by decide, by decide, lcm_two_pow (by omega) (by decide)⟩
    · rw [show 2 ^ (g + 4) * (3 + 5) = 2 ^ (g + 7) * 1 by ring]
      rcases Nat.lt_or_ge p (g + 7) with hover | hfits
      · -- the element is larger than a page, and has two of them
        obtain rfl : p = g + 6 := by omega
        refine ⟨2, by decide, by decide, ?_⟩
        rw [mul_one, show 2 ^ (g + 7) = 2 ^ (g + 6) * 2 from pow_succ 2 (g + 6)]
        exact Nat.lcm_eq_right (Nat.dvd_mul_right _ _)
      · exact ⟨1, by decide, by decide, lcm_two_pow hfits (by decide)⟩

/-- Adding pages reaches a multiple of the element after `n` of them, not before, and
before it reaches the limit of elements. -/
structure FirstMultiple (pageSize elemSize maxElements n : ℕ) : Prop where
  pos : 0 < n
  element : 0 < elemSize
  exact : pageSize * n / elemSize * elemSize = pageSize * n
  limit : pageSize * n / elemSize ≤ maxElements
  before : ∀ a, 0 < a → a < n → pageSize * a / elemSize < maxElements ∧
    pageSize * a / elemSize * elemSize ≠ pageSize * a

/-- The least common multiple is the first multiple. The limit is kept since the element
is a multiple of sixteen. -/
theorem firstMultiple_of_lcm {p l n : ℕ} (hp : 12 ≤ p) (hl : 0 < l) (hn : 0 < n)
    (h : Nat.lcm (2 ^ p) (16 * l) = 2 ^ p * n) :
    FirstMultiple (2 ^ p) (16 * l) (2 ^ (p - 4)) n := by
  have hpage : 0 < 2 ^ p := Nat.two_pow_pos p
  have helement : 0 < 16 * l := by omega
  have hscale : 2 ^ p = 2 ^ (p - 4) * 16 := by
    rw [show (16 : ℕ) = 2 ^ 4 by rfl, ← pow_add]
    congr 1
    omega
  have hexact : 2 ^ p * n / (16 * l) * (16 * l) = 2 ^ p * n :=
    Nat.div_mul_cancel (h ▸ Nat.dvd_lcm_right _ _)
  have hlimit : 2 ^ p * n / (16 * l) ≤ 2 ^ (p - 4) := by
    rw [← h]
    refine Nat.div_le_of_le_mul ?_
    refine Nat.le_of_dvd (Nat.mul_pos helement (Nat.two_pow_pos _)) (Nat.lcm_dvd ?_ ?_)
    · rw [hscale, mul_comm (16 * l), ← mul_assoc]
      exact Nat.dvd_mul_right _ _
    · exact Nat.dvd_mul_right _ _
  refine ⟨hn, helement, hexact, hlimit, fun a ha hlt => ⟨?_, fun hmultiple => ?_⟩⟩
  · refine lt_of_lt_of_le ?_ hlimit
    rw [Nat.div_lt_iff_lt_mul helement, hexact]
    exact Nat.mul_lt_mul_of_pos_left hlt hpage
  · -- otherwise the multiple would not be the least one
    have hdvd : 2 ^ p * n ∣ 2 ^ p * a := by
      rw [← h]
      exact Nat.lcm_dvd (Nat.dvd_mul_right _ _) (Dvd.intro_left _ hmultiple)
    have hle := Nat.le_of_dvd ha (Nat.dvd_of_mul_dvd_mul_left hpage hdvd)
    omega

/-- The first loop ends with the first multiple. -/
theorem FirstMultiple.growRun {pageSize elemSize maxElements n a fuel : ℕ}
    (h : FirstMultiple pageSize elemSize maxElements n) (ha : a < n) (hfuel : n ≤ a + fuel) :
    growRun pageSize elemSize maxElements fuel (pageSize * a) = pageSize * n := by
  induction fuel generalizing a with
  | zero => omega
  | succ fuel ih =>
    rw [PoolChunk.growRun, ← Nat.mul_add_one]
    rcases Nat.lt_or_ge (a + 1) n with hlt | hge
    · obtain ⟨hlimit, hmultiple⟩ := h.before (a + 1) (by omega) hlt
      rw [if_pos ⟨hlimit, hmultiple.symm⟩]
      exact ih hlt (by omega)
    · obtain rfl : n = a + 1 := by omega
      rw [if_neg fun hgo => hgo.2 h.exact.symm]

/-- The second loop does nothing. -/
theorem FirstMultiple.shrinkRun {pageSize elemSize maxElements n : ℕ}
    (h : FirstMultiple pageSize elemSize maxElements n) (fuel : ℕ) :
    shrinkRun pageSize elemSize maxElements fuel (pageSize * n) = pageSize * n := by
  cases fuel with
  | zero => rfl
  | succ fuel => rw [PoolChunk.shrinkRun, if_neg (not_lt.mpr h.limit)]

variable {k : PoolConfig}

/-- In a chunk of eight pages or more, `calculateRunSize` finds the least common multiple. -/
theorem calculateRunSize_eq_lcm (horder : 3 ≤ k.maxOrder) {i : ℕ}
    (hi : i < k.sizeClass.nSubpages) : calculateRunSize k.sizeClass i =
      some (Nat.lcm k.pageSize (k.sizeClass.sizeIdx2size i)) := by
  have hp := k.minPageSize
  have hrung := ladder_pos i
  rw [PoolConfig.nSubpages_sizeClass] at hi
  obtain ⟨n, hpos, hseven, hlcm⟩ := exists_pages_lcm hp (show i < 4 * k.pageShifts - 13 by omega)
  have hfirst := firstMultiple_of_lcm hp hrung hpos hlcm
  have hgrow := @FirstMultiple.growRun _ _ _ n 0 (16 * ladder i) hfirst hpos (by omega)
  have hchunk : 2 ^ k.pageShifts * n ≤ k.chunkSize := by
    rw [k.chunkSize_eq, mul_comm]
    refine Nat.mul_le_mul_right _ ((hseven.trans (show 7 ≤ 2 ^ 3 by decide)).trans ?_)
    exact Nat.pow_le_pow_right (n := 2) (by decide) horder
  have hfits : 16 * ladder i ≤ 2 ^ k.pageShifts * n := by
    rw [← hlcm]
    exact Nat.le_of_dvd (Nat.lcm_pos (Nat.two_pow_pos _) hfirst.element) (Nat.dvd_lcm_right _ _)
  rw [calculateRunSize, k.sizeIdx2size_eq (by omega)]
  rw [mul_zero] at hgrow
  simp only [PoolConfig.pageSize_sizeClass, PoolConfig.pageShifts_sizeClass,
    PoolConfig.chunkSize_sizeClass, Nat.one_shiftLeft]
  rw [show k.pageSize = 2 ^ k.pageShifts from rfl, hgrow, hfirst.shrinkRun, hlcm,
    if_pos ⟨Nat.div_pos hfits hfirst.element, hchunk, hfits⟩]

/-- Every chunk of eight pages or more has run sizes. -/
theorem PoolConfig.carvable (horder : 3 ≤ k.maxOrder) : k.Carvable := by
  intro i hi
  rw [calculateRunSize_eq_lcm horder hi, Option.isSome_some]

namespace RunSizing

/-- The variables of `calculateRunSize`. -/
structure Loop where
  runSize : Int32Word := 0
  nElements : Int32Word := 0

/-- The quotient of two `int`s, unless the second is zero. -/
def div (a b : Int32Word) : Option Int32Word := if b = 0 then none else some (a.sdiv b)

/-- The body of the first loop. -/
def Loop.add (pageSize elemSize : Int32Word) (s : Loop) : Option Loop :=
  let runSize := s.runSize + pageSize
  (div runSize elemSize).map fun nElements => { runSize, nElements }

/-- The body of the second loop. -/
def Loop.drop (pageSize elemSize : Int32Word) (s : Loop) : Option Loop :=
  let runSize := s.runSize - pageSize
  (div runSize elemSize).map fun nElements => { runSize, nElements }

/-- `calculateRunSize` in 32 bits, with at most `fuel` tests of each loop. -/
def calculateRunSize (fuel : ℕ) (c : SizeClassInt) (sizeIdx : Int32Word) : Option Int32Word := do
  let maxElements : Int32Word := 1#32 <<< (c.pageShifts - LOG2_QUANTUM)
  let elemSize ← c.sizeIdx2size sizeIdx
  let s ← Loop.add c.pageSize elemSize {}
  let s ← whileLoop (fun s => s.nElements.slt maxElements && s.runSize ≠ s.nElements * elemSize)
    (Loop.add c.pageSize elemSize) fuel s
  let s ← whileLoop (fun s => maxElements.slt s.nElements) (Loop.drop c.pageSize elemSize) fuel s
  if (0#32).slt s.nElements && s.runSize.sle c.chunkSize && elemSize.sle s.runSize then
    some s.runSize
  else none

/-- The variables after some pages have been added. -/
def loopAt (pageSize elemSize a : ℕ) : Loop where
  runSize := int (pageSize * a)
  nElements := int (pageSize * a / elemSize)

/-- One more page. -/
theorem add_loopAt {pageSize elemSize a : ℕ} (helement : 0 < elemSize)
    (helement' : elemSize < 2 ^ 31) (hrun : pageSize * (a + 1) < 2 ^ 31) :
    Loop.add (int pageSize) (int elemSize) (loopAt pageSize elemSize a) =
      some (loopAt pageSize elemSize (a + 1)) := by
  have hne : int elemSize ≠ 0 :=
    mt (ofNat_inj_of_lt (b := 0) (by omega) (by decide)).mp (by omega)
  rw [Loop.add, loopAt]
  dsimp only
  rw [BitVec.ofNat_add_ofNat, ← Nat.mul_add_one, div, if_neg hne, Option.map_some,
    sdiv_ofNat (by omega) (by omega)]
  rfl

/-- The first loop ends with the first multiple, and the second one does nothing. -/
theorem loops_eq {pageSize elemSize maxElements n fuel : ℕ}
    (h : FirstMultiple pageSize elemSize maxElements n) (helement : elemSize < 2 ^ 31)
    (hrun : pageSize * n < 2 ^ 31) (hmax : maxElements < 2 ^ 31) (hfuel : n ≤ fuel) :
    whileLoop (fun s : Loop => s.nElements.slt (int maxElements) &&
        s.runSize ≠ s.nElements * int elemSize)
        (Loop.add (int pageSize) (int elemSize)) fuel (loopAt pageSize elemSize 1) =
      some (loopAt pageSize elemSize n) ∧
    whileLoop (fun s : Loop => (int maxElements).slt s.nElements)
        (Loop.drop (int pageSize) (int elemSize)) fuel (loopAt pageSize elemSize n) =
      some (loopAt pageSize elemSize n) := by
  have hpos := h.pos
  have hmul (a : ℕ) (ha : a ≤ n) : pageSize * a < 2 ^ 31 :=
    (Nat.mul_le_mul_left pageSize ha).trans_lt hrun
  have hdiv (a : ℕ) (ha : a ≤ n) : pageSize * a / elemSize < 2 ^ 31 :=
    (Nat.div_le_self _ _).trans_lt (hmul a ha)
  have hback (a : ℕ) : pageSize * a / elemSize * elemSize ≤ pageSize * a := Nat.div_mul_le_self _ _
  constructor
  · obtain ⟨last, rfl⟩ : ∃ last, n = last + 1 := ⟨n - 1, by omega⟩
    refine whileLoop_eq (n := last) (f := fun i => loopAt pageSize elemSize (i + 1)) ?_ ?_ ?_
      (by omega)
    · intro i hi
      obtain ⟨hlimit, hmultiple⟩ := h.before (i + 1) (by omega) (by omega)
      have hlt := hmul (i + 1) (by omega)
      have hle := hback (i + 1)
      have hne := mt (ofNat_inj_of_lt (w := 32) (by omega) (by omega)).mp hmultiple.symm
      rw [Bool.and_eq_true, decide_eq_true_iff, loopAt, ← BitVec.ofNat_mul]
      refine ⟨?_, hne⟩
      rw [slt_ofNat (by omega) (by omega)]
      exact decide_eq_true hlimit
    · intro i hi
      exact add_loopAt h.element helement (hmul (i + 1 + 1) (by omega))
    · rw [Bool.and_eq_false_iff, decide_eq_false_iff_not, loopAt,
        ← BitVec.ofNat_mul, h.exact]
      exact Or.inr (not_not.mpr rfl)
  · have hlimit := hdiv n le_rfl
    refine whileLoop_eq (n := 0) (f := fun _ => loopAt pageSize elemSize n) ?_ ?_ ?_ (by omega)
    · intro i hi
      omega
    · intro i hi
      omega
    · rw [loopAt, slt_ofNat (by omega) (by omega)]
      exact decide_eq_false (not_lt.mpr h.limit)

/-- The rows of the constructor. -/
theorem read_sizeClasses_built {p m i : ℕ} {row : Row} (hp : 12 ≤ p)
    (hrow : (SizeClassInt.built p m).sizeClasses.read i = some row) (hsub : row.isSubPage = 1) :
    i < 4 * p - 13 := by
  have hlength := length_rows_buildTo p (4 * (p + m - 5))
  rcases Nat.lt_or_ge i (4 * (p + m - 5)) with hi | hi
  · rw [SizeClassInt.built, read_sizeClasses hi] at hrow
    obtain rfl := Option.some.inj hrow
    exact (isSubPage_rowAt hp i).mp ((words_isSubPage _).mp hsub)
  · have hnone : (SizeClassInt.built p m).sizeClasses.read i = none :=
      Table.read_filled_of_le (by rwa [List.length_map, hlength])
    rw [hnone] at hrow
    cases hrow

/-- What `calculateRunSize` promises. The run is the least common multiple of page and
element, its pages are a page class, and it has at most as many elements as a page has
units of sixteen bytes, so that the bitmap of a subpage has a bit for each of them. -/
structure Sized (c : SizeClassInt) (elemSize runSize : Int32Word) : Prop where
  lcm : runSize.toInt = Nat.lcm c.pageSize.toNat elemSize.toNat
  pageClass : ∃ j < c.nPSizes.toNat, c.pageIdx2size (int j) = some (runSize.signExtend 64)
  elements : runSize.toNat / elemSize.toNat ≤ c.pageSize.toNat / 16
  covered : ∀ chunk runOffset sp, sp = PoolSubpage.construct chunk c.pageShifts.toNat runOffset
      runSize.toNat elemSize.toNat →
    sp.maxNumElems ≤ 64 * sp.bitmap.length ∧ sp.bitmapLength ≤ sp.bitmap.length

variable {p m i n : ℕ}

/-- Seven pages fit into a chunk of eight. -/
theorem pages_le_chunk (hm : 3 ≤ m) (hseven : n ≤ 7) : n ≤ 2 ^ m := by
  have hpow : 2 ^ 3 ≤ 2 ^ m := Nat.pow_le_pow_right (by decide) hm
  omega

/-- The loops end with the first multiple, for which the assertions hold. -/
theorem calculateRunSize_built (hp : 12 ≤ p) (hsum : p + m ≤ 30) (hi : i < 4 * (p + m - 5))
    (hfirst : FirstMultiple (2 ^ p) (16 * ladder i) (2 ^ (p - 4)) n)
    (hfits : 16 * ladder i ≤ 2 ^ p * n) (hn : n ≤ 2 ^ m) {fuel : ℕ} (hfuel : n ≤ fuel) :
    calculateRunSize fuel (SizeClassInt.built p m) (int i) = some (int (2 ^ p * n)) := by
  have hclass := SizeClassInt.sizeIdx2size_built hsum hi
  have helement := hfirst.element
  have hchunk : 2 ^ (p + m) ≤ 2 ^ 30 := Nat.pow_le_pow_right (by decide) hsum
  have hpages : 2 ^ p * n ≤ 2 ^ (p + m) := by
    rw [pow_add]
    exact Nat.mul_le_mul_left _ hn
  have hmax : 2 ^ (p - 4) ≤ 2 ^ 30 := Nat.pow_le_pow_right (by decide) (by omega)
  have hpage : 2 ^ p * (0 + 1) ≤ 2 ^ p * n := Nat.mul_le_mul_left _ hfirst.pos
  obtain ⟨hgrow, hshrink⟩ := loops_eq hfirst (by omega) (by omega) (by omega) hfuel
  have hstart : Loop.add (int (2 ^ p)) (int (16 * ladder i)) {} =
      some (loopAt (2 ^ p) (16 * ladder i) 1) := by
    have hadd := @add_loopAt (2 ^ p) _ 0 helement (by omega) (by omega)
    rwa [loopAt, mul_zero, Nat.zero_div] at hadd
  have hmaxElements : 1#32 <<< (int p - LOG2_QUANTUM) = int (2 ^ (p - 4)) := by
    rw [show LOG2_QUANTUM = int 4 from rfl,
      BitVec.ofNat_sub_ofNat_of_le _ _ (by decide) (by omega), shiftLeft_ofNat (by omega),
      Nat.one_shiftLeft]
  have hassert : ((0#32).slt (int (2 ^ p * n / (16 * ladder i))) &&
      (int (2 ^ p * n)).sle (int (2 ^ (p + m))) &&
      (int (16 * ladder i)).sle (int (2 ^ p * n))) = true := by
    have helements := Nat.div_pos hfits helement
    have hle := Nat.div_le_self (2 ^ p * n) (16 * ladder i)
    rw [slt_ofNat (by omega) (by omega), sle_ofNat (by omega) (by omega),
      sle_ofNat (by omega) (by omega), decide_eq_true helements, decide_eq_true hpages,
      decide_eq_true hfits]
    rfl
  rw [calculateRunSize, hclass, Option.bind_eq_bind, Option.bind_some,
    show (SizeClassInt.built p m).pageShifts = int p from rfl,
    show (SizeClassInt.built p m).pageSize = int (2 ^ p) from rfl,
    show (SizeClassInt.built p m).chunkSize = int (2 ^ (p + m)) from rfl, hmaxElements,
    hstart, Option.bind_eq_bind, Option.bind_some, hgrow, Option.bind_some, hshrink,
    Option.bind_some]
  exact if_pos hassert

/-- The least common multiple keeps the promise. -/
theorem sized_built (hp : 12 ≤ p) (hsum : p + m ≤ 30) (hseven : n ≤ 7) (hn : n ≤ 2 ^ m)
    (hfirst : FirstMultiple (2 ^ p) (16 * ladder i) (2 ^ (p - 4)) n)
    (hfits : 16 * ladder i ≤ 2 ^ p * n)
    (hlcm : Nat.lcm (2 ^ p) (16 * ladder i) = 2 ^ p * n) :
    Sized (SizeClassInt.built p m) (int (16 * ladder i)) (int (2 ^ p * n)) := by
  have hpos := hfirst.pos
  have hrung := ladder_pos i
  have hchunk : 2 ^ (p + m) ≤ 2 ^ 30 := Nat.pow_le_pow_right (by decide) hsum
  have hpages : 2 ^ p * n ≤ 2 ^ (p + m) := by
    rw [pow_add]
    exact Nat.mul_le_mul_left _ hn
  have hpageNat : (SizeClassInt.built p m).pageSize.toNat = 2 ^ p := by
    have hpage : 2 ^ p ≤ 2 ^ 30 := Nat.pow_le_pow_right (by decide) (by omega)
    exact (BitVec.toNat_ofNat _ _).trans (Nat.mod_eq_of_lt (by omega))
  have helement : (int (16 * ladder i)).toNat = 16 * ladder i := by
    rw [BitVec.toNat_ofNat, Nat.mod_eq_of_lt (by omega)]
  have hrun : (int (2 ^ p * n)).toNat = 2 ^ p * n := by
    rw [BitVec.toNat_ofNat, Nat.mod_eq_of_lt (by omega)]
  refine ⟨?_, ?_, ?_, ?_⟩
  · rw [toInt_ofNat_of_lt (by omega), hpageNat, helement, hlcm]
  · have hladder : ladder (n - 1) = n := by
      interval_cases n <;> rfl
    have hj : n - 1 ≤ ladderIdx (2 ^ m) := by
      rwa [← ladder_strictMono.le_iff_le, ladder_two_pow, hladder]
    refine ⟨n - 1, ?_, ?_⟩
    · rw [SizeClassInt.toNat_nPSizes hp hsum]
      omega
    · rw [SizeClassInt.pageIdx2size_int hp hsum hj, hladder,
        signExtend_ofNat (by omega) (by decide)]
  · have hlimit : 2 ^ (p - 4) = 2 ^ p / 16 := by
      rw [show (16 : ℕ) = 2 ^ 4 by rfl, Nat.pow_div (by omega) (by decide)]
    rw [hrun, helement, hpageNat, ← hlimit]
    exact hfirst.limit
  · rintro chunk runOffset sp rfl
    rw [hrun, helement]
    have hunits : 1024 ∣ 2 ^ p * n :=
      (Nat.pow_dvd_pow 2 (show 10 ≤ p by omega)).trans (Nat.dvd_mul_right _ _)
    obtain ⟨hcore, -⟩ := @PoolSubpage.construct_core chunk
      (SizeClassInt.built p m).pageShifts.toNat runOffset _ _ (by omega) hfits hunits
    have hlength := hcore.bitmapLength_eq
    have hcovered := hcore.covered
    exact ⟨by omega, hcovered⟩

/-- For every page size of at least 4096 bytes, every chunk of at least eight pages and at
most `2 ^ 30` bytes and every class that is served by subpages, the loops of
`calculateRunSize` end after at most seven tests, and no assertion fails. -/
theorem calculateRunSize_sized {p m : ℕ} (hp : 12 ≤ p) (hm : 3 ≤ m) (hsum : p + m ≤ 30) :
    ∃ fuel c, SizeClassInt.new fuel (int (2 ^ p)) (int p) (int (2 ^ (p + m))) = some c ∧
      ∀ i row, c.sizeClasses.read i = some row → row.isSubPage = 1 →
        ∃ elemSize runSize, c.sizeIdx2size (int i) = some elemSize ∧
          (∀ fuel ≥ 7, calculateRunSize fuel c (int i) = some runSize) ∧
          Sized c elemSize runSize := by
  refine ⟨257, SizeClassInt.built p m, SizeClassInt.new_built hp hsum (by decide), ?_⟩
  intro i row hrow hsub
  have hi := read_sizeClasses_built hp hrow hsub
  have hclass := SizeClassInt.sizeIdx2size_built (m := m) hsum (show i < 4 * (p + m - 5) by omega)
  obtain ⟨n, hpos, hseven, hlcm⟩ := exists_pages_lcm hp hi
  have hn := pages_le_chunk hm hseven
  have hfirst := firstMultiple_of_lcm hp (ladder_pos i) hpos hlcm
  have hfits : 16 * ladder i ≤ 2 ^ p * n := by
    rw [← hlcm]
    exact Nat.le_of_dvd (Nat.lcm_pos (Nat.two_pow_pos _) hfirst.element) (Nat.dvd_lcm_right _ _)
  refine ⟨_, _, hclass, fun fuel hfuel => ?_, sized_built hp hsum hseven hn hfirst hfits hlcm⟩
  exact calculateRunSize_built hp hsum (by omega) hfirst hfits hn (hseven.trans hfuel)

/-- Chunks of eight pages of 4096 bytes. -/
theorem calculateRunSize_sized_smallest :
    ∃ fuel c, SizeClassInt.new fuel (int (2 ^ 12)) (int 12) (int (2 ^ (12 + 3))) = some c ∧
      ∀ i row, c.sizeClasses.read i = some row → row.isSubPage = 1 →
        ∃ elemSize runSize, c.sizeIdx2size (int i) = some elemSize ∧
          (∀ fuel ≥ 7, calculateRunSize fuel c (int i) = some runSize) ∧
          Sized c elemSize runSize :=
  calculateRunSize_sized (by decide) (by decide) (by decide)

end RunSizing

end DuoDuo.Buffer
