import DuoDuo.Buffer.RunAllocator
import DuoDuo.Buffer.SizeClassInt
import DuoDuo.Library.Words

/-!
# Handles in 64 bits

Handles as the machine packs and unpacks them. An `int` is widened with its sign, a shift
to the right keeps the sign, and a cast to `int` keeps the low bits. On the fields of a
chunk the words are the handles of natural numbers, so that no field is lost.
-/

namespace DuoDuo.Buffer

open Library

namespace HandleInt

/-- `PoolChunk::toRunHandle`. -/
def toRunHandle (runOffset runPages inUsed : Int32Word) : Int64Word :=
  runOffset.signExtend 64 <<< 49 ||| runPages.signExtend 64 <<< 34 ||| inUsed.signExtend 64 <<< 33

/-- `PoolSubpage::toHandle`, where the last operand of `|` is an `int`. -/
def toHandle (pageShifts : ℕ) (runOffset runSize bitmapIdx : Int32Word) : Int64Word :=
  let pages := runSize.sshiftRight pageShifts
  runOffset.signExtend 64 <<< 49 ||| pages.signExtend 64 <<< 34 ||| 1#64 <<< 33 ||| 1#64 <<< 32 |||
    bitmapIdx.signExtend 64

/-- `PoolChunk::calculateRunOffset`. -/
def calculateRunOffset (handle : Int64Word) : Int32Word := (handle.sshiftRight 49).setWidth 32

/-- `PoolChunk::calculateRunPages`. -/
def calculateRunPages (handle : Int64Word) : Int32Word :=
  (handle.sshiftRight 34 &&& 0x7fff#64).setWidth 32

/-- `PoolChunk::isUsed`. -/
def isUsed (handle : Int64Word) : Bool := handle.sshiftRight 33 &&& 1#64 = 1#64

/-- `PoolChunk::isSubpage`. -/
def isSubpage (handle : Int64Word) : Bool := handle.sshiftRight 32 &&& 1#64 = 1#64

/-- `PoolChunk::calculateBitmapIdx`. -/
def calculateBitmapIdx (handle : Int64Word) : Int32Word := handle.setWidth 32

/-- The two bits that `PoolChunk::free` clears. -/
def clearUse (handle : Int64Word) : Int64Word := handle &&& ~~~(1#64 <<< 33) &&& ~~~(1#64 <<< 32)

/-- A shift to the left. -/
theorem ofNat_shiftLeft (n s : ℕ) : BitVec.ofNat 64 n <<< s = BitVec.ofNat 64 (n <<< s) := by
  apply BitVec.eq_of_toNat_eq
  rw [BitVec.toNat_shiftLeft, BitVec.toNat_ofNat, BitVec.toNat_ofNat, Nat.shiftLeft_eq,
    Nat.shiftLeft_eq, Nat.mod_mul_mod]

/-- The handle of a run, as a number. -/
theorem toRunHandle_ofNat {runOffset runPages inUsed : ℕ} (ho : runOffset < 2 ^ 31)
    (hp : runPages < 2 ^ 31) (hu : inUsed < 2 ^ 31) :
    toRunHandle (.ofNat 32 runOffset) (.ofNat 32 runPages) (.ofNat 32 inUsed) =
      BitVec.ofNat 64 (PoolChunk.toRunHandle runOffset runPages inUsed) := by
  rw [toRunHandle, signExtend_ofNat (by omega) (by decide),
    signExtend_ofNat (by omega) (by decide), signExtend_ofNat (by omega) (by decide),
    ofNat_shiftLeft, ofNat_shiftLeft, ofNat_shiftLeft, ← BitVec.ofNat_or, ← BitVec.ofNat_or, PoolChunk.toRunHandle]

/-- The handle of an element, as a number. -/
theorem toHandle_ofNat {sp : PoolSubpage} {bitmapIdx : ℕ} (ho : sp.runOffset < 2 ^ 31)
    (hr : sp.runSize < 2 ^ 31) (hi : bitmapIdx < 2 ^ 31) :
    toHandle sp.pageShifts (.ofNat 32 sp.runOffset) (.ofNat 32 sp.runSize) (.ofNat 32 bitmapIdx) =
      BitVec.ofNat 64 (sp.toHandle bitmapIdx) := by
  have hpages : sp.runSize >>> sp.pageShifts < 2 ^ 31 :=
    (Nat.shiftRight_le _ _).trans_lt hr
  rw [toHandle, sshiftRight_ofNat (by omega), signExtend_ofNat (by omega) (by decide),
    signExtend_ofNat (by omega) (by decide), signExtend_ofNat (by omega) (by decide),
    ofNat_shiftLeft,
    ofNat_shiftLeft, ofNat_shiftLeft, ofNat_shiftLeft, ← BitVec.ofNat_or, ← BitVec.ofNat_or,
    ← BitVec.ofNat_or, ← BitVec.ofNat_or, PoolSubpage.toHandle]

section Decode

variable {handle : ℕ} (hlt : handle < 2 ^ 63)
include hlt

theorem calculateRunOffset_ofNat : calculateRunOffset (.ofNat 64 handle) =
    BitVec.ofNat 32 (PoolChunk.calculateRunOffset handle) := by
  rw [calculateRunOffset, sshiftRight_ofNat (by omega), BitVec.setWidth_ofNat_of_le (by decide)]
  rfl

theorem calculateRunPages_ofNat : calculateRunPages (.ofNat 64 handle) =
    BitVec.ofNat 32 (PoolChunk.calculateRunPages handle) := by
  rw [calculateRunPages, sshiftRight_ofNat (by omega), ← BitVec.ofNat_and,
    BitVec.setWidth_ofNat_of_le (by decide)]
  rfl

theorem isUsed_ofNat : isUsed (.ofNat 64 handle) = PoolChunk.isUsed handle := by
  have hbit : handle >>> 33 &&& 1 < 2 ^ 64 := Nat.lt_of_le_of_lt Nat.and_le_right (by decide)
  rw [isUsed, sshiftRight_ofNat (by omega), ← BitVec.ofNat_and, PoolChunk.isUsed]
  exact decide_eq_decide.mpr (ofNat_inj_of_lt hbit (by decide))

theorem isSubpage_ofNat : isSubpage (.ofNat 64 handle) = PoolChunk.isSubpage handle := by
  have hbit : handle >>> 32 &&& 1 < 2 ^ 64 := Nat.lt_of_le_of_lt Nat.and_le_right (by decide)
  rw [isSubpage, sshiftRight_ofNat (by omega), ← BitVec.ofNat_and, PoolChunk.isSubpage]
  exact decide_eq_decide.mpr (ofNat_inj_of_lt hbit (by decide))

omit hlt in
theorem calculateBitmapIdx_ofNat : calculateBitmapIdx (.ofNat 64 handle) =
    BitVec.ofNat 32 (PoolChunk.calculateBitmapIdx handle) := by
  rw [calculateBitmapIdx, BitVec.setWidth_ofNat_of_le (by decide), PoolChunk.calculateBitmapIdx]
  apply BitVec.eq_of_toNat_eq
  rw [BitVec.toNat_ofNat, BitVec.toNat_ofNat, Nat.mod_mod]

end Decode

/-- The bits of a handle whose use has been cleared. -/
theorem getLsbD_clearUse (handle : Int64Word) (i : ℕ) :
    (clearUse handle).getLsbD i = (handle.getLsbD i && !(i = 33 : Bool) && !(i = 32 : Bool)) := by
  rw [clearUse, BitVec.getLsbD_and, BitVec.getLsbD_and, BitVec.getLsbD_not, BitVec.getLsbD_not,
    BitVec.getLsbD_shiftLeft, BitVec.getLsbD_shiftLeft, BitVec.getLsbD_one, BitVec.getLsbD_one]
  by_cases hi : i < 64
  · by_cases h33 : i = 33
    · subst h33
      simp
    · by_cases h32 : i = 32
      · subst h32
        simp
      · simp only [hi, h33, h32, decide_true, decide_false]
        grind
  · rw [BitVec.getLsbD_of_ge _ _ (by omega)]
    simp

/-- The decoders of the fields that stay read bits other than the two. -/
theorem sshiftRight_clearUse {handle : Int64Word} {s : ℕ} (hs : 34 ≤ s) :
    (clearUse handle).sshiftRight s = handle.sshiftRight s := by
  apply BitVec.eq_of_getLsbD_eq
  intro i hi
  have hmsb : (clearUse handle).msb = handle.msb := by
    rw [BitVec.msb_eq_getLsbD_last, BitVec.msb_eq_getLsbD_last, getLsbD_clearUse]
    simp
  rw [BitVec.getLsbD_sshiftRight, BitVec.getLsbD_sshiftRight, hmsb, getLsbD_clearUse,
    decide_eq_false (show ¬ s + i = 33 by omega), decide_eq_false (show ¬ s + i = 32 by omega)]
  simp

/-- One bit as the decoders of the flags read it. -/
theorem and_one_eq_one (x : Int64Word) : (x &&& 1#64 = 1#64 : Bool) = x.getLsbD 0 := by
  have hbit : x &&& 1#64 = BitVec.setWidth 64 (BitVec.ofBool (x.getLsbD 0)) := by
    apply BitVec.eq_of_getLsbD_eq
    intro i hi
    cases i <;> simp [hi]
  rw [hbit]
  cases x.getLsbD 0 <;> rfl

/-- The two bits of the use are cleared, and no other field changes. -/
theorem clearUse_spec (handle : Int64Word) :
    calculateRunOffset (clearUse handle) = calculateRunOffset handle ∧
      calculateRunPages (clearUse handle) = calculateRunPages handle ∧
      calculateBitmapIdx (clearUse handle) = calculateBitmapIdx handle ∧
      isUsed (clearUse handle) = false ∧ isSubpage (clearUse handle) = false := by
  refine ⟨?_, ?_, ?_, ?_, ?_⟩
  · rw [calculateRunOffset, sshiftRight_clearUse (by decide), calculateRunOffset]
  · rw [calculateRunPages, sshiftRight_clearUse (by decide), calculateRunPages]
  · rw [calculateBitmapIdx, calculateBitmapIdx]
    apply BitVec.eq_of_getLsbD_eq
    intro i hi
    rw [BitVec.getLsbD_setWidth, BitVec.getLsbD_setWidth, getLsbD_clearUse,
      decide_eq_false (show ¬ i = 33 by omega), decide_eq_false (show ¬ i = 32 by omega)]
    simp
  · rw [isUsed, and_one_eq_one, BitVec.getLsbD_sshiftRight, getLsbD_clearUse]
    simp
  · rw [isSubpage, and_one_eq_one, BitVec.getLsbD_sshiftRight, getLsbD_clearUse]
    simp

/-- The fields of a handle: those of a run, or those of an element of a subpage. -/
inductive Fields
  | run (runOffset runPages : ℕ) (used : Bool)
  | element (runOffset runPages bitmapIdx : ℕ)
  deriving DecidableEq

namespace Fields

/-- The fields occur in a chunk of at most `2 ^ 13` pages. The run size of a subpage is an
`int`, and so is a bitmap index. -/
def InChunk (pageShifts : ℕ) : Fields → Prop
  | .run runOffset runPages _ => runOffset < 2 ^ 13 ∧ runPages ≤ 2 ^ 13
  | .element runOffset runPages bitmapIdx => runOffset < 2 ^ 13 ∧ runPages ≤ 2 ^ 13 ∧
      runPages <<< pageShifts < 2 ^ 31 ∧ bitmapIdx < 2 ^ 31

/-- The handle with these fields. -/
def handle (pageShifts : ℕ) : Fields → Int64Word
  | .run runOffset runPages used =>
    toRunHandle (.ofNat 32 runOffset) (.ofNat 32 runPages) (if used then 1 else 0)
  | .element runOffset runPages bitmapIdx =>
    toHandle pageShifts (.ofNat 32 runOffset) (.ofNat 32 (runPages <<< pageShifts))
      (.ofNat 32 bitmapIdx)

/-- The decoders return the fields. A run has the bitmap index zero. -/
def DecodedFrom (handle : Int64Word) : Fields → Prop
  | .run runOffset runPages used => (calculateRunOffset handle).toInt = runOffset ∧
      (calculateRunPages handle).toInt = runPages ∧ isUsed handle = used ∧
      isSubpage handle = false ∧ (calculateBitmapIdx handle).toInt = 0
  | .element runOffset runPages bitmapIdx => (calculateRunOffset handle).toInt = runOffset ∧
      (calculateRunPages handle).toInt = runPages ∧ isUsed handle = true ∧
      isSubpage handle = true ∧ (calculateBitmapIdx handle).toInt = bitmapIdx

/-- A handle is decoded in one way only. -/
theorem DecodedFrom.unique {handle : Int64Word} {x y : Fields} (hx : x.DecodedFrom handle)
    (hy : y.DecodedFrom handle) : x = y := by
  cases x <;> cases y <;> simp only [DecodedFrom] at hx hy <;> grind

/-- The handle as a number. -/
def number (pageShifts : ℕ) : Fields → ℕ
  | .run runOffset runPages used =>
    PoolChunk.toRunHandle runOffset runPages (if used then 1 else 0)
  | .element runOffset runPages bitmapIdx =>
    (PoolSubpage.construct 0 pageShifts runOffset (runPages <<< pageShifts) 0).toHandle bitmapIdx

variable {pageShifts : ℕ} {x : Fields}

/-- The number fits below the sign bit, and the handle is that number. -/
theorem InChunk.handle_eq (h : x.InChunk pageShifts) :
    x.number pageShifts < 2 ^ 63 ∧ x.handle pageShifts = BitVec.ofNat 64 (x.number pageShifts) := by
  cases x with
  | run runOffset runPages used =>
    obtain ⟨ho, hp⟩ := h
    have hu : (if used then 1 else 0) < 2 := by split <;> decide
    have hsum := @PoolChunk.toRunHandle_eq runOffset runPages _
      (by omega) hu
    refine ⟨by rw [number, hsum]; omega, ?_⟩
    rw [number, ← toRunHandle_ofNat (by omega) (by omega) (by omega), handle]
    cases used <;> rfl
  | element runOffset runPages bitmapIdx =>
    obtain ⟨ho, hp, hsize, hi⟩ := h
    have hpages : (PoolSubpage.construct 0 pageShifts runOffset (runPages <<< pageShifts) 0).runSize
        >>> pageShifts = runPages := Nat.shiftLeft_shiftRight ..
    have hsum := PoolSubpage.toHandle_eq hpages (show runPages < 2 ^ 15 by omega)
      (show bitmapIdx < 2 ^ 32 by omega)
    refine ⟨?_, ?_⟩
    · rw [number, hsum]
      show runOffset * 2 ^ 49 + runPages * 2 ^ 34 + 2 ^ 33 + 2 ^ 32 + bitmapIdx < 2 ^ 63
      omega
    · rw [number, ← toHandle_ofNat (show runOffset < 2 ^ 31 by omega) hsize hi]
      rfl

/-- The decoders return what was encoded. -/
theorem InChunk.decodedFrom (h : x.InChunk pageShifts) : x.DecodedFrom (x.handle pageShifts) := by
  obtain ⟨hlt, heq⟩ := h.handle_eq
  rw [heq]
  cases x with
  | run runOffset runPages used =>
    obtain ⟨ho, hp⟩ := h
    have hu : (if used then 1 else 0) < 2 := by split <;> decide
    have hidx : PoolChunk.calculateBitmapIdx (number pageShifts (.run runOffset runPages used)) =
        0 := by
      rw [number, PoolChunk.toRunHandle_eq (by omega) hu, PoolChunk.calculateBitmapIdx]
      omega
    rw [DecodedFrom, calculateRunOffset_ofNat hlt, calculateRunPages_ofNat hlt, isUsed_ofNat hlt,
      isSubpage_ofNat hlt, calculateBitmapIdx_ofNat, hidx]
    rw [number, PoolChunk.calculateRunOffset_toRunHandle (by omega) hu,
      PoolChunk.calculateRunPages_toRunHandle (by omega) hu,
      PoolChunk.isUsed_toRunHandle (by omega) hu, PoolChunk.isSubpage_toRunHandle (by omega) hu]
    refine ⟨toInt_ofNat_of_lt (by omega), toInt_ofNat_of_lt (by omega), ?_, rfl, rfl⟩
    cases used <;> rfl
  | element runOffset runPages bitmapIdx =>
    obtain ⟨ho, hp, hsize, hi⟩ := h
    have hpages : (PoolSubpage.construct 0 pageShifts runOffset (runPages <<< pageShifts) 0).runSize
        >>> pageShifts = runPages := Nat.shiftLeft_shiftRight ..
    have hlt15 : runPages < 2 ^ 15 := by omega
    have hlt32 : bitmapIdx < 2 ^ 32 := by omega
    have hused : PoolChunk.isUsed
        (number pageShifts (.element runOffset runPages bitmapIdx)) = true := by
      rw [number, PoolSubpage.toHandle_eq hpages hlt15 hlt32, PoolChunk.isUsed, Nat.and_one_is_mod,
        Nat.shiftRight_eq_div_pow, decide_eq_true_eq]
      omega
    rw [DecodedFrom, calculateRunOffset_ofNat hlt, calculateRunPages_ofNat hlt, isUsed_ofNat hlt,
      isSubpage_ofNat hlt, calculateBitmapIdx_ofNat, hused]
    rw [number, PoolSubpage.calculateRunOffset_toHandle hpages hlt15 hlt32,
      PoolSubpage.calculateRunPages_toHandle hpages hlt15 hlt32,
      PoolSubpage.isSubpage_toHandle hpages hlt15 hlt32,
      PoolSubpage.calculateBitmapIdx_toHandle hpages hlt15 hlt32]
    exact ⟨toInt_ofNat_of_lt (show 2 * runOffset < 2 ^ 32 by omega), toInt_ofNat_of_lt (by omega),
      rfl, rfl, toInt_ofNat_of_lt (by omega)⟩

/-- The handles of available runs are ordered by their offsets, and for one offset by their
numbers of pages. -/
theorem InChunk.slt_iff {o n o' n' : ℕ} (h : (run o n false).InChunk pageShifts)
    (h' : (run o' n' false).InChunk pageShifts) :
    ((run o n false).handle pageShifts).slt ((run o' n' false).handle pageShifts) = true ↔
      o < o' ∨ o = o' ∧ n < n' := by
  obtain ⟨hlt, heq⟩ := h.handle_eq
  obtain ⟨hlt', heq'⟩ := h'.handle_eq
  rw [heq, heq', slt_ofNat (by omega) (by omega), decide_eq_true_eq]
  obtain ⟨ho, hp⟩ := h
  obtain ⟨ho', hp'⟩ := h'
  rw [number, number, PoolChunk.toRunHandle_eq (by omega) (by simp),
    PoolChunk.toRunHandle_eq (by omega) (by simp)]
  simp only [Bool.false_eq_true, if_false]
  omega

end Fields

/-- In every state of the run allocator, the available runs of a chunk are ordered by their
offsets, also those that were left by a subpage. -/
theorem slt_iff_of_reachable {k : PoolConfig} {s : RunAllocator.State}
    (hs : (RunAllocator.machine k).Reachable s) {id i j handle handle' : ℕ} {c : PoolChunk}
    (hc : s.store.chunks id = some c) (hmem : handle ∈ c.runsAvail i)
    (hmem' : handle' ∈ c.runsAvail j) :
    (BitVec.ofNat 64 handle).slt (BitVec.ofNat 64 handle') = true ↔
      (calculateRunOffset (.ofNat 64 handle)).toInt <
        (calculateRunOffset (.ofNat 64 handle')).toInt := by
  obtain ⟨blocks, h⟩ := RunAllocator.inv_of_reachable hs
  have hruns := (h.chunk hc).runs
  have hoffset : ∀ {x q}, x ∈ c.runsAvail q →
      unused PoolChunk.isUsed (blocks id) (PoolChunk.calculateRunOffset x) = some x ∧
        PoolChunk.calculateRunOffset x < 2 ^ 14 := by
    intro x q hx
    obtain ⟨o, ho, -⟩ := hruns.filed.queue.mp hx
    have hblock := (unused_eq_some.mp ho).1
    rw [hruns.offset hblock]
    exact ⟨ho, (hruns.lt hblock).1⟩
  obtain ⟨hrun, hlt⟩ := hoffset hmem
  obtain ⟨hrun', hlt'⟩ := hoffset hmem'
  have hsmall : ∀ {x}, PoolChunk.calculateRunOffset x < 2 ^ 14 → x < 2 ^ 63 := by
    intro x hx
    rw [PoolChunk.calculateRunOffset, Nat.shiftRight_eq_div_pow] at hx
    omega
  rw [slt_ofNat (by have := hsmall hlt; omega) (by have := hsmall hlt'; omega), decide_eq_true_eq,
    calculateRunOffset_ofNat (hsmall hlt), calculateRunOffset_ofNat (hsmall hlt'),
    toInt_ofNat_of_lt (by omega), toInt_ofNat_of_lt (by omega), Nat.cast_lt]
  have hmono : ∀ {x y : ℕ}, x ≤ y →
      PoolChunk.calculateRunOffset x ≤ PoolChunk.calculateRunOffset y := by
    intro x y hle
    rw [PoolChunk.calculateRunOffset, PoolChunk.calculateRunOffset, Nat.shiftRight_eq_div_pow,
      Nat.shiftRight_eq_div_pow]
    exact Nat.div_le_div_right hle
  constructor
  · intro hless
    refine lt_of_le_of_ne (hmono hless.le) fun hsame => ?_
    rw [hsame] at hrun
    exact hless.ne (Option.some.inj (hrun.symm.trans hrun'))
  · intro hless
    by_contra hge
    exact absurd (hmono (not_lt.mp hge)) (not_le.mpr hless)

/-- Handles are not negative and lose no field, clearing the use changes no other field,
and available runs are ordered by their offsets. -/
theorem handle_lossless (pageShifts : ℕ) :
    (∀ x : Fields, x.InChunk pageShifts →
      0 ≤ (x.handle pageShifts).toInt ∧ x.DecodedFrom (x.handle pageShifts)) ∧
    (∀ x y : Fields, x.InChunk pageShifts → y.InChunk pageShifts →
      x.handle pageShifts = y.handle pageShifts → x = y) ∧
    (∀ handle : Int64Word, calculateRunOffset (clearUse handle) = calculateRunOffset handle ∧
      calculateRunPages (clearUse handle) = calculateRunPages handle ∧
      calculateBitmapIdx (clearUse handle) = calculateBitmapIdx handle ∧
      isUsed (clearUse handle) = false ∧ isSubpage (clearUse handle) = false) ∧
    (∀ o n o' n', (Fields.run o n false).InChunk pageShifts →
      (Fields.run o' n' false).InChunk pageShifts →
      (((Fields.run o n false).handle pageShifts).slt
        ((Fields.run o' n' false).handle pageShifts) = true ↔ o < o' ∨ o = o' ∧ n < n')) ∧
    ∀ (k : PoolConfig) (s : RunAllocator.State), (RunAllocator.machine k).Reachable s →
      ∀ (id i j handle handle' : ℕ) (c : PoolChunk), s.store.chunks id = some c →
        handle ∈ c.runsAvail i → handle' ∈ c.runsAvail j →
        ((BitVec.ofNat 64 handle).slt (BitVec.ofNat 64 handle') = true ↔
          (calculateRunOffset (.ofNat 64 handle)).toInt <
            (calculateRunOffset (.ofNat 64 handle')).toInt) := by
  refine ⟨fun x hx => ⟨?_, hx.decodedFrom⟩, ?_, clearUse_spec, ?_, ?_⟩
  · obtain ⟨hlt, heq⟩ := hx.handle_eq
    rw [heq, toInt_ofNat_of_lt (by omega)]
    exact Int.natCast_nonneg _
  · intro x y hx hy hsame
    have hdecoded := hx.decodedFrom
    rw [hsame] at hdecoded
    exact hdecoded.unique hy.decodedFrom
  · exact fun o n o' n' h h' => h.slt_iff h'
  · exact fun k s hs id i j handle handle' c hc hmem hmem' => slt_iff_of_reachable hs hc hmem hmem'

/-- The handle of an element of a subpage of three pages. -/
theorem handle_lossless_element :
    (Fields.element 5 3 700).DecodedFrom ((Fields.element 5 3 700).handle 13) :=
  ((handle_lossless 13).1 (.element 5 3 700) (by simp [Fields.InChunk])).2

end HandleInt

end DuoDuo.Buffer
