import DuoDuo.Buffer.Handle
import Mathlib.Data.Finset.Card

/-!
# Subpages

A subpage divides a run into elements of one size and keeps a bitmap of those in
use. The subpages with a free element are linked in the pool of their size index.
A step that breaks an assertion, or indexes outside the bitmap, has no result.
-/

namespace DuoDuo.Buffer

/-- A subpage by its chunk and its run offset. -/
abbrev SubpageRef := ℕ × ℕ

/-- The lists behind the pool heads, by size index. -/
abbrev Pools := ℕ → List SubpageRef

/-- `PoolSubpage`. `nextAvail` is `none` for `-1`, and `pool` is the head in whose
list the subpage is linked, none while `prev` and `next` are null. -/
structure PoolSubpage where
  chunk : ℕ
  pageShifts : ℕ
  runOffset : ℕ
  runSize : ℕ
  elemSize : ℕ
  bitmap : List ℕ
  maxNumElems : ℕ
  bitmapLength : ℕ
  nextAvail : Option ℕ
  numAvail : ℕ
  dontRelease : Bool
  pool : Option ℕ
  deriving DecidableEq, Repr

namespace PoolSubpage

/-- The name under which the pools know the subpage. -/
def ref (sp : PoolSubpage) : SubpageRef := (sp.chunk, sp.runOffset)

/-- `addToPool`. -/
def addToPool (sp : PoolSubpage) (head : ℕ) (pools : Pools) : Option (PoolSubpage × Pools) :=
  if sp.pool.isSome then none
  else some ({ sp with pool := some head },
    Function.update pools head (sp.ref :: pools head))

/-- `removeFromPool`. -/
def removeFromPool (sp : PoolSubpage) (pools : Pools) : Option (PoolSubpage × Pools) :=
  sp.pool.map fun head => ({ sp with pool := none },
    Function.update pools head ((pools head).erase sp.ref))

/-- The constructor, up to the link into the pool. -/
def construct (chunk pageShifts runOffset runSize elemSize : ℕ) : PoolSubpage :=
  let maxNumElems := runSize / elemSize
  { chunk, pageShifts, runOffset, runSize, elemSize
    bitmap := List.replicate (runSize >>> 10) 0
    maxNumElems
    bitmapLength := if maxNumElems &&& 63 ≠ 0 then maxNumElems >>> 6 + 1 else maxNumElems >>> 6
    nextAvail := some 0
    numAvail := maxNumElems
    dontRelease := true
    pool := none }

/-- The constructor. -/
def new (head chunk pageShifts runOffset runSize elemSize : ℕ) (pools : Pools) :
    Option (PoolSubpage × Pools) :=
  (construct chunk pageShifts runOffset runSize elemSize).addToPool head pools

/-- `findNextAvail0`. -/
def findNextAvail0 (sp : PoolSubpage) (i bits : ℕ) : Option ℕ :=
  match (List.range 64).find? fun j => (bits >>> j) &&& 1 = 0 with
  | some j =>
    let val := i <<< 6 ||| j
    if val < sp.maxNumElems then some val else none
  | none => none

/-- `findNextAvail`. -/
def findNextAvail (sp : PoolSubpage) : Option ℕ :=
  match (List.range sp.bitmapLength).find? fun i => sp.bitmap.getD i 0 ≠ 2 ^ 64 - 1 with
  | some i => sp.findNextAvail0 i (sp.bitmap.getD i 0)
  | none => none

/-- `getNextAvail`. -/
def getNextAvail (sp : PoolSubpage) : Option ℕ × PoolSubpage :=
  match sp.nextAvail with
  | some nextAvail => (some nextAvail, { sp with nextAvail := none })
  | none => (sp.findNextAvail, sp)

/-- `toHandle`. -/
def toHandle (sp : PoolSubpage) (bitmapIdx : ℕ) : ℕ :=
  sp.runOffset <<< 49 ||| (sp.runSize >>> sp.pageShifts) <<< 34 ||| 1 <<< 33 ||| 1 <<< 32 |||
    bitmapIdx

/-- The element whose index `allocate` has found is marked as used. -/
def setBit (sp : PoolSubpage) (bitmapIdx : ℕ) : Option PoolSubpage := do
  let word ← sp.bitmap[bitmapIdx >>> 6]?
  if (word >>> (bitmapIdx &&& 63)) &&& 1 = 0 then
    some { sp with
      bitmap := sp.bitmap.set (bitmapIdx >>> 6) (word ||| 1 <<< (bitmapIdx &&& 63))
      numAvail := sp.numAvail - 1 }
  else none

/-- `allocate`, whose result `none` stands for `-1`. -/
def allocate (sp : PoolSubpage) (pools : Pools) : Option (Option ℕ × PoolSubpage × Pools) :=
  if sp.numAvail = 0 ∨ !sp.dontRelease then some (none, sp, pools)
  else do
    let (idx, sp) := sp.getNextAvail
    let bitmapIdx ← idx
    let sp ← sp.setBit bitmapIdx
    let (sp, pools) ← if sp.numAvail = 0 then sp.removeFromPool pools else some (sp, pools)
    some (some (sp.toHandle bitmapIdx), sp, pools)

/-- The element that `free` is given back is the next one to be taken. -/
def clearBit (sp : PoolSubpage) (bitmapIdx : ℕ) : Option PoolSubpage := do
  let word ← sp.bitmap[bitmapIdx >>> 6]?
  if (word >>> (bitmapIdx &&& 63)) &&& 1 ≠ 0 then
    some { sp with
      bitmap := sp.bitmap.set (bitmapIdx >>> 6) (word ^^^ 1 <<< (bitmapIdx &&& 63))
      nextAvail := some bitmapIdx
      numAvail := sp.numAvail + 1 }
  else none

/-- Whether `prev == next`: alone in its pool, or in none. -/
def aloneInPool (sp : PoolSubpage) (pools : Pools) : Bool :=
  match sp.pool with
  | some head => (pools head).length = 1
  | none => true

/-- `free`, which returns whether the subpage is kept. -/
def free (sp : PoolSubpage) (head bitmapIdx : ℕ) (pools : Pools) :
    Option (Bool × PoolSubpage × Pools) :=
  if sp.elemSize = 0 then some (true, sp, pools)
  else do
    let sp ← sp.clearBit bitmapIdx
    if sp.numAvail = 1 then (sp.addToPool head pools).map fun p => (true, p)
    else if sp.numAvail ≠ sp.maxNumElems then some (true, sp, pools)
    else if sp.aloneInPool pools then some (true, sp, pools)
    else ({ sp with dontRelease := false }.removeFromPool pools).map fun p => (false, p)

end PoolSubpage

/-- The bit of a bitmap of 64-bit words. -/
def bitAt (bitmap : List ℕ) (i : ℕ) : Bool := (bitmap.getD (i >>> 6) 0).testBit (i &&& 63)

theorem shiftRight_six (i : ℕ) : i >>> 6 = i / 64 := Nat.shiftRight_eq_div_pow i 6

theorem and_63 (i : ℕ) : i &&& 63 = i % 64 := Nat.and_two_pow_sub_one_eq_mod i 6

/-- The tests of single bits in the source. -/
theorem shiftRight_and_one (word r : ℕ) : (word >>> r) &&& 1 = (word.testBit r).toNat := by
  rw [Nat.testBit, Nat.and_comm 1, Nat.and_one_is_mod]
  rcases Nat.mod_two_eq_zero_or_one (word >>> r) with h | h <;> simp [h]

/-- Changing one word changes the bits of that word. -/
theorem bitAt_set {bitmap : List ℕ} {i word : ℕ} (hi : i >>> 6 < bitmap.length) (j : ℕ) :
    bitAt (bitmap.set (i >>> 6) word) j =
      if j >>> 6 = i >>> 6 then word.testBit (j &&& 63) else bitAt bitmap j := by
  unfold bitAt
  split
  · next h => rw [h, List.getD_eq_getElem _ _ (by simpa using hi), List.getElem_set_self]
  · next h => rw [List.getD_eq_getElem?_getD, List.getElem?_set_ne (Ne.symm h),
      ← List.getD_eq_getElem?_getD]

/-- Two indices with one word and one bit are equal. -/
theorem eq_of_word_of_bit {i j : ℕ} (hword : j >>> 6 = i >>> 6) :
    j &&& 63 = i &&& 63 ↔ j = i := by
  rw [shiftRight_six, shiftRight_six] at hword
  rw [and_63, and_63]
  omega

/-- Setting a bit. -/
theorem bitAt_set_or {bitmap : List ℕ} {i word : ℕ} (hword : bitmap[i >>> 6]? = some word)
    (j : ℕ) : bitAt (bitmap.set (i >>> 6) (word ||| 1 <<< (i &&& 63))) j =
      (bitAt bitmap j || (j = i : Bool)) := by
  obtain ⟨hi, hget⟩ := List.getElem?_eq_some_iff.mp hword
  rw [bitAt_set hi]
  split
  · next h =>
    have hbit : (i &&& 63 = j &&& 63) ↔ j = i := by rw [eq_comm, eq_of_word_of_bit h]
    rw [Nat.testBit_or, Nat.shiftLeft_eq, one_mul, Nat.testBit_two_pow, bitAt, h,
      List.getD_eq_getElem _ _ hi, hget]
    simp only [hbit]
  · next h =>
    have hne : j ≠ i := fun heq => h (heq ▸ rfl)
    rw [decide_eq_false hne, Bool.or_false]

/-- Flipping a bit that is set. -/
theorem bitAt_set_xor {bitmap : List ℕ} {i word : ℕ} (hword : bitmap[i >>> 6]? = some word)
    (hset : bitAt bitmap i = true) (j : ℕ) :
    bitAt (bitmap.set (i >>> 6) (word ^^^ 1 <<< (i &&& 63))) j =
      (bitAt bitmap j && !(j = i : Bool)) := by
  obtain ⟨hi, hget⟩ := List.getElem?_eq_some_iff.mp hword
  rw [bitAt_set hi]
  split
  · next h =>
    have hbit : (i &&& 63 = j &&& 63) ↔ j = i := by rw [eq_comm, eq_of_word_of_bit h]
    have hj : bitAt bitmap j = word.testBit (j &&& 63) := by
      rw [bitAt, h, List.getD_eq_getElem _ _ hi, hget]
    rw [Nat.testBit_xor, Nat.shiftLeft_eq, one_mul, Nat.testBit_two_pow, ← hj]
    simp only [hbit]
    by_cases heq : j = i
    · rw [heq, hset]
      simp
    · simp [heq]
  · next h =>
    have hne : j ≠ i := fun heq => h (heq ▸ rfl)
    rw [decide_eq_false hne, Bool.not_false, Bool.and_true]

namespace PoolSubpage

/-- Whether an element is in use. -/
def isSet (sp : PoolSubpage) (i : ℕ) : Bool := bitAt sp.bitmap i

/-- The number of elements that are not in use. -/
def numClear (sp : PoolSubpage) : ℕ :=
  ((Finset.range sp.maxNumElems).filter fun i => sp.isSet i = false).card

/-- What holds of the bitmap of a subpage and its counts. -/
structure Core (sp : PoolSubpage) : Prop where
  elemSize_pos : 0 < sp.elemSize
  fits : sp.maxNumElems * sp.elemSize ≤ sp.runSize
  words : ∀ word ∈ sp.bitmap, word < 2 ^ 64
  covered : sp.bitmapLength ≤ sp.bitmap.length
  bitmapLength_eq : sp.bitmapLength = (sp.maxNumElems + 63) / 64
  next : ∀ i, sp.nextAvail = some i → i < sp.maxNumElems ∧ sp.isSet i = false
  numAvail_eq : sp.numAvail = sp.numClear
  beyond : ∀ i, sp.isSet i = true → i < sp.maxNumElems

/-- What holds of a subpage between calls: it is linked in a pool while it has a free
element. -/
structure Inv (sp : PoolSubpage) : Prop extends Core sp where
  kept : sp.dontRelease = true
  linked : sp.pool.isSome = true ↔ 0 < sp.numAvail

/-- The fields that no operation on a linked subpage changes. -/
structure SameRun (sp sp' : PoolSubpage) : Prop where
  chunk : sp'.chunk = sp.chunk
  pageShifts : sp'.pageShifts = sp.pageShifts
  runOffset : sp'.runOffset = sp.runOffset
  runSize : sp'.runSize = sp.runSize
  elemSize : sp'.elemSize = sp.elemSize
  maxNumElems : sp'.maxNumElems = sp.maxNumElems

theorem SameRun.ref {sp sp' : PoolSubpage} (h : SameRun sp sp') : sp'.ref = sp.ref := by
  rw [PoolSubpage.ref, PoolSubpage.ref, h.chunk, h.runOffset]

theorem SameRun.toHandle {sp sp' : PoolSubpage} (h : SameRun sp sp') (i : ℕ) :
    sp'.toHandle i = sp.toHandle i := by
  rw [PoolSubpage.toHandle, PoolSubpage.toHandle, h.runOffset, h.runSize, h.pageShifts]

section Handle

variable {sp : PoolSubpage} {pages i : ℕ} (hpages : sp.runSize >>> sp.pageShifts = pages)
  (hlt : pages < 2 ^ 15) (hi : i < 2 ^ 32)
include hpages hlt hi

/-- The handle of an element is the sum of its fields at their places. -/
theorem toHandle_eq :
    sp.toHandle i = sp.runOffset * 2 ^ 49 + pages * 2 ^ 34 + 2 ^ 33 + 2 ^ 32 + i := by
  have hidx : 1 <<< 32 + i < 2 ^ 33 := by rw [Nat.shiftLeft_eq]; omega
  have hused : 1 <<< 33 + (1 <<< 32 + i) < 2 ^ 34 := by simp only [Nat.shiftLeft_eq]; omega
  have hrun : pages <<< 34 + (1 <<< 33 + (1 <<< 32 + i)) < 2 ^ 49 := by
    simp only [Nat.shiftLeft_eq]
    omega
  rw [toHandle, hpages, Nat.lor_assoc, Nat.lor_assoc, Nat.lor_assoc,
    ← Nat.shiftLeft_add_eq_or_of_lt hi, ← Nat.shiftLeft_add_eq_or_of_lt hidx,
    ← Nat.shiftLeft_add_eq_or_of_lt hused, ← Nat.shiftLeft_add_eq_or_of_lt hrun]
  simp only [Nat.shiftLeft_eq]
  omega

theorem calculateRunOffset_toHandle :
    PoolChunk.calculateRunOffset (sp.toHandle i) = sp.runOffset := by
  rw [toHandle_eq hpages hlt hi, PoolChunk.calculateRunOffset, Nat.shiftRight_eq_div_pow]
  omega

theorem calculateRunPages_toHandle : PoolChunk.calculateRunPages (sp.toHandle i) = pages := by
  rw [toHandle_eq hpages hlt hi, PoolChunk.calculateRunPages_eq]
  omega

theorem isSubpage_toHandle : PoolChunk.isSubpage (sp.toHandle i) = true := by
  rw [toHandle_eq hpages hlt hi, PoolChunk.isSubpage, Nat.and_one_is_mod,
    Nat.shiftRight_eq_div_pow, decide_eq_true_eq]
  omega

theorem calculateBitmapIdx_toHandle : PoolChunk.calculateBitmapIdx (sp.toHandle i) = i := by
  rw [toHandle_eq hpages hlt hi, PoolChunk.calculateBitmapIdx]
  omega

end Handle

/-- How an operation on a subpage changes the pools: not at all, or by the link of
the subpage. -/
inductive Relink (sp sp' : PoolSubpage) (pools : Pools) : Pools → Prop
  | same : sp'.pool = sp.pool → Relink sp sp' pools pools
  | remove {head : ℕ} : sp.pool = some head → sp'.pool = none →
      Relink sp sp' pools (Function.update pools head ((pools head).erase sp.ref))
  | add {head : ℕ} : sp.pool = none → sp'.pool = some head →
      Relink sp sp' pools (Function.update pools head (sp.ref :: pools head))

variable {sp : PoolSubpage} {pools : Pools}

/-- A subpage with a free element has a clear bit. -/
theorem Inv.exists_clear (h : sp.Inv) (havail : 0 < sp.numAvail) :
    ∃ i < sp.maxNumElems, sp.isSet i = false := by
  rw [h.numAvail_eq, numClear, Finset.card_pos] at havail
  obtain ⟨i, hi⟩ := havail
  rw [Finset.mem_filter, Finset.mem_range] at hi
  exact ⟨i, hi.1, hi.2⟩

/-- A word with a clear bit is not all ones. -/
theorem ne_full_of_clear {word r : ℕ} (hr : r < 64) (hclear : word.testBit r = false) :
    word ≠ 2 ^ 64 - 1 := by
  rintro rfl
  rw [Nat.testBit_two_pow_sub_one] at hclear
  simp [hr] at hclear

/-- A word that is not all ones has a clear bit. -/
theorem exists_clear_of_ne_full {word : ℕ} (hword : word < 2 ^ 64) (hne : word ≠ 2 ^ 64 - 1) :
    ∃ r < 64, word.testBit r = false := by
  by_contra hall
  push Not at hall
  apply hne
  apply Nat.eq_of_testBit_eq
  intro r
  rw [Nat.testBit_two_pow_sub_one]
  rcases Nat.lt_or_ge r 64 with hr | hr
  · have hbit := hall r hr
    rw [ne_eq, Bool.not_eq_false] at hbit
    simp [hr, hbit]
  · have hbit := Nat.testBit_lt_two_pow (hword.trans_le (Nat.pow_le_pow_right (by decide) hr))
    rw [hbit, decide_eq_false (by omega)]

/-- A search over a range that can succeed finds the least index. -/
theorem find?_range_of_mem {n i : ℕ} {p : ℕ → Bool} (hi : i < n) (hp : p i = true) :
    ∃ j ≤ i, p j = true ∧ (List.range n).find? p = some j := by
  rcases hfind : (List.range n).find? p with _ | j
  · rw [List.find?_range_eq_none] at hfind
    have hnot := hfind i hi
    simp [hp] at hnot
  · obtain ⟨hj, _, hfirst⟩ := List.find?_range_eq_some.mp hfind
    refine ⟨j, ?_, hj, rfl⟩
    by_contra hlt
    have hnot := hfirst i (by omega)
    simp [hp] at hnot

/-- The search over the bitmap finds a clear bit of an element whenever there is one. -/
theorem Inv.findNextAvail_eq (h : sp.Inv) (havail : 0 < sp.numAvail) :
    ∃ i < sp.maxNumElems, sp.isSet i = false ∧ sp.findNextAvail = some i := by
  obtain ⟨c, hc, hclear⟩ := h.exists_clear havail
  have hword : c >>> 6 < sp.bitmapLength := by
    rw [h.bitmapLength_eq, shiftRight_six]
    omega
  have hbit : c &&& 63 < 64 := by rw [and_63]; omega
  obtain ⟨q, hqle, hqne, hq⟩ := find?_range_of_mem hword
    (p := fun i => sp.bitmap.getD i 0 ≠ 2 ^ 64 - 1)
    (decide_eq_true (ne_full_of_clear hbit hclear))
  have hqlen : q < sp.bitmap.length := by
    have hcovered := h.covered
    omega
  have hqlt : sp.bitmap.getD q 0 < 2 ^ 64 := by
    rw [List.getD_eq_getElem _ _ hqlen]
    exact h.words _ (List.getElem_mem hqlen)
  -- The least clear bit of that word is not after the least free element.
  have hleast : ∃ r < 64, (sp.bitmap.getD q 0).testBit r = false ∧ 64 * q + r ≤ c := by
    rcases hqle.eq_or_lt with heq | hlt
    · refine ⟨c &&& 63, hbit, by rw [heq]; exact hclear, ?_⟩
      rw [heq, shiftRight_six, and_63]
      omega
    · obtain ⟨r, hr, hrclear⟩ := exists_clear_of_ne_full hqlt (of_decide_eq_true hqne)
      rw [shiftRight_six] at hlt
      exact ⟨r, hr, hrclear, by omega⟩
  obtain ⟨r, hr, hrclear, hrc⟩ := hleast
  obtain ⟨j, hjr, hj, hfind⟩ := find?_range_of_mem hr
    (p := fun j => (sp.bitmap.getD q 0 >>> j) &&& 1 = 0)
    (decide_eq_true (by rw [shiftRight_and_one, hrclear]; rfl))
  have hjclear : (sp.bitmap.getD q 0).testBit j = false := by
    have hzero := of_decide_eq_true hj
    rw [shiftRight_and_one] at hzero
    rwa [Bool.toNat_eq_zero] at hzero
  have hval : q <<< 6 ||| j = 64 * q + j := by
    rw [← Nat.shiftLeft_add_eq_or_of_lt (show j < 2 ^ 6 by omega), Nat.shiftLeft_eq]
    omega
  refine ⟨64 * q + j, by omega, ?_, ?_⟩
  · rw [isSet, bitAt, shiftRight_six, and_63, show (64 * q + j) / 64 = q by omega,
      show (64 * q + j) % 64 = j by omega]
    exact hjclear
  · rw [findNextAvail, hq]
    dsimp only
    rw [findNextAvail0, hfind]
    dsimp only
    rw [hval, if_pos (by omega)]

/-- The next free element, whenever there is one. -/
theorem Inv.getNextAvail_eq (h : sp.Inv) (havail : 0 < sp.numAvail) :
    ∃ i < sp.maxNumElems, sp.isSet i = false ∧
      sp.getNextAvail = (some i, { sp with nextAvail := none }) := by
  rcases hnext : sp.nextAvail with _ | i
  · obtain ⟨i, hi, hclear, hfind⟩ := h.findNextAvail_eq havail
    refine ⟨i, hi, hclear, ?_⟩
    rw [getNextAvail, hnext]
    dsimp only
    rw [hfind, ← hnext]
  · obtain ⟨hi, hclear⟩ := h.next i hnext
    refine ⟨i, hi, hclear, ?_⟩
    rw [getNextAvail, hnext]

/-- The word of an element is in the bitmap. -/
theorem Core.getElem?_word (h : sp.Core) {i : ℕ} (hi : i < sp.maxNumElems) :
    ∃ word, sp.bitmap[i >>> 6]? = some word ∧ word.testBit (i &&& 63) = sp.isSet i := by
  have hlen : i >>> 6 < sp.bitmap.length := by
    have hcovered := h.covered
    rw [h.bitmapLength_eq] at hcovered
    rw [shiftRight_six]
    omega
  refine ⟨sp.bitmap[i >>> 6], List.getElem?_eq_getElem hlen, ?_⟩
  rw [isSet, bitAt, List.getD_eq_getElem _ _ hlen]

/-- The words stay 64 bits wide when a bit of one of them changes. -/
theorem words_set {bitmap : List ℕ} (hwords : ∀ word ∈ bitmap, word < 2 ^ 64) {q word : ℕ}
    (hword : word < 2 ^ 64) : ∀ w ∈ bitmap.set q word, w < 2 ^ 64 := by
  intro w hw
  rcases List.mem_or_eq_of_mem_set hw with hmem | rfl
  · exact hwords w hmem
  · exact hword

/-- Taking an element leaves one clear bit less. -/
theorem numClear_of_or {sp' : PoolSubpage} {i : ℕ} (hmax : sp'.maxNumElems = sp.maxNumElems)
    (hi : i < sp.maxNumElems) (hclear : sp.isSet i = false)
    (hbits : ∀ j, sp'.isSet j = (sp.isSet j || (j = i : Bool))) :
    sp'.numClear + 1 = sp.numClear := by
  have herase : (Finset.range sp'.maxNumElems).filter (fun j => sp'.isSet j = false) =
      ((Finset.range sp.maxNumElems).filter fun j => sp.isSet j = false).erase i := by
    ext j
    simp only [Finset.mem_filter, Finset.mem_erase, hmax, hbits, Bool.or_eq_false_iff,
      decide_eq_false_iff_not]
    tauto
  have hmem : i ∈ (Finset.range sp.maxNumElems).filter fun j => sp.isSet j = false := by
    rw [Finset.mem_filter, Finset.mem_range]
    exact ⟨hi, hclear⟩
  rw [numClear, numClear, herase, Finset.card_erase_add_one hmem]

/-- Marking a free element as used. -/
theorem Core.setBit_eq (h : sp.Core) {i : ℕ} (hi : i < sp.maxNumElems)
    (hclear : sp.isSet i = false) (hnext : sp.nextAvail = none) :
    ∃ sp', sp.setBit i = some sp' ∧ sp'.Core ∧ SameRun sp sp' ∧ sp'.pool = sp.pool ∧
      sp'.dontRelease = sp.dontRelease ∧ sp'.numAvail + 1 = sp.numAvail ∧
      ∀ j, sp'.isSet j = (sp.isSet j || (j = i : Bool)) := by
  obtain ⟨word, hword, hbit⟩ := h.getElem?_word hi
  have hguard : (word >>> (i &&& 63)) &&& 1 = 0 := by
    rw [shiftRight_and_one, hbit, hclear]
    rfl
  have hor : word ||| 1 <<< (i &&& 63) < 2 ^ 64 := by
    refine Nat.or_lt_two_pow (h.words word (List.mem_of_getElem? hword)) ?_
    rw [Nat.shiftLeft_eq, one_mul, and_63]
    exact Nat.pow_lt_pow_right (by decide) (by omega)
  obtain ⟨sp', hsp'⟩ : ∃ sp' : PoolSubpage, sp' = { sp with
      bitmap := sp.bitmap.set (i >>> 6) (word ||| 1 <<< (i &&& 63))
      numAvail := sp.numAvail - 1 } := ⟨_, rfl⟩
  have hbits : ∀ j, sp'.isSet j = (sp.isSet j || (j = i : Bool)) := by
    intro j
    rw [hsp']
    exact bitAt_set_or hword j
  have hmax : sp'.maxNumElems = sp.maxNumElems := by rw [hsp']
  have hone := numClear_of_or hmax hi hclear hbits
  have hnum : sp'.numAvail + 1 = sp.numAvail := by
    have hold := h.numAvail_eq
    rw [hsp']
    dsimp only
    omega
  refine ⟨sp', ?_, ?_, ?_, by rw [hsp'], by rw [hsp'], hnum, hbits⟩
  · rw [setBit, hword, Option.bind_eq_bind, Option.bind_some, if_pos hguard, hsp']
  · have hold := h.numAvail_eq
    have hbeyond : ∀ j, sp'.isSet j = true → j < sp'.maxNumElems := by
      intro j hj
      rw [hbits, Bool.or_eq_true, decide_eq_true_eq] at hj
      rw [hsp']
      rcases hj with hset | rfl
      · exact h.beyond j hset
      · exact hi
    refine ⟨?_, ?_, ?_, ?_, ?_, ?_, by omega, hbeyond⟩ <;> rw [hsp']
    · exact h.elemSize_pos
    · exact h.fits
    · exact words_set h.words hor
    · simpa using h.covered
    · exact h.bitmapLength_eq
    · intro j hj
      dsimp only at hj
      rw [hnext] at hj
      cases hj
  · constructor <;> rw [hsp']

/-- What `allocate` does on a subpage with a free element: it takes one, and unlinks
the subpage with its last. -/
theorem Inv.allocate_eq (h : sp.Inv) (havail : 0 < sp.numAvail) (pools : Pools) :
    ∃ i sp' pools', i < sp.maxNumElems ∧ sp.isSet i = false ∧
      sp.allocate pools = some (some (sp.toHandle i), sp', pools') ∧ sp'.Inv ∧ SameRun sp sp' ∧
      (∀ j, sp'.isSet j = (sp.isSet j || (j = i : Bool))) ∧ Relink sp sp' pools pools' := by
  obtain ⟨i, hi, hclear, hnext⟩ := h.getNextAvail_eq havail
  obtain ⟨head, hhead⟩ := Option.isSome_iff_exists.mp (h.linked.mpr havail)
  have hcore : { sp with nextAvail := none }.Core :=
    { elemSize_pos := h.elemSize_pos, fits := h.fits, words := h.words, covered := h.covered
      bitmapLength_eq := h.bitmapLength_eq, next := by rintro j ⟨⟩
      numAvail_eq := h.numAvail_eq, beyond := h.beyond }
  obtain ⟨mid, hset, hmid, hsame, hpool, hkept, hnum, hbits⟩ := hcore.setBit_eq hi hclear rfl
  have hrun : SameRun sp mid :=
    ⟨hsame.chunk, hsame.pageShifts, hsame.runOffset, hsame.runSize, hsame.elemSize,
      hsame.maxNumElems⟩
  have hpool' : mid.pool = some head := hpool.trans hhead
  have hlive : ¬(sp.numAvail = 0 ∨ (!sp.dontRelease) = true) := by
    rw [h.kept]
    simp
    omega
  have hallocate : sp.allocate pools =
      (if mid.numAvail = 0 then mid.removeFromPool pools else some (mid, pools)).bind
        fun p => some (some (p.1.toHandle i), p.1, p.2) := by
    rw [allocate, if_neg hlive, hnext]
    dsimp only [Option.bind_eq_bind]
    rw [Option.bind_some, hset, Option.bind_some]
    split_ifs <;> rfl
  rcases Nat.eq_zero_or_pos mid.numAvail with hzero | hpos
  · refine ⟨i, { mid with pool := none }, _, hi, hclear, ?_, ?_, ?_, hbits, .remove hhead rfl⟩
    · rw [hallocate, if_pos hzero, removeFromPool, hpool', hrun.ref, ← hrun.toHandle]
      rfl
    · exact ⟨⟨hmid.elemSize_pos, hmid.fits, hmid.words, hmid.covered, hmid.bitmapLength_eq,
        hmid.next, hmid.numAvail_eq, hmid.beyond⟩, hkept.trans h.kept, by simp [hzero]⟩
    · exact ⟨hrun.chunk, hrun.pageShifts, hrun.runOffset, hrun.runSize, hrun.elemSize,
        hrun.maxNumElems⟩
  · refine ⟨i, mid, pools, hi, hclear, ?_, ?_, hrun, hbits, .same hpool⟩
    · rw [hallocate, if_neg (by omega), Option.bind_some, hrun.toHandle]
    · exact ⟨hmid, hkept.trans h.kept, by simp [hpool', hpos]⟩

/-- Giving an element back leaves one clear bit more. -/
theorem numClear_of_and {sp' : PoolSubpage} {i : ℕ} (hmax : sp'.maxNumElems = sp.maxNumElems)
    (hi : i < sp.maxNumElems) (hset : sp.isSet i = true)
    (hbits : ∀ j, sp'.isSet j = (sp.isSet j && !(j = i : Bool))) :
    sp'.numClear = sp.numClear + 1 := by
  refine (numClear_of_or (i := i)  hmax.symm (by omega) ?_ fun j => ?_).symm
  · rw [hbits]
    simp
  · rw [hbits]
    by_cases hj : j = i
    · rw [hj, hset]
      simp
    · simp [hj]

/-- Giving back an element in use. -/
theorem Core.clearBit_eq (h : sp.Core) {i : ℕ} (hset : sp.isSet i = true) :
    ∃ sp', sp.clearBit i = some sp' ∧ sp'.Core ∧ SameRun sp sp' ∧ sp'.pool = sp.pool ∧
      sp'.dontRelease = sp.dontRelease ∧ sp'.numAvail = sp.numAvail + 1 ∧
      ∀ j, sp'.isSet j = (sp.isSet j && !(j = i : Bool)) := by
  have hi := h.beyond i hset
  obtain ⟨word, hword, hbit⟩ := h.getElem?_word hi
  have hguard : (word >>> (i &&& 63)) &&& 1 ≠ 0 := by
    rw [shiftRight_and_one, hbit, hset]
    decide
  have hxor : word ^^^ 1 <<< (i &&& 63) < 2 ^ 64 := by
    refine Nat.xor_lt_two_pow (h.words word (List.mem_of_getElem? hword)) ?_
    rw [Nat.shiftLeft_eq, one_mul, and_63]
    exact Nat.pow_lt_pow_right (by decide) (by omega)
  obtain ⟨sp', hsp'⟩ : ∃ sp' : PoolSubpage, sp' = { sp with
      bitmap := sp.bitmap.set (i >>> 6) (word ^^^ 1 <<< (i &&& 63))
      nextAvail := some i
      numAvail := sp.numAvail + 1 } := ⟨_, rfl⟩
  have hbits : ∀ j, sp'.isSet j = (sp.isSet j && !(j = i : Bool)) := by
    intro j
    rw [hsp']
    exact bitAt_set_xor hword hset j
  have hmax : sp'.maxNumElems = sp.maxNumElems := by rw [hsp']
  have hone := numClear_of_and hmax hi hset hbits
  have hnum : sp'.numAvail = sp.numAvail + 1 := by rw [hsp']
  refine ⟨sp', ?_, ?_, ?_, by rw [hsp'], by rw [hsp'], hnum, hbits⟩
  · rw [clearBit, hword, Option.bind_eq_bind, Option.bind_some, if_pos hguard, hsp']
  · have hold := h.numAvail_eq
    have hbeyond : ∀ j, sp'.isSet j = true → j < sp'.maxNumElems := by
      intro j hj
      rw [hbits, Bool.and_eq_true] at hj
      rw [hsp']
      exact h.beyond j hj.1
    have hnext : ∀ j, sp'.nextAvail = some j → j < sp'.maxNumElems ∧ sp'.isSet j = false := by
      intro j hj
      rw [hbits]
      rw [hsp'] at hj ⊢
      cases hj
      exact ⟨hi, by simp⟩
    refine ⟨?_, ?_, ?_, ?_, ?_, hnext, by omega, hbeyond⟩ <;> rw [hsp']
    · exact h.elemSize_pos
    · exact h.fits
    · exact words_set h.words hxor
    · simpa using h.covered
    · exact h.bitmapLength_eq
  · constructor <;> rw [hsp']

/-- A subpage all of whose elements are free has no bit set. -/
theorem Core.all_clear (h : sp.Core) (hall : sp.numAvail = sp.maxNumElems) (j : ℕ) :
    sp.isSet j = false := by
  have hcount : ((Finset.range sp.maxNumElems).filter fun i => sp.isSet i = false).card =
      (Finset.range sp.maxNumElems).card := by
    have hclear := h.numAvail_eq
    rw [hall] at hclear
    rw [Finset.card_range]
    exact hclear.symm
  by_contra hj
  rw [Bool.not_eq_false] at hj
  have hmem := Finset.mem_range.mpr (h.beyond j hj)
  have hclear := Finset.card_filter_eq_iff.mp hcount j hmem
  rw [hj] at hclear
  cases hclear

/-- What `free` does with an element in use: it gives the element back, links the
subpage again if it was full, and releases it when it is free and not alone. -/
theorem Inv.free_eq (h : sp.Inv) {i : ℕ} (hset : sp.isSet i = true) (head : ℕ) (pools : Pools) :
    ∃ kept sp' pools', sp.free head i pools = some (kept, sp', pools') ∧ SameRun sp sp' ∧
      (∀ j, sp'.isSet j = (sp.isSet j && !(j = i : Bool))) ∧ Relink sp sp' pools pools' ∧
      (kept = true → sp'.Inv ∧ (sp'.pool = sp.pool ∨ sp'.pool = some head)) ∧
      (kept = false → sp'.pool = none ∧ sp'.dontRelease = false ∧ ∀ j, sp'.isSet j = false) := by
  obtain ⟨mid, hclear, hmid, hrun, hpool, hkept, hnum, hbits⟩ := h.toCore.clearBit_eq hset
  have hfree : sp.free head i pools =
      if mid.numAvail = 1 then (mid.addToPool head pools).map fun p => (true, p)
      else if mid.numAvail ≠ mid.maxNumElems then some (true, mid, pools)
      else if mid.aloneInPool pools then some (true, mid, pools)
      else ({ mid with dontRelease := false }.removeFromPool pools).map fun p => (false, p) := by
    rw [free, if_neg h.elemSize_pos.ne', hclear]
    rfl
  have hrelink : ∀ (link : Option ℕ) (keep : Bool),
      SameRun sp { mid with pool := link, dontRelease := keep } := fun link keep =>
    ⟨hrun.chunk, hrun.pageShifts, hrun.runOffset, hrun.runSize, hrun.elemSize, hrun.maxNumElems⟩
  rcases Nat.eq_zero_or_pos sp.numAvail with hfull | havail
  · have hnone : sp.pool = none := by
      rw [← Option.not_isSome_iff_eq_none, h.linked]
      omega
    have hadd : mid.addToPool head pools =
        some ({ mid with pool := some head }, Function.update pools head (sp.ref :: pools head)) := by
      rw [addToPool, hpool, hnone, hrun.ref]
      rfl
    refine ⟨true, { mid with pool := some head }, _, ?_, hrelink _ _, hbits, .add hnone rfl, ?_, ?_⟩
    · rw [hfree, if_pos (by omega), hadd]
      rfl
    · intro _
      refine ⟨⟨⟨hmid.elemSize_pos, hmid.fits, hmid.words, hmid.covered, hmid.bitmapLength_eq,
        hmid.next, hmid.numAvail_eq, hmid.beyond⟩, hkept.trans h.kept, ?_⟩, Or.inr rfl⟩
      simp
      omega
    · rintro ⟨⟩
  · obtain ⟨hd, hhd⟩ := Option.isSome_iff_exists.mp (h.linked.mpr havail)
    have hinv : mid.Inv := ⟨hmid, hkept.trans h.kept, by rw [hpool, hhd]; simp; omega⟩
    have hstay : ∀ {r}, r = some (true, mid, pools) → sp.free head i pools = r →
        ∃ kept sp' pools', sp.free head i pools = some (kept, sp', pools') ∧ SameRun sp sp' ∧
          (∀ j, sp'.isSet j = (sp.isSet j && !(j = i : Bool))) ∧ Relink sp sp' pools pools' ∧
          (kept = true → sp'.Inv ∧ (sp'.pool = sp.pool ∨ sp'.pool = some head)) ∧
          (kept = false → sp'.pool = none ∧ sp'.dontRelease = false ∧
            ∀ j, sp'.isSet j = false) := by
      rintro r rfl hr
      refine ⟨true, mid, pools, hr, hrun, hbits, .same hpool, fun _ => ⟨hinv, Or.inl hpool⟩, ?_⟩
      rintro ⟨⟩
    rw [if_neg (by omega)] at hfree
    by_cases hpart : mid.numAvail ≠ mid.maxNumElems
    · exact hstay rfl (by rw [hfree, if_pos hpart])
    · rw [if_neg hpart] at hfree
      by_cases halone : mid.aloneInPool pools = true
      · exact hstay rfl (by rw [hfree, if_pos halone])
      · rw [if_neg halone] at hfree
        refine ⟨false, { mid with pool := none, dontRelease := false }, _, ?_, hrelink _ _, hbits,
          .remove hhd rfl, by rintro ⟨⟩, fun _ => ⟨rfl, rfl, fun j => ?_⟩⟩
        · rw [hfree, removeFromPool]
          dsimp only
          rw [hpool, hhd]
          simp only [Option.map_some, ref, hrun.chunk, hrun.runOffset]
        · -- All elements are clear, since as many are as there are.
          exact hmid.all_clear (not_not.mp hpart) j

/-- What the constructor yields, for elements of at least sixteen bytes in a run of
whole units of 1024 bytes. -/
theorem construct_core {chunk pageShifts runOffset runSize elemSize : ℕ} (helem : 16 ≤ elemSize)
    (hfit : elemSize ≤ runSize) (hrun : 1024 ∣ runSize) :
    (construct chunk pageShifts runOffset runSize elemSize).Core ∧
      0 < (construct chunk pageShifts runOffset runSize elemSize).numAvail ∧
      ∀ j, (construct chunk pageShifts runOffset runSize elemSize).isSet j = false := by
  have hclear : ∀ j, (construct chunk pageShifts runOffset runSize elemSize).isSet j = false := by
    intro j
    have hword : (List.replicate (runSize >>> 10) 0).getD (j >>> 6) 0 = 0 := by
      rw [List.getD_eq_getElem?_getD, List.getElem?_replicate]
      split <;> rfl
    rw [isSet, construct, bitAt, hword]
    exact Nat.zero_testBit _
  have hpos : 0 < runSize / elemSize := Nat.div_pos hfit (by omega)
  refine ⟨⟨?_, ?_, ?_, ?_, ?_, ?_, ?_, ?_⟩, hpos, hclear⟩
  · exact Nat.lt_of_lt_of_le (by decide) helem
  · exact Nat.div_mul_le_self runSize elemSize
  · intro word hword
    rw [construct, List.mem_replicate] at hword
    rw [hword.2]
    decide
  · have hmax : runSize / elemSize ≤ runSize / 16 := Nat.div_le_div_left helem (by decide)
    obtain ⟨units, rfl⟩ := hrun
    simp only [construct, List.length_replicate, and_63, Nat.shiftRight_eq_div_pow]
    split_ifs <;> omega
  · simp only [construct, shiftRight_six, and_63]
    split_ifs <;> omega
  · intro i hi
    simp only [construct, Option.some.injEq] at hi
    exact ⟨hi ▸ hpos, hclear i⟩
  · rw [numClear, Finset.filter_true_of_mem fun j _ => hclear j, Finset.card_range]
    rfl
  · intro i hi
    rw [hclear] at hi
    cases hi

end PoolSubpage

end DuoDuo.Buffer
