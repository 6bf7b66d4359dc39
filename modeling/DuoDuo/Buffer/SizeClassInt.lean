import DuoDuo.Buffer.SizeClass
import DuoDuo.Library.Tables

/-!
# Size classes in 32 bits

`SizeClass` as the machine computes it: every `int` is a word of 32 bits that wraps
around, every `unsigned short` a word of 16 bits, and the tables are arrays of the length
that the constructor gives them. An access outside a table, the use of an element that was
never assigned and the failure of an assertion all yield no result.
-/

namespace DuoDuo.Buffer

open Library

/-- An `int`. -/
abbrev Int32Word := BitVec 32

/-- A `long`. -/
abbrev Int64Word := BitVec 64

namespace SizeClassTables

/-- `LOG2_QUANTUM`. -/
def LOG2_QUANTUM : Int32Word := 4

/-- `LOG2_SIZE_CLASS_GROUP`. -/
def LOG2_SIZE_CLASS_GROUP : Int32Word := 2

/-- `LOG2_MAX_SEARCH_SIZE`. -/
def LOG2_MAX_SEARCH_SIZE : Int32Word := 12

/-- `MathUtils::log2`. -/
def log2 (val : Int32Word) : Int32Word :=
  31 - BitVec.ofNat 32 (MathUtils.numberOfLeadingZeros val.toNat)

/-- One row of `m_sizeClasses`. -/
structure Row where
  index : BitVec 16
  log2Group : BitVec 16
  log2Delta : BitVec 16
  nDelta : BitVec 16
  isMultiPageSize : BitVec 16
  isSubPage : BitVec 16
  log2DeltaSearch : BitVec 16
  deriving DecidableEq

/-- The size that `sizeClass` computes. -/
def sizeOf (log2Group log2Delta nDelta : Int32Word) : Int32Word :=
  (1#32 <<< log2Group) + (1#32 <<< log2Delta) * nDelta

/-- The row that `sizeClass` computes. -/
def row (pageShifts index log2Group log2Delta nDelta : Int32Word) : Row :=
  let size := sizeOf log2Group log2Delta nDelta
  let isMultiPageSize : BitVec 16 :=
    if pageShifts.sle log2Delta then 1
    else
      let pageSize : Int32Word := 1#32 <<< pageShifts
      if size &&& (pageSize - 1) = 0 then 1 else 0
  let log2nDelta : Int32Word := if nDelta = 0 then 0 else log2 nDelta
  let mark : BitVec 8 := if (1#32 <<< log2nDelta).slt nDelta then 1 else 0
  let log2size := if log2nDelta + log2Delta = log2Group then log2Group + 1 else log2Group
  let mark : BitVec 8 := if log2size = log2Group then 1 else mark
  let isSubPage : BitVec 16 :=
    if log2size.slt (pageShifts + LOG2_SIZE_CLASS_GROUP) then 1 else 0
  let log2searchDelta : Int32Word :=
    if log2size.slt LOG2_MAX_SEARCH_SIZE || (log2size = LOG2_MAX_SEARCH_SIZE && mark = 0) then
      log2Delta
    else 0
  { index := index.setWidth 16
    log2Group := log2Group.setWidth 16
    log2Delta := log2Delta.setWidth 16
    nDelta := nDelta.setWidth 16
    isMultiPageSize
    isSubPage
    log2DeltaSearch := log2searchDelta.setWidth 16 }

/-- The fields that `sizeClass` assigns. -/
structure Build where
  sizeClasses : Table Row
  nPSizes : Int32Word := 0
  nSubpages : Int32Word := 0
  smallMaxSizeIdx : Int32Word := 0
  searchMaxSize : Int32Word := 0

/-- `sizeClass`, without its result, the size. -/
def Build.sizeClass (b : Build) (pageShifts index log2Group log2Delta nDelta : Int32Word) :
    Option Build :=
  let r := row pageShifts index log2Group log2Delta nDelta
  (b.sizeClasses.write index.toNat r).map fun sizeClasses =>
    { sizeClasses
      nPSizes := if r.isMultiPageSize = 1 then b.nPSizes + 1 else b.nPSizes
      nSubpages := if r.isSubPage = 1 then b.nSubpages + 1 else b.nSubpages
      smallMaxSizeIdx := if r.isSubPage = 1 then index else b.smallMaxSizeIdx
      searchMaxSize :=
        if r.log2DeltaSearch ≠ 0 then sizeOf log2Group log2Delta nDelta else b.searchMaxSize }

/-- The variables of `sizeClasses`, with the fields. -/
structure Loop where
  build : Build
  normalMaxSize : Int32Word := -1
  index : Int32Word := 0
  size : Int32Word := 0
  log2Group : Int32Word := LOG2_QUANTUM
  log2Delta : Int32Word := LOG2_QUANTUM
  nDelta : Int32Word := 0

/-- `size = sizeClass(index++, log2Group, log2Delta, nDelta++)`. -/
def Loop.sizeClass (pageShifts : Int32Word) (s : Loop) : Option Loop :=
  (s.build.sizeClass pageShifts s.index s.log2Group s.log2Delta s.nDelta).map fun build =>
    { s with
      build
      index := s.index + 1
      size := sizeOf s.log2Group s.log2Delta s.nDelta
      nDelta := s.nDelta + 1 }

/-- `ndeltaLimit`. -/
def ndeltaLimit : Int32Word := 1#32 <<< LOG2_SIZE_CLASS_GROUP

/-- The loop for the sizes of one group. -/
def groupLoop (fuel : ℕ) (pageShifts chunkSize : Int32Word) : Loop → Option Loop :=
  whileLoop (fun s => s.nDelta.sle ndeltaLimit && s.size.slt chunkSize)
    (fun s => (s.sizeClass pageShifts).map fun s => { s with normalMaxSize := s.size }) fuel

/-- `sizeClasses`, with the fields after the constructor's `resize`. -/
def sizeClasses (fuel : ℕ) (pageShifts chunkSize : Int32Word) (build : Build) : Option Loop := do
  let s ← whileLoop (fun s => s.nDelta.slt ndeltaLimit) (Loop.sizeClass pageShifts) fuel { build }
  let s := { s with log2Group := s.log2Group + LOG2_SIZE_CLASS_GROUP }
  let s ← whileLoop (fun s => s.size.slt chunkSize)
    (fun s => (groupLoop fuel pageShifts chunkSize { s with nDelta := 1 }).map fun s =>
      { s with log2Delta := s.log2Delta + 1, log2Group := s.log2Group + 1 }) fuel s
  if s.normalMaxSize = chunkSize then some s else none

/-- The variables of `idx2SizeTab`, with the tables. -/
structure SizeTabs where
  i : Int32Word := 0
  pageIdx : Int32Word := 0
  sizeIdx2sizeTab : Table Int32Word
  pageIdx2sizeTab : Table Int32Word

/-- The body of the loop of `idx2SizeTab`. -/
def SizeTabs.fill (rows : Table Row) (s : SizeTabs) : Option SizeTabs := do
  let sizeClass ← rows.read s.i.toNat
  let size := sizeOf (sizeClass.log2Group.setWidth 32) (sizeClass.log2Delta.setWidth 32)
    (sizeClass.nDelta.setWidth 32)
  let sizeIdx2sizeTab ← s.sizeIdx2sizeTab.write s.i.toNat size
  if sizeClass.isMultiPageSize = 1 then
    let pageIdx2sizeTab ← s.pageIdx2sizeTab.write s.pageIdx.toNat size
    some { i := s.i + 1, pageIdx := s.pageIdx + 1, sizeIdx2sizeTab, pageIdx2sizeTab }
  else some { s with i := s.i + 1, sizeIdx2sizeTab }

/-- `idx2SizeTab`. -/
def idx2SizeTab (fuel : ℕ) (rows : Table Row) (nSizes : Int32Word) (s : SizeTabs) :
    Option SizeTabs :=
  whileLoop (fun s => s.i.slt nSizes) (SizeTabs.fill rows) fuel s

/-- The variables of `size2idxTab`, with the table. -/
structure IdxTab where
  idx : Int32Word := 0
  size : Int32Word := 0
  i : Int32Word := 0
  times : Int32Word := 0
  size2idxTab : Table Int32Word

/-- The body of the inner loop of `size2idxTab`. -/
def IdxTab.assign (s : IdxTab) : Option IdxTab :=
  (s.size2idxTab.write s.idx.toNat s.i).map fun size2idxTab =>
    { s with
      idx := s.idx + 1
      size := (s.idx + 1 + 1) <<< LOG2_QUANTUM
      times := s.times - 1
      size2idxTab }

/-- The body of the outer loop of `size2idxTab`. -/
def IdxTab.fill (fuel : ℕ) (rows : Table Row) (searchMaxSize : Int32Word) (s : IdxTab) :
    Option IdxTab := do
  let sizeClass ← rows.read s.i.toNat
  let log2delta : Int32Word := sizeClass.log2Delta.setWidth 32
  let times : Int32Word := 1#32 <<< (log2delta - LOG2_QUANTUM)
  let s ← whileLoop (fun s => s.size.sle searchMaxSize && s.times ≠ 0) IdxTab.assign fuel
    { s with times }
  some { s with i := s.i + 1 }

/-- `size2idxTab`. -/
def size2idxTab (fuel : ℕ) (rows : Table Row) (searchMaxSize : Int32Word) (s : IdxTab) :
    Option IdxTab :=
  whileLoop (fun s => s.size.sle searchMaxSize) (IdxTab.fill fuel rows searchMaxSize) fuel s

end SizeClassTables

open SizeClassTables in
/-- The size classes of an arena. -/
structure SizeClassInt where
  pageSize : Int32Word
  pageShifts : Int32Word
  chunkSize : Int32Word
  nSizes : Int32Word
  nSubpages : Int32Word
  nPSizes : Int32Word
  smallMaxSizeIdx : Int32Word
  searchMaxSize : Int32Word
  sizeClasses : Table Row
  sizeIdx2sizeTab : Table Int32Word
  pageIdx2sizeTab : Table Int32Word
  size2idxTab : Table Int32Word

namespace SizeClassInt

open SizeClassTables

/-- The constructor. -/
def new (fuel : ℕ) (pageSize pageShifts chunkSize : Int32Word) : Option SizeClassInt := do
  let group := log2 chunkSize + 1 - LOG2_QUANTUM
  let s ← SizeClassTables.sizeClasses fuel pageShifts chunkSize
    { sizeClasses := Table.new (group <<< LOG2_SIZE_CLASS_GROUP).toNat }
  let b := s.build
  let sizeTabs ← idx2SizeTab fuel b.sizeClasses s.index
    { sizeIdx2sizeTab := Table.new s.index.toNat, pageIdx2sizeTab := Table.new b.nPSizes.toNat }
  let idxTab ← SizeClassTables.size2idxTab fuel b.sizeClasses b.searchMaxSize
    { size2idxTab := Table.new (b.searchMaxSize.sshiftRight 4).toNat }
  some {
    pageSize, pageShifts, chunkSize
    nSizes := s.index
    nSubpages := b.nSubpages
    nPSizes := b.nPSizes
    smallMaxSizeIdx := b.smallMaxSizeIdx
    searchMaxSize := b.searchMaxSize
    sizeClasses := b.sizeClasses
    sizeIdx2sizeTab := sizeTabs.sizeIdx2sizeTab
    pageIdx2sizeTab := sizeTabs.pageIdx2sizeTab
    size2idxTab := idxTab.size2idxTab }

variable (c : SizeClassInt)

/-- `size2sizeIdx`. -/
def size2sizeIdx (size : Int32Word) : Option Int32Word :=
  if size = 0 then some 0
  else if c.chunkSize.slt size then some c.nSizes
  else if size.sle c.searchMaxSize then c.size2idxTab.read ((size - 1).sshiftRight 4).toNat
  else
    let x := log2 ((size <<< 1) - 1)
    let shift := if x.slt (LOG2_QUANTUM + LOG2_SIZE_CLASS_GROUP + 1) then 0
      else x - (LOG2_SIZE_CLASS_GROUP + LOG2_QUANTUM)
    let group := shift <<< LOG2_SIZE_CLASS_GROUP
    let log2delta := if x.slt (LOG2_SIZE_CLASS_GROUP + LOG2_QUANTUM + 1) then LOG2_QUANTUM
      else x - LOG2_SIZE_CLASS_GROUP - 1
    let deltaInverseMask : Int32Word := (-1#32) <<< log2delta
    let mod := ((size - 1) &&& deltaInverseMask).sshiftRight log2delta.toNat &&&
      ((1#32 <<< LOG2_SIZE_CLASS_GROUP) - 1)
    some (group + mod)

/-- `sizeIdx2size`. -/
def sizeIdx2size (sizeIdx : Int32Word) : Option Int32Word := c.sizeIdx2sizeTab.read sizeIdx.toNat

/-- `sizeIdx2sizeCompute`. -/
def sizeIdx2sizeCompute (sizeIdx : Int32Word) : Int32Word :=
  let group := sizeIdx.sshiftRight 2
  let mod := sizeIdx &&& ((1#32 <<< LOG2_SIZE_CLASS_GROUP) - 1)
  let groupSize : Int32Word :=
    if group = 0 then 0 else (1#32 <<< (LOG2_QUANTUM + LOG2_SIZE_CLASS_GROUP - 1)) <<< group
  let shift := if group = 0 then 1 else group
  let logDelta := shift + LOG2_QUANTUM - 1
  let modSize := (mod + 1) <<< logDelta
  groupSize + modSize

/-- `pageIdx2size`. -/
def pageIdx2size (pageIdx : Int32Word) : Option Int64Word :=
  (c.pageIdx2sizeTab.read pageIdx.toNat).map (BitVec.signExtend 64)

/-- `pageIdx2sizeCompute`. -/
def pageIdx2sizeCompute (pageIdx : Int32Word) : Int64Word :=
  let group := pageIdx.sshiftRight 2
  let mod := pageIdx &&& ((1#32 <<< LOG2_SIZE_CLASS_GROUP) - 1)
  let groupSize : Int64Word :=
    if group = 0 then 0 else (1#64 <<< (c.pageShifts + LOG2_SIZE_CLASS_GROUP - 1)) <<< group
  let shift := if group = 0 then 1 else group
  let log2Delta := shift + c.pageShifts - 1
  let modSize := (mod + 1) <<< log2Delta
  groupSize + modSize.signExtend 64

/-- `pages2pageIdxCompute`. -/
def pages2pageIdxCompute (pages : Int32Word) (floor : Bool) : Option Int32Word :=
  let pageSize := pages <<< c.pageShifts
  if c.chunkSize.slt pageSize then some c.nPSizes
  else
    let x := log2 ((pageSize <<< 1) - 1)
    let shift := if x.slt (LOG2_SIZE_CLASS_GROUP + c.pageShifts) then 0
      else x - (LOG2_SIZE_CLASS_GROUP + c.pageShifts)
    let group := shift <<< LOG2_SIZE_CLASS_GROUP
    let log2Delta := if x.slt (LOG2_SIZE_CLASS_GROUP + c.pageShifts + 1) then c.pageShifts
      else x - LOG2_SIZE_CLASS_GROUP - 1
    let deltaInverseMask : Int32Word := (-1#32) <<< log2Delta
    let mod := ((pageSize - 1) &&& deltaInverseMask).sshiftRight log2Delta.toNat &&&
      ((1#32 <<< LOG2_SIZE_CLASS_GROUP) - 1)
    let pageIdx := group + mod
    if floor then
      (c.pageIdx2sizeTab.read pageIdx.toNat).map fun size =>
        if (pages <<< c.pageShifts).slt size then pageIdx - 1 else pageIdx
    else some pageIdx

/-- `page2pageIdx`. -/
def page2pageIdx (pages : Int32Word) : Option Int32Word := c.pages2pageIdxCompute pages false

/-- `page2pageIdxFloor`. -/
def page2pageIdxFloor (pages : Int32Word) : Option Int32Word := c.pages2pageIdxCompute pages true

/-- `normalizeSizeCompute`. -/
def normalizeSizeCompute (size : Int32Word) : Int32Word :=
  let x := log2 ((size <<< 1) - 1)
  let log2Delta := if x.slt (LOG2_SIZE_CLASS_GROUP + LOG2_QUANTUM + 1) then LOG2_QUANTUM
    else x - LOG2_SIZE_CLASS_GROUP - 1
  let delta : Int32Word := 1#32 <<< log2Delta
  let delta_mask := delta - 1
  (size + delta_mask) &&& ~~~delta_mask

/-- `normalizeSize`. -/
def normalizeSize (size : Int32Word) : Option Int32Word :=
  if size = 0 then c.sizeIdx2sizeTab.read 0
  else if size.sle c.searchMaxSize then do
    let idx ← c.size2idxTab.read ((size - 1).sshiftRight 4).toNat
    let ret ← c.sizeIdx2sizeTab.read idx.toNat
    if ret = normalizeSizeCompute size then some ret else none
  else some (normalizeSizeCompute size)

end SizeClassInt

/-- `MAX_CHUNK_SIZE`. -/
def MAX_CHUNK_SIZE : Int32Word := 0x40000000

/-- The loop of `validateAndCalculateChunkSize`, for `maxOrder` doublings. -/
def chunkSizeLoop : ℕ → Int32Word → Option Int32Word
  | 0, chunkSize => some chunkSize
  | i + 1, chunkSize =>
    if (MAX_CHUNK_SIZE.sdiv 2).slt chunkSize then none else chunkSizeLoop i (chunkSize <<< 1)

/-- `validateAndCalculateChunkSize`, which throws if the chunk size is too large. -/
def validateAndCalculateChunkSize (pageSize : Int32Word) (maxOrder : ℕ) : Option Int32Word :=
  if maxOrder < 14 then chunkSizeLoop maxOrder pageSize else none

end DuoDuo.Buffer
