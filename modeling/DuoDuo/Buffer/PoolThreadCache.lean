import DuoDuo.Buffer.PoolArena

/-!
# The cache of a thread, and the arena on top of it

`PoolThreadCache` and `MemoryRegionCache` keep regions that were freed for later
requests of the same size. Then come the functions of the arena that look there
first: `allocate`, `free` and `reallocate`.
-/

namespace DuoDuo.Buffer

open PoolChunk

/-- `nextPowerofTwo` of a positive number. -/
def MathUtils.nextPowerofTwo (val : ℕ) : ℕ :=
  let val := val - 1
  let val := val ||| val >>> 1
  let val := val ||| val >>> 2
  let val := val ||| val >>> 4
  let val := val ||| val >>> 8
  let val := val ||| val >>> 16
  val + 1

/-- `SizeClassType`. -/
inductive SizeClassType
  | small | normal
  deriving DecidableEq, Repr

/-- An entry of a `MemoryRegionCache`. -/
structure Entry where
  grant : Grant
  buffer : Addr
  deriving DecidableEq, Repr

/-- `MemoryRegionCache`. -/
structure MemoryRegionCache where
  size : ℕ
  allocations : ℕ
  queue : List Entry

/-- `PoolThreadCache`, of which `caches` are `m_smallSubpageCaches` and
`m_normalCaches`. -/
structure PoolThreadCache where
  caches : SizeClassType → List MemoryRegionCache
  allocations : ℕ

/-- `DEFAULT_SMALL_CACHE_SIZE`. -/
def defaultSmallCacheSize : ℕ := 256

/-- `DEFAULT_NORMAL_CACHE_SIZE`. -/
def defaultNormalCacheSize : ℕ := 64

/-- `DEFAULT_MAX_CACHED_BUFFER_CAPACITY`. -/
def defaultMaxCachedBufferCapacity : ℕ := 32 * 1024

/-- `DEFAULT_CACHE_TRIM_INTERVAL`. -/
def defaultCacheTrimInterval : ℕ := 8192

/-- The constructor of a `MemoryRegionCache`. -/
def MemoryRegionCache.new (size : ℕ) : MemoryRegionCache :=
  ⟨MathUtils.nextPowerofTwo size, 0, []⟩

namespace PoolThreadCache

/-- `createSubpageCaches`. -/
def createSubpageCaches (sc : SizeClass) : List MemoryRegionCache :=
  List.replicate sc.nSubpages (.new defaultSmallCacheSize)

/-- `createNormalCaches`, for the indices up to the first size that is too large. -/
def createNormalCaches (sc : SizeClass) : List MemoryRegionCache :=
  ((List.range' sc.nSubpages (sc.nSizes - sc.nSubpages)).takeWhile fun i =>
    sc.sizeIdx2size i ≤ min sc.chunkSize defaultMaxCachedBufferCapacity).map
      fun _ => .new defaultNormalCacheSize

/-- The constructor. -/
def new (sc : SizeClass) : PoolThreadCache where
  caches
    | .small => createSubpageCaches sc
    | .normal => createNormalCaches sc
  allocations := 0

/-- `cacheForSmall` and `cacheForNormal`, as a position in the vector of the caches. -/
def cacheFor (sc : SizeClass) : SizeClassType → ℕ → Option ℕ
  | .small, sizeIdx => some sizeIdx
  | .normal, sizeIdx => if sizeIdx < sc.nSubpages then none else some (sizeIdx - sc.nSubpages)

/-- One of the caches changes. -/
def setCache (t : PoolThreadCache) (type : SizeClassType) (idx : ℕ) (m : MemoryRegionCache) :
    PoolThreadCache :=
  { t with caches := Function.update t.caches type ((t.caches type).set idx m) }

/-- The caches of one type change. -/
def setCaches (t : PoolThreadCache) (type : SizeClassType) (ms : List MemoryRegionCache) :
    PoolThreadCache :=
  { t with caches := Function.update t.caches type ms }

/-- The number of allocations changes. -/
def setAllocations (t : PoolThreadCache) (n : ℕ) : PoolThreadCache := { t with allocations := n }

/-- `add`, which is `false` when the size has no cache. -/
def add (sc : SizeClass) (t : PoolThreadCache) (type : SizeClassType) (entry : Entry) :
    Option PoolThreadCache := do
  let idx ← cacheFor sc type (sc.size2sizeIdx entry.grant.normCapacity)
  let m ← (t.caches type)[idx]?
  some (t.setCache type idx { m with queue := m.queue ++ [entry] })

end PoolThreadCache

namespace PoolArena

/-- The loop of `MemoryRegionCache::free`, which frees up to `toFreeNum` entries. -/
def freeEntries (sc : SizeClass) : ℕ → PoolArena → List Entry → Option (List Entry × PoolArena)
  | 0, a, queue => some (queue, a)
  | _ + 1, a, [] => some ([], a)
  | toFreeNum + 1, a, entry :: queue => do
    let a ← a.freeChunk sc entry.grant entry.buffer
    freeEntries sc toFreeNum a queue

/-- `MemoryRegionCache::trim`. -/
def trimRegionCache (sc : SizeClass) (a : PoolArena) (m : MemoryRegionCache) :
    Option (MemoryRegionCache × PoolArena) := do
  let (queue, a) ← freeEntries sc (m.size - m.allocations) a m.queue
  some ({ m with allocations := 0, queue }, a)

/-- `PoolThreadCache::trim` of a vector of caches. -/
def trimCaches (sc : SizeClass) : PoolArena → List MemoryRegionCache →
    Option (List MemoryRegionCache × PoolArena)
  | a, [] => some ([], a)
  | a, m :: ms => do
    let (m, a) ← trimRegionCache sc a m
    let (ms, a) ← trimCaches sc a ms
    some (m :: ms, a)

/-- `PoolThreadCache::trim`. -/
def trim (sc : SizeClass) (a : PoolArena) (t : PoolThreadCache) :
    Option (PoolThreadCache × PoolArena) := do
  let (small, a) ← trimCaches sc a (t.caches .small)
  let (normal, a) ← trimCaches sc a (t.caches .normal)
  some ((t.setCaches .small small).setCaches .normal normal, a)

/-- `MemoryRegionCache::initBuf` of the two types. -/
def initBufFrom (sc : SizeClass) (a : PoolArena) (type : SizeClassType) (entry : Entry)
    (reqCapacity : ℕ) : Option Region :=
  match type with
  | .small => a.store.initBufWithSubpage sc entry.grant.chunk (some entry.buffer)
      entry.grant.handle reqCapacity true
  | .normal => a.store.initBuf sc entry.grant.chunk (some entry.buffer) entry.grant.handle
      reqCapacity true

/-- `MemoryRegionCache::allocate`, whose result `none` stands for `false`. -/
def regionCacheAllocate (sc : SizeClass) (a : PoolArena) (type : SizeClassType)
    (m : MemoryRegionCache) (reqCapacity : ℕ) : Option (Option Region × MemoryRegionCache) :=
  match m.queue with
  | [] => some (none, m)
  | entry :: queue => do
    let region ← a.initBufFrom sc type entry reqCapacity
    some (some region, { m with queue, allocations := m.allocations + 1 })

/-- The count of the allocations in `PoolThreadCache::allocate`, which triggers a trim. -/
def countAllocation (sc : SizeClass) (a : PoolArena) (t : PoolThreadCache) :
    Option (PoolThreadCache × PoolArena) :=
  if defaultCacheTrimInterval ≤ t.allocations + 1 then a.trim sc (t.setAllocations 0)
  else some (t.setAllocations (t.allocations + 1), a)

/-- `PoolThreadCache::allocate`, of a size that may have no cache. -/
def cacheAllocate (sc : SizeClass) (a : PoolArena) (t : PoolThreadCache) (type : SizeClassType)
    (reqCapacity sizeIdx : ℕ) : Option (Option Region × PoolThreadCache × PoolArena) :=
  match (PoolThreadCache.cacheFor sc type sizeIdx).bind fun idx =>
      ((t.caches type)[idx]?).map (idx, ·) with
  | none => some (none, t, a)
  | some (idx, m) => do
    let (region, m) ← a.regionCacheAllocate sc type m reqCapacity
    let (t, a) ← a.countAllocation sc (t.setCache type idx m)
    some (region, t, a)

/-- The part of `tcacheAllocateSmall` that takes an element of a pool. -/
def pooledAllocate (sc : SizeClass) (a : PoolArena) (reqCapacity sizeIdx : ℕ) :
    Option (Option Region × PoolArena) := do
  let (element, store) ← a.store.allocatePooled sc sizeIdx
  match element with
  | none => some (none, a.setStore store)
  | some (id, handle) =>
    let region ← store.initBufWithSubpage sc id none handle reqCapacity true
    some (some region, a.setStore store)

/-- `tcacheAllocateSmall`. -/
def tcacheAllocateSmall (sc : SizeClass) (a : PoolArena) (t : PoolThreadCache)
    (reqCapacity sizeIdx : ℕ) : Option (Region × PoolThreadCache × PoolArena) := do
  let (region, t, a) ← a.cacheAllocate sc t .small reqCapacity sizeIdx
  match region with
  | some region => some (region, t, a)
  | none =>
    let (region, a) ← a.pooledAllocate sc reqCapacity sizeIdx
    match region with
    | some region => some (region, t, a)
    | none =>
      let (region, a) ← a.allocateNormal sc reqCapacity sizeIdx true
      some (region, t, a)

/-- `tcacheAllocateNormal`. -/
def tcacheAllocateNormal (sc : SizeClass) (a : PoolArena) (t : PoolThreadCache)
    (reqCapacity sizeIdx : ℕ) : Option (Region × PoolThreadCache × PoolArena) := do
  let (region, t, a) ← a.cacheAllocate sc t .normal reqCapacity sizeIdx
  match region with
  | some region => some (region, t, a)
  | none =>
    let (region, a) ← a.allocateNormal sc reqCapacity sizeIdx true
    some (region, t, a)

/-- `allocate`. -/
def allocate (sc : SizeClass) (a : PoolArena) (t : PoolThreadCache) (reqCapacity : ℕ) :
    Option (Region × PoolThreadCache × PoolArena) :=
  let sizeIdx := sc.size2sizeIdx reqCapacity
  if sizeIdx ≤ sc.smallMaxSizeIdx then a.tcacheAllocateSmall sc t reqCapacity sizeIdx
  else if sizeIdx < sc.nSizes then a.tcacheAllocateNormal sc t reqCapacity sizeIdx
  else do
    let (region, a) ← a.allocateHuge (sc.normalizeSize reqCapacity)
    some (region, t, a)

/-- `getSizeClassType`. -/
def getSizeClassType (handle : ℕ) : SizeClassType :=
  if isSubpage handle then .small else .normal

/-- `free`. -/
def free (sc : SizeClass) (a : PoolArena) (t : PoolThreadCache) (chunk : ChunkPtr) (buffer : Addr)
    (handle normCapacity : ℕ) (cache : Bool) : Option (PoolThreadCache × PoolArena) :=
  match chunk with
  | .unpooled id => some (t, a.destroyUnpoolChunk id)
  | .pooled id =>
    let entry : Entry := ⟨⟨id, handle, normCapacity⟩, buffer⟩
    match if cache then t.add sc (getSizeClassType handle) entry else none with
    | some t => some (t, a)
    | none => do
      let a ← a.freeChunk sc entry.grant buffer
      some (t, a)

end PoolArena

/-- What the arrays of the chunks hold. -/
abbrev Memory := Addr → UInt8

/-- A copy of `length` bytes. -/
def Memory.copy (mem : Memory) (src dst : Addr) (length : ℕ) : Memory := fun a =>
  if a.1 = dst.1 ∧ dst.2 ≤ a.2 ∧ a.2 < dst.2 + length then mem (src.1, src.2 + (a.2 - dst.2))
  else mem a

/-- Everything that one thread allocates and frees with. -/
structure Heap where
  arena : PoolArena
  threadCache : PoolThreadCache
  memory : Memory

namespace Heap

/-- `PoolArena::allocate`, for a buffer that is made for it. -/
def allocate (sc : SizeClass) (h : Heap) (reqCapacity maxCapacity : ℕ) :
    Option (PoolByteBuf × Heap) := do
  let (region, t, a) ← h.arena.allocate sc h.threadCache reqCapacity
  some (.newInstance maxCapacity region, { h with arena := a, threadCache := t })

/-- `PoolArena::free` of the region of a buffer. -/
def free (sc : SizeClass) (h : Heap) (region : Region) (cache : Bool) : Option Heap := do
  let (t, a) ← h.arena.free sc h.threadCache region.chunk region.tmpBuf region.handle
    region.maxLength cache
  some { h with arena := a, threadCache := t }

/-- `PoolArena::reallocate`. -/
def reallocate (sc : SizeClass) (h : Heap) (buf : PoolByteBuf) (newCapacity : ℕ)
    (freeOldMemory : Bool) : Option (PoolByteBuf × Heap) :=
  if buf.maxCapacity < newCapacity then none
  else if buf.length = newCapacity then some (buf, h)
  else do
    let (region, t, a) ← h.arena.allocate sc h.threadCache newCapacity
    let buf' := buf.moveTo region newCapacity
    let bytesToCopy := if buf.length < newCapacity then buf.length else newCapacity
    let h : Heap :=
      { arena := a
        threadCache := t
        memory := h.memory.copy (buf.memory.add buf.offset) (buf'.memory.add buf'.offset)
          bytesToCopy }
    if freeOldMemory then (h.free sc buf.toRegion buf'.cache).map (buf', ·) else some (buf', h)

end Heap

end DuoDuo.Buffer
