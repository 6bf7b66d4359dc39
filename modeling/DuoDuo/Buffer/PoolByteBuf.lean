import DuoDuo.Buffer.ChunkStore

/-!
# Buffers and the regions that chunks hand out

`PoolByteBuf`, `PoolChunk::allocate` and the two functions that initialise a buffer.
The part of a buffer that `init0` overwrites is its region.
-/

namespace DuoDuo.Buffer

open PoolChunk

/-- The sum of a pointer and a number. -/
def Addr.add (a : Addr) (n : ℕ) : Addr := (a.1, a.2 + n)

/-- The fields of a buffer that `init0` writes. `cache` tells whether `m_cache` is the
cache of the thread or null. -/
structure Region where
  chunk : ChunkPtr
  memory : Addr
  handle : ℕ
  offset : ℕ
  length : ℕ
  maxLength : ℕ
  cache : Bool
  tmpBuf : Addr
  deriving DecidableEq, Repr

/-- `PoolByteBuf`. -/
structure PoolByteBuf extends Region where
  maxCapacity : ℕ
  readerIndex : ℕ
  writerIndex : ℕ
  deriving DecidableEq, Repr

/-- `init0`, where the array of a chunk begins at position zero. -/
def Region.init0 (chunk : ChunkPtr) (buffer : Option Addr) (handle offset length maxLength : ℕ)
    (cache : Bool) : Region where
  chunk := chunk
  memory := (chunk, 0)
  handle := handle
  offset := offset
  length := length
  maxLength := maxLength
  cache := cache
  tmpBuf := buffer.getD (Addr.add (chunk, 0) offset)

/-- `initUnpool`. -/
def Region.initUnpool (id length : ℕ) : Region :=
  .init0 (.unpooled id) none 0 0 length length false

namespace PoolByteBuf

/-- `newInstance`, with the region that is found for the buffer. -/
def newInstance (maxCapacity : ℕ) (region : Region) : PoolByteBuf :=
  { region with maxCapacity, readerIndex := 0, writerIndex := 0 }

/-- `trimIndicesToCapacity`. -/
def trimIndicesToCapacity (buf : PoolByteBuf) (newCapacity : ℕ) : PoolByteBuf :=
  if newCapacity < buf.writerIndex then
    { buf with readerIndex := min buf.readerIndex newCapacity, writerIndex := newCapacity }
  else buf

/-- The buffer after `reallocate` has found another region for it. -/
def moveTo (buf : PoolByteBuf) (region : Region) (newCapacity : ℕ) : PoolByteBuf :=
  if buf.length < newCapacity then { buf with toRegion := region }
  else { buf with toRegion := region }.trimIndicesToCapacity newCapacity

@[simp] theorem toRegion_trimIndicesToCapacity (buf : PoolByteBuf) (newCapacity : ℕ) :
    (buf.trimIndicesToCapacity newCapacity).toRegion = buf.toRegion := by
  unfold trimIndicesToCapacity
  split <;> rfl

@[simp] theorem toRegion_moveTo (buf : PoolByteBuf) (region : Region) (newCapacity : ℕ) :
    (buf.moveTo region newCapacity).toRegion = region := by
  unfold moveTo
  split
  · rfl
  · exact toRegion_trimIndicesToCapacity _ _

end PoolByteBuf

namespace ChunkStore

/-- `initBufWithSubpage`. -/
def initBufWithSubpage (sc : SizeClass) (s : ChunkStore) (id : ℕ) (buffer : Option Addr)
    (handle reqCapacity : ℕ) (threadCache : Bool) : Option Region := do
  let c ← s.chunks id
  let runOffset := calculateRunOffset handle
  let bitmapIdx := calculateBitmapIdx handle
  let subpage ← c.subpages runOffset
  if subpage.dontRelease ∧ reqCapacity ≤ subpage.elemSize then
    some (.init0 (.pooled id) buffer handle
      ((runOffset <<< sc.pageShifts) + bitmapIdx * subpage.elemSize + c.offset) reqCapacity
      subpage.elemSize threadCache)
  else none

/-- `initBuf`, where the cache of a run is that of the running thread. -/
def initBuf (sc : SizeClass) (s : ChunkStore) (id : ℕ) (buffer : Option Addr)
    (handle reqCapacity : ℕ) (threadCache : Bool) : Option Region :=
  if isSubpage handle then s.initBufWithSubpage sc id buffer handle reqCapacity threadCache
  else some (.init0 (.pooled id) buffer handle (calculateRunOffset handle <<< sc.pageShifts)
    reqCapacity (PoolChunk.runSize sc.pageShifts handle) true)

/-- `m_cachedBuffers` without its last element. -/
def popCachedBuffer (s : ChunkStore) (id : ℕ) (c : PoolChunk) : ChunkStore :=
  s.setChunk id { c with cachedBuffers := c.cachedBuffers.tail } s.pools

/-- The handle that `allocate` of a chunk finds, by size. -/
def allocateHandle (sc : SizeClass) (s : ChunkStore) (id sizeIdx : ℕ) :
    Option (Option ℕ × ChunkStore) :=
  if sizeIdx ≤ sc.smallMaxSizeIdx then s.allocateSubpage sc id sizeIdx
  else s.allocateRun sc id (sc.sizeIdx2size sizeIdx)

/-- `allocate` of a chunk, whose result `none` stands for `false`. -/
def allocate (sc : SizeClass) (s : ChunkStore) (id reqCapacity sizeIdx : ℕ) (cache : Bool) :
    Option (Option Region × ChunkStore) := do
  let (handle, s) ← s.allocateHandle sc id sizeIdx
  match handle with
  | none => some (none, s)
  | some handle =>
    if sizeIdx ≤ sc.smallMaxSizeIdx ∧ isSubpage handle = false then none
    else
      let c ← s.chunks id
      let region ← (s.popCachedBuffer id c).initBuf sc id c.cachedBuffers.head? handle reqCapacity
        cache
      some (some region, s.popCachedBuffer id c)

end ChunkStore

end DuoDuo.Buffer
