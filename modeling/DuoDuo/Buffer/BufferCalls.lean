import DuoDuo.Buffer.ByteQueue
import DuoDuo.Buffer.Ownership
import DuoDuo.Library.Throws

/-!
# Calls on the buffers of an arena

Threads make buffers in an arena, write to them, resize and deallocate them, one call
after another. Unlike the functions of the arena elsewhere, a call works on the buffer
in place: `init0` overwrites its region where the source does so, the array of a new
chunk may not be had, and the exception passes through the scopes of the locks.
-/

namespace DuoDuo.Buffer

open Library Library.Machine ChunkListName

/-- The mutexes that are held where an exception may pass: `m_mtx` of the arena, and those
of the heads of the pools. -/
inductive Mutex
  | arena
  | head (sizeIdx : ℕ)
  deriving DecidableEq

/-- What a call of a thread works on: the heap with the cache of the thread, a buffer, and
the mutexes. -/
structure Running where
  heap : Heap
  buf : PoolByteBuf
  held : Mutex → Bool

namespace Running

/-- An operation on the arena. -/
def onArena {α : Type} (f : PoolArena → Option (α × PoolArena)) : Throws Running α :=
  .lift fun s => (f s.heap.arena).map fun p =>
    (p.1, { s with heap := { s.heap with arena := p.2 } })

/-- An operation on the cache of the thread, and on the arena. -/
def onCache {α : Type}
    (f : PoolArena → PoolThreadCache → Option (α × PoolThreadCache × PoolArena)) :
    Throws Running α :=
  .lift fun s => (f s.heap.arena s.heap.threadCache).map fun p =>
    (p.1, { s with heap := { s.heap with threadCache := p.2.1, arena := p.2.2 } })

/-- An assignment to the fields of the buffer. -/
def onBuf (f : PoolByteBuf → PoolByteBuf) : Throws Running Unit :=
  .lift fun s => some ((), { s with buf := f s.buf })

/-- An assignment to the arrays of the chunks. -/
def onMemory (f : PoolByteBuf → Memory → Memory) : Throws Running Unit :=
  .lift fun s => some ((), { s with heap := { s.heap with memory := f s.buf s.heap.memory } })

/-- `lock`, which a thread does not survive that holds the mutex. -/
def lock (l : Mutex) (s : Running) : Option Running :=
  if s.held l then none else some { s with held := Function.update s.held l true }

/-- `unlock`. -/
def unlock (l : Mutex) (s : Running) : Running := { s with held := Function.update s.held l false }

/-- The scope of a `unique_lock`. -/
def locked {α : Type} (l : Mutex) (x : Throws Running α) : Throws Running α :=
  .scope (lock l) (unlock l) x

/-- `init0`. -/
def init0 (region : Region) : Throws Running Unit :=
  onBuf fun buf => { buf with toRegion := region }

/-- `defaultAllocate`, which throws when there is no memory left, and for an array of
negative length. -/
def defaultAllocate (memoryLeft : Bool) (capacity : ℤ) : Throws Running Unit :=
  if memoryLeft ∧ 0 ≤ capacity then pure () else .throwNow

/-- `newChunk`. -/
def newChunk (sc : SizeClass) (memoryLeft : Bool) : Throws Running ℕ := do
  defaultAllocate memoryLeft sc.chunkSize
  onArena fun a => some (a.store.nextChunk, a.setStore (a.store.newChunk sc))

/-- `PoolChunk::allocate` of a chunk of the arena. -/
def chunkAllocate (sc : SizeClass) (id reqCapacity sizeIdx : ℕ) (threadCache : Bool) :
    Throws Running (Option Region) :=
  onArena fun a => (a.store.allocate sc id reqCapacity sizeIdx threadCache).map fun p =>
    (p.1, a.setStore p.2)

/-- `allocateNormal`. -/
def allocateNormal (sc : SizeClass) (memoryLeft : Bool) (reqCapacity sizeIdx : ℕ)
    (threadCache : Bool) : Throws Running Unit := do
  match ← onArena (PoolArena.allocateLists sc reqCapacity sizeIdx threadCache ·
    [q50, q25, q00, qInit, q75]) with
  | some region => init0 region
  | none =>
    let id ← newChunk sc memoryLeft
    match ← chunkAllocate sc id reqCapacity sizeIdx threadCache with
    | none => .abort
    | some region =>
      init0 region
      onArena fun a => (a.add sc id PoolArena.listFuel qInit).map ((), ·)

/-- `allocateHuge`. -/
def allocateHuge (memoryLeft : Bool) (normCapacity : ℤ) : Throws Running Unit := do
  defaultAllocate memoryLeft normCapacity
  let region ← onArena (·.allocateHuge normCapacity)
  init0 region

/-- The part of `tcacheAllocateSmall` under the lock of the head of a pool, which is `false`
when `needNormAllocation` is set. -/
def pooledAllocate (sc : SizeClass) (reqCapacity sizeIdx : ℕ) : Throws Running Bool := do
  match ← onArena (·.pooledAllocate sc reqCapacity sizeIdx) with
  | some region =>
    init0 region
    return true
  | none => return false

/-- `tcacheAllocateSmall`. -/
def tcacheAllocateSmall (sc : SizeClass) (memoryLeft : Bool) (reqCapacity sizeIdx : ℕ) :
    Throws Running Unit := do
  match ← onCache (·.cacheAllocate sc · .small reqCapacity sizeIdx) with
  | some region => init0 region
  | none =>
    match ← locked (.head sizeIdx) (pooledAllocate sc reqCapacity sizeIdx) with
    | true => return ()
    | false => locked .arena (allocateNormal sc memoryLeft reqCapacity sizeIdx true)

/-- `tcacheAllocateNormal`. -/
def tcacheAllocateNormal (sc : SizeClass) (memoryLeft : Bool) (reqCapacity sizeIdx : ℕ) :
    Throws Running Unit := do
  match ← onCache (·.cacheAllocate sc · .normal reqCapacity sizeIdx) with
  | some region => init0 region
  | none => locked .arena (allocateNormal sc memoryLeft reqCapacity sizeIdx true)

/-- `PoolArena::allocate` for the buffer. -/
def allocate (sc : SizeClass) (memoryLeft : Bool) (reqCapacity : ℕ) : Throws Running Unit :=
  let sizeIdx := sc.size2sizeIdx reqCapacity
  if sizeIdx ≤ sc.smallMaxSizeIdx then tcacheAllocateSmall sc memoryLeft reqCapacity sizeIdx
  else if sizeIdx < sc.nSizes then tcacheAllocateNormal sc memoryLeft reqCapacity sizeIdx
  else allocateHuge memoryLeft (sc.normalizeSize reqCapacity)

/-- `PoolArena::free` of a region, where `cache` tells whether there is a cache. -/
def free (sc : SizeClass) (region : Region) (cache : Bool) : Throws Running Unit :=
  .lift fun s => (s.heap.free sc region cache).map fun heap => ((), { s with heap })

/-- `memoryCopy`, from the region that a buffer had. -/
def memoryCopy (old : Region) (length : ℕ) : Throws Running Unit :=
  onMemory fun buf memory =>
    memory.copy (old.memory.add old.offset) (buf.memory.add buf.offset) length

/-- `PoolArena::reallocate`. -/
def reallocate (sc : SizeClass) (memoryLeft : Bool) (newCapacity : ℕ) (freeOldMemory : Bool) :
    Throws Running Unit := do
  let old := (← .get).buf
  if old.maxCapacity < newCapacity then .abort
  else if old.length = newCapacity then return ()
  else
    allocate sc memoryLeft newCapacity
    if old.length < newCapacity then memoryCopy old.toRegion old.length
    else
      onBuf (·.trimIndicesToCapacity newCapacity)
      memoryCopy old.toRegion newCapacity
    if freeOldMemory then free sc old.toRegion (← .get).buf.cache

/-- `capacity(newCapacity)`. -/
def capacity (sc : SizeClass) (memoryLeft : Bool) (newCapacity : ℕ) : Throws Running Unit := do
  let buf := (← .get).buf
  if newCapacity ≠ buf.length ∧ buf.maxCapacity < newCapacity then .abort
  else
    match buf.resize newCapacity with
    | some resized => onBuf fun _ => resized
    | none => reallocate sc memoryLeft newCapacity true

/-- `ensureWritable`. -/
def ensureWritable (sc : SizeClass) (memoryLeft : Bool) (minWritableBytes : ℕ) :
    Throws Running Unit := do
  let buf := (← .get).buf
  if buf.maxCapacity < buf.writerIndex + minWritableBytes then .abort
  else if buf.length < buf.writerIndex + minWritableBytes then
    match buf.grownCapacity minWritableBytes with
    | none => .throwNow
    | some newCapacity => capacity sc memoryLeft newCapacity
  else return ()

/-- `setBytes`. -/
def setBytes (index : PoolByteBuf → ℕ) (src : List UInt8) (srcIndex length : ℕ) :
    Throws Running Unit :=
  onMemory fun buf memory => BlockMemory.write memory (buf.memory.add (buf.idx (index buf)))
    ((src.drop srcIndex).take length)

/-- `writeBytes`, whose source must hold the bytes that it is told to write. -/
def writeBytes (sc : SizeClass) (memoryLeft : Bool) (src : List UInt8) (srcIndex length : ℕ) :
    Throws Running Unit :=
  if src.length < srcIndex + length then .abort
  else do
    ensureWritable sc memoryLeft length
    setBytes (·.writerIndex) src srcIndex length
    onBuf fun buf => { buf with writerIndex := buf.writerIndex + length }

end Running

/-- The calls that may move a buffer to another region. -/
inductive Growth
  | writeBytes (src : List UInt8) (srcIndex length : ℕ)
  | ensureWritable (minWritableBytes : ℕ)
  | capacity (newCapacity : ℕ)

/-- A call on the buffer. -/
def Growth.run (sc : SizeClass) (memoryLeft : Bool) : Growth → Throws Running Unit
  | .writeBytes src srcIndex length => Running.writeBytes sc memoryLeft src srcIndex length
  | .ensureWritable minWritableBytes => Running.ensureWritable sc memoryLeft minWritableBytes
  | .capacity newCapacity => Running.capacity sc memoryLeft newCapacity

/-- What a call means for the bytes of the buffer. -/
def Growth.apply : Growth → ByteQueue → ByteQueue
  | .writeBytes src srcIndex length, q => q.append ((src.drop srcIndex).take length)
  | .ensureWritable _, q => q
  | .capacity newCapacity, q => q.truncate newCapacity

/-- An arena, the caches of the threads that use it, and the buffers that they have made,
`none` for those that are deallocated. -/
structure BufferPool where
  arena : PoolArena
  memory : Memory
  caches : List PoolThreadCache
  buffers : List (Option PoolByteBuf)
  /-- What was written to the buffers and has not been retrieved. -/
  queues : List ByteQueue
  held : Mutex → Bool

namespace BufferPool

/-- The calls. A buffer is named by its place. -/
inductive Call
  /-- `poolBuffer`, with an object of the recycler that had the region `recycled`. The
  capacities are of type `int`. -/
  | poolBuffer (initCapacity maxCapacity : ℕ) (recycled : Region)
  | grow (i : ℕ) (growth : Growth)
  | retrieve (i len : ℕ)
  | deallocate (i : ℕ)

/-- A call of a thread. The thread of a deallocation is the one whose cache the buffer
names, and `memoryLeft` tells whether the memory of a new chunk can be had. -/
structure Turn where
  thread : ℕ
  memoryLeft : Bool
  call : Call

/-- The state in which thread `j` works on a buffer. -/
def running (s : BufferPool) (t : PoolThreadCache) (buf : PoolByteBuf) : Running :=
  ⟨⟨s.arena, t, s.memory⟩, buf, s.held⟩

/-- The state after thread `j` has worked on a buffer. -/
def resume (s : BufferPool) (j : ℕ) (run : Running) : BufferPool :=
  { s with
    arena := run.heap.arena
    memory := run.heap.memory
    caches := s.caches.set j run.heap.threadCache
    held := run.held }

/-- A buffer changes, with what it means. -/
def setBuffer (s : BufferPool) (i : ℕ) (slot : Option PoolByteBuf) (f : ByteQueue → ByteQueue) :
    BufferPool :=
  { s with buffers := s.buffers.set i slot, queues := s.queues.modify i f }

/-- The state after a call, and whether it has returned or thrown. -/
def next (sc : SizeClass) (s : BufferPool) (a : Turn) : Option (Except Unit Unit × BufferPool) := do
  let t ← s.caches[a.thread]?
  match a.call with
  | .poolBuffer initCapacity maxCapacity recycled =>
    if initCapacity = 0 ∧ maxCapacity = 0 then some (.ok (), s)
    else if maxCapacity < initCapacity ∨ 2 ^ 31 ≤ maxCapacity then none
    else
      let (r, run) ← Running.allocate sc a.memoryLeft initCapacity
        (s.running t (.newInstance maxCapacity recycled))
      let s := s.resume a.thread run
      match r with
      | .ok () =>
        some (r, { s with buffers := s.buffers ++ [some run.buf], queues := s.queues ++ [{}] })
      | .error () => some (r, s)
  | .grow i growth =>
    let buf ← (s.buffers[i]?).join
    let (r, run) ← growth.run sc a.memoryLeft (s.running t buf)
    some (r, (s.resume a.thread run).setBuffer i (some run.buf)
      (match r with
        | .ok () => growth.apply
        | .error () => id))
  | .retrieve i len =>
    let buf ← (s.buffers[i]?).join
    let buf ← buf.retrieve len
    some (.ok (), s.setBuffer i (some buf) (·.retrieve len))
  | .deallocate i =>
    let buf ← (s.buffers[i]?).join
    let (r, run) ← Running.free sc buf.toRegion buf.cache (s.running t buf)
    some (r, (s.resume a.thread run).setBuffer i none id)

/-- The pool before the first call of its threads. -/
def init (sc : SizeClass) (threads : ℕ) (memory : Memory) : BufferPool where
  arena := .empty
  memory := memory
  caches := List.replicate threads (.new sc)
  buffers := []
  queues := []
  held := fun _ => false

/-- Threads that call in any order. -/
def machine (k : PoolConfig) (threads : ℕ) : Machine BufferPool Turn :=
  .ofNext (fun s => ∃ memory, s = init k.sizeClass threads memory)
    fun s a => (next k.sizeClass s a).map Prod.snd

end BufferPool

end DuoDuo.Buffer
