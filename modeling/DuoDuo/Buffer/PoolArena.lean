import DuoDuo.Buffer.PoolByteBuf
import DuoDuo.Library.LinkedList

/-!
# The arena

`PoolChunkList` and `PoolArena`: the lists of chunks ordered by their usage, and the
allocation and release of regions. The cache of a thread comes on top of it.
-/

namespace DuoDuo.Buffer

open Library

namespace ChunkListName

/-- The argument `minUsage` of the constructor. -/
def minUsage : ChunkListName → ℤ
  | qInit => -2 ^ 31
  | q00 => 1
  | q25 => 25
  | q50 => 50
  | q75 => 75
  | q100 => 100

/-- `m_maxUsage`. -/
def maxUsage : ChunkListName → ℤ
  | qInit => 25
  | q00 => 50
  | q25 => 75
  | q50 => 100
  | q75 => 100
  | q100 => 2 ^ 31 - 1

/-- `m_nextList`. -/
def nextList : ChunkListName → Option ChunkListName
  | qInit => some q00
  | q00 => some q25
  | q25 => some q50
  | q50 => some q75
  | q75 => some q100
  | q100 => none

/-- `m_prevList`. -/
def prevList : ChunkListName → Option ChunkListName
  | qInit => some qInit
  | q00 => none
  | q25 => some q00
  | q50 => some q25
  | q75 => some q50
  | q100 => some q75

/-- `calculateMaxCapacity`. -/
def maxCapacity (sc : SizeClass) (l : ChunkListName) : ℤ :=
  if max 0 l.minUsage = 100 then 0
  else (sc.chunkSize * (100 - max 0 l.minUsage)).tdiv 100

/-- `chunkSize * (100.0 - usage + 0.99999999) / 100L` as an `int`. A value below the
range of `int` becomes the least `int`. -/
def freeThreshold (sc : SizeClass) (usage : ℤ) : ℤ :=
  max (-2 ^ 31) ((sc.chunkSize * (10099999999 - usage * 10 ^ 8)).tdiv (10 ^ 10))

/-- `m_freeMinThreshold`. -/
def freeMinThreshold (sc : SizeClass) (l : ChunkListName) : ℤ :=
  if l.maxUsage = 100 then 0 else freeThreshold sc l.maxUsage

/-- `m_freeMaxThreshold`, where `m_minUsage` is not negative. -/
def freeMaxThreshold (sc : SizeClass) (l : ChunkListName) : ℤ :=
  if l.minUsage = 100 then 0 else freeThreshold sc (max 0 l.minUsage)

end ChunkListName

/-- `PoolArena`: the chunks with their links, the heads of the lists, and the sizes of
the chunks that are not pooled. -/
structure PoolArena where
  store : ChunkStore
  head : ChunkListName → Option ℕ
  links : Links ℕ
  unpooled : ℕ → Option ℕ
  nextUnpooled : ℕ

namespace PoolArena

open ChunkListName PoolChunk

/-- An arena without chunks. -/
def empty : PoolArena :=
  ⟨.empty, fun _ => none, ⟨fun _ => none, fun _ => none⟩, fun _ => none, 0⟩

/-- The chunks of an arena after an operation on them. -/
def setStore (a : PoolArena) (store : ChunkStore) : PoolArena := { a with store }

/-- The lists of an arena after an operation on one of them. -/
def setList (a : PoolArena) (l : ChunkListName) (head : Option ℕ) (links : Links ℕ) : PoolArena :=
  { a with head := Function.update a.head l head, links }

/-- The chunks of a list, which are no more than the chunks that were made. -/
def chunksOf (a : PoolArena) (l : ChunkListName) : List ℕ :=
  a.links.walk a.store.nextChunk (a.head l)

/-- `PoolChunkList::remove`. -/
def remove (a : PoolArena) (l : ChunkListName) (id : ℕ) : Option PoolArena := do
  let (head, links) ← a.links.unlink (a.head l) id
  some (a.setList l head links)

/-- `PoolChunkList::add0`. -/
def add0 (a : PoolArena) (l : ChunkListName) (id : ℕ) : Option PoolArena := do
  let c ← a.store.chunks id
  let a := a.setStore (a.store.setChunk id { c with parent := some l } a.store.pools)
  some (a.setList l (some id) (a.links.pushFront (a.head l) id))

/-- `PoolChunkList::add`. There are six lists, which bounds the recursion. -/
def add (sc : SizeClass) (a : PoolArena) (id : ℕ) : ℕ → ChunkListName → Option PoolArena
  | 0, _ => none
  | fuel + 1, l => do
    let c ← a.store.chunks id
    if c.freeBytes ≤ l.freeMinThreshold sc then
      let next ← l.nextList
      a.add sc id fuel next
    else a.add0 l id

mutual

/-- `PoolChunkList::move`. -/
def move (sc : SizeClass) (a : PoolArena) (id : ℕ) : ℕ → ChunkListName → Option (Bool × PoolArena)
  | 0, _ => none
  | fuel + 1, l => do
    let c ← a.store.chunks id
    if c.usage sc < l.maxUsage then
      if l.freeMaxThreshold sc < c.freeBytes then a.move0 sc id fuel l
      else
        let a ← a.add0 l id
        some (true, a)
    else none

/-- `PoolChunkList::move0`. -/
def move0 (sc : SizeClass) (a : PoolArena) (id : ℕ) : ℕ → ChunkListName → Option (Bool × PoolArena)
  | 0, _ => none
  | fuel + 1, l =>
    match l.prevList with
    | none => do
      let c ← a.store.chunks id
      if c.usage sc = 0 then some (false, a) else none
    | some prev => a.move sc id fuel prev

end

/-- The bound of a walk through the lists, up or down. -/
def listFuel : ℕ := 12

/-- The loop of `PoolChunkList::allocate` over the chunks of a list. -/
def allocateFrom (sc : SizeClass) (l : ChunkListName) (reqCapacity sizeIdx : ℕ)
    (threadCache : Bool) : PoolArena → List ℕ → Option (Option Region × PoolArena)
  | a, [] => some (none, a)
  | a, cur :: rest => do
    let (region, store) ← a.store.allocate sc cur reqCapacity sizeIdx threadCache
    match region with
    | none => allocateFrom sc l reqCapacity sizeIdx threadCache (a.setStore store) rest
    | some region =>
      let c ← store.chunks cur
      if c.freeBytes ≤ l.freeMinThreshold sc then
        let next ← l.nextList
        let a ← (a.setStore store).remove l cur
        let a ← a.add sc cur listFuel next
        some (some region, a)
      else some (some region, a.setStore store)

/-- `PoolChunkList::allocate`. -/
def listAllocate (sc : SizeClass) (a : PoolArena) (l : ChunkListName) (reqCapacity sizeIdx : ℕ)
    (threadCache : Bool) : Option (Option Region × PoolArena) :=
  if l.maxCapacity sc < sc.sizeIdx2size sizeIdx then some (none, a)
  else allocateFrom sc l reqCapacity sizeIdx threadCache a (a.chunksOf l)

/-- The requests of `allocateNormal` to the lists, up to the first that succeeds. -/
def allocateLists (sc : SizeClass) (reqCapacity sizeIdx : ℕ) (threadCache : Bool) :
    PoolArena → List ChunkListName → Option (Option Region × PoolArena)
  | a, [] => some (none, a)
  | a, l :: rest => do
    let (region, a) ← a.listAllocate sc l reqCapacity sizeIdx threadCache
    match region with
    | none => allocateLists sc reqCapacity sizeIdx threadCache a rest
    | some region => some (some region, a)

/-- `allocateNormal`. -/
def allocateNormal (sc : SizeClass) (a : PoolArena) (reqCapacity sizeIdx : ℕ)
    (threadCache : Bool) : Option (Region × PoolArena) := do
  let (region, a) ←
    allocateLists sc reqCapacity sizeIdx threadCache a [q50, q25, q00, qInit, q75]
  match region with
  | some region => some (region, a)
  | none =>
    let id := a.store.nextChunk
    let (region, store) ← (a.store.newChunk sc).allocate sc id reqCapacity sizeIdx threadCache
    let region ← region
    let a ← (a.setStore store).add sc id listFuel qInit
    some (region, a)

/-- `newUnpoolChunk`. -/
def newUnpoolChunk (a : PoolArena) (capacity : ℕ) : PoolArena :=
  { a with
    unpooled := Function.update a.unpooled a.nextUnpooled (some capacity)
    nextUnpooled := a.nextUnpooled + 1 }

/-- `allocateHuge`. There is no array of negative length. -/
def allocateHuge (a : PoolArena) (normCapacity : ℤ) : Option (Region × PoolArena) :=
  if 0 ≤ normCapacity then
    some (.initUnpool a.nextUnpooled normCapacity.toNat, a.newUnpoolChunk normCapacity.toNat)
  else none

/-- `PoolChunkList::free`, which is `false` when the chunk is to be destroyed. -/
def listFree (sc : SizeClass) (a : PoolArena) (l : ChunkListName) (g : Grant) (buffer : Addr) :
    Option (Bool × PoolArena) := do
  let store ← a.store.free sc g (some buffer)
  let c ← store.chunks g.chunk
  if l.freeMaxThreshold sc < c.freeBytes then
    let a ← (a.setStore store).remove l g.chunk
    a.move0 sc g.chunk listFuel l
  else some (true, a.setStore store)

/-- `freeChunk`. -/
def freeChunk (sc : SizeClass) (a : PoolArena) (g : Grant) (buffer : Addr) : Option PoolArena := do
  let c ← a.store.chunks g.chunk
  let parent ← c.parent
  let (kept, a) ← a.listFree sc parent g buffer
  if kept then some a else some (a.setStore (a.store.destroyChunk g.chunk))

/-- `destroyChunk` of a chunk that is not pooled. -/
def destroyUnpoolChunk (a : PoolArena) (id : ℕ) : PoolArena :=
  { a with unpooled := Function.update a.unpooled id none }

end PoolArena

end DuoDuo.Buffer
