import DuoDuo.Buffer.SubpageRelease
import DuoDuo.Library.Locks

/-!
# The locks of a subpage pool

Threads allocate and free buffers of one size class, and interleave between acquiring
and releasing locks and between the calls of `PoolSubpage`. `tcacheAllocateSmall` takes
an element under the mutex of the head of the pool, `PoolChunk::free` gives one back
under the mutexes of the arena and of the head, and `allocateSubpage` links and carves a
new subpage under those of the arena and of the chunk. A hit in the cache of a thread
touches none of this. A step that breaks an assertion has no result, except that of
`assert(ret)` in `allocateNormal`, which is a point of its own.
-/

namespace DuoDuo.Buffer

open Library PoolChunk PoolSubpage PoolArena

namespace PoolArena

/-- What `PoolChunkList::allocate` does with the chunk that served the request. -/
def moveUp (sc : SizeClass) (a : PoolArena) (l : ChunkListName) (id : ℕ) : Option PoolArena := do
  let c ← a.store.chunks id
  if c.freeBytes ≤ l.freeMinThreshold sc then
    let next ← l.nextList
    let a ← a.remove l id
    a.add sc id listFuel next
  else some a

/-- What `PoolChunkList::free` and then `freeChunk` do with the chunk, once it is freed. -/
def moveDown (sc : SizeClass) (a : PoolArena) (l : ChunkListName) (id : ℕ) : Option PoolArena := do
  let c ← a.store.chunks id
  if l.freeMaxThreshold sc < c.freeBytes then
    let a ← a.remove l id
    let (kept, a) ← a.move0 sc id listFuel l
    if kept then some a else some (a.setStore (a.store.destroyChunk id))
  else some a

end PoolArena

namespace ChunkStore

/-- The run that `allocateSubpage` finds for a subpage. -/
def carve (sc : SizeClass) (s : ChunkStore) (id sizeIdx : ℕ) : Option (Option ℕ × ChunkStore) := do
  let runSize ← calculateRunSize sc sizeIdx
  s.allocateRun sc id runSize

/-- The subpage that `allocateSubpage` constructs on a run, and links in the pool. -/
def construct (sc : SizeClass) (s : ChunkStore) (id sizeIdx run : ℕ) : Option ChunkStore := do
  let c ← s.chunks id
  let head ← findSubpagePoolHead sc sizeIdx
  let runOffset := calculateRunOffset run
  if (c.subpages runOffset).isSome then none
  else
    let (subpage, pools) ← PoolSubpage.new head id sc.pageShifts runOffset
      (PoolChunk.runSize sc.pageShifts run) (sc.sizeIdx2size sizeIdx) s.pools
    some (s.setChunk id (c.setSubpage runOffset (some subpage)) pools)

/-- `PoolSubpage::allocate`, of the subpage of that name. -/
def takeElement (s : ChunkStore) (ref : SubpageRef) : Option (Option ℕ × ChunkStore) := do
  let c ← s.chunks ref.1
  let subpage ← c.subpages ref.2
  let (handle, subpage, pools) ← subpage.allocate s.pools
  some (handle, s.setChunk ref.1 (c.setSubpage ref.2 (some subpage)) pools)

/-- `PoolSubpage::free` as `PoolChunk::free` calls it. -/
def giveElement (s : ChunkStore) (g : Grant) (head : ℕ) : Option (Bool × ChunkStore) := do
  let c ← s.chunks g.chunk
  let sIdx := calculateRunOffset g.handle
  let subpage ← c.subpages sIdx
  if !subpage.dontRelease then none
  else
    let (kept, subpage, pools) ← subpage.free head (calculateBitmapIdx g.handle) s.pools
    if !kept && subpage.dontRelease then none
    else some (kept, s.setChunk g.chunk (c.setSubpage sIdx (some subpage)) pools)

/-- The rest of `PoolChunk::free`, whose run is only released when the subpage is not
kept. -/
def releaseRun (sc : SizeClass) (s : ChunkStore) (e : Entry) : Bool → Option ChunkStore
  | true => some s
  | false => do
    let c ← s.chunks e.grant.chunk
    let c := c.setSubpage (calculateRunOffset e.grant.handle) none
    some (s.setChunk e.grant.chunk (c.freeRun sc e.grant.handle (some e.buffer)) s.pools)

/-- The region of an element that was just taken from a subpage of a chunk. -/
def initElement (sc : SizeClass) (s : ChunkStore) (id handle reqCapacity : ℕ) :
    Option (Region × ChunkStore) := do
  let c ← s.chunks id
  if isSubpage handle then
    let region ← (s.popCachedBuffer id c).initBuf sc id c.cachedBuffers.head? handle reqCapacity
      true
    some (region, s.popCachedBuffer id c)
  else none

end ChunkStore

section Sequential

variable {sc : SizeClass} {s : ChunkStore} {a : PoolArena}

/-- Of two changes of a chunk, the second one stays. -/
@[simp] theorem ChunkStore.setChunk_setChunk (s : ChunkStore) (id : ℕ) (c c' : PoolChunk)
    (pools pools' : Pools) :
    (s.setChunk id c pools).setChunk id c' pools' = s.setChunk id c' pools' := by
  rw [setChunk, setChunk, Function.update_idem]
  rfl

/-- Of two changes of an entry, the second one stays. -/
@[simp] theorem PoolChunk.setSubpage_setSubpage (c : PoolChunk) (o : ℕ)
    (sp sp' : Option PoolSubpage) : (c.setSubpage o sp).setSubpage o sp' = c.setSubpage o sp' := by
  rw [setSubpage, setSubpage, Function.update_idem]
  rfl

@[simp] theorem ChunkStore.pools_setChunk (s : ChunkStore) (id : ℕ) (c : PoolChunk)
    (pools : Pools) : (s.setChunk id c pools).pools = pools := rfl

/-- Without another thread in between, the steps of `allocateSubpage` are the function. -/
theorem ChunkStore.allocateSubpage_eq_steps {id sizeIdx : ℕ} (hsmall : sizeIdx < sc.nSubpages) :
    s.allocateSubpage sc id sizeIdx = (s.carve sc id sizeIdx).bind fun (run, s₁) =>
      match run with
      | none => some (none, s₁)
      | some run => (s₁.construct sc id sizeIdx run).bind fun s₂ =>
          s₂.takeElement (id, calculateRunOffset run) := by
  have hhead : findSubpagePoolHead sc sizeIdx = some sizeIdx := if_pos hsmall
  simp only [ChunkStore.allocateSubpage, PoolChunk.allocateSubpage, ChunkStore.carve,
    ChunkStore.allocateRun, ChunkStore.construct, hhead, Option.bind_eq_bind, Option.bind_some]
  rcases hid : s.chunks id with _ | c
  · rcases calculateRunSize sc sizeIdx with _ | runSize <;> simp
  rcases calculateRunSize sc sizeIdx with _ | runSize
  · simp
  rcases hrun : c.allocateRun sc runSize with _ | ⟨run, c₁⟩
  · simp [hrun]
  rcases run with _ | run
  · simp [hrun]
  by_cases hnone : (c₁.subpages (calculateRunOffset run)).isSome
  · simp [hrun, hnone]
  rcases hnew : PoolSubpage.new sizeIdx id sc.pageShifts (calculateRunOffset run)
    (PoolChunk.runSize sc.pageShifts run) (sc.sizeIdx2size sizeIdx) s.pools with _ | ⟨sp, pools⟩
  · simp [hrun, hnone, hnew]
  rcases halloc : sp.allocate pools with _ | ⟨handle, sp', pools'⟩
  · simp [ChunkStore.takeElement, hrun, hnone, hnew, halloc]
  · simp [ChunkStore.takeElement, hrun, hnone, hnew, halloc]

/-- Without another thread in between, an element that is taken under the mutex of the head
is that of `allocatePooled`. -/
theorem ChunkStore.allocatePooled_eq_steps {sizeIdx : ℕ} {ref : SubpageRef}
    {rest : List SubpageRef} (hpool : s.pools sizeIdx = ref :: rest) :
    s.allocatePooled sc sizeIdx = (s.subpage ref).bind fun sp =>
      if sp.dontRelease ∧ sp.elemSize = sc.sizeIdx2size sizeIdx then
        (s.takeElement ref).bind fun (handle, s₁) =>
          handle.map fun handle => (some (ref.1, handle), s₁)
      else none := by
  simp only [ChunkStore.allocatePooled, hpool, ChunkStore.subpage, ChunkStore.takeElement,
    Option.bind_eq_bind]
  rcases hid : s.chunks ref.1 with _ | c
  · simp
  rcases hsp : c.subpages ref.2 with _ | sp
  · simp [hsp]
  by_cases hguard : sp.dontRelease ∧ sp.elemSize = sc.sizeIdx2size sizeIdx
  · rcases halloc : sp.allocate s.pools with _ | ⟨handle, sp', pools⟩
    · simp [hsp, hguard, halloc]
    · cases handle <;> simp [hsp, hguard, halloc]
  · simp [hsp, hguard]

/-- Without another thread in between, the steps of `free` are the function. -/
theorem ChunkStore.free_eq_steps {e : Entry} {head : ℕ} (hsub : isSubpage e.grant.handle = true)
    (hhead : findSubpagePoolHead sc (sc.size2sizeIdx e.grant.normCapacity) = some head) :
    s.free sc e.grant (some e.buffer) =
      (s.giveElement e.grant head).bind fun (kept, s₁) => s₁.releaseRun sc e kept := by
  simp only [ChunkStore.free, PoolChunk.free, if_pos hsub, hhead, ChunkStore.giveElement,
    Option.bind_eq_bind, Option.bind_some]
  rcases hid : s.chunks e.grant.chunk with _ | c
  · simp
  rcases hsp : c.subpages (calculateRunOffset e.grant.handle) with _ | sp
  · simp [hsp]
  by_cases hkept : sp.dontRelease
  · rcases hfree : sp.free head (calculateBitmapIdx e.grant.handle) s.pools with
      _ | ⟨kept, sp', pools⟩
    · simp [hsp, hkept, hfree]
    · cases kept with
      | true => simp [hsp, hkept, hfree, ChunkStore.releaseRun]
      | false =>
        by_cases hleft : sp'.dontRelease
        · simp [hsp, hkept, hfree, hleft]
        · simp [hsp, hkept, hfree, hleft, ChunkStore.releaseRun]
  · simp [hsp, hkept]

/-- `PoolChunkList::allocate` moves the chunk that served the request. -/
theorem PoolArena.allocateFrom_eq_steps {l : ChunkListName} {reqCapacity sizeIdx cur : ℕ}
    {rest : List ℕ} :
    allocateFrom sc l reqCapacity sizeIdx true a (cur :: rest) =
      (a.store.allocate sc cur reqCapacity sizeIdx true).bind fun (region, store) =>
        match region with
        | none => allocateFrom sc l reqCapacity sizeIdx true (a.setStore store) rest
        | some region => ((a.setStore store).moveUp sc l cur).map fun a => (some region, a) := by
  rw [allocateFrom, Option.bind_eq_bind]
  congr 1
  funext ⟨region, store⟩
  cases region with
  | none => rfl
  | some region =>
    simp only [moveUp, setStore, Option.bind_eq_bind]
    rcases store.chunks cur with _ | c
    · simp
    · simp only [Option.bind_some]
      split
      · rcases l.nextList with _ | next
        · simp
        · simp only [Option.bind_some, Option.map_bind]
          congr 1
          funext a'
          simp only [Function.comp]
          rcases a'.add sc cur listFuel next with _ | a'' <;> simp
      · simp

/-- `freeChunk` moves the chunk once it is freed. -/
theorem PoolArena.freeChunk_eq_steps {g : Grant} {ptr : Addr} {c : PoolChunk} {l : ChunkListName}
    (hid : a.store.chunks g.chunk = some c) (hparent : c.parent = some l) :
    a.freeChunk sc g ptr = (a.store.free sc g (some ptr)).bind fun store =>
      (a.setStore store).moveDown sc l g.chunk := by
  simp only [freeChunk, listFree, moveDown, hid, hparent, Option.bind_eq_bind, Option.bind_some]
  rcases a.store.free sc g (some ptr) with _ | store
  · simp
  simp only [Option.bind_some, setStore]
  rcases store.chunks g.chunk with _ | c'
  · simp
  simp only [Option.bind_some]
  split
  · rcases ({ a with store } : PoolArena).remove l g.chunk with _ | a₁
    · simp
    · rcases a₁.move0 sc g.chunk listFuel l with _ | ⟨kept, a₂⟩
      · simp
      · simp
  · simp

end Sequential

/-- What a region is freed with. -/
def Region.entry (r : Region) (id : ℕ) : Entry := ⟨⟨id, r.handle, r.maxLength⟩, r.tmpBuf⟩

namespace SubpagePool

/-- `m_mtx` of the arena, `m_mtx` of the head of the pool, and `m_subpageAllocMtx` of a
chunk. -/
inductive Lock
  | arena
  | head
  | chunk (id : ℕ)
  deriving DecidableEq

/-- Where the search of `allocateNormal` is: at a chunk of a list, with the chunks and the
lists that remain, or at a new chunk. -/
inductive Place
  | listed (l : ChunkListName) (ids : List ℕ) (ls : List ChunkListName)
  | fresh
  deriving DecidableEq

/-- Where a thread is. -/
inductive Point
  | idle
  /-- `tcacheAllocateSmall` has locked the head. -/
  | looking (reqCapacity : ℕ)
  /-- `head->next` is a subpage. -/
  | found (reqCapacity : ℕ) (s : SubpageRef)
  /-- An element has been taken, or there is none in the pool. -/
  | tried (reqCapacity : ℕ) (needNormAllocation : Bool)
  /-- The head is unlocked, and the arena not yet locked. -/
  | waiting (reqCapacity : ℕ)
  /-- `allocateNormal` goes on with a list. -/
  | lists (reqCapacity : ℕ) (ls : List ChunkListName)
  /-- `PoolChunkList::allocate` goes on with a chunk. -/
  | chunks (reqCapacity : ℕ) (l : ChunkListName) (ids : List ℕ) (ls : List ChunkListName)
  /-- `allocateSubpage` has locked the chunk. -/
  | entered (reqCapacity : ℕ) (place : Place) (id : ℕ)
  /-- It has a run. -/
  | carved (reqCapacity : ℕ) (place : Place) (id run : ℕ)
  /-- It has constructed a subpage, and is about to call its `allocate`. -/
  | linked (reqCapacity : ℕ) (place : Place) (ref : SubpageRef)
  /-- It is about to return this handle. -/
  | leaving (reqCapacity : ℕ) (place : Place) (id : ℕ) (handle : Option ℕ)
  /-- It has returned. -/
  | returned (reqCapacity : ℕ) (place : Place) (id : ℕ) (handle : Option ℕ)
  /-- `assert(ret)` of `allocateNormal` has failed. -/
  | failed
  /-- `freeChunk` has locked the arena. -/
  | freeing (e : Entry)
  /-- `PoolChunk::free` has locked the head. -/
  | giving (e : Entry)
  /-- The element is given back, and the subpage is kept or not. -/
  | given (e : Entry) (kept : Bool)
  /-- The head is unlocked. -/
  | settling (e : Entry) (kept : Bool)
  /-- The arena is about to be unlocked. -/
  | done
  deriving DecidableEq

namespace Point

/-- The locks of a point. -/
def Needs : Point → Lock → Prop
  | looking _, l | found _ _, l | tried _ _, l => l = .head
  | lists _ _, l | chunks _ _ _ _, l | returned _ _ _ _, l | freeing _, l | settling _ _, l
  | done, l => l = .arena
  | entered _ _ id, l | carved _ _ id _, l | linked _ _ (id, _), l | leaving _ _ id _, l =>
    l = .arena ∨ l = .chunk id
  | giving _, l | given _ _, l => l = .arena ∨ l = .head
  | idle, _ | waiting _, _ | failed, _ => False

/-- In the section of `tcacheAllocateSmall`, under the mutex of the head. -/
def InPool : Point → Prop
  | looking _ | found _ _ | tried _ _ => True
  | _ => False

/-- In `allocateSubpage`, under the mutex of the chunk. -/
def InSubpage : Point → Prop
  | entered _ _ _ | carved _ _ _ _ | linked _ _ _ | leaving _ _ _ _ => True
  | _ => False

/-- In the section of `PoolChunk::free`, under the mutex of the head. -/
def InFree : Point → Prop
  | giving _ | given _ _ => True
  | _ => False

/-- In a section that links, unlinks or allocates from a subpage of the pool. -/
def Inside (p : Point) : Prop := p.InPool ∨ p.InSubpage ∨ p.InFree

/-- About to call `allocateSubpage`. -/
def CallsSubpage : Point → Prop
  | lists _ [] | chunks _ _ (_ :: _) _ => True
  | _ => False

instance : DecidablePred InPool
  | looking _ | found _ _ | tried _ _ => isTrue trivial
  | idle | waiting _ | lists _ _ | chunks _ _ _ _ | entered _ _ _ | carved _ _ _ _ | linked _ _ _
  | leaving _ _ _ _ | returned _ _ _ _ | failed | freeing _ | giving _ | given _ _ | settling _ _
  | done => isFalse id

instance : DecidablePred InSubpage
  | entered _ _ _ | carved _ _ _ _ | linked _ _ _ | leaving _ _ _ _ => isTrue trivial
  | idle | looking _ | found _ _ | tried _ _ | waiting _ | lists _ _ | chunks _ _ _ _
  | returned _ _ _ _ | failed | freeing _ | giving _ | given _ _ | settling _ _ | done => isFalse id

instance : DecidablePred CallsSubpage
  | lists _ [] | chunks _ _ (_ :: _) _ => isTrue trivial
  | lists _ (_ :: _) | chunks _ _ [] _ | idle | looking _ | found _ _ | tried _ _ | waiting _
  | entered _ _ _ | carved _ _ _ _ | linked _ _ _ | leaving _ _ _ _ | returned _ _ _ _ | failed
  | freeing _ | giving _ | given _ _ | settling _ _ | done => isFalse id

end Point

/-- The arena, the regions that it has handed out, the owners of the locks and the points
of the threads. -/
structure State where
  arena : PoolArena
  handed : List Entry
  owner : Lock → Option ℕ
  point : ℕ → Point

namespace State

/-- A thread goes on to another point. -/
def goTo (s : State) (t : ℕ) (p : Point) : State :=
  { s with point := Function.update s.point t p }

/-- A thread acquires a lock, if nobody owns it. -/
def lock (s : State) (t : ℕ) (l : Lock) : Option State :=
  if s.owner l = none then some { s with owner := Function.update s.owner l (some t) } else none

/-- A lock is released. -/
def unlock (s : State) (l : Lock) : State := { s with owner := Function.update s.owner l none }

/-- The arena changes. -/
def setArena (s : State) (arena : PoolArena) : State := { s with arena }

/-- The chunks of the arena change. -/
def setStore (s : State) (store : ChunkStore) : State := s.setArena (s.arena.setStore store)

/-- A region is handed out. -/
def handOut (s : State) (e : Entry) : State := { s with handed := e :: s.handed }

end State

/-- Locking does not move a thread. -/
theorem State.point_of_lock {s s' : State} {t : ℕ} {l : Lock} (h : s.lock t l = some s')
    (p : Point) : (s'.goTo t p).point = Function.update s.point t p := by
  unfold State.lock at h
  split_ifs at h
  cases h
  rfl

/-- What a thread does next. It is only free to choose while it is idle. -/
inductive Action
  | allocate (t reqCapacity : ℕ)
  | free (t : ℕ) (e : Entry)
  | resume (t : ℕ)

/-- The list in which a chunk is put that served a request. -/
def Place.file (sc : SizeClass) (a : PoolArena) (id : ℕ) : Place → Option PoolArena
  | .listed l _ _ => a.moveUp sc l id
  | .fresh => a.add sc id listFuel .qInit

/-- Where the search goes on after a chunk without an element, or `assert(ret)` fails. -/
def Place.goOn (reqCapacity : ℕ) : Place → Point
  | .listed l ids ls => .chunks reqCapacity l ids ls
  | .fresh => .failed

/-- `PoolChunk::allocate` and what calls it, after `allocateSubpage` has returned. -/
def afterSubpage (sc : SizeClass) (s : State) (t reqCapacity : ℕ) (place : Place) (id : ℕ) :
    Option ℕ → Option State
  | none => some (s.goTo t (place.goOn reqCapacity))
  | some handle => do
    let (region, store) ← s.arena.store.initElement sc id handle reqCapacity
    let arena ← place.file sc (s.arena.setStore store) id
    some (((s.setArena arena).handOut (region.entry id)).goTo t .done)

/-- The next step of a thread. -/
def resume (sc : SizeClass) (sizeIdx : ℕ) (s : State) (t : ℕ) : Option State :=
  match s.point t with
  | .idle | .failed => none
  | .looking n =>
    match s.arena.store.pools sizeIdx with
    | [] => some (s.goTo t (.tried n true))
    | ref :: _ => some (s.goTo t (.found n ref))
  | .found n ref => do
    let sp ← s.arena.store.subpage ref
    if sp.dontRelease ∧ sp.elemSize = sc.sizeIdx2size sizeIdx then
      let (handle, store) ← s.arena.store.takeElement ref
      let handle ← handle
      let region ← store.initBufWithSubpage sc ref.1 none handle n true
      some (((s.setStore store).handOut (region.entry ref.1)).goTo t (.tried n false))
    else none
  | .tried n needNormAllocation =>
    some ((s.unlock .head).goTo t (if needNormAllocation then .waiting n else .idle))
  | .waiting n => do
    let s ← s.lock t .arena
    some (s.goTo t (.lists n [.q50, .q25, .q00, .qInit, .q75]))
  | .lists n (l :: ls) =>
    if l.maxCapacity sc < sc.sizeIdx2size sizeIdx then some (s.goTo t (.lists n ls))
    else some (s.goTo t (.chunks n l (s.arena.chunksOf l) ls))
  | .lists n [] => do
    let id := s.arena.store.nextChunk
    let s ← (s.setStore (s.arena.store.newChunk sc)).lock t (.chunk id)
    some (s.goTo t (.entered n .fresh id))
  | .chunks n _ [] ls => some (s.goTo t (.lists n ls))
  | .chunks n l (id :: ids) ls => do
    let s ← s.lock t (.chunk id)
    some (s.goTo t (.entered n (.listed l ids ls) id))
  | .entered n place id => do
    let (run, store) ← s.arena.store.carve sc id sizeIdx
    match run with
    | none => some ((s.setStore store).goTo t (.leaving n place id none))
    | some run => some ((s.setStore store).goTo t (.carved n place id run))
  | .carved n place id run => do
    let store ← s.arena.store.construct sc id sizeIdx run
    some ((s.setStore store).goTo t (.linked n place (id, calculateRunOffset run)))
  | .linked n place ref => do
    let (handle, store) ← s.arena.store.takeElement ref
    some ((s.setStore store).goTo t (.leaving n place ref.1 handle))
  | .leaving n place id handle =>
    some ((s.unlock (.chunk id)).goTo t (.returned n place id handle))
  | .returned n place id handle => afterSubpage sc s t n place id handle
  | .freeing e => do
    let s ← s.lock t .head
    some (s.goTo t (.giving e))
  | .giving e => do
    let (kept, store) ← s.arena.store.giveElement e.grant sizeIdx
    some ((s.setStore store).goTo t (.given e kept))
  | .given e kept => some ((s.unlock .head).goTo t (.settling e kept))
  | .settling e kept => do
    let c ← s.arena.store.chunks e.grant.chunk
    let parent ← c.parent
    let store ← s.arena.store.releaseRun sc e kept
    let arena ← (s.arena.setStore store).moveDown sc parent e.grant.chunk
    some ((s.setArena arena).goTo t .done)
  | .done => some ((s.unlock .arena).goTo t .idle)

/-- One step of one thread. A thread that starts to allocate has missed its cache, and one
that starts to free holds a region that does not fit in a cache or leaves it. -/
def next (sc : SizeClass) (sizeIdx : ℕ) (s : State) : Action → Option State
  | .allocate t n =>
    if s.point t = .idle ∧ sc.size2sizeIdx n = sizeIdx ∧ sizeIdx ≤ sc.smallMaxSizeIdx then do
      let s ← s.lock t .head
      some (s.goTo t (.looking n))
    else none
  | .free t e =>
    if s.point t = .idle ∧ e ∈ s.handed ∧ isSubpage e.grant.handle ∧
        sc.size2sizeIdx e.grant.normCapacity = sizeIdx then do
      let s ← s.lock t .arena
      some ({ s with handed := s.handed.erase e }.goTo t (.freeing e))
    else none
  | .resume t => resume sc sizeIdx s t

/-- The machine of the threads, which begins with all of them idle. -/
def machine (k : PoolConfig) (sizeIdx : ℕ) : Machine State Action :=
  Machine.ofNext (fun s => s.owner = (fun _ => none) ∧ s.point = fun _ => .idle)
    (next k.sizeClass sizeIdx)

end SubpagePool

namespace PoolChunk

variable {sc : SizeClass} {c c' : PoolChunk} {run need handle : ℕ}

/-- `splitLargeRun` hands out the pages that are needed. -/
theorem pages_of_splitLargeRun (h : c.splitLargeRun sc run need = some (handle, c')) :
    calculateRunPages handle = need := by
  unfold splitLargeRun at h
  dsimp only at h
  split_ifs at h with hguard hremain
  · cases h
    have hpages := calculateRunPages_lt run
    exact calculateRunPages_toRunHandle (by omega) (by omega)
  · cases h
    rw [calculateRunPages_setUsed]
    omega

/-- `allocateRun` hands out the pages of the size. -/
theorem pages_of_allocateRun {runSize : ℕ}
    (h : c.allocateRun sc runSize = some (some handle, c')) :
    calculateRunPages handle = runSize >>> sc.pageShifts := by
  rcases allocateRun_cases h with ⟨hnone, _⟩ | ⟨_, _, _, _, _, _, hsplit, hres, _⟩
  · cases hnone
  · cases hres
    exact pages_of_splitLargeRun hsplit

/-- A chunk of which all bytes are free has a run. -/
theorem allocateRun_of_whole {runSize : ℕ} {res : Option ℕ} (hfree : c.freeBytes = sc.chunkSize)
    (h : c.allocateRun sc runSize = some (res, c')) : res.isSome := by
  have hbest : ∀ i, c.runBestFit sc i = some (sc.nPSizes - 1) := fun i => if_pos hfree
  unfold allocateRun at h
  dsimp only at h
  rw [hbest] at h
  obtain ⟨run, _, h⟩ := Option.bind_eq_some_iff.mp h
  split_ifs at h
  obtain ⟨_, _, h⟩ := Option.bind_eq_some_iff.mp h
  cases h
  rfl

end PoolChunk

namespace ChunkStore

/-- The subpage is there, kept, and has a free element. -/
def HasFree (s : ChunkStore) (ref : SubpageRef) : Prop :=
  ∃ sp, s.subpage ref = some sp ∧ 0 < sp.numAvail ∧ sp.dontRelease

variable {k : PoolConfig} {s s' : ChunkStore} {id sizeIdx run : ℕ} {c : PoolChunk}

/-- The run that is carved for a subpage has room for an element. -/
theorem elements_of_carve (h : s.carve k.sizeClass id sizeIdx = some (some run, s')) :
    0 < PoolChunk.runSize k.sizeClass.pageShifts run / k.sizeClass.sizeIdx2size sizeIdx := by
  obtain ⟨runSize, hsize, h⟩ := Option.bind_eq_some_iff.mp h
  obtain ⟨c, _, h⟩ := Option.bind_eq_some_iff.mp h
  obtain ⟨⟨_, c'⟩, hrun, h⟩ := Option.bind_eq_some_iff.mp h
  cases h
  obtain ⟨hdvd, -⟩ := calculateRunSize_spec hsize
  have hpages := pages_of_allocateRun hrun
  have hwhole : PoolChunk.runSize k.sizeClass.pageShifts run = runSize :=
    runSize_of_dvd hdvd hpages
  rw [hwhole]
  unfold calculateRunSize at hsize
  dsimp only at hsize
  split_ifs at hsize with hguard
  cases hsize
  exact hguard.1

/-- A new chunk has a run for a subpage. -/
theorem carve_of_whole {res : Option ℕ} (hid : s.chunks id = some c)
    (hfree : c.freeBytes = k.chunkSize)
    (h : s.carve k.sizeClass id sizeIdx = some (res, s')) : res.isSome := by
  obtain ⟨runSize, _, hrest⟩ := Option.bind_eq_some_iff.mp h
  rw [ChunkStore.allocateRun, hid, Option.bind_eq_bind, Option.bind_some] at hrest
  obtain ⟨⟨res', c'⟩, hrun, hres⟩ := Option.bind_eq_some_iff.mp hrest
  obtain ⟨rfl, -⟩ := Prod.mk.inj (Option.some.inj hres)
  exact allocateRun_of_whole (by rw [hfree, k.chunkSize_sizeClass]) hrun

/-- A subpage that was just constructed has a free element. -/
theorem hasFree_construct (h : s.construct k.sizeClass id sizeIdx run = some s')
    (hroom : 0 < PoolChunk.runSize k.sizeClass.pageShifts run / k.sizeClass.sizeIdx2size sizeIdx) :
    s'.HasFree (id, calculateRunOffset run) := by
  obtain ⟨c, hid, h⟩ := Option.bind_eq_some_iff.mp h
  obtain ⟨head, _, h⟩ := Option.bind_eq_some_iff.mp h
  dsimp only at h
  split_ifs at h
  obtain ⟨⟨sp, pools⟩, hnew, h⟩ := Option.bind_eq_some_iff.mp h
  cases h
  unfold PoolSubpage.new addToPool at hnew
  split_ifs at hnew
  cases hnew
  refine ⟨_, (congrFun (subpage_setChunk hid rfl) _).trans (Function.update_self _ _ _), hroom, rfl⟩

/-- A subpage with a free element has one to give. -/
theorem HasFree.takeElement {ref : SubpageRef} {res : Option ℕ} (h : s.HasFree ref)
    (hstep : s.takeElement ref = some (res, s')) : res.isSome := by
  obtain ⟨sp, hsp, havail, hkept⟩ := h
  obtain ⟨c, hid, hstep⟩ := Option.bind_eq_some_iff.mp hstep
  obtain ⟨sp', hsp', hstep⟩ := Option.bind_eq_some_iff.mp hstep
  obtain ⟨⟨_, sp'', pools⟩, halloc, hstep⟩ := Option.bind_eq_some_iff.mp hstep
  obtain rfl : sp' = sp := by
    have hsame := subpage_of_chunks hid ref.2
    rw [hsp', hsp] at hsame
    exact (Option.some.inj hsame).symm
  cases hstep
  have hsome : ¬(sp'.numAvail = 0 ∨ (!sp'.dontRelease) = true) := by
    rw [hkept]
    rintro (hzero | hno)
    · omega
    · cases hno
  unfold PoolSubpage.allocate at halloc
  rw [if_neg hsome] at halloc
  obtain ⟨idx, _, halloc⟩ := Option.bind_eq_some_iff.mp halloc
  obtain ⟨mid, _, halloc⟩ := Option.bind_eq_some_iff.mp halloc
  dsimp only at halloc
  split_ifs at halloc
  · obtain ⟨_, _, halloc⟩ := Option.bind_eq_some_iff.mp halloc
    cases halloc
    rfl
  · cases halloc
    rfl

end ChunkStore

namespace SubpagePool

open Point

/-- What a point promises about the chunks. -/
def Point.Good (k : PoolConfig) (sizeIdx : ℕ) (store : ChunkStore) : Point → Prop
  | entered _ .fresh id => ∃ c, store.chunks id = some c ∧ c.freeBytes = k.chunkSize
  | carved _ _ _ run =>
    0 < PoolChunk.runSize k.sizeClass.pageShifts run / k.sizeClass.sizeIdx2size sizeIdx
  | linked _ _ ref => store.HasFree ref
  | leaving _ .fresh _ handle => handle.isSome
  | returned _ .fresh _ handle => handle.isSome
  | failed => False
  | _ => True

/-- Only `allocateSubpage` relies on what the chunks are. -/
theorem Point.Good.congr {k : PoolConfig} {sizeIdx : ℕ} {store store' : ChunkStore} {p : Point}
    (h : p.Good k sizeIdx store) (hp : ¬p.InSubpage) : p.Good k sizeIdx store' := by
  cases p with
  | entered n place id => exact absurd trivial hp
  | linked n place ref => exact absurd trivial hp
  | leaving n place id handle => exact absurd trivial hp
  | returned n place id handle => cases place <;> exact h
  | _ => exact h

/-- `allocateSubpage` runs under the mutex of the arena. -/
theorem Point.InSubpage.needs {p : Point} (h : p.InSubpage) : p.Needs .arena := by
  cases p with
  | entered n place id => exact Or.inl rfl
  | carved n place id run => exact Or.inl rfl
  | linked n place ref => exact Or.inl rfl
  | leaving n place id handle => exact Or.inl rfl
  | _ => exact h.elim

/-- The section of `tcacheAllocateSmall` is under the mutex of the head. -/
theorem Point.InPool.needs {p : Point} (h : p.InPool) : p.Needs .head := by
  cases p with
  | looking n => exact rfl
  | found n ref => exact rfl
  | tried n need => exact rfl
  | _ => exact h.elim

/-- The section of `PoolChunk::free` is under both mutexes. -/
theorem Point.InFree.needs {p : Point} (h : p.InFree) : p.Needs .arena ∧ p.Needs .head := by
  cases p with
  | giving e => exact ⟨Or.inl rfl, Or.inr rfl⟩
  | given e kept => exact ⟨Or.inl rfl, Or.inr rfl⟩
  | _ => exact h.elim

/-- The threads hold their locks, no thread is in `tcacheAllocateSmall` while another is in
`allocateSubpage`, and all keep their promises. -/
structure Inv (k : PoolConfig) (sizeIdx : ℕ) (s : State) : Prop where
  held : Held Needs s.owner s.point
  apart : ∀ t u, (s.point t).InPool → ¬(s.point u).InSubpage
  good : ∀ t, (s.point t).Good k sizeIdx s.arena.store

/-- What the pool is owed: the sections exclude each other, a subpage that was just linked
has a free element, and `assert(ret)` has not failed. -/
structure Serialised (s : State) : Prop where
  exclusive : ∀ t u, (s.point t).Inside → (s.point u).Inside → t = u
  fresh : ∀ t n place ref, s.point t = .linked n place ref → s.arena.store.HasFree ref
  ret : ∀ t, s.point t ≠ .failed

variable {k : PoolConfig} {sizeIdx : ℕ} {s s' : State} {t : ℕ} {p : Point}

/-- Under the invariant, each pair of sections has a lock in common, or is apart. -/
theorem Inv.serialised (h : Inv k sizeIdx s) : Serialised s where
  exclusive := by
    rintro t u (ht | ht | ht) (hu | hu | hu)
    · exact h.held.eq_of_needs ht.needs hu.needs
    · exact absurd hu (h.apart t u ht)
    · exact h.held.eq_of_needs ht.needs hu.needs.2
    · exact absurd ht (h.apart u t hu)
    · exact h.held.eq_of_needs ht.needs hu.needs
    · exact h.held.eq_of_needs ht.needs hu.needs.1
    · exact h.held.eq_of_needs ht.needs.2 hu.needs
    · exact h.held.eq_of_needs ht.needs.1 hu.needs
    · exact h.held.eq_of_needs ht.needs.1 hu.needs.1
  fresh := by
    intro t n place ref ht
    have hgood := h.good t
    rw [ht] at hgood
    exact hgood
  ret := by
    intro t ht
    have hgood := h.good t
    rw [ht] at hgood
    exact hgood

/-- The rule of all steps of a thread. Whoever changes the chunks holds the arena, or is in
the section of `tcacheAllocateSmall`. -/
theorem Inv.step (h : Inv k sizeIdx s) (hpoint : s'.point = Function.update s.point t p)
    (hheld : Held Needs s'.owner s'.point)
    (hpool : p.InPool → (s.point t).InPool ∨ ∀ u, ¬(s.point u).InSubpage)
    (hsub : p.InSubpage → (s.point t).InSubpage ∨ ∀ u, ¬(s.point u).InPool)
    (hgood : p.Good k sizeIdx s'.arena.store)
    (hstore : s'.arena.store = s.arena.store ∨ (s.point t).InPool ∨ (s.point t).Needs .arena) :
    Inv k sizeIdx s' where
  held := hheld
  apart := by
    intro u v hu hv
    rw [hpoint] at hu hv
    by_cases hut : u = t
    · by_cases hvt : v = t
      · rw [hut, Function.update_self] at hu
        rw [hvt, Function.update_self] at hv
        cases p <;> first | exact hu | exact hv
      · rw [hut, Function.update_self] at hu
        rw [Function.update_of_ne hvt] at hv
        rcases hpool hu with hin | hnone
        · exact h.apart t v hin hv
        · exact hnone v hv
    · rw [Function.update_of_ne hut] at hu
      by_cases hvt : v = t
      · rw [hvt, Function.update_self] at hv
        rcases hsub hv with hin | hnone
        · exact h.apart u t hu hin
        · exact hnone u hu
      · rw [Function.update_of_ne hvt] at hv
        exact h.apart u v hu hv
  good := by
    intro u
    rw [hpoint]
    by_cases hut : u = t
    · rw [hut, Function.update_self]
      exact hgood
    · rw [Function.update_of_ne hut]
      rcases hstore with heq | hin | harena
      · rw [heq]
        exact h.good u
      · exact (h.good u).congr (h.apart t u hin)
      · refine (h.good u).congr fun hu => hut ?_
        exact h.held.eq_of_needs hu.needs harena

/-- A thread goes on under the same locks. -/
theorem Inv.goTo (h : Inv k sizeIdx s) (harena : s'.owner = s.owner) (hpoint : s'.point = s.point)
    (hneeds : ∀ l, p.Needs l → (s.point t).Needs l) (hpool : p.InPool → (s.point t).InPool)
    (hsub : p.InSubpage → (s.point t).InSubpage) (hgood : p.Good k sizeIdx s'.arena.store)
    (hstore : s'.arena.store = s.arena.store ∨ (s.point t).InPool ∨ (s.point t).Needs .arena) :
    Inv k sizeIdx (s'.goTo t p) := by
  have hupdate : Function.update s'.point t p = Function.update s.point t p := by rw [hpoint]
  refine h.step (t := t) (p := p) hupdate ?_ (fun hp => Or.inl (hpool hp))
    (fun hp => Or.inl (hsub hp)) hgood hstore
  show Held Needs s'.owner (Function.update s'.point t p)
  rw [harena, hpoint]
  exact h.held.move hneeds

/-- A thread goes on under one more lock. -/
theorem Inv.lock (h : Inv k sizeIdx s) {l : Lock} (howner : s'.owner = s.owner)
    (hpoint : s'.point = s.point) {s'' : State} (hlock : s'.lock t l = some s'')
    (hneeds : ∀ l', l' ≠ l → p.Needs l' → (s.point t).Needs l')
    (hpool : p.InPool → ∀ u, ¬(s.point u).InSubpage) (hsub : p.InSubpage → ∀ u, ¬(s.point u).InPool)
    (hgood : p.Good k sizeIdx s'.arena.store)
    (hstore : s'.arena.store = s.arena.store ∨ (s.point t).InPool ∨ (s.point t).Needs .arena) :
    Inv k sizeIdx (s''.goTo t p) := by
  unfold State.lock at hlock
  split_ifs at hlock with hfree
  cases hlock
  have hupdate : Function.update s'.point t p = Function.update s.point t p := by rw [hpoint]
  refine h.step (t := t) (p := p) hupdate ?_ (fun hp => Or.inr (hpool hp))
    (fun hp => Or.inr (hsub hp)) hgood hstore
  show Held Needs (Function.update s'.owner l (some t)) (Function.update s'.point t p)
  rw [howner] at hfree ⊢
  rw [hpoint]
  exact h.held.acquire hfree hneeds

/-- A thread goes on under one lock less. -/
theorem Inv.unlock (h : Inv k sizeIdx s) {l : Lock} (hheld : (s.point t).Needs l)
    (hneeds : ∀ l', p.Needs l' → l' ≠ l ∧ (s.point t).Needs l') (hpool : ¬p.InPool)
    (hsub : ¬p.InSubpage) (hgood : p.Good k sizeIdx s.arena.store) :
    Inv k sizeIdx ((s.unlock l).goTo t p) :=
  h.step (t := t) (p := p) rfl (h.held.release hheld hneeds) (fun hp => absurd hp hpool)
    (fun hp => absurd hp hsub) hgood (Or.inl rfl)

/-- The return of `allocateSubpage` keeps the invariant. -/
theorem Inv.afterSubpage (h : Inv k sizeIdx s) {n id : ℕ} {place : Place} {handle : Option ℕ}
    (hp : s.point t = .returned n place id handle)
    (hstep : afterSubpage k.sizeClass s t n place id handle = some s') : Inv k sizeIdx s' := by
  have harena : (s.point t).Needs .arena := by
    rw [hp]
    exact rfl
  have hneeds : ∀ l, l = Lock.arena → (s.point t).Needs l := fun l hl => hl ▸ harena
  have hgood := h.good t
  rw [hp] at hgood
  cases handle with
  | none =>
    cases place with
    | fresh => exact absurd hgood (by simp [Point.Good])
    | listed l ids ls =>
      cases hstep
      exact h.goTo rfl rfl hneeds nofun nofun trivial (Or.inl rfl)
  | some handle =>
    obtain ⟨⟨region, store⟩, _, hstep⟩ := Option.bind_eq_some_iff.mp hstep
    obtain ⟨arena, _, hstep⟩ := Option.bind_eq_some_iff.mp hstep
    cases hstep
    exact h.goTo rfl rfl hneeds nofun nofun trivial (Or.inr (Or.inr harena))

/-- Every step of a thread keeps the invariant, unless it calls `allocateSubpage` while a
thread is in `tcacheAllocateSmall`. -/
theorem Inv.resume (h : Inv k sizeIdx s)
    (hc : (s.point t).CallsSubpage → ∀ u, ¬(s.point u).InPool)
    (hstep : resume k.sizeClass sizeIdx s t = some s') : Inv k sizeIdx s' := by
  unfold SubpagePool.resume at hstep
  have hgood := h.good t
  cases hp : s.point t with
  | idle =>
    rw [hp] at hstep
    cases hstep
  | failed =>
    rw [hp] at hstep
    cases hstep
  | looking n =>
    rw [hp] at hstep
    have hneeds : ∀ l, l = Lock.head → (s.point t).Needs l := fun l hl => hp ▸ hl
    have hin : (s.point t).InPool := hp ▸ trivial
    dsimp only at hstep
    split at hstep
    · cases hstep
      exact h.goTo rfl rfl hneeds (fun _ => hin) nofun trivial (Or.inl rfl)
    · cases hstep
      exact h.goTo rfl rfl hneeds (fun _ => hin) nofun trivial (Or.inl rfl)
  | found n ref =>
    rw [hp] at hstep
    have hneeds : ∀ l, l = Lock.head → (s.point t).Needs l := fun l hl => hp ▸ hl
    have hin : (s.point t).InPool := hp ▸ trivial
    obtain ⟨sp, _, hstep⟩ := Option.bind_eq_some_iff.mp hstep
    split_ifs at hstep
    obtain ⟨⟨handle, store⟩, _, hstep⟩ := Option.bind_eq_some_iff.mp hstep
    obtain ⟨handle', _, hstep⟩ := Option.bind_eq_some_iff.mp hstep
    obtain ⟨region, _, hstep⟩ := Option.bind_eq_some_iff.mp hstep
    cases hstep
    exact h.goTo rfl rfl hneeds (fun _ => hin) nofun trivial (Or.inr (Or.inl hin))
  | tried n needNormAllocation =>
    rw [hp] at hstep
    have hheld : (s.point t).Needs .head := hp ▸ rfl
    cases hstep
    cases needNormAllocation with
    | false => exact h.unlock hheld nofun nofun nofun trivial
    | true => exact h.unlock hheld nofun nofun nofun trivial
  | waiting n =>
    rw [hp] at hstep
    obtain ⟨s'', hlock, hstep⟩ := Option.bind_eq_some_iff.mp hstep
    cases hstep
    exact h.lock rfl rfl hlock (fun l hl heq => absurd heq hl) nofun nofun trivial (Or.inl rfl)
  | lists n ls =>
    rw [hp] at hstep hc
    have harena : (s.point t).Needs .arena := hp ▸ rfl
    have hneeds : ∀ l, l = Lock.arena → (s.point t).Needs l := fun l hl => hl ▸ harena
    cases ls with
    | nil =>
      obtain ⟨s'', hlock, hstep⟩ := Option.bind_eq_some_iff.mp hstep
      cases hstep
      have howner : (s.setStore (s.arena.store.newChunk k.sizeClass)).owner = s.owner := rfl
      refine h.lock howner rfl hlock (fun l hl hor => hneeds l (hor.resolve_right hl)) nofun
        (fun _ => hc trivial) ?_ (Or.inr (Or.inr harena))
      exact ⟨_, ChunkStore.chunks_newChunk_self _ _, (new_rest k).2.2.2.2⟩
    | cons l ls =>
      dsimp only at hstep
      split_ifs at hstep
      · cases hstep
        exact h.goTo rfl rfl hneeds nofun nofun trivial (Or.inl rfl)
      · cases hstep
        exact h.goTo rfl rfl hneeds nofun nofun trivial (Or.inl rfl)
  | chunks n l ids ls =>
    rw [hp] at hstep hc
    have harena : (s.point t).Needs .arena := hp ▸ rfl
    have hneeds : ∀ l, l = Lock.arena → (s.point t).Needs l := fun l hl => hl ▸ harena
    cases ids with
    | nil =>
      cases hstep
      exact h.goTo rfl rfl hneeds nofun nofun trivial (Or.inl rfl)
    | cons id ids =>
      obtain ⟨s'', hlock, hstep⟩ := Option.bind_eq_some_iff.mp hstep
      cases hstep
      exact h.lock rfl rfl hlock (fun l hl hor => hneeds l (hor.resolve_right hl)) nofun
        (fun _ => hc trivial) trivial (Or.inl rfl)
  | entered n place id =>
    rw [hp] at hstep hgood
    have harena : (s.point t).Needs .arena := hp ▸ Or.inl rfl
    have hneeds : ∀ l, (l = Lock.arena ∨ l = Lock.chunk id) → (s.point t).Needs l :=
      fun l hl => hp ▸ hl
    have hin : (s.point t).InSubpage := hp ▸ trivial
    obtain ⟨⟨run, store⟩, hcarve, hstep⟩ := Option.bind_eq_some_iff.mp hstep
    cases run with
    | none =>
      cases hstep
      refine h.goTo rfl rfl hneeds nofun (fun _ => hin) ?_ (Or.inr (Or.inr harena))
      cases place with
      | listed l ids ls => exact trivial
      | fresh =>
        obtain ⟨c, hid, hfree⟩ := hgood
        exact absurd (ChunkStore.carve_of_whole hid hfree hcarve) (by simp)
    | some run =>
      cases hstep
      exact h.goTo rfl rfl hneeds nofun (fun _ => hin) (ChunkStore.elements_of_carve hcarve)
        (Or.inr (Or.inr harena))
  | carved n place id run =>
    rw [hp] at hstep hgood
    have harena : (s.point t).Needs .arena := hp ▸ Or.inl rfl
    have hneeds : ∀ l, (l = Lock.arena ∨ l = Lock.chunk id) → (s.point t).Needs l :=
      fun l hl => hp ▸ hl
    have hin : (s.point t).InSubpage := hp ▸ trivial
    obtain ⟨store, hconstruct, hstep⟩ := Option.bind_eq_some_iff.mp hstep
    cases hstep
    exact h.goTo rfl rfl hneeds nofun (fun _ => hin)
      (ChunkStore.hasFree_construct hconstruct hgood) (Or.inr (Or.inr harena))
  | linked n place ref =>
    rw [hp] at hstep hgood
    have harena : (s.point t).Needs .arena := hp ▸ Or.inl rfl
    have hneeds : ∀ l, (l = Lock.arena ∨ l = Lock.chunk ref.1) → (s.point t).Needs l :=
      fun l hl => hp ▸ hl
    have hin : (s.point t).InSubpage := hp ▸ trivial
    obtain ⟨⟨handle, store⟩, htake, hstep⟩ := Option.bind_eq_some_iff.mp hstep
    cases hstep
    refine h.goTo rfl rfl hneeds nofun (fun _ => hin) ?_ (Or.inr (Or.inr harena))
    cases place with
    | listed l ids ls => exact trivial
    | fresh => exact ChunkStore.HasFree.takeElement hgood htake
  | leaving n place id handle =>
    rw [hp] at hstep hgood
    have hheld : (s.point t).Needs (.chunk id) := hp ▸ Or.inr rfl
    cases hstep
    refine h.unlock hheld (fun l hl => ⟨?_, hp ▸ Or.inl hl⟩) nofun nofun ?_
    · cases hl
      exact nofun
    · cases place with
      | listed l ids ls => exact trivial
      | fresh => exact hgood
  | returned n place id handle =>
    rw [hp] at hstep
    exact h.afterSubpage hp hstep
  | freeing e =>
    rw [hp] at hstep
    have harena : (s.point t).Needs .arena := hp ▸ rfl
    have hneeds : ∀ l, l = Lock.arena → (s.point t).Needs l := fun l hl => hl ▸ harena
    obtain ⟨s'', hlock, hstep⟩ := Option.bind_eq_some_iff.mp hstep
    cases hstep
    exact h.lock rfl rfl hlock (fun l hl hor => hneeds l (hor.resolve_right hl)) nofun nofun
      trivial (Or.inl rfl)
  | giving e =>
    rw [hp] at hstep
    have harena : (s.point t).Needs .arena := hp ▸ Or.inl rfl
    have hneeds : ∀ l, (l = Lock.arena ∨ l = Lock.head) → (s.point t).Needs l := fun l hl => hp ▸ hl
    obtain ⟨⟨kept, store⟩, _, hstep⟩ := Option.bind_eq_some_iff.mp hstep
    cases hstep
    exact h.goTo rfl rfl hneeds nofun nofun trivial (Or.inr (Or.inr harena))
  | given e kept =>
    rw [hp] at hstep
    have hheld : (s.point t).Needs .head := hp ▸ Or.inr rfl
    cases hstep
    refine h.unlock hheld (fun l hl => ⟨?_, hp ▸ Or.inl hl⟩) nofun nofun trivial
    cases hl
    exact nofun
  | settling e kept =>
    rw [hp] at hstep
    have harena : (s.point t).Needs .arena := hp ▸ rfl
    have hneeds : ∀ l, l = Lock.arena → (s.point t).Needs l := fun l hl => hl ▸ harena
    obtain ⟨c, _, hstep⟩ := Option.bind_eq_some_iff.mp hstep
    obtain ⟨parent, _, hstep⟩ := Option.bind_eq_some_iff.mp hstep
    obtain ⟨store, _, hstep⟩ := Option.bind_eq_some_iff.mp hstep
    obtain ⟨arena, _, hstep⟩ := Option.bind_eq_some_iff.mp hstep
    cases hstep
    exact h.goTo rfl rfl hneeds nofun nofun trivial (Or.inr (Or.inr harena))
  | done =>
    rw [hp] at hstep
    have hheld : (s.point t).Needs .arena := hp ▸ rfl
    cases hstep
    exact h.unlock hheld nofun nofun nofun trivial

/-- No thread begins `tcacheAllocateSmall` while another is in `allocateSubpage`, and no
thread calls `allocateSubpage` while another is in `tcacheAllocateSmall`. -/
def Excludes (s : State) : Action → Prop
  | .allocate _ _ => ∀ u, ¬(s.point u).InSubpage
  | .free _ _ => True
  | .resume t => (s.point t).CallsSubpage → ∀ u, ¬(s.point u).InPool

/-- Every step that meets the condition keeps the invariant. -/
theorem Inv.next (h : Inv k sizeIdx s) {a : Action} (hc : Excludes s a)
    (hstep : next k.sizeClass sizeIdx s a = some s') : Inv k sizeIdx s' := by
  cases a with
  | allocate t n =>
    unfold SubpagePool.next at hstep
    dsimp only at hstep
    split_ifs at hstep with hguard
    obtain ⟨s'', hlock, hstep⟩ := Option.bind_eq_some_iff.mp hstep
    cases hstep
    exact h.lock rfl rfl hlock (fun l hl heq => absurd heq hl) (fun _ => hc) nofun trivial
      (Or.inl rfl)
  | free t e =>
    unfold SubpagePool.next at hstep
    dsimp only at hstep
    split_ifs at hstep with hguard
    obtain ⟨s'', hlock, hstep⟩ := Option.bind_eq_some_iff.mp hstep
    cases hstep
    have hinv : Inv k sizeIdx (s''.goTo t (.freeing e)) :=
      h.lock rfl rfl hlock (fun l hl heq => absurd heq hl) nofun nofun trivial (Or.inl rfl)
    exact ⟨hinv.held, hinv.apart, hinv.good⟩
  | resume t => exact h.resume hc hstep

/-- A call of `allocateSubpage` locks the chunk. -/
theorem resume_of_callsSubpage (hcalls : (s.point t).CallsSubpage)
    (hstep : SubpagePool.resume k.sizeClass sizeIdx s t = some s') :
    ∃ n place id, s'.point = Function.update s.point t (.entered n place id) := by
  unfold SubpagePool.resume at hstep
  cases hp : s.point t with
  | lists n ls =>
    rw [hp] at hstep hcalls
    cases ls with
    | nil =>
      obtain ⟨s'', hlock, hstep⟩ := Option.bind_eq_some_iff.mp hstep
      cases hstep
      exact ⟨n, .fresh, _, State.point_of_lock hlock _⟩
    | cons l ls => exact hcalls.elim
  | chunks n l ids ls =>
    rw [hp] at hstep hcalls
    cases ids with
    | nil => exact hcalls.elim
    | cons id ids =>
      obtain ⟨s'', hlock, hstep⟩ := Option.bind_eq_some_iff.mp hstep
      cases hstep
      exact ⟨n, .listed l ids ls, id, State.point_of_lock hlock _⟩
  | _ =>
    rw [hp] at hcalls
    exact hcalls.elim

/-- A thread that goes on into a section while another is in one. -/
theorem not_serialised_of_inside {u : ℕ} (hpoint : s'.point = Function.update s.point t p)
    (hne : u ≠ t) (hu : (s.point u).Inside) (hp : p.Inside) : ¬Serialised s' := by
  rintro ⟨hexclusive, -, -⟩
  refine hne (hexclusive u t ?_ ?_)
  · rw [hpoint, Function.update_of_ne hne]
    exact hu
  · rw [hpoint, Function.update_self]
    exact hp

/-- A step that does not meet the condition brings two threads into the sections. -/
theorem not_serialised_of_overlap {a : Action} (hbad : ¬Excludes s a)
    (hstep : next k.sizeClass sizeIdx s a = some s') : ¬Serialised s' := by
  cases a with
  | allocate t n =>
    simp only [Excludes, not_forall, not_not] at hbad
    obtain ⟨u, hu⟩ := hbad
    unfold SubpagePool.next at hstep
    dsimp only at hstep
    split_ifs at hstep with hguard
    obtain ⟨s'', hlock, hstep⟩ := Option.bind_eq_some_iff.mp hstep
    cases hstep
    have hne : u ≠ t := by
      rintro rfl
      rw [hguard.1] at hu
      exact hu
    exact not_serialised_of_inside (State.point_of_lock hlock _) hne (Or.inr (Or.inl hu))
      (Or.inl trivial)
  | free t e => exact absurd trivial hbad
  | resume t =>
    simp only [Excludes, Classical.not_imp, not_forall, not_not] at hbad
    obtain ⟨hcalls, u, hu⟩ := hbad
    obtain ⟨n, place, id, hpoint⟩ := resume_of_callsSubpage hcalls hstep
    have hne : u ≠ t := by
      rintro rfl
      cases hp : s.point u with
      | lists n ls =>
        rw [hp] at hu
        exact hu
      | chunks n l ids ls =>
        rw [hp] at hu
        exact hu
      | _ =>
        rw [hp] at hcalls
        exact hcalls
    exact not_serialised_of_inside hpoint hne (Or.inl hu) (Or.inr (Or.inl trivial))

/-- In a run from idle threads, the sections exclude each other, `allocateSubpage` finds a
free element in the subpage that it has just linked, and `assert(ret)` does not fail,
exactly when no thread begins `tcacheAllocateSmall` while another is in `allocateSubpage`
and none calls `allocateSubpage` while another is in `tcacheAllocateSmall`. -/
theorem serialised_iff_excludes {k : PoolConfig} {sizeIdx : ℕ} {s t : State}
    {trace : List (State × Action)} (hinit : (machine k sizeIdx).init s)
    (hrun : (machine k sizeIdx).Run s trace t) :
    (∀ u ∈ Machine.visited trace t, Serialised u) ↔ ∀ step ∈ trace, Excludes step.1 step.2 := by
  refine hrun.forall_visited_iff (I := Inv k sizeIdx) (fun u h => h.serialised)
    (fun u a v h hc hstep => h.next hc hstep)
    (fun u a v _ hbad hstep => not_serialised_of_overlap hbad hstep) ?_
  obtain ⟨-, hpoint⟩ := hinit
  have hidle : ∀ t, s.point t = .idle := fun t => congrFun hpoint t
  exact ⟨.of_idle fun t l => by rw [hidle t]; exact nofun,
    fun t u hin => by rw [hidle t] at hin; exact hin.elim,
    fun t => by rw [hidle t]; exact trivial⟩

/-- All threads are idle, and the arena has no chunk. -/
def idleState : State := ⟨.empty, [], fun _ => none, fun _ => .idle⟩

theorem machine_init_idleState (k : PoolConfig) (sizeIdx : ℕ) :
    (machine k sizeIdx).init idleState :=
  ⟨rfl, rfl⟩

/-- A step of a thread leaves the other threads where they are. -/
theorem point_of_resume {sc : SizeClass} {u : ℕ}
    (hstep : SubpagePool.resume sc sizeIdx s t = some s') (hne : u ≠ t) :
    s'.point u = s.point u := by
  have hgoTo : ∀ (p : Point) {s₁ : State}, s₁.point = s.point →
      (s₁.goTo t p).point u = s.point u := by
    intro p s₁ hpoint
    exact (Function.update_of_ne hne _ _).trans (congrFun hpoint u)
  have hlock : ∀ (p : Point) {s₁ s₂ : State} {l : Lock}, s₁.lock t l = some s₂ →
      s₁.point = s.point → (s₂.goTo t p).point u = s.point u := by
    intro p s₁ s₂ l hlocked hpoint
    rw [State.point_of_lock hlocked, Function.update_of_ne hne, hpoint]
  unfold SubpagePool.resume at hstep
  cases hp : s.point t with
  | idle | failed =>
    rw [hp] at hstep
    cases hstep
  | looking n =>
    rw [hp] at hstep
    dsimp only at hstep
    cases hpool : s.arena.store.pools sizeIdx with
    | nil =>
      rw [hpool] at hstep
      cases hstep
      exact hgoTo _ rfl
    | cons ref rest =>
      rw [hpool] at hstep
      cases hstep
      exact hgoTo _ rfl
  | found n ref =>
    rw [hp] at hstep
    obtain ⟨sp, -, hstep⟩ := Option.bind_eq_some_iff.mp hstep
    split_ifs at hstep
    obtain ⟨_, -, hstep⟩ := Option.bind_eq_some_iff.mp hstep
    obtain ⟨_, -, hstep⟩ := Option.bind_eq_some_iff.mp hstep
    obtain ⟨_, -, hstep⟩ := Option.bind_eq_some_iff.mp hstep
    cases hstep
    exact hgoTo _ rfl
  | tried n needNormAllocation | given e kept | done =>
    rw [hp] at hstep
    cases hstep
    exact hgoTo _ rfl
  | waiting n | freeing e =>
    rw [hp] at hstep
    obtain ⟨s₁, hlocked, hstep⟩ := Option.bind_eq_some_iff.mp hstep
    cases hstep
    exact hlock _ hlocked rfl
  | lists n ls =>
    rw [hp] at hstep
    cases ls with
    | nil =>
      obtain ⟨s₁, hlocked, hstep⟩ := Option.bind_eq_some_iff.mp hstep
      cases hstep
      exact hlock _ hlocked rfl
    | cons l ls =>
      dsimp only at hstep
      split_ifs at hstep
      · cases hstep
        exact hgoTo _ rfl
      · cases hstep
        exact hgoTo _ rfl
  | chunks n l ids ls =>
    rw [hp] at hstep
    cases ids with
    | nil =>
      cases hstep
      exact hgoTo _ rfl
    | cons id ids =>
      obtain ⟨s₁, hlocked, hstep⟩ := Option.bind_eq_some_iff.mp hstep
      cases hstep
      exact hlock _ hlocked rfl
  | entered n place id =>
    rw [hp] at hstep
    obtain ⟨⟨run, store⟩, -, hstep⟩ := Option.bind_eq_some_iff.mp hstep
    cases run with
    | none =>
      cases hstep
      exact hgoTo _ rfl
    | some run =>
      cases hstep
      exact hgoTo _ rfl
  | carved n place id run =>
    rw [hp] at hstep
    obtain ⟨_, -, hstep⟩ := Option.bind_eq_some_iff.mp hstep
    cases hstep
    exact hgoTo _ rfl
  | linked n place ref | giving e =>
    rw [hp] at hstep
    obtain ⟨⟨_, _⟩, -, hstep⟩ := Option.bind_eq_some_iff.mp hstep
    cases hstep
    exact hgoTo _ rfl
  | leaving n place id handle =>
    rw [hp] at hstep
    cases hstep
    exact hgoTo _ rfl
  | returned n place id handle =>
    rw [hp] at hstep
    cases handle with
    | none =>
      cases hstep
      exact hgoTo _ rfl
    | some handle =>
      obtain ⟨⟨_, _⟩, -, hstep⟩ := Option.bind_eq_some_iff.mp hstep
      obtain ⟨_, -, hstep⟩ := Option.bind_eq_some_iff.mp hstep
      cases hstep
      exact hgoTo _ rfl
  | settling e kept =>
    rw [hp] at hstep
    obtain ⟨_, -, hstep⟩ := Option.bind_eq_some_iff.mp hstep
    obtain ⟨_, -, hstep⟩ := Option.bind_eq_some_iff.mp hstep
    obtain ⟨_, -, hstep⟩ := Option.bind_eq_some_iff.mp hstep
    obtain ⟨_, -, hstep⟩ := Option.bind_eq_some_iff.mp hstep
    cases hstep
    exact hgoTo _ rfl

/-- The thread that acts. -/
def Action.thread : Action → ℕ
  | .allocate t _ | .free t _ | .resume t => t

/-- An action leaves the other threads where they are. -/
theorem point_of_next {sc : SizeClass} {a : Action} {u : ℕ}
    (hstep : next sc sizeIdx s a = some s') (hne : u ≠ a.thread) : s'.point u = s.point u := by
  cases a with
  | allocate t n =>
    unfold SubpagePool.next at hstep
    dsimp only at hstep
    split_ifs at hstep
    obtain ⟨s₁, hlocked, hstep⟩ := Option.bind_eq_some_iff.mp hstep
    cases hstep
    rw [State.point_of_lock hlocked]
    exact Function.update_of_ne hne _ _
  | free t e =>
    unfold SubpagePool.next at hstep
    dsimp only at hstep
    split_ifs at hstep
    obtain ⟨s₁, hlocked, hstep⟩ := Option.bind_eq_some_iff.mp hstep
    cases hstep
    have hpoint := State.point_of_lock hlocked (.freeing e)
    exact (congrFun hpoint u).trans (Function.update_of_ne hne _ _)
  | resume t => exact point_of_resume hstep hne

/-- The condition, for the threads of a list. -/
def ExcludesAmong (threads : List ℕ) (s : State) : Action → Prop
  | .allocate _ _ => ∀ u ∈ threads, ¬(s.point u).InSubpage
  | .free _ _ => True
  | .resume t => (s.point t).CallsSubpage → ∀ u ∈ threads, ¬(s.point u).InPool

instance (threads : List ℕ) (s : State) (a : Action) : Decidable (ExcludesAmong threads s a) :=
  match a with
  | .allocate _ _ => inferInstanceAs (Decidable (∀ u ∈ threads, ¬(s.point u).InSubpage))
  | .free _ _ => inferInstanceAs (Decidable True)
  | .resume t => inferInstanceAs
      (Decidable ((s.point t).CallsSubpage → ∀ u ∈ threads, ¬(s.point u).InPool))

/-- In a run of some threads it is enough that these exclude each other. -/
theorem excludes_of_among {k : PoolConfig} (threads : List ℕ) {u : State}
    {trace : List (State × Action)} (hrun : (machine k sizeIdx).Run s trace u)
    (hidle : ∀ t ∉ threads, s.point t = .idle)
    (hall : ∀ p ∈ trace, p.2.thread ∈ threads ∧ ExcludesAmong threads p.1 p.2) :
    ∀ p ∈ trace, Excludes p.1 p.2 := by
  refine hrun.forall_steps (C := fun s a => a.thread ∈ threads ∧ ExcludesAmong threads s a)
    (I := fun s => ∀ t ∉ threads, s.point t = .idle) ?_ ?_ hidle hall
  · rintro s a s' hidle ⟨hthread, -⟩ hstep t ht
    rw [point_of_next hstep (by rintro rfl; exact ht hthread)]
    exact hidle t ht
  · rintro s a s' hidle ⟨-, hamong⟩ -
    cases a with
    | allocate t n =>
      intro u hu
      by_cases hmem : u ∈ threads
      · exact hamong u hmem hu
      · rw [hidle u hmem] at hu
        exact hu
    | free t e => trivial
    | resume t =>
      intro hcalls u hu
      by_cases hmem : u ∈ threads
      · exact hamong hcalls u hmem hu
      · rw [hidle u hmem] at hu
        exact hu

/-- The first thread links a new subpage and takes its first element. When it has left
`allocateSubpage`, the second thread takes the next element from the pool. Then the first
thread frees its element. -/
def carvedThenShared : List Action :=
  .allocate 1 16 :: List.replicate 18 (.resume 1) ++
    [.allocate 2 16, .resume 2, .resume 1, .resume 2, .resume 1, .resume 2,
      .free 1 ⟨⟨0, 30064771072, 16⟩, (.pooled 0, 0)⟩] ++ List.replicate 5 (.resume 1)

/-- Throughout that run the sections exclude each other, and in the end the subpage is in the
pool and the second thread has its second element. -/
theorem serialised_iff_excludes_carvedThenShared :
    ∃ u, carvedThenShared.foldlM (next PoolConfig.default.sizeClass 0) idleState = some u ∧
      u.point 1 = .idle ∧ u.point 2 = .idle ∧ u.arena.store.pools 0 = [(0, 0)] ∧
      u.handed = [⟨⟨0, 30064771073, 16⟩, (.pooled 0, 16)⟩] ∧
      ∀ s ∈ Machine.visited (Machine.traceOf (next PoolConfig.default.sizeClass 0) idleState
        carvedThenShared) u, Serialised s := by
  have hend : (carvedThenShared.foldlM (next PoolConfig.default.sizeClass 0) idleState).map
      (fun u => (u.point 1, u.point 2, u.arena.store.pools 0, u.handed)) =
        some (.idle, .idle, [(0, 0)], [⟨⟨0, 30064771073, 16⟩, (.pooled 0, 16)⟩]) := by
    decide +kernel
  obtain ⟨u, hrun, hend⟩ := Option.map_eq_some_iff.mp hend
  simp only [Prod.mk.injEq] at hend
  obtain ⟨hfirst, hsecond, hpool, hhanded⟩ := hend
  have htrace : (machine .default 0).Run idleState
      (Machine.traceOf (next PoolConfig.default.sizeClass 0) idleState carvedThenShared) u :=
    .of_foldlM hrun
  refine ⟨u, hrun, hfirst, hsecond, hpool, hhanded,
    (serialised_iff_excludes (machine_init_idleState _ _) htrace).mpr ?_⟩
  exact excludes_of_among [1, 2] htrace (fun _ _ => rfl) (by decide +kernel)

/-- The first thread links a subpage of one element; the second one takes the element
before the first one does. -/
def takenBetween : List Action :=
  .allocate 1 16384 :: List.replicate 16 (.resume 1) ++
    [.allocate 2 16384, .resume 2, .resume 2, .resume 2] ++ List.replicate 3 (.resume 1)

/-- The state after these steps. -/
def afterTakenBetween : State :=
  (takenBetween.foldlM (next PoolConfig.default.sizeClass 35) idleState).getD idleState

theorem afterTakenBetween_eq :
    takenBetween.foldlM (next PoolConfig.default.sizeClass 35) idleState =
      some afterTakenBetween := by
  have hsome : (takenBetween.foldlM (next PoolConfig.default.sizeClass 35)
      idleState).isSome = true := by
    decide +kernel
  rw [afterTakenBetween, Option.getD_of_ne_none (Option.isSome_iff_ne_none.mp hsome)]

/-- `assert(ret)` fails in the first thread. -/
theorem takenBetween_not_serialised :
    ∃ trace t, (machine .default 35).Run idleState trace t ∧ t.point 1 = .failed ∧
      ¬Serialised t := by
  have hfailed : afterTakenBetween.point 1 = .failed := by decide +kernel
  exact ⟨_, afterTakenBetween, .of_foldlM afterTakenBetween_eq, hfailed, fun h => h.ret 1 hfailed⟩

end SubpagePool

end DuoDuo.Buffer
