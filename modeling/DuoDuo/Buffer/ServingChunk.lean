import DuoDuo.Buffer.CacheOwnership
import DuoDuo.Buffer.RunChoice

/-!
# Where a region is carved, and the pointer that comes with it

A chunk carves a region at the beginning of the run that `runBestFit` finds, and gives
the last pointer of `m_cachedBuffers` away with it. The chunk is the first of the lists
that has such a run.
-/

namespace DuoDuo.Buffer

open Library PoolChunk PoolArena ChunkListName

namespace PoolChunk

/-- The run of which `allocateRun` takes pages: the first one of the queue that
`runBestFit` finds. -/
def bestRun (sc : SizeClass) (c : PoolChunk) (runSize : ℕ) : Option ℕ :=
  (c.runBestFit sc (sc.page2pageIdx (runSize >>> sc.pageShifts))).bind fun runAvailIdx =>
    BestFitQueue.top (c.runsAvail runAvailIdx)

/-- The run of which a chunk carves a region of a class. -/
def runFor (sc : SizeClass) (c : PoolChunk) (sizeIdx : ℕ) : Option ℕ :=
  if sizeIdx ≤ sc.smallMaxSizeIdx then (calculateRunSize sc sizeIdx).bind (c.bestRun sc)
  else c.bestRun sc (sc.sizeIdx2size sizeIdx)

end PoolChunk

/-- A region that `initBuf` describes has the handle that it is given. -/
theorem ChunkStore.initBuf_handle {sc : SizeClass} {s : ChunkStore} {id handle reqCapacity : ℕ}
    {buffer : Option Addr} {cache : Bool} {r : Region}
    (h : s.initBuf sc id buffer handle reqCapacity cache = some r) :
    r.chunk = .pooled id ∧ r.handle = handle := by
  rw [initBuf] at h
  split_ifs at h
  · obtain ⟨c, _, h⟩ := Option.bind_eq_some_iff.mp h
    obtain ⟨sp, _, h⟩ := Option.bind_eq_some_iff.mp h
    split_ifs at h
    cases h
    exact ⟨rfl, rfl⟩
  · cases h
    exact ⟨rfl, rfl⟩

/-- A chunk that is asked for a handle is there. -/
theorem ChunkStore.exists_chunk_of_allocateHandle {sc : SizeClass} {s s' : ChunkStore}
    {id sizeIdx : ℕ} {res : Option ℕ} (h : s.allocateHandle sc id sizeIdx = some (res, s')) :
    ∃ c, s.chunks id = some c := by
  rw [allocateHandle] at h
  split_ifs at h
  · obtain ⟨c, hid, _⟩ := Option.bind_eq_some_iff.mp h
    exact ⟨c, hid⟩
  · obtain ⟨c, hid, _⟩ := Option.bind_eq_some_iff.mp h
    exact ⟨c, hid⟩

/-- A handle of the beginning of a run. -/
structure Begins (run handle : ℕ) : Prop where
  runOffset : calculateRunOffset handle = calculateRunOffset run
  bitmapIdx : isSubpage handle = true → calculateBitmapIdx handle = 0

theorem Begins.offset_eq {k : PoolConfig} {run : ℕ} {g : Grant} (h : Begins run g.handle) :
    g.offset k = calculateRunOffset run <<< k.pageShifts := by
  rw [Grant.offset, h.runOffset]
  split
  · next hsub => rw [h.bitmapIdx hsub, Nat.zero_mul, Nat.add_zero]
  · rfl

/-- The element that is next is given out first. -/
theorem PoolSubpage.allocate_next {pools pools' : Pools} {sp sp' : PoolSubpage} {idx handle : ℕ}
    (hnext : sp.nextAvail = some idx)
    (halloc : sp.allocate pools = some (some handle, sp', pools')) : handle = sp'.toHandle idx := by
  have hget : sp.getNextAvail = (some idx, { sp with nextAvail := none }) := by
    rw [getNextAvail, hnext]
  rw [allocate, hget] at halloc
  split_ifs at halloc
  · cases halloc
  · obtain ⟨_, ⟨⟩, halloc⟩ := Option.bind_eq_some_iff.mp halloc
    obtain ⟨sp₁, _, halloc⟩ := Option.bind_eq_some_iff.mp halloc
    dsimp only at halloc
    split_ifs at halloc
    · obtain ⟨⟨sp₂, pools₂⟩, _, halloc⟩ := Option.bind_eq_some_iff.mp halloc
      cases halloc
      rfl
    · cases halloc
      rfl

/-- A new subpage gives out its first element first. -/
theorem PoolSubpage.nextAvail_new {head chunk pageShifts runOffset runSize elemSize : ℕ}
    {pools pools' : Pools} {sp : PoolSubpage}
    (hnew : PoolSubpage.new head chunk pageShifts runOffset runSize elemSize pools =
      some (sp, pools')) : sp.nextAvail = some 0 := by
  rw [PoolSubpage.new, addToPool] at hnew
  split_ifs at hnew
  cases hnew
  rfl

variable {k : PoolConfig} {id sizeIdx : ℕ} {c : PoolChunk} {bs : ℕ → Option ℕ}

/-- A chunk hands out the beginning of the run that `runBestFit` finds, if it finds one. -/
theorem ChunkInv.allocateRun_begins (hc : ChunkInv k id c bs) {runSize : ℕ} {r : Option ℕ}
    {c' : PoolChunk} (h : c.allocateRun k.sizeClass runSize = some (r, c')) :
    (r = none ∧ c.bestRun k.sizeClass runSize = none) ∨
    ∃ run handle, c.bestRun k.sizeClass runSize = some run ∧ r = some handle ∧
      calculateRunOffset handle = calculateRunOffset run ∧ isSubpage handle = false := by
  rw [bestRun]
  rcases allocateRun_bestFit h with ⟨hfit, rfl, -⟩ |
    ⟨i, run, handle, c₂, hfit, htop, -, hsplit, rfl, -⟩
  · rw [hfit]
    exact .inl ⟨rfl, rfl⟩
  · obtain ⟨-, -, -, -, -, hsub⟩ := hc.queue_of_mem (List.min?_mem htop)
    obtain ⟨hoffset, -, -, hrun⟩ := splitLargeRun_spec hsub hsplit
    rw [hfit]
    exact .inr ⟨run, handle, htop, rfl, hoffset, hrun⟩

variable {s s' : ChunkStore} {blocks : ℕ → ℕ → Option ℕ} {owned : List Grant}

/-- The handle that a chunk finds begins the run of the chunk for the class. -/
theorem StoreInv.allocateHandle_begins (h : StoreInv k s blocks owned)
    (hid : s.chunks id = some c) {res : Option ℕ}
    (hstep : s.allocateHandle k.sizeClass id sizeIdx = some (res, s')) :
    (res = none ∧ c.runFor k.sizeClass sizeIdx = none) ∨ ∃ handle run, res = some handle ∧
      c.runFor k.sizeClass sizeIdx = some run ∧ Begins run handle := by
  have hc := h.chunk hid
  rw [ChunkStore.allocateHandle] at hstep
  rw [PoolChunk.runFor]
  split_ifs at hstep ⊢ with hsmall
  · obtain ⟨_, hid', hrest⟩ := Option.bind_eq_some_iff.mp hstep
    rw [hid] at hid'
    cases hid'
    obtain ⟨⟨r', c', pools⟩, hsubpage, hrest⟩ := Option.bind_eq_some_iff.mp hrest
    cases hrest
    obtain ⟨head, runSize, hhead, hsize, hcases⟩ := allocateSubpage_cases hsubpage
    rw [hsize, Option.bind_some]
    rcases hcases with ⟨hrun, rfl, -⟩ | ⟨run, c₁, sp₀, pools₁, sp', hrun, -, hnew, halloc, rfl⟩
    · rcases hc.allocateRun_begins hrun with ⟨-, hbest⟩ | ⟨_, _, _, hsome, _⟩
      · exact .inl ⟨rfl, hbest⟩
      · cases hsome
    · rcases hc.allocateRun_begins hrun with ⟨hnone, -⟩ | ⟨best, _, hbest, hsome, hoffset, -⟩
      · cases hnone
      cases hsome
      have hlink : ∀ o, c.subpages o = none → s.link (id, o) = none := by
        intro o hnone
        rw [ChunkStore.link, hid, Option.bind_some, hnone]
        rfl
      rw [findSubpagePoolHead, Option.ite_none_right_eq_some, Option.some.injEq] at hhead
      obtain ⟨hlt, rfl⟩ := hhead
      obtain ⟨o, sp₁, _, sp, i, _, blocks', ho, _, hnew', halloc', hset, _, hc', hrest⟩ :=
        hc.newSubpage h.pools hlink hlt hsize hrun
      rw [ho, hnew'] at hnew
      cases hnew
      rw [halloc'] at halloc
      cases halloc
      have hzero := PoolSubpage.allocate_next (PoolSubpage.nextAvail_new hnew') halloc'
      have hat := hc'.subpage o sp' (subpages_setSubpage_self _ _ _)
      obtain ⟨_, _, _, hpages, hlt, _⟩ := hat.bounds hc'.runs
      refine .inr ⟨_, best, rfl, hbest, ?_, fun _ => ?_⟩
      · rw [hzero, PoolSubpage.calculateRunOffset_toHandle hpages hlt (by decide), hat.runOffset,
          ← ho, hoffset]
      · rw [hzero, PoolSubpage.calculateBitmapIdx_toHandle hpages hlt (by decide)]
  · obtain ⟨_, hid', hrest⟩ := Option.bind_eq_some_iff.mp hstep
    rw [hid] at hid'
    cases hid'
    obtain ⟨⟨r', c'⟩, hrun, hrest⟩ := Option.bind_eq_some_iff.mp hrest
    cases hrest
    rcases hc.allocateRun_begins hrun with ⟨rfl, hbest⟩ | ⟨run, handle, hbest, rfl, hoffset, hsub⟩
    · exact .inl ⟨rfl, hbest⟩
    · refine .inr ⟨handle, run, rfl, hbest, hoffset, fun h => ?_⟩
      rw [hsub] at h
      cases h

/-- A region that a chunk hands out begins the run of the chunk for the class. -/
theorem StoreInv.allocate_begins (h : StoreInv k s blocks owned) (hid : s.chunks id = some c)
    {res : Option Region} {reqCapacity : ℕ} {cache : Bool}
    (hstep : s.allocate k.sizeClass id reqCapacity sizeIdx cache = some (res, s')) :
    (res = none ∧ c.runFor k.sizeClass sizeIdx = none) ∨ ∃ r run, res = some r ∧
      c.runFor k.sizeClass sizeIdx = some run ∧ r.chunk = .pooled id ∧ Begins run r.handle := by
  obtain ⟨⟨handle, s₁⟩, hhandle, hrest⟩ := Option.bind_eq_some_iff.mp hstep
  rcases h.allocateHandle_begins hid hhandle with ⟨rfl, hnone⟩ | ⟨handle, run, rfl, hrun, hbegins⟩
  · cases hrest
    exact .inl ⟨rfl, hnone⟩
  · dsimp only at hrest
    split_ifs at hrest
    obtain ⟨c', _, hrest⟩ := Option.bind_eq_some_iff.mp hrest
    obtain ⟨r, hinit, hrest⟩ := Option.bind_eq_some_iff.mp hrest
    cases hrest
    obtain ⟨hchunk, hhandle⟩ := ChunkStore.initBuf_handle hinit
    exact .inr ⟨r, run, rfl, hrun, hchunk, hhandle ▸ hbegins⟩

namespace PoolArena

variable {a a' : PoolArena}

/-- A chunk, with its run for a class. -/
def runOf (sc : SizeClass) (a : PoolArena) (sizeIdx id : ℕ) : Option (ℕ × ℕ) :=
  (a.store.chunks id).bind fun c => (c.runFor sc sizeIdx).map (id, ·)

/-- The first chunk of a list that has a run for a class, unless the list is passed over. -/
def listCarving (sc : SizeClass) (a : PoolArena) (sizeIdx : ℕ) (l : ChunkListName) :
    Option (ℕ × ℕ) :=
  if l.maxCapacity sc < sc.sizeIdx2size sizeIdx then none
  else (a.chunksOf l).findSome? (a.runOf sc sizeIdx)

/-- The chunk of the lists of which `allocateNormal` carves a region of a class, with the
run. -/
def carving (sc : SizeClass) (a : PoolArena) (sizeIdx : ℕ) : Option (ℕ × ℕ) :=
  [q50, q25, q00, qInit, q75].findSome? (a.listCarving sc sizeIdx)

end PoolArena

variable {a a' : PoolArena} {reqCapacity : ℕ} {cache : Bool} {res : Option Region}

/-- The loop over the chunks of a list carves the first run that there is. -/
theorem Owns.allocateFrom_begins (h : Owns k a owned) {l : ChunkListName} {ids : List ℕ}
    (hstep : PoolArena.allocateFrom k.sizeClass l reqCapacity sizeIdx cache a ids = some (res, a')) :
    (res = none ∧ ids.findSome? (a.runOf k.sizeClass sizeIdx) = none) ∨
      ∃ r id run, res = some r ∧ ids.findSome? (a.runOf k.sizeClass sizeIdx) = some (id, run) ∧
        r.chunk = .pooled id ∧ Begins run r.handle := by
  obtain ⟨blocks, h⟩ := h
  induction ids with
  | nil =>
    cases hstep
    exact .inl ⟨rfl, rfl⟩
  | cons cur ids ih =>
    obtain ⟨⟨region, store⟩, halloc, hrest⟩ := Option.bind_eq_some_iff.mp hstep
    obtain ⟨⟨handle, s₁⟩, hhandle, _⟩ := Option.bind_eq_some_iff.mp halloc
    obtain ⟨c, hid⟩ := ChunkStore.exists_chunk_of_allocateHandle hhandle
    rw [List.findSome?_cons, runOf, hid, Option.bind_some]
    rcases h.allocate_begins hid halloc with ⟨rfl, hnone⟩ | ⟨r, run, rfl, hrun, hchunk, hbegins⟩
    · rw [hnone]
      rcases h.allocate halloc with ⟨-, rfl⟩ | ⟨_, _, _, _, _, ⟨⟩, _⟩
      exact ih hrest
    · rw [hrun]
      refine .inr ⟨r, cur, run, ?_, rfl, hchunk, hbegins⟩
      obtain ⟨c', _, hrest⟩ := Option.bind_eq_some_iff.mp hrest
      split_ifs at hrest
      · obtain ⟨next, _, hrest⟩ := Option.bind_eq_some_iff.mp hrest
        obtain ⟨a₁, _, hrest⟩ := Option.bind_eq_some_iff.mp hrest
        obtain ⟨a₂, _, hrest⟩ := Option.bind_eq_some_iff.mp hrest
        cases hrest
        rfl
      · cases hrest
        rfl

/-- The search through the lists carves the first run that there is. -/
theorem Owns.allocateLists_begins (h : Owns k a owned) {ls : List ChunkListName}
    (hstep : PoolArena.allocateLists k.sizeClass reqCapacity sizeIdx cache a ls = some (res, a')) :
    (res = none ∧ ls.findSome? (a.listCarving k.sizeClass sizeIdx) = none) ∨
      ∃ r id run, res = some r ∧
        ls.findSome? (a.listCarving k.sizeClass sizeIdx) = some (id, run) ∧
        r.chunk = .pooled id ∧ Begins run r.handle := by
  induction ls with
  | nil =>
    cases hstep
    exact .inl ⟨rfl, rfl⟩
  | cons l ls ih =>
    obtain ⟨⟨region, a₁⟩, hlist, hrest⟩ := Option.bind_eq_some_iff.mp hstep
    rw [List.findSome?_cons, listCarving]
    rw [listAllocate] at hlist
    split_ifs at hlist ⊢
    · cases hlist
      exact ih hrest
    · rcases h.allocateFrom_begins hlist with ⟨rfl, hnone⟩ |
        ⟨r, id, run, rfl, hrun, hchunk, hbegins⟩
      · rw [hnone]
        rcases h.allocateFrom hlist with ⟨-, rfl⟩ | ⟨_, _, ⟨⟩, _⟩
        exact ih hrest
      · rw [hrun]
        cases hrest
        exact .inr ⟨r, id, run, rfl, rfl, hchunk, hbegins⟩

/-- A buffer reads where it writes. -/
def Region.Aligned (r : Region) : Prop := r.tmpBuf = r.memory.add r.offset

instance (r : Region) : Decidable r.Aligned := inferInstanceAs (Decidable (_ = _))

/-- A region reads where it writes when the pointer that comes with it, if there is one, is
its own beginning. -/
theorem Grant.aligned_region_iff {g : Grant} {buffer : Option Addr} {length : ℕ} {cache : Bool} :
    (g.region k buffer length cache).Aligned ↔ ∀ ptr, buffer = some ptr → ptr = g.addr k := by
  have hstart : Addr.add (.pooled g.chunk, 0) (g.offset k) = g.addr k := by
    rw [Addr.add, Nat.zero_add, addr]
  cases buffer with
  | none => exact iff_of_true rfl nofun
  | some ptr =>
    rw [Region.Aligned, region, Region.init0, Option.getD_some, hstart]
    simp

/-- The last pointer of the chunk that `allocateNormal` carves a region of, if it has one, is
the beginning of the region. -/
def PoolArena.CarvesRight (k : PoolConfig) (a : PoolArena) (sizeIdx : ℕ) : Prop :=
  ∀ p ∈ a.carving k.sizeClass sizeIdx, ∀ ptr ∈ a.store.lastCached p.1,
    ptr = (.pooled p.1, calculateRunOffset p.2 <<< k.pageShifts)

instance (k : PoolConfig) (a : PoolArena) (sizeIdx : ℕ) : Decidable (a.CarvesRight k sizeIdx) :=
  inferInstanceAs (Decidable (∀ p ∈ _, ∀ ptr ∈ _, _))

/-- `allocateNormal` finds a region that reads where it writes exactly when the chunk gives
the right pointer away. -/
theorem Owns.aligned_allocateNormal_iff (h : Owns k a owned) {r : Region}
    (hstep : a.allocateNormal k.sizeClass reqCapacity sizeIdx cache = some (r, a')) :
    r.Aligned ↔ a.CarvesRight k sizeIdx := by
  obtain ⟨g, -, hr⟩ := h.allocateNormal hstep
  have hchunk : r.chunk = .pooled g.chunk := by rw [hr]; rfl
  have hhandle : r.handle = g.handle := by rw [hr]; rfl
  rw [hr, Grant.aligned_region_iff, CarvesRight]
  obtain ⟨⟨region, a₁⟩, hlists, hrest⟩ := Option.bind_eq_some_iff.mp hstep
  rcases h.allocateLists_begins hlists with ⟨rfl, hnone⟩ |
    ⟨r', id, run, rfl, hrun, hchunk', hbegins⟩
  · rw [carving, hnone]
    rcases h.allocateLists hlists with ⟨-, rfl⟩ | ⟨_, _, ⟨⟩, _⟩
    obtain ⟨⟨res, store⟩, halloc, hrest⟩ := Option.bind_eq_some_iff.mp hrest
    obtain ⟨region, hres, hrest⟩ := Option.bind_eq_some_iff.mp hrest
    obtain ⟨a₂, _, hrest⟩ := Option.bind_eq_some_iff.mp hrest
    cases hrest
    obtain ⟨blocks, h⟩ := h
    rw [hres] at halloc
    rcases h.newChunk.allocate_begins (ChunkStore.chunks_newChunk_self _ _) halloc with
      ⟨⟨⟩, _⟩ | ⟨_, _, ⟨⟩, -, hnew, -⟩
    -- a new chunk has no pointers
    rw [hchunk] at hnew
    have hlast : a₁.store.lastCached g.chunk = none := by
      rw [ChunkStore.lastCached, ChunkPtr.pooled.inj hnew, h.chunks_nextChunk]
      rfl
    rw [hlast]
    exact iff_of_true (by rintro _ ⟨⟩) (by rintro _ ⟨⟩)
  · cases hrest
    rw [hchunk] at hchunk'
    cases hchunk'
    rw [hhandle] at hbegins
    rw [carving, hrun, Grant.addr, hbegins.offset_eq]
    constructor
    · rintro hright _ ⟨⟩
      exact hright
    · intro hright
      exact hright _ rfl

/-- The entry that a request of a class takes from the cache, if there is one. -/
def PoolThreadCache.nextEntry (sc : SizeClass) (t : PoolThreadCache) (type : SizeClassType)
    (sizeIdx : ℕ) : Option Entry :=
  (cacheFor sc type sizeIdx).bind fun idx => ((t.caches type)[idx]?).bind fun m => m.queue.head?

variable {t t' : PoolThreadCache} {type : SizeClassType} {rest : List Grant} {r : Region}

/-- A request to the caches takes the first entry of the cache of its class. -/
theorem Owns.cacheAllocate_nextEntry (h : Owns k a (t.grants ++ rest))
    (hstep : a.cacheAllocate k.sizeClass t type reqCapacity sizeIdx = some (res, t', a')) :
    (res = none ∧ t.nextEntry k.sizeClass type sizeIdx = none) ∨
      ∃ e r, res = some r ∧ t.nextEntry k.sizeClass type sizeIdx = some e ∧
        r = e.grant.region k (some e.buffer) reqCapacity r.cache := by
  rw [PoolArena.cacheAllocate] at hstep
  rw [PoolThreadCache.nextEntry]
  split at hstep
  · next hnone =>
    cases hstep
    refine .inl ⟨rfl, ?_⟩
    cases hidx : PoolThreadCache.cacheFor k.sizeClass type sizeIdx with
    | none => rfl
    | some idx =>
      rw [hidx, Option.bind_some, Option.map_eq_none_iff] at hnone
      rw [Option.bind_some, hnone, Option.bind_none]
  · next idx m hfound =>
    obtain ⟨idx', hidx, hfound⟩ := Option.bind_eq_some_iff.mp hfound
    obtain ⟨m', hm, hfound⟩ := Option.map_eq_some_iff.mp hfound
    cases hfound
    rw [hidx, Option.bind_some, hm, Option.bind_some]
    obtain ⟨⟨region, m₁⟩, hregion, hrest⟩ := Option.bind_eq_some_iff.mp hstep
    obtain ⟨⟨t₁, a₁⟩, _, hrest⟩ := Option.bind_eq_some_iff.mp hrest
    cases hrest
    rw [regionCacheAllocate] at hregion
    split at hregion
    · next hempty =>
      cases hregion
      exact .inl ⟨rfl, by rw [hempty]; rfl⟩
    · next e queue hqueue =>
      obtain ⟨region, hinit, hregion⟩ := Option.bind_eq_some_iff.mp hregion
      cases hregion
      have htake : t.grants.Perm (e.grant :: (t.setCache type idx { m with queue }).grants) :=
        PoolThreadCache.grants_setCache hm [e] hqueue
      have hmem : e.grant ∈ t.grants ++ rest :=
        List.mem_append_left _ (htake.mem_iff.mpr List.mem_cons_self)
      exact .inr ⟨e, region, rfl, by rw [hqueue]; rfl, h.initBufFrom hmem hinit⟩

/-- A request of a class gets a region that reads where it writes: the next entry of the cache
has the right pointer, or there is none, and the pool has an element, or the chunk gives the
right pointer away. -/
def PoolArena.AsksRight (k : PoolConfig) (a : PoolArena) (t : PoolThreadCache)
    (type : SizeClassType) (reqCapacity sizeIdx : ℕ) : Prop :=
  match t.nextEntry k.sizeClass type sizeIdx with
  | some e => e.buffer = e.grant.addr k
  | none => ∀ p ∈ a.cacheAllocate k.sizeClass t type reqCapacity sizeIdx,
    (type = .small ∧ p.2.2.store.pools sizeIdx ≠ []) ∨ p.2.2.CarvesRight k sizeIdx

instance (k : PoolConfig) (a : PoolArena) (t : PoolThreadCache) (type : SizeClassType)
    (reqCapacity sizeIdx : ℕ) : Decidable (a.AsksRight k t type reqCapacity sizeIdx) :=
  match hnext : t.nextEntry k.sizeClass type sizeIdx with
  | some e => decidable_of_iff (e.buffer = e.grant.addr k) (by rw [PoolArena.AsksRight, hnext])
  | none =>
    decidable_of_iff (∀ p ∈ a.cacheAllocate k.sizeClass t type reqCapacity sizeIdx,
      (type = .small ∧ p.2.2.store.pools sizeIdx ≠ []) ∨ p.2.2.CarvesRight k sizeIdx)
      (by rw [PoolArena.AsksRight, hnext])

/-- A request gets a region that reads where it writes. -/
def PoolArena.ServesRight (k : PoolConfig) (a : PoolArena) (t : PoolThreadCache)
    (reqCapacity : ℕ) : Prop :=
  if k.sizeClass.size2sizeIdx reqCapacity ≤ k.sizeClass.smallMaxSizeIdx then
    a.AsksRight k t .small reqCapacity (k.sizeClass.size2sizeIdx reqCapacity)
  else k.sizeClass.size2sizeIdx reqCapacity < k.sizeClass.nSizes →
    a.AsksRight k t .normal reqCapacity (k.sizeClass.size2sizeIdx reqCapacity)

instance (k : PoolConfig) (a : PoolArena) (t : PoolThreadCache) (reqCapacity : ℕ) :
    Decidable (a.ServesRight k t reqCapacity) :=
  inferInstanceAs (Decidable
    (if k.sizeClass.size2sizeIdx reqCapacity ≤ k.sizeClass.smallMaxSizeIdx then
      a.AsksRight k t .small reqCapacity (k.sizeClass.size2sizeIdx reqCapacity)
    else k.sizeClass.size2sizeIdx reqCapacity < k.sizeClass.nSizes →
      a.AsksRight k t .normal reqCapacity (k.sizeClass.size2sizeIdx reqCapacity)))

/-- What `AsksRight` means when the cache has no region. -/
theorem PoolArena.asksRight_iff (hnext : t.nextEntry k.sizeClass type sizeIdx = none)
    (hcache : a.cacheAllocate k.sizeClass t type reqCapacity sizeIdx = some (none, t', a')) :
    a.AsksRight k t type reqCapacity sizeIdx ↔
      (type = .small ∧ a'.store.pools sizeIdx ≠ []) ∨ a'.CarvesRight k sizeIdx := by
  rw [AsksRight, hnext, hcache]
  constructor
  · intro hasks
    exact hasks _ rfl
  · rintro hright _ ⟨⟩
    exact hright

/-- What `AsksRight` means when the cache has a region. -/
theorem Grant.aligned_iff_asksRight {e : Entry}
    (hnext : t.nextEntry k.sizeClass type sizeIdx = some e) {length : ℕ} :
    (e.grant.region k (some e.buffer) length cache).Aligned ↔
      a.AsksRight k t type reqCapacity sizeIdx := by
  rw [aligned_region_iff, AsksRight, hnext]
  simp

/-- A region of an element of a pool reads where it writes, and the pool had the element. -/
theorem Owns.aligned_pooledAllocate (h : Owns k a owned)
    (hstep : a.pooledAllocate k.sizeClass reqCapacity sizeIdx = some (res, a')) :
    (res = none ∧ a' = a ∧ a.store.pools sizeIdx = []) ∨
      ∃ r, res = some r ∧ r.Aligned ∧ a.store.pools sizeIdx ≠ [] := by
  obtain ⟨⟨element, store⟩, hpool, hrest⟩ := Option.bind_eq_some_iff.mp hstep
  rcases allocatePooled_cases hpool with ⟨rfl, rfl, hempty⟩ |
    ⟨id, o, _, _, handle, _, _, rfl, hmem, _⟩
  · cases hrest
    exact .inl ⟨rfl, rfl, hempty⟩
  · obtain ⟨r, _, hrest⟩ := Option.bind_eq_some_iff.mp hrest
    cases hrest
    rcases h.pooledAllocate hstep with ⟨⟨⟩, -⟩ | ⟨g, r', hr', -, hr⟩
    cases hr'
    refine .inr ⟨r, rfl, ?_, List.ne_nil_of_mem hmem⟩
    rw [hr]
    exact Grant.aligned_region_iff.mpr nofun

/-- `allocate` finds a region that reads where it writes exactly when the request is served
right. -/
theorem Owns.aligned_allocate_iff (h : Owns k a (t.grants ++ rest))
    (hstep : a.allocate k.sizeClass t reqCapacity = some (r, t', a')) :
    r.Aligned ↔ a.ServesRight k t reqCapacity := by
  rw [PoolArena.allocate] at hstep
  rw [PoolArena.ServesRight]
  dsimp only at hstep ⊢
  split_ifs at hstep ⊢ with hsmall hnormal
  · obtain ⟨⟨region, t₁, a₁⟩, hcache, hrest⟩ := Option.bind_eq_some_iff.mp hstep
    rcases h.cacheAllocate_nextEntry hcache with ⟨rfl, hnext⟩ | ⟨e, r', rfl, hnext, hr⟩
    · rw [asksRight_iff hnext hcache]
      obtain ⟨-, ⟨-, h₁⟩ | ⟨_, _, ⟨⟩, _⟩⟩ := h.cacheAllocate hcache
      obtain ⟨⟨region, a₂⟩, hpool, hpooled⟩ := Option.bind_eq_some_iff.mp hrest
      rcases h₁.aligned_pooledAllocate hpool with ⟨rfl, rfl, hempty⟩ | ⟨r', rfl, hright, hne⟩
      · obtain ⟨⟨region, a₃⟩, hchunk, hpooled⟩ := Option.bind_eq_some_iff.mp hpooled
        cases hpooled
        rw [h₁.aligned_allocateNormal_iff hchunk, or_iff_right (fun hne => hne.2 hempty)]
      · cases hpooled
        exact iff_of_true hright (.inl ⟨rfl, hne⟩)
    · cases hrest
      rw [hr]
      exact Grant.aligned_iff_asksRight hnext
  · obtain ⟨⟨region, t₁, a₁⟩, hcache, hrest⟩ := Option.bind_eq_some_iff.mp hstep
    rw [forall_prop_of_true hnormal]
    rcases h.cacheAllocate_nextEntry hcache with ⟨rfl, hnext⟩ | ⟨e, r', rfl, hnext, hr⟩
    · rw [asksRight_iff hnext hcache]
      obtain ⟨-, ⟨-, h₁⟩ | ⟨_, _, ⟨⟩, _⟩⟩ := h.cacheAllocate hcache
      obtain ⟨⟨region, a₃⟩, hchunk, hrest⟩ := Option.bind_eq_some_iff.mp hrest
      cases hrest
      rw [h₁.aligned_allocateNormal_iff hchunk, or_iff_right (by rintro ⟨⟨⟩, -⟩)]
    · cases hrest
      rw [hr]
      exact Grant.aligned_iff_asksRight hnext
  · obtain ⟨⟨region, a₁⟩, hhuge, hrest⟩ := Option.bind_eq_some_iff.mp hstep
    cases hrest
    rw [allocateHuge] at hhuge
    split_ifs at hhuge
    cases hhuge
    exact iff_of_true rfl (fun hlt => absurd hlt hnormal)

end DuoDuo.Buffer
