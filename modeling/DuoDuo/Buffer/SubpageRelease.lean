import DuoDuo.Buffer.ListPlacement
import DuoDuo.Buffer.RunAllocator

/-!
# The release of subpages

When every region has come back, a pool should keep at most one subpage, and the runs of
all others should be available again. `PoolSubpage::free` links a full subpage without a
look at how many elements it has, so that a subpage of one element is never released.
-/

namespace DuoDuo.Buffer

open Library PoolChunk PoolSubpage PoolArena

namespace PoolSubpage

variable {sp sp' : PoolSubpage} {pools pools' : Pools} {head i handle : ℕ} {kept : Bool}

/-- `setBit` marks one element. -/
theorem setBit_rest (h : sp.setBit i = some sp') :
    SameRun sp sp' ∧ sp'.numAvail = sp.numAvail - 1 := by
  obtain ⟨word, _, h⟩ := Option.bind_eq_some_iff.mp h
  split_ifs at h
  cases h
  exact ⟨⟨rfl, rfl, rfl, rfl, rfl, rfl⟩, rfl⟩

/-- `allocate` takes one element. -/
theorem allocate_rest (h : sp.allocate pools = some (some handle, sp', pools')) :
    SameRun sp sp' ∧ sp'.numAvail + 1 = sp.numAvail := by
  unfold allocate at h
  split_ifs at h with hnone
  · cases h
  · have hpos : sp.numAvail ≠ 0 := fun heq => hnone (Or.inl heq)
    have hnext : SameRun sp sp.getNextAvail.2 ∧ sp.getNextAvail.2.numAvail = sp.numAvail := by
      unfold getNextAvail
      split <;> exact ⟨⟨rfl, rfl, rfl, rfl, rfl, rfl⟩, rfl⟩
    obtain ⟨idx, _, h⟩ := Option.bind_eq_some_iff.mp h
    obtain ⟨mid, hmid, h⟩ := Option.bind_eq_some_iff.mp h
    obtain ⟨hrun, havail⟩ := setBit_rest hmid
    have hrun : SameRun sp mid :=
      ⟨hrun.chunk.trans hnext.1.chunk, hrun.pageShifts.trans hnext.1.pageShifts,
        hrun.runOffset.trans hnext.1.runOffset, hrun.runSize.trans hnext.1.runSize,
        hrun.elemSize.trans hnext.1.elemSize, hrun.maxNumElems.trans hnext.1.maxNumElems⟩
    have havail : mid.numAvail = sp.numAvail - 1 := by
      rw [← hnext.2]
      exact havail
    have htaken : mid.numAvail + 1 = sp.numAvail := by omega
    dsimp only at h
    split_ifs at h
    · obtain ⟨⟨sp₂, pools₂⟩, hremove, h⟩ := Option.bind_eq_some_iff.mp h
      obtain ⟨head, _, hremove⟩ := Option.map_eq_some_iff.mp hremove
      cases hremove
      cases h
      exact ⟨⟨hrun.chunk, hrun.pageShifts, hrun.runOffset, hrun.runSize, hrun.elemSize,
        hrun.maxNumElems⟩, htaken⟩
    · cases h
      exact ⟨hrun, htaken⟩

/-- `free` gives one element back. It keeps a subpage that is free as a whole only when
that is alone in its pool or has one element, and never releases one of one element. -/
theorem free_rest (h : sp.free head i pools = some (kept, sp', pools')) (hpos : sp.elemSize ≠ 0) :
    SameRun sp sp' ∧ sp'.numAvail = sp.numAvail + 1 ∧
      (kept = true → sp'.numAvail = sp'.maxNumElems → sp'.maxNumElems ≠ 1 →
        sp.aloneInPool pools = true) ∧
      (kept = false → sp.maxNumElems ≠ 1) := by
  rw [free, if_neg hpos] at h
  obtain ⟨mid, hmid, h⟩ := Option.bind_eq_some_iff.mp h
  obtain ⟨word, _, hmid⟩ := Option.bind_eq_some_iff.mp hmid
  split_ifs at hmid
  cases hmid
  dsimp only at h
  split_ifs at h with hone hpart halone
  · obtain ⟨p, hadd, h⟩ := Option.map_eq_some_iff.mp h
    unfold addToPool at hadd
    split_ifs at hadd
    cases hadd
    cases h
    refine ⟨⟨rfl, rfl, rfl, rfl, rfl, rfl⟩, rfl, fun _ hall hne => ?_, by rintro ⟨⟩⟩
    dsimp only at hall hne
    omega
  · cases h
    exact ⟨⟨rfl, rfl, rfl, rfl, rfl, rfl⟩, rfl, fun _ hall => absurd hall hpart, by rintro ⟨⟩⟩
  · cases h
    exact ⟨⟨rfl, rfl, rfl, rfl, rfl, rfl⟩, rfl, fun _ _ _ => halone, by rintro ⟨⟩⟩
  · obtain ⟨p, hremove, h⟩ := Option.map_eq_some_iff.mp h
    obtain ⟨head', _, hremove⟩ := Option.map_eq_some_iff.mp hremove
    cases hremove
    cases h
    refine ⟨⟨rfl, rfl, rfl, rfl, rfl, rfl⟩, rfl, by rintro ⟨⟩, fun _ heq => ?_⟩
    omega

/-- No more elements are free than there are. -/
theorem Core.numAvail_le (h : sp.Core) : sp.numAvail ≤ sp.maxNumElems := by
  rw [h.numAvail_eq, numClear]
  exact (Finset.card_filter_le _ _).trans_eq (Finset.card_range _)

end PoolSubpage

/-- The elements of a subpage of a size. -/
def PoolChunk.numElems (sc : SizeClass) (sizeIdx : ℕ) : ℕ :=
  (calculateRunSize sc sizeIdx).elim 0 fun runSize => runSize / sc.sizeIdx2size sizeIdx

/-- The subpage of that name. -/
def ChunkStore.subpage (s : ChunkStore) (ref : SubpageRef) : Option PoolSubpage :=
  (s.chunks ref.1).bind fun c => c.subpages ref.2

section Subpage

variable {s : ChunkStore} {id o : ℕ} {c c' : PoolChunk} {sp : Option PoolSubpage} {pools : Pools}

theorem subpage_of_chunks (hid : s.chunks id = some c) (o : ℕ) :
    s.subpage (id, o) = c.subpages o := by
  rw [ChunkStore.subpage, hid, Option.bind_some]

/-- A chunk that keeps its subpages. -/
theorem subpage_setChunk_same (hid : s.chunks id = some c) (hsub : c'.subpages = c.subpages) :
    (s.setChunk id c' pools).subpage = s.subpage := by
  funext ref
  by_cases hne : ref.1 = id
  · rw [ChunkStore.subpage, ChunkStore.subpage, hne, ChunkStore.chunks_setChunk_self, hid,
      Option.bind_some, Option.bind_some, hsub]
  · rw [ChunkStore.subpage, ChunkStore.subpage, ChunkStore.chunks_setChunk_of_ne _ hne]

/-- A chunk of which one subpage changes. -/
theorem subpage_setChunk (hid : s.chunks id = some c)
    (hsub : c'.subpages = Function.update c.subpages o sp) :
    (s.setChunk id c' pools).subpage = Function.update s.subpage (id, o) sp := by
  funext ref
  obtain ⟨id', o'⟩ := ref
  by_cases hne : id' = id
  · subst hne
    rw [subpage_of_chunks (ChunkStore.chunks_setChunk_self _ _ _ _), hsub]
    by_cases ho : o' = o
    · rw [ho, Function.update_self, Function.update_self]
    · rw [Function.update_of_ne ho, Function.update_of_ne (by simpa using ho),
        subpage_of_chunks hid]
  · rw [Function.update_of_ne (by simp [hne]), ChunkStore.subpage, ChunkStore.subpage,
      ChunkStore.chunks_setChunk_of_ne _ hne]

end Subpage

/-- A subpage of a size is new, and one of its elements is taken. -/
def Carves (k : PoolConfig) (sizeIdx : ℕ) (s s' : ChunkStore) : Prop :=
  ∃ ref sp, s.subpage ref = none ∧ s'.subpage = Function.update s.subpage ref (some sp) ∧
    sp.elemSize = k.sizeClass.sizeIdx2size sizeIdx ∧
    sp.maxNumElems = numElems k.sizeClass sizeIdx ∧ sp.numAvail + 1 = sp.maxNumElems

/-- A request of a size is served: with a new subpage when the size is small. -/
def Serves (k : PoolConfig) (sizeIdx : ℕ) (s s' : ChunkStore) : Prop :=
  if sizeIdx ≤ k.sizeClass.smallMaxSizeIdx then Carves k sizeIdx s s' else s'.subpage = s.subpage

/-- An element of a subpage is taken. -/
def Takes (s s' : ChunkStore) : Prop :=
  ∃ ref sp sp', s.subpage ref = some sp ∧
    s'.subpage = Function.update s.subpage ref (some sp') ∧ SameRun sp sp' ∧
    sp'.numAvail + 1 = sp.numAvail

/-- An element of a subpage is given back. A subpage that is free as a whole then stays
only when it is alone in its pool or has one element, and one of one element stays. -/
def Gives (s s' : ChunkStore) : Prop :=
  ∃ ref sp sp' kept, s.subpage ref = some sp ∧ SameRun sp sp' ∧ sp'.numAvail = sp.numAvail + 1 ∧
    s'.subpage = Function.update s.subpage ref (if kept then some sp' else none) ∧
    (kept = true → sp'.numAvail = sp'.maxNumElems → sp'.maxNumElems ≠ 1 →
      sp.aloneInPool s.pools = true) ∧
    (kept = false → sp.maxNumElems ≠ 1)

section Changes

variable {k : PoolConfig} {s s' : ChunkStore} {blocks : ℕ → ℕ → Option ℕ} {owned : List Grant}
  {id sizeIdx reqCapacity : ℕ} {cache : Bool} {g : Grant} {buffer : Option Addr}

/-- A subpage that was allocated in a chunk. -/
theorem StoreInv.carves_of_allocateSubpage (h : StoreInv k s blocks owned) {handle : ℕ}
    (hstep : s.allocateSubpage k.sizeClass id sizeIdx = some (some handle, s')) :
    Carves k sizeIdx s s' := by
  obtain ⟨c, hid, hstep⟩ := Option.bind_eq_some_iff.mp hstep
  obtain ⟨⟨_, c', pools'⟩, hsubpage, hstep⟩ := Option.bind_eq_some_iff.mp hstep
  cases hstep
  obtain ⟨head, runSize, _, hsize, ⟨_, hnone, _⟩ | ⟨run, c₁, sp, pools₁, sp', hrun, hfree, hnew,
    halloc, rfl⟩⟩ := allocateSubpage_cases hsubpage
  · cases hnone
  obtain ⟨hdvd, _⟩ := calculateRunSize_spec hsize
  obtain ⟨_, _, hsub, _, _, _, _, _, hpages, _⟩ := (h.chunk hid).allocateRun hrun
  have hrunSize : PoolChunk.runSize k.sizeClass.pageShifts run = runSize :=
    runSize_of_dvd hdvd hpages
  have hconstruct : sp.elemSize = k.sizeClass.sizeIdx2size sizeIdx ∧
      sp.maxNumElems = numElems k.sizeClass sizeIdx ∧ sp.numAvail = sp.maxNumElems := by
    rw [PoolSubpage.new, addToPool] at hnew
    split_ifs at hnew
    cases hnew
    refine ⟨rfl, ?_, rfl⟩
    rw [numElems, hsize, ← hrunSize]
    rfl
  obtain ⟨helem, hmax, hall⟩ := hconstruct
  obtain ⟨hsame, havail⟩ := allocate_rest halloc
  refine ⟨(id, calculateRunOffset run), sp', ?_, subpage_setChunk hid ?_,
    hsame.elemSize.trans helem, hsame.maxNumElems.trans hmax, ?_⟩
  · rw [subpage_of_chunks hid, ← hsub]
    exact hfree
  · rw [← hsub]
    rfl
  · rw [havail, hall, hsame.maxNumElems]

/-- `allocate` of a chunk carves a subpage when the size is small. -/
theorem StoreInv.serves_of_allocate (h : StoreInv k s blocks owned) {r : Region}
    (hstep : s.allocate k.sizeClass id reqCapacity sizeIdx cache = some (some r, s')) :
    Serves k sizeIdx s s' := by
  obtain ⟨⟨handle, s₁⟩, hhandle, hstep⟩ := Option.bind_eq_some_iff.mp hstep
  cases handle with
  | none => cases hstep
  | some handle =>
    dsimp only at hstep
    split_ifs at hstep
    obtain ⟨c, hid, hstep⟩ := Option.bind_eq_some_iff.mp hstep
    obtain ⟨region, _, hstep⟩ := Option.bind_eq_some_iff.mp hstep
    cases hstep
    have hpop : (s₁.popCachedBuffer id c).subpage = s₁.subpage := subpage_setChunk_same hid rfl
    rw [Serves, Carves, hpop]
    rw [ChunkStore.allocateHandle] at hhandle
    split_ifs at hhandle ⊢
    · exact h.carves_of_allocateSubpage hhandle
    · obtain ⟨c₀, hid₀, hhandle⟩ := Option.bind_eq_some_iff.mp hhandle
      obtain ⟨⟨_, c₁⟩, hrun, hhandle⟩ := Option.bind_eq_some_iff.mp hhandle
      cases hhandle
      exact subpage_setChunk_same hid₀ (allocateRun_rest hrun).1.subpages

/-- A pool hands out an element of one of its subpages, if it has any. -/
theorem takes_of_allocatePooled {res : Option (ℕ × ℕ)}
    (h : s.allocatePooled k.sizeClass sizeIdx = some (res, s')) :
    s'.subpage = s.subpage ∨ Takes s s' := by
  rcases allocatePooled_cases h with
    ⟨_, rfl, _⟩ | ⟨id, o, c, sp, _, sp', pools', _, _, hid, hsp, _, halloc, rfl⟩
  · exact Or.inl rfl
  · obtain ⟨hsame, havail⟩ := allocate_rest halloc
    exact Or.inr ⟨(id, o), sp, sp', (subpage_of_chunks hid o).trans hsp,
      subpage_setChunk hid rfl, hsame, havail⟩

/-- `free` of a chunk gives back an element, or a run without a subpage. -/
theorem StoreInv.gives_of_free (h : StoreInv k s blocks owned)
    (hstep : s.free k.sizeClass g buffer = some s') : s'.subpage = s.subpage ∨ Gives s s' := by
  obtain ⟨c, hid, hstep⟩ := Option.bind_eq_some_iff.mp hstep
  obtain ⟨⟨c', pools'⟩, hfree, hstep⟩ := Option.bind_eq_some_iff.mp hstep
  cases hstep
  rw [PoolChunk.free] at hfree
  split_ifs at hfree
  · obtain ⟨head, _, hfree⟩ := Option.bind_eq_some_iff.mp hfree
    obtain ⟨sp, hsp, hfree⟩ := Option.bind_eq_some_iff.mp hfree
    split_ifs at hfree
    obtain ⟨⟨kept, sp', pools₁⟩, hfreed, hfree⟩ := Option.bind_eq_some_iff.mp hfree
    have hpos := ((h.chunk hid).subpage _ sp hsp).inv.elemSize_pos.ne'
    obtain ⟨hsame, havail, hkept, hreleased⟩ := free_rest hfreed hpos
    refine Or.inr ⟨(g.chunk, calculateRunOffset g.handle), sp, sp', kept,
      (subpage_of_chunks hid _).trans hsp, hsame, havail, ?_, hkept, hreleased⟩
    dsimp only at hfree
    split_ifs at hfree ⊢
    · cases hfree
      exact subpage_setChunk hid rfl
    · cases hfree
      exact subpage_setChunk hid (freeRun_rest _ _ _).1
  · cases hfree
    exact Or.inl (subpage_setChunk_same hid (freeRun_rest _ _ _).1)

/-- A chunk that is free as a whole has no subpage. -/
theorem ChunkInv.subpages_of_whole {c : PoolChunk} {bs : ℕ → Option ℕ} (hc : ChunkInv k id c bs)
    (hwhole : c.freeBytes = k.chunkSize) (o : ℕ) : c.subpages o = none := by
  obtain ⟨run, hfree, _, hsingle⟩ := hc.single hwhole
  rcases hsp : c.subpages o with _ | sp
  · rfl
  · obtain ⟨run', hb, hused, _⟩ := (hc.subpage o sp hsp).run
    rw [hsingle] at hb
    split_ifs at hb
    cases hb
    rw [hfree] at hused
    cases hused

/-- A new chunk has no subpage. -/
theorem StoreInv.subpage_newChunk (h : StoreInv k s blocks owned) :
    (s.newChunk k.sizeClass).subpage = s.subpage := by
  funext ref
  by_cases hne : ref.1 = s.nextChunk
  · rw [ChunkStore.subpage, ChunkStore.subpage, hne, ChunkStore.chunks_newChunk_self,
      h.chunks_nextChunk, Option.bind_some, (new_rest k).1]
    rfl
  · rw [ChunkStore.subpage, ChunkStore.subpage, ChunkStore.chunks_newChunk_of_ne _ _ hne]

/-- A chunk is destroyed with no subpage in it. -/
theorem StoreInv.subpage_destroyChunk (h : StoreInv k s blocks owned) {c : PoolChunk}
    (hid : s.chunks id = some c) (hwhole : c.freeBytes = k.chunkSize) :
    (s.destroyChunk id).subpage = s.subpage := by
  funext ref
  by_cases hne : ref.1 = id
  · rw [ChunkStore.subpage, ChunkStore.subpage, hne, ChunkStore.chunks_destroyChunk_self, hid,
      Option.bind_some, (h.chunk hid).subpages_of_whole hwhole]
    rfl
  · rw [ChunkStore.subpage, ChunkStore.subpage, ChunkStore.chunks_destroyChunk_of_ne _ hne]

variable {a a' : PoolArena} {l : ChunkListName} {r : Region}

theorem subpage_add0 (h : a.add0 l id = some a') : a'.store.subpage = a.store.subpage := by
  obtain ⟨c, hid, h⟩ := Option.bind_eq_some_iff.mp h
  cases h
  exact subpage_setChunk_same hid rfl

theorem Serves.congr {s'' : ChunkStore} (h : Serves k sizeIdx s s')
    (hsub : s''.subpage = s'.subpage) : Serves k sizeIdx s s'' := by
  rw [Serves, Carves, hsub]
  exact h

/-- The chunk of a list that serves a request. -/
theorem Owns.serves_of_allocateFrom (h : Owns k a owned) {ids : List ℕ}
    (hstep : PoolArena.allocateFrom k.sizeClass l reqCapacity sizeIdx cache a ids = some (some r, a')) :
    Serves k sizeIdx a.store a'.store := by
  obtain ⟨blocks, h⟩ := h
  induction ids with
  | nil => cases hstep
  | cons cur ids ih =>
    obtain ⟨⟨region, store⟩, halloc, hrest⟩ := Option.bind_eq_some_iff.mp hstep
    cases region with
    | none =>
      rcases h.allocate halloc with ⟨_, rfl⟩ | ⟨_, _, _, _, _, hsome, _⟩
      · exact ih hrest
      · cases hsome
    | some region =>
      have hserves := h.serves_of_allocate halloc
      obtain ⟨c, _, hrest⟩ := Option.bind_eq_some_iff.mp hrest
      split_ifs at hrest
      · obtain ⟨next, _, hrest⟩ := Option.bind_eq_some_iff.mp hrest
        obtain ⟨a₁, hremove, hrest⟩ := Option.bind_eq_some_iff.mp hrest
        obtain ⟨a₂, hadd, hrest⟩ := Option.bind_eq_some_iff.mp hrest
        cases hrest
        obtain ⟨l', hadd⟩ := add_cases hadd
        refine hserves.congr ((subpage_add0 hadd).trans ?_)
        rw [store_remove hremove]
        rfl
      · cases hrest
        exact hserves

/-- The list that serves a request. -/
theorem Owns.serves_of_allocateLists (h : Owns k a owned) {ls : List ChunkListName}
    (hstep : PoolArena.allocateLists k.sizeClass reqCapacity sizeIdx cache a ls = some (some r, a')) :
    Serves k sizeIdx a.store a'.store := by
  induction ls with
  | nil => cases hstep
  | cons l ls ih =>
    obtain ⟨⟨region, a₁⟩, hlist, hrest⟩ := Option.bind_eq_some_iff.mp hstep
    rw [listAllocate] at hlist
    cases region with
    | none =>
      have hsame : a₁ = a := by
        split_ifs at hlist
        · cases hlist
          rfl
        · rcases h.allocateFrom hlist with ⟨_, hsame⟩ | ⟨_, _, hsome, _⟩
          · exact hsame
          · cases hsome
      rw [hsame] at hrest
      exact ih hrest
    | some region =>
      cases hrest
      split_ifs at hlist
      · cases hlist
      · exact h.serves_of_allocateFrom hlist

/-- `allocateNormal` serves every request that it answers. -/
theorem Owns.serves_of_allocateNormal (h : Owns k a owned)
    (hstep : a.allocateNormal k.sizeClass reqCapacity sizeIdx cache = some (r, a')) :
    Serves k sizeIdx a.store a'.store := by
  obtain ⟨⟨region, a₁⟩, hlists, hrest⟩ := Option.bind_eq_some_iff.mp hstep
  cases region with
  | some region =>
    cases hrest
    exact h.serves_of_allocateLists hlists
  | none =>
    rcases h.allocateLists hlists with ⟨_, rfl⟩ | ⟨_, _, hsome, _⟩
    · obtain ⟨⟨res, store⟩, halloc, hrest⟩ := Option.bind_eq_some_iff.mp hrest
      obtain ⟨region, hres, hrest⟩ := Option.bind_eq_some_iff.mp hrest
      obtain ⟨a₂, hadd, hrest⟩ := Option.bind_eq_some_iff.mp hrest
      cases hrest
      cases hres
      obtain ⟨blocks, h⟩ := h
      obtain ⟨l', hadd⟩ := add_cases hadd
      have hserves := (h.newChunk.serves_of_allocate halloc).congr (subpage_add0 hadd)
      rw [Serves, Carves, h.subpage_newChunk] at hserves
      exact hserves
    · cases hsome

/-- A pool hands out an element of one of its subpages, or the arena stays as it is. -/
theorem takes_of_pooledAllocate {res : Option Region}
    (hstep : a.pooledAllocate k.sizeClass reqCapacity sizeIdx = some (res, a')) :
    a'.store.subpage = a.store.subpage ∨ Takes a.store a'.store := by
  obtain ⟨⟨element, store⟩, hpool, hrest⟩ := Option.bind_eq_some_iff.mp hstep
  have htakes := takes_of_allocatePooled hpool
  cases element with
  | none =>
    cases hrest
    exact htakes
  | some element =>
    obtain ⟨region, _, hrest⟩ := Option.bind_eq_some_iff.mp hrest
    cases hrest
    exact htakes

/-- `freeChunk` gives back an element, or a run without a subpage. -/
theorem Owns.gives_of_freeChunk (h : Owns k a owned) (hg : g ∈ owned) {ptr : Addr}
    (hstep : a.freeChunk k.sizeClass g ptr = some a') :
    a'.store.subpage = a.store.subpage ∨ Gives a.store a'.store := by
  obtain ⟨blocks, h⟩ := h
  obtain ⟨c, hid, hrest⟩ := Option.bind_eq_some_iff.mp hstep
  obtain ⟨parent, _, hrest⟩ := Option.bind_eq_some_iff.mp hrest
  obtain ⟨⟨kept, a₁⟩, hlist, hrest⟩ := Option.bind_eq_some_iff.mp hrest
  obtain ⟨store, hfree, hlist⟩ := Option.bind_eq_some_iff.mp hlist
  obtain ⟨store', blocks', hfree', h'⟩ := h.free hg (some ptr)
  rw [hfree] at hfree'
  cases hfree'
  have hgives := h.gives_of_free hfree
  have hsub : a'.store.subpage = store.subpage := by
    obtain ⟨c', _, hlist⟩ := Option.bind_eq_some_iff.mp hlist
    split_ifs at hlist
    · obtain ⟨a₂, hremove, hmove⟩ := Option.bind_eq_some_iff.mp hlist
      have hstore : a₂.store = store := store_remove hremove
      rcases (move_cases listFuel).2 hmove with ⟨rfl, l', hadd⟩ | ⟨rfl, rfl, c₂, hid₂, husage⟩
      · cases hrest
        rw [subpage_add0 hadd, hstore]
      · cases hrest
        rw [hstore] at hid₂
        refine Eq.trans ?_ (h'.subpage_destroyChunk hid₂ ((h'.chunk hid₂).freeBytes_of_usage husage))
        rw [← hstore]
        rfl
    · cases hlist
      cases hrest
      rfl
  rw [Gives, hsub]
  exact hgives

end Changes

/-- The subpages of a size have the elements that its run allows. -/
def Counted (k : PoolConfig) (s : ChunkStore) : Prop :=
  ∀ ref sp i, s.subpage ref = some sp → i < k.numSizes →
    sp.elemSize = k.sizeClass.sizeIdx2size i →
      sp.maxNumElems = numElems k.sizeClass i ∧ 0 < sp.maxNumElems

/-- The subpage is free as a whole, or it will stay when it is. -/
def PoolSubpage.Idle (sp : PoolSubpage) : Prop :=
  sp.maxNumElems = 1 ∨ sp.numAvail = sp.maxNumElems

/-- No two idle subpages have one size. -/
def Lone (s : ChunkStore) : Prop :=
  ∀ ref ref' sp sp', s.subpage ref = some sp → s.subpage ref' = some sp' → sp.Idle → sp'.Idle →
    sp.elemSize = sp'.elemSize → ref = ref'

/-- Two subpages of one element have one size. -/
def Doubled (k : PoolConfig) (s : ChunkStore) : Prop :=
  ∃ i < k.numSizes, numElems k.sizeClass i = 1 ∧ ∃ ref ref' sp sp', ref ≠ ref' ∧
    s.subpage ref = some sp ∧ s.subpage ref' = some sp' ∧
    sp.elemSize = k.sizeClass.sizeIdx2size i ∧ sp'.elemSize = k.sizeClass.sizeIdx2size i

section Lone

variable {k : PoolConfig} {s s' : ChunkStore} {blocks : ℕ → ℕ → Option ℕ} {owned : List Grant}
  {sizeIdx : ℕ}

theorem lt_numSizes_of_small (h : sizeIdx ≤ k.sizeClass.smallMaxSizeIdx) :
    sizeIdx < k.numSizes := by
  rw [PoolConfig.smallMaxSizeIdx_sizeClass] at h
  have hge := k.numSizes_ge
  omega

/-- A subpage of the names after a change of one. -/
theorem update_subpage_cases {f : SubpageRef → Option PoolSubpage} {ref ref' : SubpageRef}
    {x : Option PoolSubpage} {sp : PoolSubpage} (h : Function.update f ref x ref' = some sp) :
    (ref' = ref ∧ x = some sp) ∨ (ref' ≠ ref ∧ f ref' = some sp) := by
  by_cases hne : ref' = ref
  · rw [hne, Function.update_self] at h
    exact Or.inl ⟨hne, h⟩
  · rw [Function.update_of_ne hne] at h
    exact Or.inr ⟨hne, h⟩

theorem Counted.carves (h : Counted k s) (hsmall : sizeIdx ≤ k.sizeClass.smallMaxSizeIdx)
    (hstep : Carves k sizeIdx s s') : Counted k s' := by
  obtain ⟨ref, sp, _, hsub, helem, hmax, havail⟩ := hstep
  intro ref' sp' i hsp' hi helem'
  rw [hsub] at hsp'
  rcases update_subpage_cases hsp' with ⟨_, heq⟩ | ⟨_, hold⟩
  · cases heq
    rw [← sizeIdx_unique (lt_numSizes_of_small hsmall) hi (helem.symm.trans helem')]
    exact ⟨hmax, by omega⟩
  · exact h ref' sp' i hold hi helem'

theorem Counted.takes (h : Counted k s) (hstep : Takes s s') : Counted k s' := by
  obtain ⟨ref, sp, sp₁, hsp, hsub, hsame, _⟩ := hstep
  intro ref' sp' i hsp' hi helem'
  rw [hsub] at hsp'
  rcases update_subpage_cases hsp' with ⟨_, heq⟩ | ⟨_, hold⟩
  · cases heq
    rw [hsame.maxNumElems]
    exact h ref sp i hsp hi (hsame.elemSize.symm.trans helem')
  · exact h ref' sp' i hold hi helem'

theorem Counted.gives (h : Counted k s) (hstep : Gives s s') : Counted k s' := by
  obtain ⟨ref, sp, sp₁, kept, hsp, hsame, _, hsub, _⟩ := hstep
  intro ref' sp' i hsp' hi helem'
  rw [hsub] at hsp'
  rcases update_subpage_cases hsp' with ⟨_, heq⟩ | ⟨_, hold⟩
  · split_ifs at heq
    cases heq
    rw [hsame.maxNumElems]
    exact h ref sp i hsp hi (hsame.elemSize.symm.trans helem')
  · exact h ref' sp' i hold hi helem'

/-- A subpage that is free as a whole is linked in the pool of its size. -/
theorem StoreInv.pool_of_free (h : StoreInv k s blocks owned) {ref : SubpageRef}
    {sp : PoolSubpage} (hsp : s.subpage ref = some sp) (hpos : 0 < sp.numAvail) :
    ∃ i < k.numSizes, sp.elemSize = k.sizeClass.sizeIdx2size i ∧ sp.pool = some i ∧
      ref ∈ s.pools i := by
  obtain ⟨c, hid, hsub⟩ := Option.bind_eq_some_iff.mp hsp
  have hat := (h.chunk hid).subpage ref.2 sp hsub
  obtain ⟨i, hi, _, helem, hpool⟩ := hat.sizeIdx
  obtain ⟨j, hj⟩ := Option.isSome_iff_exists.mp (hat.inv.linked.mpr hpos)
  obtain rfl := hpool j hj
  refine ⟨j, hi, helem, hj, (h.pools.1 j ref).mpr ?_⟩
  rw [ChunkStore.link, hid, Option.bind_some, hsub]
  exact hj

/-- A new subpage is idle only when it has one element, and is the first of its size then. -/
theorem Lone.carves (h : Lone s) (hstep : Carves k sizeIdx s s')
    (hcond : numElems k.sizeClass sizeIdx = 1 → ∀ ref sp, s.subpage ref = some sp →
      sp.elemSize ≠ k.sizeClass.sizeIdx2size sizeIdx) : Lone s' := by
  obtain ⟨ref, sp, _, hsub, helem, hmax, havail⟩ := hstep
  have hfirst : sp.Idle → ∀ ref' sp', s.subpage ref' = some sp' →
      sp'.elemSize ≠ sp.elemSize := by
    intro hidle ref' sp' hsp'
    rw [helem]
    refine hcond ?_ ref' sp' hsp'
    rw [← hmax]
    rcases hidle with hone | hall
    · exact hone
    · omega
  intro ref₁ ref₂ sp₁ sp₂ hsp₁ hsp₂ hidle₁ hidle₂ hsize
  rw [hsub] at hsp₁ hsp₂
  rcases update_subpage_cases hsp₁ with ⟨rfl, heq₁⟩ | ⟨_, hold₁⟩
  · cases heq₁
    rcases update_subpage_cases hsp₂ with ⟨rfl, _⟩ | ⟨_, hold₂⟩
    · rfl
    · exact absurd hsize.symm (hfirst hidle₁ ref₂ sp₂ hold₂)
  · rcases update_subpage_cases hsp₂ with ⟨rfl, heq₂⟩ | ⟨_, hold₂⟩
    · cases heq₂
      exact absurd hsize (hfirst hidle₂ ref₁ sp₁ hold₁)
    · exact h ref₁ ref₂ sp₁ sp₂ hold₁ hold₂ hidle₁ hidle₂ hsize

/-- Taking an element makes no subpage idle. -/
theorem Lone.takes (h : Lone s) (hstore : StoreInv k s blocks owned) (hstep : Takes s s') : Lone s' := by
  obtain ⟨ref, sp, sp₁, hsp, hsub, hsame, havail⟩ := hstep
  have hback : ∀ {ref' sp'}, s'.subpage ref' = some sp' → sp'.Idle →
      ∃ sp₀, s.subpage ref' = some sp₀ ∧ sp₀.Idle ∧ sp₀.elemSize = sp'.elemSize := by
    intro ref' sp' hsp' hidle
    rw [hsub] at hsp'
    rcases update_subpage_cases hsp' with ⟨rfl, heq⟩ | ⟨_, hold⟩
    · cases heq
      refine ⟨sp, hsp, ?_, hsame.elemSize.symm⟩
      rcases hidle with hone | hall
      · exact Or.inl (hsame.maxNumElems.symm.trans hone)
      · obtain ⟨c, hid, hc⟩ := Option.bind_eq_some_iff.mp hsp
        have hle := ((hstore.chunk hid).subpage _ sp hc).inv.toCore.numAvail_le
        rw [hsame.maxNumElems] at hall
        omega
    · exact ⟨sp', hold, hidle, rfl⟩
  intro ref₁ ref₂ sp₁ sp₂ hsp₁ hsp₂ hidle₁ hidle₂ hsize
  obtain ⟨_, hold₁, hidle₁, helem₁⟩ := hback hsp₁ hidle₁
  obtain ⟨_, hold₂, hidle₂, helem₂⟩ := hback hsp₂ hidle₂
  exact h _ _ _ _ hold₁ hold₂ hidle₁ hidle₂ (helem₁.trans (hsize.trans helem₂.symm))

/-- A subpage that becomes free as a whole and stays is alone in its pool, in which any
other one of its size would be. -/
theorem Lone.gives (h : Lone s) (hstore : StoreInv k s blocks owned) (hcount : Counted k s)
    (hstep : Gives s s') : Lone s' := by
  obtain ⟨ref, sp, sp₀, kept, hsp, hsame, havail, hsub, hkept, _⟩ := hstep
  -- Another idle subpage of the size leaves no room for the one that is given back.
  have hother : kept = true → sp₀.Idle → ∀ ref' sp', ref' ≠ ref → s.subpage ref' = some sp' →
      sp'.Idle → sp'.elemSize ≠ sp₀.elemSize := by
    intro hk hidle ref' sp' hne hsp' hidle' hsize
    have hsize' : sp.elemSize = sp'.elemSize := hsame.elemSize.symm.trans hsize.symm
    obtain ⟨c, hid, hc⟩ := Option.bind_eq_some_iff.mp hsp
    obtain ⟨i, hi, _, helem, _⟩ := ((hstore.chunk hid).subpage ref.2 sp hc).sizeIdx
    have hmax := hcount ref sp i hsp hi helem
    have hmax' := hcount ref' sp' i hsp' hi (hsize'.symm.trans helem)
    by_cases hone : sp.maxNumElems = 1
    · exact hne (h ref' ref sp' sp hsp' hsp hidle' (Or.inl hone) hsize'.symm)
    · have hsame₀ := hsame.maxNumElems
      have hall : sp₀.numAvail = sp₀.maxNumElems := hidle.resolve_left fun heq => hone (by omega)
      have hall' : sp'.numAvail = sp'.maxNumElems :=
        hidle'.resolve_left fun heq => hone (by omega)
      have halone := hkept hk hall fun heq => hone (by omega)
      obtain ⟨j, hj, helem₀, hpool, hmem⟩ := hstore.pool_of_free hsp (by omega)
      obtain ⟨j', hj', helem', _, hmem'⟩ := hstore.pool_of_free hsp' (by omega)
      obtain rfl := sizeIdx_unique hj hj' (helem₀.symm.trans (hsize'.trans helem'))
      rw [aloneInPool, hpool, decide_eq_true_eq] at halone
      obtain ⟨x, hx⟩ := List.length_eq_one_iff.mp halone
      rw [hx, List.mem_singleton] at hmem hmem'
      exact hne (hmem'.trans hmem.symm)
  intro ref₁ ref₂ sp₁ sp₂ hsp₁ hsp₂ hidle₁ hidle₂ hsize
  rw [hsub] at hsp₁ hsp₂
  rcases update_subpage_cases hsp₁ with ⟨rfl, heq₁⟩ | ⟨hne₁, hold₁⟩
  · rcases update_subpage_cases hsp₂ with ⟨rfl, _⟩ | ⟨hne₂, hold₂⟩
    · rfl
    · split_ifs at heq₁ with hk
      cases heq₁
      exact absurd hsize.symm (hother hk hidle₁ ref₂ sp₂ hne₂ hold₂ hidle₂)
  · rcases update_subpage_cases hsp₂ with ⟨rfl, heq₂⟩ | ⟨_, hold₂⟩
    · split_ifs at heq₂ with hk
      cases heq₂
      exact absurd hsize (hother hk hidle₂ ref₁ sp₁ hne₁ hold₁ hidle₁)
    · exact h ref₁ ref₂ sp₁ sp₂ hold₁ hold₂ hidle₁ hidle₂ hsize

/-- A subpage of one element stays. -/
theorem Gives.stays (h : Gives s s') {ref : SubpageRef} {sp : PoolSubpage}
    (hsp : s.subpage ref = some sp) (hone : sp.maxNumElems = 1) :
    ∃ sp', s'.subpage ref = some sp' ∧ sp'.elemSize = sp.elemSize := by
  obtain ⟨ref₀, sp₀, sp₁, kept, hsp₀, hsame, _, hsub, _, hreleased⟩ := h
  rw [hsub]
  by_cases hne : ref = ref₀
  · subst hne
    rw [hsp] at hsp₀
    cases hsp₀
    rw [Function.update_self]
    cases kept with
    | true => exact ⟨sp₁, rfl, hsame.elemSize⟩
    | false => exact absurd hone (hreleased rfl)
  · exact ⟨sp, (Function.update_of_ne hne _ _).trans hsp, rfl⟩

/-- Every step keeps the subpages of one element, so that two of one size stay two. -/
theorem Doubled.of_stays (h : Doubled k s) (hcount : Counted k s)
    (hstays : ∀ {ref sp}, s.subpage ref = some sp → sp.maxNumElems = 1 →
      ∃ sp', s'.subpage ref = some sp' ∧ sp'.elemSize = sp.elemSize) : Doubled k s' := by
  obtain ⟨i, hi, hone, ref, ref', sp, sp', hne, hsp, hsp', helem, helem'⟩ := h
  obtain ⟨sp₁, hsp₁, helem₁⟩ := hstays hsp ((hcount ref sp i hsp hi helem).1.trans hone)
  obtain ⟨sp₂, hsp₂, helem₂⟩ := hstays hsp' ((hcount ref' sp' i hsp' hi helem').1.trans hone)
  exact ⟨i, hi, hone, ref, ref', sp₁, sp₂, hne, hsp₁, hsp₂, helem₁.trans helem,
    helem₂.trans helem'⟩

theorem Takes.stays (h : Takes s s') {ref : SubpageRef} {sp : PoolSubpage}
    (hsp : s.subpage ref = some sp) :
    ∃ sp', s'.subpage ref = some sp' ∧ sp'.elemSize = sp.elemSize := by
  obtain ⟨ref₀, sp₀, sp₁, hsp₀, hsub, hsame, _⟩ := h
  rw [hsub]
  by_cases hne : ref = ref₀
  · subst hne
    rw [hsp] at hsp₀
    cases hsp₀
    exact ⟨sp₁, Function.update_self _ _ _, hsame.elemSize⟩
  · exact ⟨sp, (Function.update_of_ne hne _ _).trans hsp, rfl⟩

theorem Carves.stays (h : Carves k sizeIdx s s') {ref : SubpageRef} {sp : PoolSubpage}
    (hsp : s.subpage ref = some sp) :
    ∃ sp', s'.subpage ref = some sp' ∧ sp'.elemSize = sp.elemSize := by
  obtain ⟨ref₀, sp₀, hnone, hsub, _⟩ := h
  rw [hsub]
  by_cases hne : ref = ref₀
  · rw [hne, hnone] at hsp
    cases hsp
  · exact ⟨sp, (Function.update_of_ne hne _ _).trans hsp, rfl⟩

/-- A second subpage of one element of a size. -/
theorem Carves.doubled (h : Carves k sizeIdx s s') (hi : sizeIdx < k.numSizes)
    (hone : numElems k.sizeClass sizeIdx = 1) {ref : SubpageRef} {sp : PoolSubpage}
    (hsp : s.subpage ref = some sp) (helem : sp.elemSize = k.sizeClass.sizeIdx2size sizeIdx) :
    Doubled k s' := by
  obtain ⟨sp', hsp', helem'⟩ := h.stays hsp
  obtain ⟨ref₀, sp₀, hnone, hsub, helem₀, _⟩ := h
  refine ⟨sizeIdx, hi, hone, ref, ref₀, sp', sp₀, ?_, hsp', ?_, helem'.trans helem, helem₀⟩
  · rintro rfl
    rw [hsp] at hnone
    cases hnone
  · rw [hsub, Function.update_self]

end Lone

/-- What is left when every region has come back: at most one subpage for each size, which
is free as a whole. All other pages are in available runs and counted as free. -/
structure Returned (k : PoolConfig) (s : ChunkStore) : Prop where
  retained : ∀ ref sp, s.subpage ref = some sp → sp.numAvail = sp.maxNumElems ∧
    ∃ i, ref ∈ s.pools i
  alone : ∀ i, (s.pools i).length ≤ 1
  pages : ∀ id c, s.chunks id = some c → ∀ page < k.chunkPages,
    (∃ i handle, handle ∈ c.runsAvail i ∧ calculateRunOffset handle ≤ page ∧
      page < calculateRunOffset handle + calculateRunPages handle) ∨
    ∃ o sp, c.subpages o = some sp ∧ o ≤ page ∧ page < o + sp.runSize >>> k.pageShifts
  freeBytes : ∀ id c, s.chunks id = some c → c.freeBytes +
    (∑ o ∈ Finset.range k.chunkPages, (c.subpages o).elim 0 PoolSubpage.runSize : ℕ) = k.chunkSize
  whole : ∀ id c, s.chunks id = some c → (∀ o, c.subpages o = none) → c.freeBytes = k.chunkSize

section Returned

variable {k : PoolConfig} {s : ChunkStore} {blocks : ℕ → ℕ → Option ℕ} {id : ℕ} {c : PoolChunk}

/-- Nothing is in use in a chunk when nothing is handed out. -/
theorem StoreInv.not_holds (h : StoreInv k s blocks []) (hid : s.chunks id = some c)
    (handle cap : ℕ) : ¬Holds k c (blocks id) handle cap := by
  intro hholds
  have hmem := (h.owned_iff ⟨id, handle, cap⟩).mpr ⟨c, hid, hholds⟩
  cases hmem

/-- A subpage is free as a whole when nothing is handed out. -/
theorem StoreInv.numAvail_eq (h : StoreInv k s blocks []) {ref : SubpageRef} {sp : PoolSubpage}
    (hsp : s.subpage ref = some sp) : sp.numAvail = sp.maxNumElems := by
  obtain ⟨c, hid, hc⟩ := Option.bind_eq_some_iff.mp hsp
  have hclear : ∀ i, sp.isSet i = false := by
    intro i
    by_contra hset
    rw [Bool.not_eq_false] at hset
    exact h.not_holds hid _ _ (.element hc hset)
  rw [((h.chunk hid).subpage ref.2 sp hc).inv.numAvail_eq, numClear,
    Finset.filter_true_of_mem fun i _ => hclear i, Finset.card_range]

/-- The free bytes and the runs of the subpages make up the chunk when nothing is handed
out. -/
theorem StoreInv.freeBytes_eq (h : StoreInv k s blocks []) (hid : s.chunks id = some c) :
    c.freeBytes +
      (∑ o ∈ Finset.range k.chunkPages, (c.subpages o).elim 0 PoolSubpage.runSize : ℕ) =
        k.chunkSize := by
  have hc := h.chunk hid
  have hpart : ∀ o, k.pageSize * (unused isUsed (blocks id) o).elim 0 calculateRunPages +
      (c.subpages o).elim 0 PoolSubpage.runSize =
        k.pageSize * (blocks id o).elim 0 calculateRunPages := by
    intro o
    rcases hsp : c.subpages o with _ | sp
    · rcases hb : blocks id o with _ | run
      · rw [unused, hb]
        rfl
      · have hfree : isUsed run = false := by
          by_contra hused
          rw [Bool.not_eq_false] at hused
          exact h.not_holds hid _ _ (.run hb hused hsp)
        rw [unused_eq_some.mpr ⟨hb, hfree⟩]
        rfl
    · obtain ⟨run, hb, hused, hsize⟩ := (hc.subpage o sp hsp).run
      have hnone : unused isUsed (blocks id) o = none := by
        rcases hun : unused isUsed (blocks id) o with _ | run'
        · rfl
        · obtain ⟨hb', hfree⟩ := unused_eq_some.mp hun
          rw [hb] at hb'
          cases hb'
          rw [hused] at hfree
          cases hfree
      rw [hnone, hb, Option.elim_none, Option.elim_some, Option.elim_some, hsize, Nat.mul_zero,
        Nat.zero_add, Nat.mul_comm]
  have hsum : k.pageSize * total calculateRunPages k.chunkPages (unused isUsed (blocks id)) +
      ∑ o ∈ Finset.range k.chunkPages, (c.subpages o).elim 0 PoolSubpage.runSize =
        k.chunkSize := by
    calc k.pageSize * total calculateRunPages k.chunkPages (unused isUsed (blocks id)) +
          ∑ o ∈ Finset.range k.chunkPages, (c.subpages o).elim 0 PoolSubpage.runSize
        = ∑ o ∈ Finset.range k.chunkPages,
            k.pageSize * (blocks id o).elim 0 calculateRunPages := by
          rw [total, Finset.mul_sum, ← Finset.sum_add_distrib]
          exact Finset.sum_congr rfl fun o _ => hpart o
      _ = k.pageSize * total calculateRunPages k.chunkPages (blocks id) := by
          rw [total, Finset.mul_sum]
      _ = k.chunkSize := by
          rw [hc.runs.tiling.total_eq, PoolConfig.chunkSize_eq, Nat.mul_comm]
  rw [hc.runs.freeBytes]
  exact_mod_cast hsum

/-- Every page is in an available run or in a subpage when nothing is handed out. -/
theorem StoreInv.pages_covered (h : StoreInv k s blocks []) (hid : s.chunks id = some c)
    {page : ℕ} (hpage : page < k.chunkPages) :
    (∃ i handle, handle ∈ c.runsAvail i ∧ calculateRunOffset handle ≤ page ∧
      page < calculateRunOffset handle + calculateRunPages handle) ∨
    ∃ o sp, c.subpages o = some sp ∧ o ≤ page ∧ page < o + sp.runSize >>> k.pageShifts := by
  have hinv : RunInvariant k id c [] := (h.chunk hid).runInvariant fun handle cap =>
    iff_of_false nofun (h.not_holds hid handle cap)
  obtain ⟨run, ⟨hmem, hstart, hstop⟩, _⟩ := hinv.partition page hpage
  cases run with
  | available handle =>
    obtain ⟨i, hi⟩ := hmem
    exact Or.inl ⟨i, handle, hi, hstart, hstop⟩
  | handedOut handle =>
    obtain ⟨_, cap, hcap⟩ := hmem
    cases hcap
  | subpage sp => exact Or.inr ⟨sp.runOffset, sp, hmem, hstart, hstop⟩

/-- When nothing is handed out, everything is returned if no two idle subpages have one
size. -/
theorem StoreInv.returned_of_lone (h : StoreInv k s blocks []) (hcount : Counted k s)
    (hlone : Lone s) : Returned k s := by
  have hfree : ∀ {ref sp}, s.subpage ref = some sp → sp.numAvail = sp.maxNumElems :=
    fun hsp => h.numAvail_eq hsp
  refine ⟨fun ref sp hsp => ⟨hfree hsp, ?_⟩, fun i => ?_, fun id c hid page hpage =>
    h.pages_covered hid hpage, fun id c hid => h.freeBytes_eq hid, fun id c hid hnone => ?_⟩
  · obtain ⟨c, hid, hc⟩ := Option.bind_eq_some_iff.mp hsp
    obtain ⟨i, hi, _, helem, _⟩ := ((h.chunk hid).subpage ref.2 sp hc).sizeIdx
    obtain ⟨_, hpos⟩ := hcount ref sp i hsp hi helem
    obtain ⟨j, _, _, _, hmem⟩ := h.pool_of_free hsp (by rw [hfree hsp]; exact hpos)
    exact ⟨j, hmem⟩
  · have hlinked : ∀ ref ∈ s.pools i, ∃ sp, s.subpage ref = some sp ∧ sp.Idle ∧
        sp.elemSize = k.sizeClass.sizeIdx2size i := by
      intro ref hmem
      obtain ⟨c, hid, hlink⟩ := Option.bind_eq_some_iff.mp ((h.pools.1 i ref).mp hmem)
      obtain ⟨sp, hc, hpool⟩ := Option.bind_eq_some_iff.mp hlink
      have hsp : s.subpage ref = some sp := by
        rw [ChunkStore.subpage, hid]
        exact hc
      obtain ⟨j, _, _, helem, hj⟩ := ((h.chunk hid).subpage ref.2 sp hc).sizeIdx
      rw [hj i hpool]
      exact ⟨sp, hsp, Or.inr (hfree hsp), helem⟩
    have hequal : ∀ ref ∈ s.pools i, ∀ ref' ∈ s.pools i, ref = ref' := by
      intro ref hmem ref' hmem'
      obtain ⟨sp, hsp, hidle, helem⟩ := hlinked ref hmem
      obtain ⟨sp', hsp', hidle', helem'⟩ := hlinked ref' hmem'
      exact hlone ref ref' sp sp' hsp hsp' hidle hidle' (helem.trans helem'.symm)
    have hnodup := h.pools.2 i
    rcases hpool : s.pools i with _ | ⟨x, _ | ⟨y, rest⟩⟩
    · exact Nat.zero_le _
    · exact le_refl _
    · rw [hpool] at hequal hnodup
      have hxy := hequal x (by simp) y (by simp)
      rw [hxy] at hnodup
      simp at hnodup
  · have hbytes := h.freeBytes_eq hid
    rw [Finset.sum_eq_zero fun o _ => by rw [hnone o]; rfl] at hbytes
    simpa using hbytes

/-- When nothing is handed out, two subpages of one element of a size are both left. -/
theorem StoreInv.not_returned_of_doubled (h : StoreInv k s blocks []) (hcount : Counted k s)
    (hdoubled : Doubled k s) : ¬Returned k s := by
  intro hreturned
  obtain ⟨i, hi, hone, ref, ref', sp, sp', hne, hsp, hsp', helem, helem'⟩ := hdoubled
  have hmem : ∀ {ref sp}, s.subpage ref = some sp → sp.elemSize = k.sizeClass.sizeIdx2size i →
      ref ∈ s.pools i := by
    intro ref sp hsp helem
    obtain ⟨_, hpos⟩ := hcount ref sp i hsp hi helem
    obtain ⟨j, hj, helem', _, hmem⟩ := h.pool_of_free hsp (by rw [h.numAvail_eq hsp]; exact hpos)
    rwa [sizeIdx_unique hi hj (helem.symm.trans helem')]
  have hle := hreturned.alone i
  have h₁ := hmem hsp helem
  have h₂ := hmem hsp' helem'
  rcases hpool : s.pools i with _ | ⟨x, _ | ⟨y, rest⟩⟩
  · rw [hpool] at h₁
    cases h₁
  · rw [hpool, List.mem_singleton] at h₁ h₂
    exact hne (h₁.trans h₂.symm)
  · rw [hpool] at hle
    simp at hle

end Returned

namespace ChunkLists

/-- A subpage of one element is carved only as the first one of its size. -/
def CarvesFirst (k : PoolConfig) (s : State) : Call → Prop
  | .allocateNormal _ sizeIdx _ =>
    sizeIdx ≤ k.sizeClass.smallMaxSizeIdx → numElems k.sizeClass sizeIdx = 1 →
      ∀ ref sp, s.arena.store.subpage ref = some sp →
        sp.elemSize ≠ k.sizeClass.sizeIdx2size sizeIdx
  | .pooledAllocate _ _ => True
  | .freeChunk _ _ => True

/-- What a call does to the subpages. -/
inductive Changes (k : PoolConfig) (s s' : ChunkStore) : Call → Prop
  | same {call : Call} : s'.subpage = s.subpage →
      (∀ req sizeIdx cache, call = .allocateNormal req sizeIdx cache →
        k.sizeClass.smallMaxSizeIdx < sizeIdx) → Changes k s s' call
  | carves {req sizeIdx : ℕ} {cache : Bool} : sizeIdx ≤ k.sizeClass.smallMaxSizeIdx →
      Carves k sizeIdx s s' → Changes k s s' (.allocateNormal req sizeIdx cache)
  | takes {req sizeIdx : ℕ} : Takes s s' → Changes k s s' (.pooledAllocate req sizeIdx)
  | gives {g : Grant} {buffer : Addr} : Gives s s' → Changes k s s' (.freeChunk g buffer)

variable {k : PoolConfig} {s t : State} {call : Call}

/-- Every call changes the subpages in one of these ways. -/
theorem Inv.changes (h : Inv k s) (hstep : ChunkLists.next k.sizeClass s call = some t) :
    Changes k s.arena.store t.arena.store call := by
  cases call with
  | allocateNormal req sizeIdx cache =>
    obtain ⟨⟨r, a⟩, halloc, hstep⟩ := Option.bind_eq_some_iff.mp hstep
    cases hstep
    have hserves := h.owns.serves_of_allocateNormal halloc
    rw [Serves] at hserves
    split_ifs at hserves with hsmall
    · exact .carves hsmall hserves
    · refine .same hserves ?_
      rintro _ _ _ ⟨⟩
      omega
  | pooledAllocate req sizeIdx =>
    obtain ⟨⟨r, a⟩, halloc, hstep⟩ := Option.bind_eq_some_iff.mp hstep
    cases hstep
    rcases takes_of_pooledAllocate halloc with hsame | htakes
    · exact .same hsame (by rintro _ _ _ ⟨⟩)
    · exact .takes htakes
  | freeChunk g buffer =>
    rw [ChunkLists.next] at hstep
    split_ifs at hstep with hg
    obtain ⟨a, hfree, hstep⟩ := Option.bind_eq_some_iff.mp hstep
    cases hstep
    rcases h.owns.gives_of_freeChunk hg hfree with hsame | hgives
    · exact .same hsame (by rintro _ _ _ ⟨⟩)
    · exact .gives hgives

/-- The arena is consistent, and its subpages have the elements of their size. -/
def Consistent (k : PoolConfig) (s : State) : Prop := Inv k s ∧ Counted k s.arena.store

theorem Consistent.next (h : Consistent k s)
    (hstep : ChunkLists.next k.sizeClass s call = some t) : Consistent k t := by
  refine ⟨h.1.next hstep, ?_⟩
  cases h.1.changes hstep with
  | same hsub _ =>
    rw [Counted, hsub]
    exact h.2
  | carves hsmall hcarves => exact h.2.carves hsmall hcarves
  | takes htakes => exact h.2.takes htakes
  | gives hgives => exact h.2.gives hgives

/-- Calls that carve a subpage of one element only as the first one of its size keep the
idle subpages apart. -/
theorem Consistent.lone_next (h : Consistent k s) (hlone : Lone s.arena.store)
    (hcond : CarvesFirst k s call) (hstep : ChunkLists.next k.sizeClass s call = some t) :
    Lone t.arena.store := by
  obtain ⟨blocks, hstore⟩ := h.1.owns
  cases h.1.changes hstep with
  | same hsub _ =>
    rw [Lone, hsub]
    exact hlone
  | carves hsmall hcarves => exact hlone.carves hcarves (hcond hsmall)
  | takes htakes => exact hlone.takes hstore htakes
  | gives hgives => exact hlone.gives hstore h.2 hgives

/-- Two subpages of one element of a size stay two. -/
theorem Consistent.doubled_next (h : Consistent k s) (hdoubled : Doubled k s.arena.store)
    (hstep : ChunkLists.next k.sizeClass s call = some t) : Doubled k t.arena.store := by
  refine hdoubled.of_stays h.2 fun {ref sp} hsp hone => ?_
  cases h.1.changes hstep with
  | same hsub _ =>
    rw [hsub]
    exact ⟨sp, hsp, rfl⟩
  | carves _ hcarves => exact hcarves.stays hsp
  | takes htakes => exact htakes.stays hsp
  | gives hgives => exact hgives.stays hsp hone

/-- A call that carves a second subpage of one element of a size. -/
theorem Consistent.doubled_of_violation (h : Consistent k s) (hbad : ¬CarvesFirst k s call)
    (hstep : ChunkLists.next k.sizeClass s call = some t) : Doubled k t.arena.store := by
  cases call with
  | allocateNormal req sizeIdx cache =>
    rw [CarvesFirst] at hbad
    push Not at hbad
    obtain ⟨hsmall, hone, ref, sp, hsp, helem⟩ := hbad
    cases h.1.changes hstep with
    | same _ hlarge => exact absurd (hlarge _ _ _ rfl) (not_lt.mpr hsmall)
    | carves _ hcarves => exact hcarves.doubled (lt_numSizes_of_small hsmall) hone hsp helem
  | pooledAllocate req sizeIdx => exact absurd trivial hbad
  | freeChunk g buffer => exact absurd trivial hbad

/-- After a run at whose end every region has come back, all runs but those of one free
subpage for each size are returned to their chunks exactly when every subpage of one
element was carved as the first one of its size. -/
theorem returned_iff_carvesFirst {trace : List (State × Call)}
    (hrun : (machine k).Run ⟨.empty, []⟩ trace t) (hdone : t.owned = []) :
    Returned k t.arena.store ↔ ∀ p ∈ trace, CarvesFirst k p.1 p.2 := by
  have hinit : Consistent k ⟨.empty, []⟩ := ⟨inv_empty k, nofun⟩
  have hend : Consistent k t := by
    refine hrun.forall_visited (C := fun _ _ => True) (fun s call u h _ hstep => h.next hstep)
      hinit (fun _ _ => trivial) t ?_
    simp [Machine.visited]
  obtain ⟨blocks, hstore⟩ := hend.1.owns
  rw [hdone] at hstore
  constructor
  · intro hreturned
    by_contra hbad
    push Not at hbad
    have hdoubled : Doubled k t.arena.store :=
      hrun.of_violation_where (J := Consistent k) (D := fun s => Doubled k s.arena.store)
        (fun s call u h hstep => h.next hstep)
        (fun s call u h hbad hstep => h.doubled_of_violation hbad hstep)
        (fun s call u h hdoubled hstep => h.doubled_next hdoubled hstep) hinit (Or.inr hbad)
    exact hstore.not_returned_of_doubled hend.2 hdoubled hreturned
  · intro hcond
    have hlone : Consistent k t ∧ Lone t.arena.store := by
      refine hrun.forall_visited (C := CarvesFirst k)
        (I := fun s => Consistent k s ∧ Lone s.arena.store)
        (fun s call u h hc hstep => ⟨h.1.next hstep, h.1.lone_next h.2 hc hstep⟩)
        ⟨hinit, nofun⟩ hcond t ?_
      simp [Machine.visited]
    exact hstore.returned_of_lone hend.2 hlone.2

/-- The state in which a page is in use that was requested of an empty arena. -/
def duringOnePage : State :=
  (ChunkLists.next PoolConfig.default.sizeClass ⟨.empty, []⟩ (.allocateNormal 8192 31 true)).getD
    ⟨.empty, []⟩

/-- The state after its release. -/
def afterOnePage : State :=
  (ChunkLists.next PoolConfig.default.sizeClass duringOnePage
    (.freeChunk ⟨0, 30064771072, 8192⟩ (.pooled 0, 0))).getD ⟨.empty, []⟩

theorem run_onePage : (machine .default).Run ⟨.empty, []⟩
    [(⟨.empty, []⟩, .pooledAllocate 8192 31), (⟨.empty, []⟩, .allocateNormal 8192 31 true),
      (duringOnePage, .freeChunk ⟨0, 30064771072, 8192⟩ (.pooled 0, 0))] afterOnePage := by
  have hsome : (ChunkLists.next PoolConfig.default.sizeClass ⟨.empty, []⟩
      (.allocateNormal 8192 31 true)).isSome = true := by decide +kernel
  have hsome' : (ChunkLists.next PoolConfig.default.sizeClass duringOnePage
      (.freeChunk ⟨0, 30064771072, 8192⟩ (.pooled 0, 0))).isSome = true := by decide +kernel
  refine .cons rfl (.cons ?_ (.cons ?_ (.nil _)))
  · exact (Option.getD_of_ne_none (Option.isSome_iff_ne_none.mp hsome) _).symm
  · exact (Option.getD_of_ne_none (Option.isSome_iff_ne_none.mp hsome') _).symm

theorem returned_iff_carvesFirst_onePage :
    afterOnePage.arena.store.pools 31 = [(0, 0)] ∧ Returned .default afterOnePage.arena.store := by
  have hpool : afterOnePage.arena.store.pools 31 = [(0, 0)] := by decide +kernel
  have hdone : afterOnePage.owned = [] := by decide +kernel
  refine ⟨hpool, (returned_iff_carvesFirst run_onePage hdone).mpr ?_⟩
  simp only [List.forall_mem_cons]
  exact ⟨trivial, fun _ _ _ _ => nofun, trivial, nofun⟩

/-- Two pages are requested one after the other and given back. -/
def twoPages : List Call :=
  [.pooledAllocate 8192 31, .allocateNormal 8192 31 true,
    .pooledAllocate 8192 31, .allocateNormal 8192 31 true,
    .freeChunk ⟨0, 30064771072, 8192⟩ (.pooled 0, 0),
    .freeChunk ⟨0, 562980018192384, 8192⟩ (.pooled 0, 8192)]

/-- The state after the releases. -/
def afterTwoPages : State :=
  (twoPages.foldlM (ChunkLists.next PoolConfig.default.sizeClass) ⟨.empty, []⟩).getD ⟨.empty, []⟩

theorem afterTwoPages_eq :
    twoPages.foldlM (ChunkLists.next PoolConfig.default.sizeClass) ⟨.empty, []⟩ =
      some afterTwoPages := by
  have hsome : (twoPages.foldlM (ChunkLists.next PoolConfig.default.sizeClass)
      ⟨.empty, []⟩).isSome = true := by
    decide +kernel
  rw [afterTwoPages, Option.getD_of_ne_none (Option.isSome_iff_ne_none.mp hsome)]

/-- Both pages stay with their pool. -/
theorem twoPages_not_returned :
    ∃ trace t, (machine .default).Run ⟨.empty, []⟩ trace t ∧ t.owned = [] ∧
      t.arena.store.pools 31 = [(0, 1), (0, 0)] ∧ ¬Returned .default t.arena.store := by
  have hdone : afterTwoPages.owned = [] := by decide +kernel
  have hpool : afterTwoPages.arena.store.pools 31 = [(0, 1), (0, 0)] := by decide +kernel
  refine ⟨_, afterTwoPages, .of_foldlM afterTwoPages_eq, hdone, hpool, fun hreturned => ?_⟩
  have hle := hreturned.alone 31
  rw [hpool] at hle
  exact absurd hle (by decide)

end ChunkLists

end DuoDuo.Buffer
