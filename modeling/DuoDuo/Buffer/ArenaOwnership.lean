import DuoDuo.Buffer.PoolThreadCache

/-!
# The regions that an arena hands out

Every operation of an arena keeps the agreement between its chunks and the regions
that were handed out. An allocation adds the region that it describes to the buffer,
and a release takes the region back or destroys a chunk in which nothing is in use.
-/

namespace DuoDuo.Buffer

open Library PoolChunk PoolSubpage

/-- Where a region begins in its chunk. -/
def Grant.offset (k : PoolConfig) (g : Grant) : ℕ :=
  (calculateRunOffset g.handle <<< k.pageShifts) +
    if isSubpage g.handle then calculateBitmapIdx g.handle * g.normCapacity else 0

/-- The address at which a region begins. -/
def Grant.addr (k : PoolConfig) (g : Grant) : Addr := (.pooled g.chunk, g.offset k)

/-- What `init0` tells a buffer of a region. -/
def Grant.region (k : PoolConfig) (g : Grant) (buffer : Option Addr) (length : ℕ) (cache : Bool) :
    Region :=
  .init0 (.pooled g.chunk) buffer g.handle (g.offset k) length g.normCapacity cache

variable {k : PoolConfig} {s s' : ChunkStore} {blocks : ℕ → ℕ → Option ℕ} {owned : List Grant}
  {g : Grant} {buffer : Option Addr} {reqCapacity sizeIdx id : ℕ} {cache : Bool} {r : Region}

/-- The handle of a subpage's element describes the element. -/
theorem StoreInv.initBufWithSubpage_eq (h : StoreInv k s blocks owned) (hg : g ∈ owned)
    (hinit : s.initBufWithSubpage k.sizeClass g.chunk buffer g.handle reqCapacity cache = some r) :
    r = g.region k buffer reqCapacity cache ∧ reqCapacity ≤ g.normCapacity := by
  obtain ⟨c, hid, hinit⟩ := Option.bind_eq_some_iff.mp hinit
  obtain ⟨sp, hsp, hinit⟩ := Option.bind_eq_some_iff.mp hinit
  split_ifs at hinit with hguard
  cases hinit
  obtain ⟨c', hid', hholds⟩ := (h.owned_iff g).mp hg
  rw [hid] at hid'
  cases hid'
  obtain ⟨_, _, _, _, ⟨_, _, hnone, _⟩ | ⟨sp', hsub, hsp', _, _, hcap⟩⟩ :=
    hholds.block (h.chunk hid)
  · rw [hnone] at hsp
    cases hsp
  · rw [hsp] at hsp'
    cases hsp'
    refine ⟨?_, hcap ▸ hguard.2⟩
    rw [Grant.region, Grant.offset, if_pos hsub, hcap, (h.chunk hid).offset, Nat.add_zero,
      k.pageShifts_sizeClass]

/-- The handle of a region describes the region. -/
theorem StoreInv.initBuf_eq (h : StoreInv k s blocks owned) (hg : g ∈ owned)
    (hinit : s.initBuf k.sizeClass g.chunk buffer g.handle reqCapacity cache = some r) :
    r = g.region k buffer reqCapacity r.cache := by
  rw [ChunkStore.initBuf] at hinit
  split_ifs at hinit with hsub
  · obtain ⟨rfl, _⟩ := h.initBufWithSubpage_eq hg hinit
    rfl
  · cases hinit
    obtain ⟨c, hid, hholds⟩ := (h.owned_iff g).mp hg
    obtain ⟨_, _, _, _, ⟨_, _, _, hcap⟩ | ⟨sp, hsub', _⟩⟩ := hholds.block (h.chunk hid)
    · have hsize : PoolChunk.runSize k.pageShifts g.handle = g.normCapacity := by
        rw [hcap, PoolChunk.runSize, Nat.shiftLeft_eq]
        rfl
      rw [Grant.region, Grant.offset, if_neg hsub, Nat.add_zero, k.pageShifts_sizeClass, hsize]
      rfl
    · exact absurd hsub' hsub

/-- The request of `allocate` to a chunk hands out a region, or changes nothing. -/
theorem StoreInv.allocateHandle (h : StoreInv k s blocks owned) {res : Option ℕ}
    (hstep : s.allocateHandle k.sizeClass id sizeIdx = some (res, s')) :
    (res = none ∧ s' = s) ∨ ∃ handle cap blocks', res = some handle ∧
      StoreInv k s' blocks' (⟨id, handle, cap⟩ :: owned) ∧
      (s.chunks id).isSome = true ∧ (s'.chunks id).map PoolChunk.cachedBuffers =
        (s.chunks id).map PoolChunk.cachedBuffers := by
  rw [ChunkStore.allocateHandle] at hstep
  split_ifs at hstep with hsmall
  · obtain ⟨c, hid, hrest⟩ := Option.bind_eq_some_iff.mp hstep
    obtain ⟨⟨r', c', pools⟩, hsubpage, hrest⟩ := Option.bind_eq_some_iff.mp hrest
    have hlink : ∀ o, c.subpages o = none → s.link (id, o) = none := by
      intro o hnone
      rw [ChunkStore.link, hid, Option.bind_some, hnone]
      rfl
    rcases (h.chunk hid).allocateSubpage h.pools hlink hsubpage with
      ⟨rfl, rfl, rfl⟩ | ⟨o, sp, i, _, rfl, _, _, _, _, hcached, _⟩
    · cases hrest
      exact Or.inl ⟨rfl, by rw [ChunkStore.setChunk, ← hid, Function.update_eq_self]⟩
    · obtain ⟨blocks', h'⟩ := h.allocateSubpage hstep
      cases hrest
      refine Or.inr ⟨_, _, blocks', rfl, h', by rw [hid]; rfl, ?_⟩
      rw [ChunkStore.chunks_setChunk_self, hid, Option.map_some, Option.map_some, hcached]
  · obtain ⟨c, hid, hrest⟩ := Option.bind_eq_some_iff.mp hstep
    obtain ⟨⟨r', c'⟩, hrun, hrest⟩ := Option.bind_eq_some_iff.mp hrest
    cases r' with
    | none =>
      cases hrest
      rcases allocateRun_cases hrun with ⟨_, rfl⟩ | ⟨_, _, _, _, _, _, _, hres, _⟩
      · exact Or.inl ⟨rfl, by rw [ChunkStore.setChunk, ← hid, Function.update_eq_self]⟩
      · cases hres
    | some handle =>
      obtain ⟨_, _, _, _, hcached, _⟩ := (h.chunk hid).allocateRun hrun
      cases hrest
      obtain ⟨blocks', h'⟩ := h.allocateRun hstep
      refine Or.inr ⟨_, _, blocks', rfl, h', by rw [hid]; rfl, ?_⟩
      rw [ChunkStore.chunks_setChunk_self, hid, Option.map_some, Option.map_some, hcached]

/-- What `allocate` of a chunk does: nothing, or it hands out a region of the chunk,
with the last pointer of `m_cachedBuffers` before the call. -/
theorem StoreInv.allocate (h : StoreInv k s blocks owned) {res : Option Region}
    (hstep : s.allocate k.sizeClass id reqCapacity sizeIdx cache = some (res, s')) :
    (res = none ∧ s' = s) ∨ ∃ c blocks' g r, s.chunks id = some c ∧ res = some r ∧ g.chunk = id ∧
      StoreInv k s' blocks' (g :: owned) ∧
      r = g.region k c.cachedBuffers.head? reqCapacity r.cache := by
  obtain ⟨⟨handle, s₁⟩, hhandle, hrest⟩ := Option.bind_eq_some_iff.mp hstep
  rcases h.allocateHandle hhandle with ⟨rfl, rfl⟩ | ⟨handle, cap, blocks', rfl, h₁, hold, hcached⟩
  · cases hrest
    exact Or.inl ⟨rfl, rfl⟩
  · dsimp only at hrest
    split_ifs at hrest with hguard
    obtain ⟨c, hid, hrest⟩ := Option.bind_eq_some_iff.mp hrest
    obtain ⟨region, hinit, hrest⟩ := Option.bind_eq_some_iff.mp hrest
    cases hrest
    have h' : StoreInv k (s₁.popCachedBuffer id c) blocks' (⟨id, handle, cap⟩ :: owned) :=
      h₁.retouch hid rfl rfl rfl rfl rfl
    obtain ⟨c₀, hc₀⟩ := Option.isSome_iff_exists.mp hold
    rw [hid, hc₀] at hcached
    have hsame : c.cachedBuffers = c₀.cachedBuffers := Option.some.inj hcached
    refine Or.inr ⟨c₀, blocks', ⟨id, handle, cap⟩, region, hc₀, rfl, rfl, h', ?_⟩
    rw [← hsame]
    exact h'.initBuf_eq (List.mem_cons_self) hinit

/-- The chunks of an arena agree with the regions that were handed out. -/
def Owns (k : PoolConfig) (a : PoolArena) (owned : List Grant) : Prop :=
  ∃ blocks, StoreInv k a.store blocks owned

/-- The last pointer of `m_cachedBuffers` of a chunk. -/
def ChunkStore.lastCached (s : ChunkStore) (id : ℕ) : Option Addr :=
  (s.chunks id).bind fun c => c.cachedBuffers.head?

namespace PoolArena

variable {sc : SizeClass} {a a' : PoolArena} {l : ChunkListName}

theorem store_remove (h : a.remove l id = some a') : a'.store = a.store := by
  obtain ⟨_, _, h⟩ := Option.bind_eq_some_iff.mp h
  cases h
  rfl

/-- `add` ends with `add0` for some list. -/
theorem add_cases {fuel : ℕ} (h : a.add sc id fuel l = some a') :
    ∃ l', a.add0 l' id = some a' := by
  induction fuel generalizing l with
  | zero => cases h
  | succ fuel ih =>
    obtain ⟨c, _, h⟩ := Option.bind_eq_some_iff.mp h
    split_ifs at h
    · obtain ⟨next, _, h⟩ := Option.bind_eq_some_iff.mp h
      exact ih h
    · exact ⟨l, h⟩

/-- `move` and `move0` end with `add0` for some list, or they find that the chunk is
not used. -/
theorem move_cases (fuel : ℕ) {kept : Bool} :
    (a.move sc id fuel l = some (kept, a') →
      (kept = true ∧ ∃ l', a.add0 l' id = some a') ∨ (kept = false ∧ a' = a ∧
        ∃ c, a.store.chunks id = some c ∧ c.usage sc = 0)) ∧
    (a.move0 sc id fuel l = some (kept, a') →
      (kept = true ∧ ∃ l', a.add0 l' id = some a') ∨ (kept = false ∧ a' = a ∧
        ∃ c, a.store.chunks id = some c ∧ c.usage sc = 0)) := by
  induction fuel generalizing l with
  | zero => exact ⟨nofun, nofun⟩
  | succ fuel ih =>
    constructor
    · intro h
      rw [move] at h
      obtain ⟨c, _, h⟩ := Option.bind_eq_some_iff.mp h
      split_ifs at h
      · exact ih.2 h
      · obtain ⟨_, hadd, h⟩ := Option.bind_eq_some_iff.mp h
        cases h
        exact Or.inl ⟨rfl, l, hadd⟩
    · intro h
      rw [move0] at h
      split at h
      · obtain ⟨c, hid, h⟩ := Option.bind_eq_some_iff.mp h
        split_ifs at h with husage
        cases h
        exact Or.inr ⟨rfl, rfl, c, hid, husage⟩
      · exact ih.1 h

end PoolArena

open PoolArena

variable {a a' : PoolArena} {l : ChunkListName}

theorem Owns.perm {owned' : List Grant} (h : Owns k a owned) (hperm : owned.Perm owned') :
    Owns k a owned' := by
  obtain ⟨blocks, h⟩ := h
  exact ⟨blocks, h.perm hperm⟩

/-- `add0` changes the parent of a chunk and the lists only. -/
theorem Owns.add0 (h : Owns k a owned) (hadd : a.add0 l id = some a') : Owns k a' owned := by
  obtain ⟨blocks, h⟩ := h
  obtain ⟨c, hid, hadd⟩ := Option.bind_eq_some_iff.mp hadd
  cases hadd
  exact ⟨blocks, h.retouch hid rfl rfl rfl rfl rfl⟩

/-- The first chunk of a list that can serve a request hands out a region. -/
theorem Owns.allocateFrom (h : Owns k a owned) {res : Option Region} {ids : List ℕ}
    (hstep : allocateFrom k.sizeClass l reqCapacity sizeIdx cache a ids = some (res, a')) :
    (res = none ∧ a' = a) ∨ ∃ g r, res = some r ∧ Owns k a' (g :: owned) ∧
      r = g.region k (a.store.lastCached g.chunk) reqCapacity r.cache := by
  obtain ⟨blocks, h⟩ := h
  induction ids with
  | nil =>
    cases hstep
    exact Or.inl ⟨rfl, rfl⟩
  | cons cur ids ih =>
    obtain ⟨⟨region, store⟩, halloc, hrest⟩ := Option.bind_eq_some_iff.mp hstep
    rcases h.allocate halloc with ⟨rfl, rfl⟩ | ⟨c, blocks', g, r, hid, rfl, hg, h', hr⟩
    · exact ih hrest
    · have hr' : r = g.region k (a.store.lastCached g.chunk) reqCapacity r.cache := by
        rw [ChunkStore.lastCached, hg, hid]
        exact hr
      have howns : Owns k (a.setStore store) (g :: owned) := ⟨blocks', h'⟩
      obtain ⟨c', _, hrest⟩ := Option.bind_eq_some_iff.mp hrest
      split_ifs at hrest
      · obtain ⟨next, _, hrest⟩ := Option.bind_eq_some_iff.mp hrest
        obtain ⟨a₁, hremove, hrest⟩ := Option.bind_eq_some_iff.mp hrest
        obtain ⟨a₂, hadd, hrest⟩ := Option.bind_eq_some_iff.mp hrest
        cases hrest
        obtain ⟨l', hadd⟩ := add_cases hadd
        have h₁ : Owns k a₁ (g :: owned) := ⟨blocks', by rw [store_remove hremove]; exact h'⟩
        exact Or.inr ⟨g, r, rfl, h₁.add0 hadd, hr'⟩
      · cases hrest
        exact Or.inr ⟨g, r, rfl, howns, hr'⟩

/-- The first list that can serve a request hands out a region. -/
theorem Owns.allocateLists (h : Owns k a owned) {res : Option Region} {ls : List ChunkListName}
    (hstep : allocateLists k.sizeClass reqCapacity sizeIdx cache a ls = some (res, a')) :
    (res = none ∧ a' = a) ∨ ∃ g r, res = some r ∧ Owns k a' (g :: owned) ∧
      r = g.region k (a.store.lastCached g.chunk) reqCapacity r.cache := by
  induction ls with
  | nil =>
    cases hstep
    exact Or.inl ⟨rfl, rfl⟩
  | cons l ls ih =>
    obtain ⟨⟨region, a₁⟩, hlist, hrest⟩ := Option.bind_eq_some_iff.mp hstep
    have hcases : (region = none ∧ a₁ = a) ∨ ∃ g r, region = some r ∧ Owns k a₁ (g :: owned) ∧
        r = g.region k (a.store.lastCached g.chunk) reqCapacity r.cache := by
      rw [listAllocate] at hlist
      split_ifs at hlist
      · cases hlist
        exact Or.inl ⟨rfl, rfl⟩
      · exact h.allocateFrom hlist
    rcases hcases with ⟨rfl, rfl⟩ | ⟨g, r, rfl, h₁, hr⟩
    · exact ih hrest
    · cases hrest
      exact Or.inr ⟨g, r, rfl, h₁, hr⟩

/-- `allocateNormal` hands out a region of a chunk, which may be new. -/
theorem Owns.allocateNormal (h : Owns k a owned)
    (hstep : a.allocateNormal k.sizeClass reqCapacity sizeIdx cache = some (r, a')) :
    ∃ g, Owns k a' (g :: owned) ∧
      r = g.region k (a.store.lastCached g.chunk) reqCapacity r.cache := by
  obtain ⟨⟨region, a₁⟩, hlists, hrest⟩ := Option.bind_eq_some_iff.mp hstep
  rcases h.allocateLists hlists with ⟨rfl, rfl⟩ | ⟨g, r', rfl, h₁, hr⟩
  · obtain ⟨⟨res, store⟩, halloc, hrest⟩ := Option.bind_eq_some_iff.mp hrest
    obtain ⟨region, hres, hrest⟩ := Option.bind_eq_some_iff.mp hrest
    obtain ⟨a₂, hadd, hrest⟩ := Option.bind_eq_some_iff.mp hrest
    cases hrest
    obtain ⟨blocks, h⟩ := h
    rcases h.newChunk.allocate halloc with ⟨hnone, _⟩ | ⟨c, blocks', g, r', hid, hsome, hg, h', hr⟩
    · rw [hnone] at hres
      cases hres
    · rw [hsome] at hres
      cases hres
      obtain ⟨l', hadd⟩ := add_cases hadd
      have howns : Owns k (a₁.setStore store) (g :: owned) := ⟨blocks', h'⟩
      rw [ChunkStore.chunks_newChunk_self] at hid
      cases hid
      refine ⟨g, howns.add0 hadd, ?_⟩
      rw [ChunkStore.lastCached, hg, h.chunks_nextChunk]
      rw [(new_rest k).2.1] at hr
      exact hr
  · cases hrest
    exact ⟨g, h₁, hr⟩

/-- `freeChunk` takes a region back. -/
theorem Owns.freeChunk (h : Owns k a owned) (hg : g ∈ owned) {ptr : Addr}
    (hstep : a.freeChunk k.sizeClass g ptr = some a') : Owns k a' (owned.erase g) := by
  obtain ⟨blocks, h⟩ := h
  obtain ⟨c, hid, hrest⟩ := Option.bind_eq_some_iff.mp hstep
  obtain ⟨parent, _, hrest⟩ := Option.bind_eq_some_iff.mp hrest
  obtain ⟨⟨kept, a₁⟩, hlist, hrest⟩ := Option.bind_eq_some_iff.mp hrest
  obtain ⟨store, hfree, hlist⟩ := Option.bind_eq_some_iff.mp hlist
  obtain ⟨store', blocks', hfree', h'⟩ := h.free hg (some ptr)
  rw [hfree] at hfree'
  cases hfree'
  have howns : Owns k (a.setStore store) (owned.erase g) := ⟨blocks', h'⟩
  obtain ⟨c', hid', hlist⟩ := Option.bind_eq_some_iff.mp hlist
  split_ifs at hlist
  · obtain ⟨a₂, hremove, hmove⟩ := Option.bind_eq_some_iff.mp hlist
    have hstore : a₂.store = store := store_remove hremove
    have h₂ : StoreInv k a₂.store blocks' (owned.erase g) := by
      rw [hstore]
      exact h'
    rcases (move_cases listFuel).2 hmove with ⟨rfl, l', hadd⟩ | ⟨rfl, rfl, c₂, hid₂, husage⟩
    · cases hrest
      exact Owns.add0 ⟨blocks', h₂⟩ hadd
    · cases hrest
      exact ⟨blocks', h₂.destroyChunk hid₂ ((h₂.chunk hid₂).freeBytes_of_usage husage)⟩
  · cases hlist
    cases hrest
    exact howns

/-- An element of a pool that is handed out. -/
theorem Owns.pooledAllocate (h : Owns k a owned) {res : Option Region}
    (hstep : a.pooledAllocate k.sizeClass reqCapacity sizeIdx = some (res, a')) :
    (res = none ∧ a' = a) ∨ ∃ g r, res = some r ∧ Owns k a' (g :: owned) ∧
      r = g.region k none reqCapacity r.cache := by
  obtain ⟨blocks, h⟩ := h
  obtain ⟨⟨element, store⟩, hpool, hrest⟩ := Option.bind_eq_some_iff.mp hstep
  cases element with
  | none =>
    cases hrest
    rcases allocatePooled_cases hpool with ⟨_, hsame, _⟩ | ⟨_, _, _, _, _, _, _, hr, _⟩
    · exact Or.inl ⟨rfl, by rw [hsame]; rfl⟩
    · cases hr
  | some element =>
    obtain ⟨id, handle⟩ := element
    obtain ⟨region, hinit, hrest⟩ := Option.bind_eq_some_iff.mp hrest
    cases hrest
    have h' := h.allocatePooled hpool
    obtain ⟨hr, _⟩ := h'.initBufWithSubpage_eq List.mem_cons_self hinit
    refine Or.inr ⟨_, region, rfl, ⟨blocks, h'⟩, ?_⟩
    rw [hr]
    rfl

end DuoDuo.Buffer
