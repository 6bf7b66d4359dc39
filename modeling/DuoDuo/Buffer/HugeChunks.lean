import DuoDuo.Buffer.CacheOwnership

/-!
# The chunks that are not pooled

Requests beyond the size classes get chunks of their own. All other operations of an arena
leave these chunks alone.
-/

namespace DuoDuo.Buffer

open Library ChunkListName

namespace PoolArena

variable {sc : SizeClass} {a a' : PoolArena} {t t' : PoolThreadCache} {l : ChunkListName}
  {id reqCapacity sizeIdx : ℕ} {cache : Bool} {res : Option Region}

/-- The chunks that are not pooled. -/
def huge (a : PoolArena) : (ℕ → Option ℕ) × ℕ := (a.unpooled, a.nextUnpooled)

theorem huge_setStore (store : ChunkStore) : (a.setStore store).huge = a.huge := rfl

/-- Taking a chunk off a list. -/
theorem huge_remove (h : a.remove l id = some a') : a'.huge = a.huge := by
  obtain ⟨_, _, h⟩ := Option.bind_eq_some_iff.mp h
  cases h
  rfl

/-- Putting a chunk on a list. -/
theorem huge_add0 (h : a.add0 l id = some a') : a'.huge = a.huge := by
  obtain ⟨_, _, h⟩ := Option.bind_eq_some_iff.mp h
  cases h
  rfl

/-- Putting a chunk on the list for its usage. -/
theorem huge_add {fuel : ℕ} (h : a.add sc id fuel l = some a') : a'.huge = a.huge := by
  obtain ⟨_, hadd⟩ := add_cases h
  exact huge_add0 hadd

/-- The loop over the chunks of a list. -/
theorem huge_allocateFrom {ids : List ℕ}
    (h : allocateFrom sc l reqCapacity sizeIdx cache a ids = some (res, a')) :
    a'.huge = a.huge := by
  induction ids generalizing a with
  | nil =>
    cases h
    rfl
  | cons cur ids ih =>
    obtain ⟨⟨region, store⟩, _, h⟩ := Option.bind_eq_some_iff.mp h
    cases region with
    | none => exact (ih h).trans (huge_setStore store)
    | some region =>
      obtain ⟨c, _, h⟩ := Option.bind_eq_some_iff.mp h
      split_ifs at h
      · obtain ⟨next, _, h⟩ := Option.bind_eq_some_iff.mp h
        obtain ⟨a₁, hremove, h⟩ := Option.bind_eq_some_iff.mp h
        obtain ⟨a₂, hadd, h⟩ := Option.bind_eq_some_iff.mp h
        cases h
        exact ((huge_add hadd).trans (huge_remove hremove)).trans (huge_setStore store)
      · cases h
        rfl

/-- The search through the lists. -/
theorem huge_allocateLists {ls : List ChunkListName}
    (h : allocateLists sc reqCapacity sizeIdx cache a ls = some (res, a')) :
    a'.huge = a.huge := by
  induction ls generalizing a with
  | nil =>
    cases h
    rfl
  | cons l ls ih =>
    obtain ⟨⟨region, a₁⟩, hlist, h⟩ := Option.bind_eq_some_iff.mp h
    have hhuge : a₁.huge = a.huge := by
      rw [listAllocate] at hlist
      split_ifs at hlist
      · cases hlist
        rfl
      · exact huge_allocateFrom hlist
    cases region with
    | none => exact (ih h).trans hhuge
    | some region =>
      cases h
      exact hhuge

/-- A request to the chunks. -/
theorem huge_allocateNormal {r : Region}
    (h : a.allocateNormal sc reqCapacity sizeIdx cache = some (r, a')) : a'.huge = a.huge := by
  obtain ⟨⟨region, a₁⟩, hlists, h⟩ := Option.bind_eq_some_iff.mp h
  have hhuge := huge_allocateLists hlists
  cases region with
  | none =>
    obtain ⟨⟨res, store⟩, _, h⟩ := Option.bind_eq_some_iff.mp h
    obtain ⟨region, _, h⟩ := Option.bind_eq_some_iff.mp h
    obtain ⟨a₂, hadd, h⟩ := Option.bind_eq_some_iff.mp h
    cases h
    exact (huge_add hadd).trans hhuge
  | some region =>
    cases h
    exact hhuge

/-- A request to a pool. -/
theorem huge_pooledAllocate
    (h : a.pooledAllocate sc reqCapacity sizeIdx = some (res, a')) : a'.huge = a.huge := by
  obtain ⟨⟨element, store⟩, _, h⟩ := Option.bind_eq_some_iff.mp h
  cases element with
  | none =>
    cases h
    rfl
  | some element =>
    obtain ⟨region, _, h⟩ := Option.bind_eq_some_iff.mp h
    cases h
    rfl

/-- The release of a region to its chunk. -/
theorem huge_freeChunk {g : Grant} {ptr : Addr} (h : a.freeChunk sc g ptr = some a') :
    a'.huge = a.huge := by
  obtain ⟨c, _, h⟩ := Option.bind_eq_some_iff.mp h
  obtain ⟨parent, _, h⟩ := Option.bind_eq_some_iff.mp h
  obtain ⟨⟨kept, a₁⟩, hlist, h⟩ := Option.bind_eq_some_iff.mp h
  have hhuge : a₁.huge = a.huge := by
    obtain ⟨store, _, hlist⟩ := Option.bind_eq_some_iff.mp hlist
    obtain ⟨c', _, hlist⟩ := Option.bind_eq_some_iff.mp hlist
    split_ifs at hlist
    · obtain ⟨a₂, hremove, hmove⟩ := Option.bind_eq_some_iff.mp hlist
      rcases (move_cases listFuel).2 hmove with ⟨-, l', hadd⟩ | ⟨-, rfl, -⟩
      · exact ((huge_add0 hadd).trans (huge_remove hremove)).trans (huge_setStore store)
      · exact (huge_remove hremove).trans (huge_setStore store)
    · cases hlist
      rfl
  cases kept with
  | true =>
    cases h
    exact hhuge
  | false =>
    cases h
    exact hhuge

/-- The release of entries of a cache. -/
theorem huge_freeEntries {n : ℕ} {queue queue' : List Entry}
    (h : a.freeEntries sc n queue = some (queue', a')) : a'.huge = a.huge := by
  induction n generalizing a queue with
  | zero =>
    cases h
    rfl
  | succ n ih =>
    cases queue with
    | nil =>
      cases h
      rfl
    | cons e queue =>
      obtain ⟨a₁, hfree, h⟩ := Option.bind_eq_some_iff.mp h
      exact (ih h).trans (huge_freeChunk hfree)

/-- The trim of a vector of caches. -/
theorem huge_trimCaches {ms ms' : List MemoryRegionCache}
    (h : trimCaches sc a ms = some (ms', a')) : a'.huge = a.huge := by
  induction ms generalizing a ms' with
  | nil =>
    cases h
    rfl
  | cons m ms ih =>
    obtain ⟨⟨m₁, a₁⟩, htrim, h⟩ := Option.bind_eq_some_iff.mp h
    obtain ⟨⟨ms₁, a₂⟩, hcaches, h⟩ := Option.bind_eq_some_iff.mp h
    obtain ⟨⟨queue, a₃⟩, hfree, htrim⟩ := Option.bind_eq_some_iff.mp htrim
    cases htrim
    cases h
    exact (ih hcaches).trans (huge_freeEntries hfree)

/-- A request to the caches, which may trim them. -/
theorem huge_cacheAllocate {type : SizeClassType}
    (h : a.cacheAllocate sc t type reqCapacity sizeIdx = some (res, t', a')) :
    a'.huge = a.huge := by
  rw [cacheAllocate] at h
  split at h
  · cases h
    rfl
  · obtain ⟨⟨region, m⟩, _, h⟩ := Option.bind_eq_some_iff.mp h
    obtain ⟨⟨t₁, a₁⟩, hcount, h⟩ := Option.bind_eq_some_iff.mp h
    cases h
    rw [countAllocation] at hcount
    split_ifs at hcount
    · obtain ⟨⟨small, a₂⟩, hsmall, hcount⟩ := Option.bind_eq_some_iff.mp hcount
      obtain ⟨⟨normal, a₃⟩, hnormal, hcount⟩ := Option.bind_eq_some_iff.mp hcount
      cases hcount
      exact (huge_trimCaches hnormal).trans (huge_trimCaches hsmall)
    · cases hcount
      rfl

/-- The release of a region of a pooled chunk. -/
theorem huge_free {buffer : Addr} {handle normCapacity : ℕ}
    (h : a.free sc t (.pooled id) buffer handle normCapacity cache = some (t', a')) :
    a'.huge = a.huge := by
  rw [PoolArena.free] at h
  dsimp only at h
  split at h
  · cases h
    rfl
  · obtain ⟨a₁, hfree, h⟩ := Option.bind_eq_some_iff.mp h
    cases h
    exact huge_freeChunk hfree

end PoolArena

/-- The chunk that a region has for itself, if it is not pooled, with its capacity. -/
def Region.huge (r : Region) : List (ℕ × ℕ) :=
  match r.chunk with
  | .pooled _ => []
  | .unpooled id => [(id, r.maxLength)]

open PoolArena

variable {k : PoolConfig} {a a' : PoolArena} {t t' : PoolThreadCache} {rest : List Grant}

/-- A request is served by a pooled chunk, or by a chunk of its own. -/
theorem Owns.allocate_huge {r : Region} {reqCapacity : ℕ} (h : Owns k a (t.grants ++ rest))
    (hstep : a.allocate k.sizeClass t reqCapacity = some (r, t', a')) :
    (r.huge = [] ∧ a'.huge = a.huge) ∨ ∃ capacity, r = .initUnpool a.nextUnpooled capacity ∧
      t' = t ∧ a' = a.newUnpoolChunk capacity := by
  rw [PoolArena.allocate] at hstep
  dsimp only at hstep
  split_ifs at hstep with hsmall hnormal
  · obtain ⟨⟨region, t₁, a₁⟩, hcache, hrest⟩ := Option.bind_eq_some_iff.mp hstep
    have hhuge₁ := huge_cacheAllocate hcache
    obtain ⟨-, ⟨rfl, h₁⟩ | ⟨e, r', rfl, -, -, hr⟩⟩ := h.cacheAllocate hcache
    · obtain ⟨⟨region, a₂⟩, hpool, hpooled⟩ := Option.bind_eq_some_iff.mp hrest
      have hhuge₂ := huge_pooledAllocate hpool
      rcases h₁.pooledAllocate hpool with ⟨rfl, rfl⟩ | ⟨g, r', rfl, -, hr⟩
      · obtain ⟨⟨region, a₃⟩, hchunk, hpooled⟩ := Option.bind_eq_some_iff.mp hpooled
        cases hpooled
        obtain ⟨g, -, hr⟩ := h₁.allocateNormal hchunk
        exact .inl ⟨by rw [hr]; rfl, (huge_allocateNormal hchunk).trans hhuge₁⟩
      · cases hpooled
        exact .inl ⟨by rw [hr]; rfl, hhuge₂.trans hhuge₁⟩
    · cases hrest
      exact .inl ⟨by rw [hr]; rfl, hhuge₁⟩
  · obtain ⟨⟨region, t₁, a₁⟩, hcache, hrest⟩ := Option.bind_eq_some_iff.mp hstep
    have hhuge₁ := huge_cacheAllocate hcache
    obtain ⟨-, ⟨rfl, h₁⟩ | ⟨e, r', rfl, -, -, hr⟩⟩ := h.cacheAllocate hcache
    · obtain ⟨⟨region, a₃⟩, hchunk, hrest⟩ := Option.bind_eq_some_iff.mp hrest
      cases hrest
      obtain ⟨g, -, hr⟩ := h₁.allocateNormal hchunk
      exact .inl ⟨by rw [hr]; rfl, (huge_allocateNormal hchunk).trans hhuge₁⟩
    · cases hrest
      exact .inl ⟨by rw [hr]; rfl, hhuge₁⟩
  · obtain ⟨⟨region, a₁⟩, hhuge, hrest⟩ := Option.bind_eq_some_iff.mp hstep
    cases hrest
    rw [allocateHuge] at hhuge
    split_ifs at hhuge
    cases hhuge
    exact .inr ⟨_, rfl, rfl, rfl⟩

end DuoDuo.Buffer
