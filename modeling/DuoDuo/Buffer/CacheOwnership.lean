import DuoDuo.Buffer.ArenaOwnership

/-!
# The regions in the cache of a thread

The entries of the cache name regions that were handed out and are not live. A request
that the cache serves takes one entry, a release may add one, and a trim gives entries
back to their chunks.
-/

namespace DuoDuo.Buffer

open PoolArena

/-- What a slot of a list gives up and takes in when it changes. -/
theorem flatMap_set_perm {α β : Type*} {l : List α} {i : ℕ} {x : α} (hx : l[i]? = some x) (y : α)
    (f : α → List β) : ((l.set i y).flatMap f ++ f x).Perm (l.flatMap f ++ f y) := by
  obtain ⟨hi, rfl⟩ := List.getElem?_eq_some_iff.mp hx
  have hset := (List.set_perm_cons_eraseIdx hi y).flatMap_right f
  have hold := (List.getElem_cons_eraseIdx_perm hi).flatMap_right f
  rw [List.flatMap_cons] at hset hold
  calc ((l.set i y).flatMap f ++ f l[i]).Perm (f l[i] ++ (l.set i y).flatMap f) :=
        List.perm_append_comm
    _ |>.Perm (f l[i] ++ (f y ++ (l.eraseIdx i).flatMap f)) := hset.append_left _
    _ |>.Perm (f y ++ (f l[i] ++ (l.eraseIdx i).flatMap f)) := by
        rw [← List.append_assoc, ← List.append_assoc]
        exact List.perm_append_comm.append_right _
    _ |>.Perm (f y ++ l.flatMap f) := hold.append_left _
    _ |>.Perm (l.flatMap f ++ f y) := List.perm_append_comm

namespace PoolThreadCache

/-- The caches of the type in which one has changed. -/
@[simp] theorem caches_setCache_self (t : PoolThreadCache) (type : SizeClassType) (idx : ℕ)
    (m : MemoryRegionCache) : (t.setCache type idx m).caches type = (t.caches type).set idx m :=
  Function.update_self _ _ _

/-- The caches of another type. -/
theorem caches_setCache_of_ne (t : PoolThreadCache) {type type' : SizeClassType}
    (h : type' ≠ type) (idx : ℕ) (m : MemoryRegionCache) :
    (t.setCache type idx m).caches type' = t.caches type' :=
  Function.update_of_ne h _ _

/-- The entries of all caches. -/
def entries (t : PoolThreadCache) : List Entry :=
  (t.caches .small).flatMap MemoryRegionCache.queue ++
    (t.caches .normal).flatMap MemoryRegionCache.queue

/-- The regions that the entries of the caches name. -/
def grants (t : PoolThreadCache) : List Grant := t.entries.map Entry.grant

/-- One cache gives up its entries for others. -/
theorem entries_setCache {t : PoolThreadCache} {type : SizeClassType} {idx : ℕ}
    {m : MemoryRegionCache} (hm : (t.caches type)[idx]? = some m) (m' : MemoryRegionCache) :
    ((t.setCache type idx m').entries ++ m.queue).Perm (t.entries ++ m'.queue) := by
  have hset := flatMap_set_perm hm m' MemoryRegionCache.queue
  cases type with
  | small =>
    have h₁ : (t.setCache .small idx m').entries =
        ((t.caches .small).set idx m').flatMap MemoryRegionCache.queue ++
          (t.caches .normal).flatMap MemoryRegionCache.queue := rfl
    have hswap : ∀ xs ys zs : List Entry, (xs ++ ys ++ zs).Perm (xs ++ zs ++ ys) := by
      intro xs ys zs
      rw [List.append_assoc, List.append_assoc]
      exact List.perm_append_comm.append_left _
    rw [h₁, entries]
    exact (hswap _ _ _).trans ((hset.append_right _).trans (hswap _ _ _))
  | normal =>
    have h₁ : (t.setCache .normal idx m').entries =
        (t.caches .small).flatMap MemoryRegionCache.queue ++
          ((t.caches .normal).set idx m').flatMap MemoryRegionCache.queue := rfl
    rw [h₁, entries, List.append_assoc, List.append_assoc]
    exact hset.append_left _

/-- One cache gives up its first entries. -/
theorem grants_setCache {t : PoolThreadCache} {type : SizeClassType} {idx : ℕ}
    {m m' : MemoryRegionCache} (hm : (t.caches type)[idx]? = some m) (es : List Entry)
    (hqueue : m.queue = es ++ m'.queue) :
    t.grants.Perm (es.map Entry.grant ++ (t.setCache type idx m').grants) := by
  have hgrants := (t.entries_setCache hm m').map Entry.grant
  rw [hqueue, List.map_append, List.map_append, List.map_append, ← List.append_assoc] at hgrants
  exact (List.perm_append_comm.trans ((List.perm_append_right_iff _).mp hgrants)).symm

end PoolThreadCache

variable {k : PoolConfig} {a a' : PoolArena} {t t' : PoolThreadCache} {rest owned : List Grant}
  {reqCapacity sizeIdx : ℕ} {type : SizeClassType} {r : Region}

/-- Freeing entries takes their regions back. -/
theorem Owns.freeEntries {n : ℕ} {queue queue' : List Entry}
    (h : Owns k a (queue.map Entry.grant ++ rest))
    (hstep : freeEntries k.sizeClass n a queue = some (queue', a')) :
    Owns k a' (queue'.map Entry.grant ++ rest) ∧ queue' ⊆ queue := by
  induction n generalizing a queue with
  | zero =>
    cases hstep
    exact ⟨h, List.Subset.refl _⟩
  | succ n ih =>
    cases queue with
    | nil =>
      cases hstep
      exact ⟨h, List.Subset.refl _⟩
    | cons e queue =>
      obtain ⟨a₁, hfree, hrest⟩ := Option.bind_eq_some_iff.mp hstep
      have h₁ := h.freeChunk List.mem_cons_self hfree
      rw [List.map_cons, List.cons_append, List.erase_cons_head] at h₁
      obtain ⟨h', hsub⟩ := ih h₁ hrest
      exact ⟨h', List.subset_cons_of_subset _ hsub⟩

/-- The caches hold fewer entries, at the same places. -/
def Shrunk (ms ms' : List MemoryRegionCache) : Prop :=
  ∀ (i : ℕ) (m' : MemoryRegionCache), ms'[i]? = some m' → ∃ m, ms[i]? = some m ∧ m'.queue ⊆ m.queue

/-- Trimming caches takes the regions of the entries back that are dropped. -/
theorem Owns.trimCaches {ms ms' : List MemoryRegionCache}
    (h : Owns k a ((ms.flatMap MemoryRegionCache.queue).map Entry.grant ++ rest))
    (hstep : trimCaches k.sizeClass a ms = some (ms', a')) :
    Owns k a' ((ms'.flatMap MemoryRegionCache.queue).map Entry.grant ++ rest) ∧
      Shrunk ms ms' := by
  induction ms generalizing a ms' rest with
  | nil =>
    cases hstep
    exact ⟨h, fun _ m' hm' => ⟨m', hm', List.Subset.refl _⟩⟩
  | cons m ms ih =>
    obtain ⟨⟨m₁, a₁⟩, htrim, hrest⟩ := Option.bind_eq_some_iff.mp hstep
    obtain ⟨⟨ms₁, a₂⟩, hcaches, hrest⟩ := Option.bind_eq_some_iff.mp hrest
    obtain ⟨⟨queue, a₃⟩, hfree, htrim⟩ := Option.bind_eq_some_iff.mp htrim
    cases htrim
    cases hrest
    rw [List.flatMap_cons, List.map_append, List.append_assoc] at h
    obtain ⟨h₁, hsub⟩ := h.freeEntries hfree
    have hperm₁ := @List.perm_append_comm_assoc _ (queue.map Entry.grant)
      ((ms.flatMap MemoryRegionCache.queue).map Entry.grant) rest
    obtain ⟨h₂, hshrunk⟩ := ih (h₁.perm hperm₁) hcaches
    have hperm₂ := @List.perm_append_comm_assoc _
      ((ms₁.flatMap MemoryRegionCache.queue).map Entry.grant) (queue.map Entry.grant) rest
    refine ⟨?_, fun i m' hm' => ?_⟩
    · rw [List.flatMap_cons, List.map_append, List.append_assoc]
      exact h₂.perm hperm₂
    · cases i with
      | zero =>
        cases hm'
        exact ⟨m, rfl, hsub⟩
      | succ i => exact hshrunk i m' hm'

/-- The caches of a thread hold fewer entries than before. -/
def PoolThreadCache.Shrunk (t t' : PoolThreadCache) : Prop :=
  ∀ type, Buffer.Shrunk (t.caches type) (t'.caches type)

/-- `trim` keeps the agreement. -/
theorem Owns.trim (h : Owns k a (t.grants ++ rest))
    (hstep : a.trim k.sizeClass t = some (t', a')) :
    Owns k a' (t'.grants ++ rest) ∧ t.Shrunk t' := by
  obtain ⟨⟨small, a₁⟩, hsmall, hrest⟩ := Option.bind_eq_some_iff.mp hstep
  obtain ⟨⟨normal, a₂⟩, hnormal, hrest⟩ := Option.bind_eq_some_iff.mp hrest
  cases hrest
  rw [PoolThreadCache.grants, PoolThreadCache.entries, List.map_append, List.append_assoc] at h
  obtain ⟨h₁, hs₁⟩ := h.trimCaches hsmall
  obtain ⟨h₂, hs₂⟩ := (h₁.perm (List.perm_append_comm_assoc _ _ _)).trimCaches hnormal
  refine ⟨?_, fun type => ?_⟩
  · have hentries : ((t.setCaches .small small).setCaches .normal normal).entries =
        small.flatMap MemoryRegionCache.queue ++ normal.flatMap MemoryRegionCache.queue := rfl
    rw [PoolThreadCache.grants, hentries, List.map_append, List.append_assoc]
    exact h₂.perm (List.perm_append_comm_assoc _ _ _)
  · cases type with
    | small => exact hs₁
    | normal => exact hs₂

theorem PoolThreadCache.Shrunk.trans {t₁ t₂ t₃ : PoolThreadCache} (h₁ : t₁.Shrunk t₂)
    (h₂ : t₂.Shrunk t₃) : t₁.Shrunk t₃ := by
  intro type i m₃ hm₃
  obtain ⟨m₂, hm₂, hsub₂⟩ := h₂ type i m₃ hm₃
  obtain ⟨m₁, hm₁, hsub₁⟩ := h₁ type i m₂ hm₂
  exact ⟨m₁, hm₁, List.Subset.trans hsub₂ hsub₁⟩

/-- Taking entries out of one cache. -/
theorem PoolThreadCache.shrunk_setCache {idx : ℕ} {m : MemoryRegionCache}
    (hm : (t.caches type)[idx]? = some m) {m' : MemoryRegionCache} (hsub : m'.queue ⊆ m.queue) :
    t.Shrunk (t.setCache type idx m') := by
  intro type' i m₁ hm₁
  by_cases htype : type' = type
  · rw [htype, caches_setCache_self, List.getElem?_set] at hm₁
    split_ifs at hm₁ with hi hlt
    · cases hm₁
      exact ⟨m, by rw [htype, ← hi, hm], hsub⟩
    · exact ⟨m₁, by rw [htype, hm₁], List.Subset.refl _⟩
  · rw [caches_setCache_of_ne t htype] at hm₁
    exact ⟨m₁, hm₁, List.Subset.refl _⟩

/-- The cache that is in charge of a size index holds an entry. -/
def PoolThreadCache.Caches (sc : SizeClass) (t : PoolThreadCache) (type : SizeClassType)
    (sizeIdx : ℕ) (e : Entry) : Prop :=
  ∃ idx m, PoolThreadCache.cacheFor sc type sizeIdx = some idx ∧
    (t.caches type)[idx]? = some m ∧ e ∈ m.queue

/-- The region that a cache hands out is that of one of its entries. -/
theorem Owns.initBufFrom {e : Entry} (h : Owns k a owned) (he : e.grant ∈ owned)
    (hinit : a.initBufFrom k.sizeClass type e reqCapacity = some r) :
    r = e.grant.region k (some e.buffer) reqCapacity r.cache := by
  obtain ⟨blocks, h⟩ := h
  cases type with
  | small =>
    obtain ⟨hr, _⟩ := h.initBufWithSubpage_eq he hinit
    rw [hr]
    rfl
  | normal => exact h.initBuf_eq he hinit

/-- Counting an allocation may trim the caches. -/
theorem Owns.countAllocation (h : Owns k a (t.grants ++ rest))
    (hstep : a.countAllocation k.sizeClass t = some (t', a')) :
    Owns k a' (t'.grants ++ rest) ∧ t.Shrunk t' := by
  rw [PoolArena.countAllocation] at hstep
  split_ifs at hstep
  · exact Owns.trim (t := t.setAllocations 0) h hstep
  · cases hstep
    exact ⟨h, fun type i m hm => ⟨m, hm, List.Subset.refl _⟩⟩

/-- A request to the caches takes one entry or none, and may trim the caches. -/
theorem Owns.cacheAllocate (h : Owns k a (t.grants ++ rest)) {res : Option Region}
    (hstep : a.cacheAllocate k.sizeClass t type reqCapacity sizeIdx = some (res, t', a')) :
    t.Shrunk t' ∧ ((res = none ∧ Owns k a' (t'.grants ++ rest)) ∨
      ∃ e r, res = some r ∧ t.Caches k.sizeClass type sizeIdx e ∧
        Owns k a' (e.grant :: (t'.grants ++ rest)) ∧
        r = e.grant.region k (some e.buffer) reqCapacity r.cache) := by
  rw [PoolArena.cacheAllocate] at hstep
  split at hstep
  · cases hstep
    exact ⟨fun type i m hm => ⟨m, hm, List.Subset.refl _⟩, Or.inl ⟨rfl, h⟩⟩
  · next idx m hfound =>
    obtain ⟨idx', hidx, hfound⟩ := Option.bind_eq_some_iff.mp hfound
    obtain ⟨m', hm, hfound⟩ := Option.map_eq_some_iff.mp hfound
    cases hfound
    obtain ⟨⟨region, m₁⟩, hregion, hrest⟩ := Option.bind_eq_some_iff.mp hstep
    obtain ⟨⟨t₁, a₁⟩, hcount, hrest⟩ := Option.bind_eq_some_iff.mp hrest
    cases hrest
    rw [regionCacheAllocate] at hregion
    split at hregion
    · next hempty =>
      cases hregion
      have h₁ : Owns k a ((t.setCache type idx m).grants ++ rest) :=
        h.perm ((PoolThreadCache.grants_setCache hm [] rfl).append_right rest)
      obtain ⟨h', hshrunk⟩ := h₁.countAllocation hcount
      exact ⟨(PoolThreadCache.shrunk_setCache hm (List.Subset.refl _)).trans hshrunk,
        Or.inl ⟨rfl, h'⟩⟩
    · next e queue hqueue =>
      obtain ⟨region, hinit, hregion⟩ := Option.bind_eq_some_iff.mp hregion
      cases hregion
      have htake : t.grants.Perm
          (e.grant :: (t.setCache type idx { m with queue, allocations := m.allocations + 1 }).grants) :=
        PoolThreadCache.grants_setCache hm [e] hqueue
      have hmem : e.grant ∈ t.grants ++ rest :=
        List.mem_append_left _ (htake.mem_iff.mpr List.mem_cons_self)
      have h₁ := h.perm ((htake.append_right rest).trans List.perm_middle.symm)
      obtain ⟨h', hshrunk⟩ := h₁.countAllocation hcount
      have hsub : queue ⊆ m.queue := by
        rw [hqueue]
        exact List.subset_cons_self _ _
      refine ⟨(PoolThreadCache.shrunk_setCache hm hsub).trans hshrunk, Or.inr ⟨e, region, rfl,
        ⟨idx, m, hidx, hm, by rw [hqueue]; exact List.mem_cons_self⟩,
        h'.perm List.perm_middle, h.initBufFrom hmem hinit⟩⟩

/-- Where the region of a request comes from, with the pointer that comes with it: an
entry of the cache, a pool, or a chunk, which gives its last cached pointer away. -/
inductive Served (k : PoolConfig) (a : PoolArena) (t : PoolThreadCache) (reqCapacity : ℕ) :
    Grant → Option Addr → Prop
  | cached {type : SizeClassType} {e : Entry} :
      t.Caches k.sizeClass type (k.sizeClass.size2sizeIdx reqCapacity) e →
      Served k a t reqCapacity e.grant (some e.buffer)
  | pool (g : Grant) : Served k a t reqCapacity g none
  | chunk {type : SizeClassType} {t₁ : PoolThreadCache} {a₁ : PoolArena} (g : Grant) :
      a.cacheAllocate k.sizeClass t type reqCapacity (k.sizeClass.size2sizeIdx reqCapacity) =
        some (none, t₁, a₁) →
      Served k a t reqCapacity g (a₁.store.lastCached g.chunk)

/-- `allocate` hands out a region of a chunk, or a chunk of its own. -/
theorem Owns.allocate (h : Owns k a (t.grants ++ rest))
    (hstep : a.allocate k.sizeClass t reqCapacity = some (r, t', a')) :
    t.Shrunk t' ∧ ((∃ g ptr, Served k a t reqCapacity g ptr ∧
        Owns k a' (g :: (t'.grants ++ rest)) ∧ r = g.region k ptr reqCapacity r.cache) ∨
      ∃ id, r = .initUnpool id (k.sizeClass.normalizeSize reqCapacity).toNat ∧
        Owns k a' (t'.grants ++ rest)) := by
  rw [PoolArena.allocate] at hstep
  dsimp only at hstep
  split_ifs at hstep with hsmall hnormal
  · obtain ⟨⟨region, t₁, a₁⟩, hcache, hrest⟩ := Option.bind_eq_some_iff.mp hstep
    obtain ⟨hshrunk, ⟨rfl, h₁⟩ | ⟨e, r', rfl, he, h₁, hr⟩⟩ := h.cacheAllocate hcache
    · obtain ⟨⟨region, a₂⟩, hpool, hpooled⟩ := Option.bind_eq_some_iff.mp hrest
      rcases h₁.pooledAllocate hpool with ⟨rfl, rfl⟩ | ⟨g, r', rfl, h₂, hr⟩
      · obtain ⟨⟨region, a₃⟩, hchunk, hpooled⟩ := Option.bind_eq_some_iff.mp hpooled
        cases hpooled
        obtain ⟨g, h₃, hr⟩ := h₁.allocateNormal hchunk
        exact ⟨hshrunk, Or.inl ⟨g, _, .chunk g hcache, h₃, hr⟩⟩
      · cases hpooled
        exact ⟨hshrunk, Or.inl ⟨g, _, .pool g, h₂, hr⟩⟩
    · cases hrest
      exact ⟨hshrunk, Or.inl ⟨e.grant, _, .cached he, h₁, hr⟩⟩
  · obtain ⟨⟨region, t₁, a₁⟩, hcache, hrest⟩ := Option.bind_eq_some_iff.mp hstep
    obtain ⟨hshrunk, ⟨rfl, h₁⟩ | ⟨e, r', rfl, he, h₁, hr⟩⟩ := h.cacheAllocate hcache
    · obtain ⟨⟨region, a₃⟩, hchunk, hrest⟩ := Option.bind_eq_some_iff.mp hrest
      cases hrest
      obtain ⟨g, h₃, hr⟩ := h₁.allocateNormal hchunk
      exact ⟨hshrunk, Or.inl ⟨g, _, .chunk g hcache, h₃, hr⟩⟩
    · cases hrest
      exact ⟨hshrunk, Or.inl ⟨e.grant, _, .cached he, h₁, hr⟩⟩
  · obtain ⟨⟨region, a₁⟩, hhuge, hrest⟩ := Option.bind_eq_some_iff.mp hstep
    cases hrest
    rw [allocateHuge] at hhuge
    split_ifs at hhuge
    cases hhuge
    exact ⟨fun type i m hm => ⟨m, hm, List.Subset.refl _⟩, Or.inr ⟨_, rfl, h⟩⟩

/-- `add` puts the entry into the cache that is in charge of its size. -/
theorem PoolThreadCache.add_cases {sc : SizeClass} {e : Entry} (h : t.add sc type e = some t') :
    t'.grants.Perm (e.grant :: t.grants) ∧ ∀ type' i m', (t'.caches type')[i]? = some m' →
      ∃ m, (t.caches type')[i]? = some m ∧ (m'.queue = m.queue ∨ (m'.queue = m.queue ++ [e] ∧
        type' = type ∧ cacheFor sc type (sc.size2sizeIdx e.grant.normCapacity) = some i)) := by
  obtain ⟨idx, hidx, h⟩ := Option.bind_eq_some_iff.mp h
  obtain ⟨m, hm, h⟩ := Option.bind_eq_some_iff.mp h
  cases h
  constructor
  · have hgrants := (t.entries_setCache hm { m with queue := m.queue ++ [e] }).map Entry.grant
    have hmove : (t.entries.map Entry.grant ++ (m.queue ++ [e]).map Entry.grant).Perm
        (e.grant :: t.grants ++ m.queue.map Entry.grant) := by
      rw [List.map_append, ← List.append_assoc]
      exact List.perm_append_singleton _ _
    rw [List.map_append, List.map_append] at hgrants
    exact (List.perm_append_right_iff _).mp (hgrants.trans hmove)
  · intro type' i m' hm'
    by_cases htype : type' = type
    · rw [htype, caches_setCache_self, List.getElem?_set] at hm'
      split_ifs at hm' with hi hlt
      · cases hm'
        exact ⟨m, by rw [htype, ← hi, hm], Or.inr ⟨rfl, htype, hi ▸ hidx⟩⟩
      · exact ⟨m', by rw [htype, hm'], Or.inl rfl⟩
    · rw [caches_setCache_of_ne t htype] at hm'
      exact ⟨m', hm', Or.inl rfl⟩

/-- `free` gives a region back to its chunk, or puts it into the cache. -/
theorem Owns.free {id handle normCapacity : ℕ} {buffer : Addr} {cache : Bool}
    (h : Owns k a (⟨id, handle, normCapacity⟩ :: (t.grants ++ rest)))
    (hstep : a.free k.sizeClass t (.pooled id) buffer handle normCapacity cache = some (t', a')) :
    Owns k a' (t'.grants ++ rest) ∧ (t' = t ∨
      t.add k.sizeClass (getSizeClassType handle) ⟨⟨id, handle, normCapacity⟩, buffer⟩ = some t') := by
  rw [PoolArena.free] at hstep
  dsimp only at hstep
  split at hstep
  · next t₁ hadd =>
    cases hstep
    split_ifs at hadd
    have hperm := (PoolThreadCache.add_cases hadd).1
    exact ⟨h.perm (hperm.symm.append_right rest), Or.inr hadd⟩
  · obtain ⟨a₁, hfree, hrest⟩ := Option.bind_eq_some_iff.mp hstep
    cases hrest
    have h₁ := h.freeChunk List.mem_cons_self hfree
    rw [List.erase_cons_head] at h₁
    exact ⟨h₁, Or.inl rfl⟩

end DuoDuo.Buffer
