import DuoDuo.Buffer.ArenaProgress

/-!
# A thread gets a region for every request of a class

The cache of a thread files the regions by their classes, so that an entry serves the
requests for its own class. With the arena below it, every request up to the size of a
chunk gets a region of its class.
-/

namespace DuoDuo.Buffer

open Library PoolChunk PoolArena

variable {k : PoolConfig} {a a' : PoolArena} {t t' : PoolThreadCache} {owned rest : List Grant}
  {reqCapacity sizeIdx : ℕ} {cache : Bool} {type : SizeClassType} {g : Grant} {r : Region}

/-- Every entry of the caches is a region of the class that its cache is in charge of. -/
def PoolThreadCache.Filed (k : PoolConfig) (t : PoolThreadCache) : Prop :=
  ∀ type idx m, (t.caches type)[idx]? = some m → ∀ e ∈ m.queue,
    ∃ i, e.grant.OfClass k i ∧ PoolThreadCache.cacheFor k.sizeClass type i = some idx

namespace PoolThreadCache

/-- A cache is in charge of one class. -/
theorem cacheFor_inj {sc : SizeClass} {i j idx : ℕ} (hi : cacheFor sc type i = some idx)
    (hj : cacheFor sc type j = some idx) : i = j := by
  cases type with
  | small => exact Option.some.inj (hi.trans hj.symm)
  | normal =>
    simp only [cacheFor] at hi hj
    split_ifs at hi hj
    cases hi
    have hsub := Option.some.inj hj
    omega

/-- The entry that serves a request is of its class. -/
theorem Filed.ofClass (h : t.Filed k) {e : Entry} (he : t.Caches k.sizeClass type sizeIdx e) :
    e.grant.OfClass k sizeIdx := by
  obtain ⟨idx, m, hidx, hm, he⟩ := he
  obtain ⟨i, hof, hi⟩ := h type idx m hm e he
  rwa [cacheFor_inj hidx hi]

/-- Caches that hold fewer entries file them as before. -/
theorem Filed.of_shrunk (h : t.Filed k) (hshrunk : t.Shrunk t') : t'.Filed k := by
  intro type idx m' hm' e he
  obtain ⟨m, hm, hsub⟩ := hshrunk type idx m' hm'
  exact h type idx m hm e (hsub he)

/-- `add` files a region of a class. -/
theorem Filed.add (h : t.Filed k) {e : Entry} (hi : sizeIdx < k.numSizes)
    (hof : e.grant.OfClass k sizeIdx) (hadd : t.add k.sizeClass type e = some t') :
    t'.Filed k := by
  intro type' idx m' hm' e' he'
  obtain ⟨m, hm, hqueue | ⟨hqueue, rfl, hidx⟩⟩ := (add_cases hadd).2 type' idx m' hm'
  · exact h type' idx m hm e' (hqueue ▸ he')
  · rw [hqueue, List.mem_append, List.mem_singleton] at he'
    rcases he' with he' | rfl
    · exact h type' idx m hm e' he'
    · rw [hof.normCapacity, k.size2sizeIdx_sizeIdx2size hi] at hidx
      exact ⟨sizeIdx, hof, hidx⟩

/-- The caches are empty at first. -/
theorem filed_new (k : PoolConfig) : (PoolThreadCache.new k.sizeClass).Filed k := by
  intro type idx m hm e he
  have hempty : m.queue = [] := by
    have hmem := List.mem_of_getElem? hm
    cases type with
    | small => rw [List.eq_of_mem_replicate hmem]; rfl
    | normal =>
      obtain ⟨_, _, rfl⟩ := List.mem_map.mp hmem
      rfl
  rw [hempty] at he
  cases he

end PoolThreadCache

/-- The loop of `MemoryRegionCache::free` frees entries without a failure. -/
theorem Placed.freeEntries {n : ℕ} {queue : List Entry} (h : Placed k a)
    (howns : Owns k a (queue.map Entry.grant ++ rest)) :
    ∃ queue' a', PoolArena.freeEntries k.sizeClass n a queue = some (queue', a') ∧
      Placed k a' := by
  induction n generalizing a queue with
  | zero => exact ⟨queue, a, rfl, h⟩
  | succ n ih =>
    cases queue with
    | nil => exact ⟨[], a, rfl, h⟩
    | cons e queue =>
      obtain ⟨a₁, hfree⟩ := h.freeChunk_total howns List.mem_cons_self e.buffer
      have howns₁ := howns.freeChunk List.mem_cons_self hfree
      rw [List.map_cons, List.cons_append, List.erase_cons_head] at howns₁
      obtain ⟨queue', a', hrest, h'⟩ := ih (h.freeChunk howns List.mem_cons_self hfree) howns₁
      refine ⟨queue', a', ?_, h'⟩
      rw [PoolArena.freeEntries, hfree]
      exact hrest

/-- Caches are trimmed without a failure. -/
theorem Placed.trimCaches {ms : List MemoryRegionCache} (h : Placed k a)
    (howns : Owns k a ((ms.flatMap MemoryRegionCache.queue).map Entry.grant ++ rest)) :
    ∃ ms' a', PoolArena.trimCaches k.sizeClass a ms = some (ms', a') ∧ Placed k a' := by
  induction ms generalizing a rest with
  | nil => exact ⟨[], a, rfl, h⟩
  | cons m ms ih =>
    rw [List.flatMap_cons, List.map_append, List.append_assoc] at howns
    obtain ⟨queue, a₁, hfree, h₁⟩ := h.freeEntries (n := m.size - m.allocations) howns
    have howns₁ := ((howns.freeEntries hfree).1).perm (List.perm_append_comm_assoc _ _ _)
    obtain ⟨ms', a₂, hrest, h₂⟩ := ih h₁ howns₁
    have htrim : trimRegionCache k.sizeClass a m =
        some ({ m with allocations := 0, queue }, a₁) := by
      rw [trimRegionCache, hfree]
      rfl
    refine ⟨{ m with allocations := 0, queue } :: ms', a₂, ?_, h₂⟩
    rw [PoolArena.trimCaches, htrim, Option.bind_eq_bind, Option.bind_some]
    dsimp only
    rw [hrest]
    rfl

/-- `trim` does not fail. -/
theorem Placed.trim (h : Placed k a) (howns : Owns k a (t.grants ++ rest)) :
    ∃ t' a', a.trim k.sizeClass t = some (t', a') ∧ Placed k a' := by
  rw [PoolThreadCache.grants, PoolThreadCache.entries, List.map_append, List.append_assoc] at howns
  obtain ⟨small, a₁, hsmall, h₁⟩ := h.trimCaches howns
  obtain ⟨normal, a₂, hnormal, h₂⟩ := h₁.trimCaches
    ((howns.trimCaches hsmall).1.perm (List.perm_append_comm_assoc _ _ _))
  refine ⟨(t.setCaches .small small).setCaches .normal normal, a₂, ?_, h₂⟩
  rw [PoolArena.trim, hsmall, Option.bind_eq_bind, Option.bind_some]
  dsimp only
  rw [hnormal]
  rfl

/-- Counting an allocation does not fail. -/
theorem Placed.countAllocation (h : Placed k a) (howns : Owns k a (t.grants ++ rest)) :
    ∃ t' a', a.countAllocation k.sizeClass t = some (t', a') ∧ Placed k a' := by
  rw [PoolArena.countAllocation]
  split_ifs
  · exact Placed.trim (t := t.setAllocations 0) h howns
  · exact ⟨_, a, rfl, h⟩

/-- A buffer is initialised with an entry of the class that is asked for. -/
theorem Owns.initBufFrom_total {e : Entry} (h : Owns k a owned) (he : e.grant ∈ owned)
    (hof : e.grant.OfClass k sizeIdx) (hreq : reqCapacity ≤ k.sizeClass.sizeIdx2size sizeIdx)
    (htype : type = .small → sizeIdx < k.sizeClass.nSubpages) :
    ∃ r, a.initBufFrom k.sizeClass type e reqCapacity = some r := by
  obtain ⟨blocks, hstore⟩ := h
  have hreq' : reqCapacity ≤ e.grant.normCapacity := hof.normCapacity ▸ hreq
  cases type with
  | small => exact hstore.initBufWithSubpage_total he (hof.isSubpage_iff.mpr (htype rfl)) hreq'
  | normal => exact hstore.initBuf_total he hreq'

/-- A request to the caches is answered, by an entry of the class or by none. -/
theorem Placed.cacheAllocate_total (h : Placed k a) (type : SizeClassType)
    (howns : Owns k a (t.grants ++ rest)) (hfiled : t.Filed k)
    (hreq : reqCapacity ≤ k.sizeClass.sizeIdx2size sizeIdx)
    (htype : type = .small → sizeIdx < k.sizeClass.nSubpages) :
    ∃ res t' a', a.cacheAllocate k.sizeClass t type reqCapacity sizeIdx = some (res, t', a') ∧
      Placed k a' ∧ t'.Filed k ∧ ∀ r, res = some r → r.Fits k sizeIdx reqCapacity := by
  have hstep : ∃ res t' a',
      a.cacheAllocate k.sizeClass t type reqCapacity sizeIdx = some (res, t', a') ∧
        Placed k a' := by
    rw [PoolArena.cacheAllocate]
    split
    · exact ⟨none, t, a, rfl, h⟩
    · next idx m hfound =>
      obtain ⟨idx', hidx, hfound⟩ := Option.bind_eq_some_iff.mp hfound
      obtain ⟨m', hm, hfound⟩ := Option.map_eq_some_iff.mp hfound
      cases hfound
      cases hqueue : m.queue with
      | nil =>
        have howns₁ : Owns k a ((t.setCache type idx m).grants ++ rest) :=
          howns.perm ((PoolThreadCache.grants_setCache hm [] rfl).append_right rest)
        obtain ⟨t', a', hcount, h'⟩ := h.countAllocation howns₁
        refine ⟨none, t', a', ?_, h'⟩
        rw [regionCacheAllocate, hqueue, Option.bind_eq_bind, Option.bind_some]
        dsimp only
        rw [hcount]
        rfl
      | cons e queue =>
        have hof := hfiled.ofClass ⟨idx, m, hidx, hm, by rw [hqueue]; exact List.mem_cons_self⟩
        have htake : t.grants.Perm (e.grant ::
            (t.setCache type idx { m with queue, allocations := m.allocations + 1 }).grants) :=
          PoolThreadCache.grants_setCache hm [e] hqueue
        have hmem : e.grant ∈ t.grants ++ rest :=
          List.mem_append_left _ (htake.mem_iff.mpr List.mem_cons_self)
        obtain ⟨r, hinit⟩ := howns.initBufFrom_total hmem hof hreq htype
        have hregion : a.regionCacheAllocate k.sizeClass type m reqCapacity =
            some (some r, { m with queue, allocations := m.allocations + 1 }) := by
          rw [regionCacheAllocate, hqueue]
          dsimp only
          rw [hinit]
          rfl
        obtain ⟨t', a', hcount, h'⟩ := h.countAllocation
          (howns.perm ((htake.append_right rest).trans List.perm_middle.symm))
        refine ⟨some r, t', a', ?_, h'⟩
        rw [hregion, Option.bind_eq_bind, Option.bind_some]
        dsimp only
        rw [hcount]
        rfl
  obtain ⟨res, t', a', hstep, h'⟩ := hstep
  obtain ⟨hshrunk, hcases⟩ := howns.cacheAllocate hstep
  refine ⟨res, t', a', hstep, h', hfiled.of_shrunk hshrunk, ?_⟩
  rintro r rfl
  rcases hcases with ⟨hnone, _⟩ | ⟨e, _, ⟨⟩, he, _, hr⟩
  · cases hnone
  · rw [hr]
    exact (hfiled.ofClass he).fits _ _ _

/-- `tcacheAllocateSmall` serves every request of a small class. -/
theorem Placed.tcacheAllocateSmall_total (h : Placed k a) (howns : Owns k a (t.grants ++ rest))
    (hfiled : t.Filed k) (hcarve : k.Carvable) (hi : sizeIdx < k.numSizes)
    (hsmall : sizeIdx < k.sizeClass.nSubpages)
    (hreq : reqCapacity ≤ k.sizeClass.sizeIdx2size sizeIdx) :
    ∃ r t' a', a.tcacheAllocateSmall k.sizeClass t reqCapacity sizeIdx = some (r, t', a') ∧
      Placed k a' ∧ t'.Filed k ∧ r.Fits k sizeIdx reqCapacity := by
  obtain ⟨res, t₁, a₁, hcache, h₁, hfiled₁, hfits⟩ :=
    h.cacheAllocate_total .small howns hfiled hreq fun _ => hsmall
  cases res with
  | some r =>
    refine ⟨r, t₁, a₁, ?_, h₁, hfiled₁, hfits r rfl⟩
    rw [PoolArena.tcacheAllocateSmall, hcache]
    rfl
  | none =>
    have howns₁ : Owns k a₁ (t₁.grants ++ rest) := by
      rcases (howns.cacheAllocate hcache).2 with ⟨_, howns₁⟩ | ⟨_, _, hsome, _⟩
      · exact howns₁
      · cases hsome
    obtain ⟨res, a₂, hpool, hfits⟩ := howns₁.pooledAllocate_total hsmall hreq
    cases res with
    | some r =>
      refine ⟨r, t₁, a₂, ?_, h₁.pooledAllocate hpool, hfiled₁, hfits r rfl⟩
      rw [PoolArena.tcacheAllocateSmall, hcache, Option.bind_eq_bind, Option.bind_some]
      dsimp only
      rw [hpool]
      rfl
    | none =>
      rcases howns₁.pooledAllocate hpool with ⟨_, rfl⟩ | ⟨_, _, hsome, _⟩
      · obtain ⟨r, a₃, hnormal, hfits⟩ := h₁.allocateNormal_total howns₁ hcarve hi hreq
        refine ⟨r, t₁, a₃, ?_, h₁.allocateNormal howns₁ hnormal, hfiled₁, hfits⟩
        rw [PoolArena.tcacheAllocateSmall, hcache, Option.bind_eq_bind, Option.bind_some]
        dsimp only
        rw [hpool, Option.bind_eq_bind, Option.bind_some]
        dsimp only
        rw [hnormal]
        rfl
      · cases hsome

/-- `tcacheAllocateNormal` serves every request of a class that is not small. -/
theorem Placed.tcacheAllocateNormal_total (h : Placed k a) (howns : Owns k a (t.grants ++ rest))
    (hfiled : t.Filed k) (hcarve : k.Carvable) (hi : sizeIdx < k.numSizes)
    (hreq : reqCapacity ≤ k.sizeClass.sizeIdx2size sizeIdx) :
    ∃ r t' a', a.tcacheAllocateNormal k.sizeClass t reqCapacity sizeIdx = some (r, t', a') ∧
      Placed k a' ∧ t'.Filed k ∧ r.Fits k sizeIdx reqCapacity := by
  obtain ⟨res, t₁, a₁, hcache, h₁, hfiled₁, hfits⟩ :=
    h.cacheAllocate_total .normal howns hfiled hreq nofun
  cases res with
  | some r =>
    refine ⟨r, t₁, a₁, ?_, h₁, hfiled₁, hfits r rfl⟩
    rw [PoolArena.tcacheAllocateNormal, hcache]
    rfl
  | none =>
    have howns₁ : Owns k a₁ (t₁.grants ++ rest) := by
      rcases (howns.cacheAllocate hcache).2 with ⟨_, howns₁⟩ | ⟨_, _, hsome, _⟩
      · exact howns₁
      · cases hsome
    obtain ⟨r, a₂, hnormal, hfits⟩ := h₁.allocateNormal_total howns₁ hcarve hi hreq
    refine ⟨r, t₁, a₂, ?_, h₁.allocateNormal howns₁ hnormal, hfiled₁, hfits⟩
    rw [PoolArena.tcacheAllocateNormal, hcache, Option.bind_eq_bind, Option.bind_some]
    dsimp only
    rw [hnormal]
    rfl

/-- `allocate` serves every request that fits into a chunk. -/
theorem Placed.allocate_total (h : Placed k a) (howns : Owns k a (t.grants ++ rest))
    (hfiled : t.Filed k) (hcarve : k.Carvable) (hle : reqCapacity ≤ k.chunkSize) :
    ∃ r t' a', a.allocate k.sizeClass t reqCapacity = some (r, t', a') ∧ Placed k a' ∧
      t'.Filed k ∧ r.Fits k (k.sizeClass.size2sizeIdx reqCapacity) reqCapacity := by
  obtain ⟨hi, hreq⟩ := k.size2sizeIdx_spec hle
  rw [PoolArena.allocate]
  dsimp only
  split_ifs with hsmall hnormal
  · exact h.tcacheAllocateSmall_total howns hfiled hcarve hi (le_smallMaxSizeIdx_iff.mp hsmall) hreq
  · exact h.tcacheAllocateNormal_total howns hfiled hcarve hi hreq
  · rw [k.nSizes_sizeClass] at hnormal
    exact absurd hi hnormal

/-- A request that fits into no chunk gets a chunk of its own, of the normal size. -/
theorem allocate_huge (a : PoolArena) (t : PoolThreadCache) (hlt : k.chunkSize < reqCapacity) :
    a.allocate k.sizeClass t reqCapacity =
      (a.allocateHuge (k.sizeClass.normalizeSize reqCapacity)).map fun p => (p.1, t, p.2) := by
  have hnum := k.numSizes_ge
  rw [PoolArena.allocate]
  dsimp only
  rw [k.size2sizeIdx_of_lt hlt, k.nSizes_sizeClass, k.smallMaxSizeIdx_sizeClass,
    if_neg (by omega), if_neg (lt_irrefl _)]
  cases a.allocateHuge (k.sizeClass.normalizeSize reqCapacity) <;> rfl

/-- The region of the arena that a buffer holds, if any, is of a class. -/
def Region.Classed (k : PoolConfig) (r : Region) : Prop :=
  ∀ g ∈ r.grants, ∃ i < k.numSizes, g.OfClass k i

theorem Region.Fits.classed (h : r.Fits k sizeIdx reqCapacity) (hi : sizeIdx < k.numSizes) :
    r.Classed k := by
  obtain ⟨g, hchunk, hhandle, hmax, hof⟩ := h.grant
  intro g' hg'
  rw [Region.grants, hchunk, List.mem_singleton] at hg'
  rw [hg', hhandle, hmax]
  exact ⟨sizeIdx, hi, hof⟩

/-- `allocate` keeps all chunks placed and the caches filed. -/
theorem Placed.allocate (h : Placed k a) (howns : Owns k a (t.grants ++ rest))
    (hfiled : t.Filed k) (hcarve : k.Carvable)
    (hstep : a.allocate k.sizeClass t reqCapacity = some (r, t', a')) :
    Placed k a' ∧ t'.Filed k ∧ r.Classed k := by
  rcases Nat.lt_or_ge k.chunkSize reqCapacity with hlt | hle
  · rw [allocate_huge a t hlt] at hstep
    obtain ⟨p, hhuge, hp⟩ := Option.map_eq_some_iff.mp hstep
    cases hp
    rw [allocateHuge] at hhuge
    split_ifs at hhuge
    cases hhuge
    obtain ⟨⟨lists, hlinked⟩, hwithin⟩ := h
    exact ⟨⟨⟨lists, hlinked.holds, hlinked.mem_iff⟩, hwithin⟩, hfiled, by rintro _ ⟨⟩⟩
  · obtain ⟨_, _, _, hstep', h', hfiled', hfits⟩ :=
      h.allocate_total howns hfiled hcarve hle
    rw [hstep] at hstep'
    cases hstep'
    exact ⟨h', hfiled', hfits.classed (k.size2sizeIdx_spec hle).1⟩

/-- `free` keeps all chunks placed and the caches filed. -/
theorem Placed.free (h : Placed k a) (howns : Owns k a (t.grants ++ (r.grants ++ rest)))
    (hfiled : t.Filed k) (hclass : r.Classed k)
    (hstep : a.free k.sizeClass t r.chunk r.tmpBuf r.handle r.maxLength cache = some (t', a')) :
    Placed k a' ∧ t'.Filed k := by
  rw [Region.Classed, Region.grants] at hclass
  rw [Region.grants] at howns
  rcases hchunk : r.chunk with id | id
  · rw [hchunk] at hclass howns hstep
    obtain ⟨i, hi, hof⟩ := hclass _ (List.mem_singleton_self _)
    rw [PoolArena.free] at hstep
    dsimp only at hstep
    split at hstep
    · next t₁ hadd =>
      cases hstep
      split_ifs at hadd
      exact ⟨h, hfiled.add hi hof hadd⟩
    · obtain ⟨a₁, hfree, hrest⟩ := Option.bind_eq_some_iff.mp hstep
      cases hrest
      exact ⟨h.freeChunk (howns.perm List.perm_middle) List.mem_cons_self hfree, hfiled⟩
  · rw [hchunk] at hstep
    cases hstep
    obtain ⟨⟨lists, hlinked⟩, hwithin⟩ := h
    exact ⟨⟨⟨lists, hlinked.holds, hlinked.mem_iff⟩, hwithin⟩, hfiled⟩

end DuoDuo.Buffer
