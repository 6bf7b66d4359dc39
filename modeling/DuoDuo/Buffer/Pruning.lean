import DuoDuo.Buffer.ArenaProgress

/-!
# Lists that are skipped

A list is skipped for a request above `m_maxCapacity`, a percentage of the chunk size
that is rounded down. The free bytes of its chunks may exceed this capacity, but never
as far as the next size class, so that no chunk on the list could serve the request.
-/

namespace DuoDuo.Buffer

open Library PoolChunk PoolArena ChunkListName

namespace ChunkListName

variable (k : PoolConfig)

/-- The capacities of the lists as quotients. -/
theorem maxCapacities :
    maxCapacity k.sizeClass qInit = k.chunkSize * 100 / 100 ∧
    maxCapacity k.sizeClass q00 = k.chunkSize * 99 / 100 ∧
    maxCapacity k.sizeClass q25 = k.chunkSize * 75 / 100 ∧
    maxCapacity k.sizeClass q50 = k.chunkSize * 50 / 100 ∧
    maxCapacity k.sizeClass q75 = k.chunkSize * 25 / 100 ∧
    maxCapacity k.sizeClass q100 = 0 := by
  have hdiv : ∀ percent : ℕ, (k.chunkSize * percent : ℤ).tdiv 100 = k.chunkSize * percent / 100 :=
    fun percent => Int.tdiv_eq_ediv_of_nonneg (by positivity)
  exact ⟨hdiv 100, hdiv 99, hdiv 75, hdiv 50, hdiv 25, rfl⟩

/-- No size class lies between the capacity of a list and the most free bytes of a chunk
on it. -/
theorem freeMaxThreshold_lt {l : ChunkListName} {sizeIdx : ℕ} (hi : sizeIdx < k.numSizes)
    (h : l.maxCapacity k.sizeClass < k.sizeClass.sizeIdx2size sizeIdx) :
    l.freeMaxThreshold k.sizeClass < k.sizeClass.sizeIdx2size sizeIdx := by
  have hp := k.minPageSize
  obtain ⟨g, hg⟩ : ∃ g, k.pageShifts + k.maxOrder = g + 8 :=
    ⟨k.pageShifts + k.maxOrder - 8, by omega⟩
  have hchunk : k.chunkSize = 2 ^ g * 256 := by
    rw [PoolConfig.chunkSize, hg, pow_add]
    rfl
  have hpos := Nat.two_pow_pos g
  have hmax : ladder sizeIdx ≤ ladder (k.numSizes - 1) := ladder_strictMono.monotone (by omega)
  have hlast := k.last_size
  -- The next rungs after a quarter, a half, three quarters and seven eighths of a chunk.
  have hquarter := @le_ladder_of_lt g 0 sizeIdx (by decide)
  have hhalf := @le_ladder_of_lt (g + 1) 0 sizeIdx (by decide)
  have hthree := @le_ladder_of_lt (g + 1) 2 sizeIdx (by decide)
  have hseven := @le_ladder_of_lt (g + 1) 3 sizeIdx (by decide)
  rw [pow_succ] at hhalf hthree hseven
  obtain ⟨hi', h0, h2, h5, h7, h10⟩ := maxCapacities k
  obtain ⟨-, -, -, -, -, hfi, hf0, hf2, hf5, hf7, hf10⟩ := thresholds k
  rw [k.sizeIdx2size_eq hi] at h ⊢
  generalize ladder sizeIdx = rung at *
  cases l with
  | qInit => omega
  | q00 => omega
  | q25 => omega
  | q50 => omega
  | q75 => omega
  | q100 => omega

end ChunkListName

variable {k : PoolConfig} {s s' : ChunkStore} {blocks : ℕ → ℕ → Option ℕ} {a a' : PoolArena}
  {owned : List Grant} {l : ChunkListName} {id sizeIdx reqCapacity : ℕ} {cache : Bool}

/-- A chunk is unable to serve a request of a class. `allocate` hands out no region and
changes nothing, and it breaks no assertion if every small class has a run size. -/
def Unable (k : PoolConfig) (s : ChunkStore) (id sizeIdx : ℕ) : Prop :=
  ∀ reqCapacity cache,
    (∀ res s', s.allocate k.sizeClass id reqCapacity sizeIdx cache = some (res, s') →
      res = none ∧ s' = s) ∧
    (k.Carvable → s.allocate k.sizeClass id reqCapacity sizeIdx cache = some (none, s))

/-- A handle that is handed out takes as many bytes as its class has at least. -/
theorem StoreInv.freeBytes_allocateHandle (h : StoreInv k s blocks owned)
    (hi : sizeIdx < k.numSizes) {handle : ℕ}
    (hstep : s.allocateHandle k.sizeClass id sizeIdx = some (some handle, s')) :
    ∃ c c', s.chunks id = some c ∧ s'.chunks id = some c' ∧
      c'.freeBytes + k.sizeClass.sizeIdx2size sizeIdx ≤ c.freeBytes := by
  rw [ChunkStore.allocateHandle] at hstep
  split_ifs at hstep with hsmall
  · obtain ⟨c, hid, hstep⟩ := Option.bind_eq_some_iff.mp hstep
    obtain ⟨⟨_, c', pools'⟩, hsubpage, hstep⟩ := Option.bind_eq_some_iff.mp hstep
    cases hstep
    refine ⟨c, c', hid, ChunkStore.chunks_setChunk_self _ _ _ _, ?_⟩
    obtain ⟨_, runSize, -, hsize, ⟨_, ⟨⟩, _⟩ | ⟨run, c₁, _, _, _, hrun, _, _, _, rfl⟩⟩ :=
      allocateSubpage_cases hsubpage
    obtain ⟨hdvd, hfit⟩ := calculateRunSize_spec hsize
    obtain ⟨_, _, _, _, _, _, _, _, hpages, _⟩ := (h.chunk hid).allocateRun hrun
    have hbytes := (allocateRun_freeBytes hrun).2
    rw [Option.elim_some, k.pageShifts_sizeClass, runSize_of_dvd hdvd hpages] at hbytes
    change c₁.freeBytes + _ ≤ _
    omega
  · obtain ⟨c, hid, hstep⟩ := Option.bind_eq_some_iff.mp hstep
    obtain ⟨⟨_, c'⟩, hrun, hstep⟩ := Option.bind_eq_some_iff.mp hstep
    cases hstep
    refine ⟨c, c', hid, ChunkStore.chunks_setChunk_self _ _ _ _, ?_⟩
    obtain ⟨-, -, hdvd⟩ := pages_of_normal hi (not_lt.mp (mt le_smallMaxSizeIdx_iff.mpr hsmall))
    obtain ⟨_, _, _, _, _, _, _, _, hpages, _⟩ := (h.chunk hid).allocateRun hrun
    have hbytes := (allocateRun_freeBytes hrun).2
    rw [Option.elim_some, k.pageShifts_sizeClass, runSize_of_dvd hdvd hpages] at hbytes
    omega

/-- A chunk with fewer free bytes than the class has is unable to serve it. -/
theorem StoreInv.unable_of_freeBytes_lt (h : StoreInv k s blocks owned) {c : PoolChunk}
    (hid : s.chunks id = some c) (hi : sizeIdx < k.numSizes)
    (hlt : c.freeBytes < k.sizeClass.sizeIdx2size sizeIdx) : Unable k s id sizeIdx := by
  have hnone : ∀ res s', s.allocateHandle k.sizeClass id sizeIdx = some (res, s') →
      res = none ∧ s' = s := by
    intro res s' hstep
    rcases h.allocateHandle hstep with hnone | ⟨handle, cap, blocks', rfl, h', _⟩
    · exact hnone
    · obtain ⟨c₀, c', hid₀, hid', hbytes⟩ := h.freeBytes_allocateHandle hi hstep
      rw [hid] at hid₀
      cases hid₀
      have hnonneg := (h'.chunk hid').freeBytes_le.1
      omega
  refine fun reqCapacity cache => ⟨fun res s' hstep => ?_, fun hcarve => ?_⟩
  · obtain ⟨⟨handle, s₁⟩, hhandle, hrest⟩ := Option.bind_eq_some_iff.mp hstep
    obtain ⟨rfl, rfl⟩ := hnone _ _ hhandle
    cases hrest
    exact ⟨rfl, rfl⟩
  · obtain ⟨res, s', hhandle, -⟩ := h.allocateHandle_total hcarve hid hi
    obtain ⟨rfl, rfl⟩ := hnone _ _ hhandle
    rw [ChunkStore.allocate, hhandle]
    rfl

/-- A chunk that serves one request of a class with no region is unable to serve any. -/
theorem unable_of_allocate
    (h : s.allocate k.sizeClass id reqCapacity sizeIdx cache = some (none, s)) :
    Unable k s id sizeIdx := by
  obtain ⟨⟨handle, s₁⟩, hhandle, h⟩ := Option.bind_eq_some_iff.mp h
  cases handle with
  | none =>
    cases h
    have hany : ∀ reqCapacity cache,
        s.allocate k.sizeClass id reqCapacity sizeIdx cache = some (none, s) := by
      intro reqCapacity cache
      rw [ChunkStore.allocate, hhandle]
      rfl
    refine fun reqCapacity cache => ⟨fun res s' hstep => ?_, fun _ => hany reqCapacity cache⟩
    rw [hany] at hstep
    cases hstep
    exact ⟨rfl, rfl⟩
  | some handle =>
    dsimp only at h
    split_ifs at h
    obtain ⟨c, _, h⟩ := Option.bind_eq_some_iff.mp h
    obtain ⟨region, _, h⟩ := Option.bind_eq_some_iff.mp h
    cases h

/-- No chunk on a list that is skipped could serve the request. -/
theorem Placed.unable_of_maxCapacity_lt (h : Placed k a) (howns : Owns k a owned)
    (hi : sizeIdx < k.numSizes)
    (hskip : l.maxCapacity k.sizeClass < k.sizeClass.sizeIdx2size sizeIdx)
    (hmem : id ∈ a.chunksOf l) : Unable k a.store id sizeIdx := by
  obtain ⟨⟨lists, hlinked⟩, hwithin⟩ := h
  rw [hlinked.chunksOf_eq howns] at hmem
  obtain ⟨-, c, hid, hl⟩ := hlinked.mem_iff.mp hmem
  obtain ⟨l', hl', -, hmax⟩ := hwithin id c hid nofun
  rw [hl] at hl'
  cases hl'
  obtain ⟨blocks, hstore⟩ := howns
  exact hstore.unable_of_freeBytes_lt hid hi (hmax.trans_lt (freeMaxThreshold_lt k hi hskip))

/-- The loop over a list finds no region when no chunk is able to serve the request. -/
theorem Owns.unable_of_allocateFrom (howns : Owns k a owned) {ids : List ℕ}
    (hstep : PoolArena.allocateFrom k.sizeClass l reqCapacity sizeIdx cache a ids =
      some (none, a')) :
    ∀ id ∈ ids, Unable k a.store id sizeIdx := by
  obtain ⟨blocks, hstore⟩ := howns
  induction ids with
  | nil => exact nofun
  | cons cur ids ih =>
    obtain ⟨⟨region, store⟩, halloc, hrest⟩ := Option.bind_eq_some_iff.mp hstep
    rcases hstore.allocate halloc with ⟨rfl, rfl⟩ | ⟨_, _, _, r, _, rfl, _⟩
    · rw [List.forall_mem_cons]
      exact ⟨unable_of_allocate halloc, ih hrest⟩
    · obtain ⟨c, _, hrest⟩ := Option.bind_eq_some_iff.mp hrest
      split_ifs at hrest
      · obtain ⟨next, _, hrest⟩ := Option.bind_eq_some_iff.mp hrest
        obtain ⟨a₁, _, hrest⟩ := Option.bind_eq_some_iff.mp hrest
        obtain ⟨a₂, _, hrest⟩ := Option.bind_eq_some_iff.mp hrest
        cases hrest
      · cases hrest

/-- The search through some lists finds no region only if all their chunks are unable to
serve the request, also those on the lists that are skipped. -/
theorem Placed.unable_of_allocateLists (h : Placed k a) (howns : Owns k a owned)
    (hi : sizeIdx < k.numSizes) {ls : List ChunkListName}
    (hstep : PoolArena.allocateLists k.sizeClass reqCapacity sizeIdx cache a ls = some (none, a')) :
    ∀ l ∈ ls, ∀ id ∈ a.chunksOf l, Unable k a.store id sizeIdx := by
  induction ls with
  | nil => exact nofun
  | cons l ls ih =>
    obtain ⟨⟨region, a₁⟩, hlist, hrest⟩ := Option.bind_eq_some_iff.mp hstep
    cases region with
    | some region => cases hrest
    | none =>
      rw [listAllocate] at hlist
      split_ifs at hlist with hskip
      · cases hlist
        exact List.forall_mem_cons.mpr
          ⟨fun id hmem => h.unable_of_maxCapacity_lt howns hi hskip hmem, ih hrest⟩
      · rcases howns.allocateFrom hlist with ⟨-, rfl⟩ | ⟨_, _, ⟨⟩, _⟩
        exact List.forall_mem_cons.mpr ⟨howns.unable_of_allocateFrom hlist, ih hrest⟩

/-- A chunk joins a list without a new chunk. -/
theorem nextChunk_add0 {a a' : PoolArena} (h : a.add0 l id = some a') :
    a'.store.nextChunk = a.store.nextChunk := by
  obtain ⟨c, _, h⟩ := Option.bind_eq_some_iff.mp h
  cases h
  rfl

/-- The loop over a list makes no chunk. -/
theorem nextChunk_allocateFrom {res : Option Region} {ids : List ℕ}
    (h : PoolArena.allocateFrom k.sizeClass l reqCapacity sizeIdx cache a ids = some (res, a')) :
    a'.store.nextChunk = a.store.nextChunk := by
  induction ids generalizing a with
  | nil =>
    cases h
    rfl
  | cons cur ids ih =>
    obtain ⟨⟨region, store⟩, halloc, h⟩ := Option.bind_eq_some_iff.mp h
    have hstore := (touches_allocate halloc).nextChunk
    cases region with
    | none => exact (ih h).trans hstore
    | some region =>
      obtain ⟨c, _, h⟩ := Option.bind_eq_some_iff.mp h
      split_ifs at h
      · obtain ⟨next, _, h⟩ := Option.bind_eq_some_iff.mp h
        obtain ⟨a₁, hremove, h⟩ := Option.bind_eq_some_iff.mp h
        obtain ⟨a₂, hadd, h⟩ := Option.bind_eq_some_iff.mp h
        cases h
        obtain ⟨l', hadd⟩ := add_cases hadd
        rw [nextChunk_add0 hadd, store_remove hremove]
        exact hstore
      · cases h
        exact hstore

/-- The search through lists makes no chunk. -/
theorem nextChunk_allocateLists {res : Option Region} {ls : List ChunkListName}
    (h : PoolArena.allocateLists k.sizeClass reqCapacity sizeIdx cache a ls = some (res, a')) :
    a'.store.nextChunk = a.store.nextChunk := by
  induction ls generalizing a with
  | nil =>
    cases h
    rfl
  | cons l ls ih =>
    obtain ⟨⟨region, a₁⟩, hlist, hrest⟩ := Option.bind_eq_some_iff.mp h
    have hsame : a₁.store.nextChunk = a.store.nextChunk := by
      rw [listAllocate] at hlist
      split_ifs at hlist
      · cases hlist
        rfl
      · exact nextChunk_allocateFrom hlist
    cases region with
    | none => exact (ih hrest).trans hsame
    | some region =>
      cases hrest
      exact hsame

namespace ChunkLists

variable {s : State}

/-- In every state that calls lead to, no chunk on a list that is skipped could serve the
request, and `allocateNormal` makes a new chunk only if all the chunks on the lists that
it searches are unable to serve it. -/
theorem unable_of_skipped (hs : (machine k).Reachable s) (hi : sizeIdx < k.numSizes) :
    (∀ l : ChunkListName, l.maxCapacity k.sizeClass < k.sizeClass.sizeIdx2size sizeIdx →
      ∀ id ∈ s.arena.chunksOf l, Unable k s.arena.store id sizeIdx) ∧
    ∀ reqCapacity cache r a',
      s.arena.allocateNormal k.sizeClass reqCapacity sizeIdx cache = some (r, a') →
      a'.store.nextChunk ≠ s.arena.store.nextChunk →
      ∀ l ∈ [q50, q25, q00, qInit, q75], ∀ id ∈ s.arena.chunksOf l,
        Unable k s.arena.store id sizeIdx := by
  obtain ⟨howns, hplaced⟩ := inv_of_reachable hs
  refine ⟨fun l hskip id hmem => hplaced.unable_of_maxCapacity_lt howns hi hskip hmem, ?_⟩
  intro reqCapacity cache r a' hstep hnew
  obtain ⟨⟨region, a₁⟩, hlists, hrest⟩ := Option.bind_eq_some_iff.mp hstep
  cases region with
  | none => exact hplaced.unable_of_allocateLists howns hi hlists
  | some region =>
    cases hrest
    exact absurd (nextChunk_allocateLists hlists) hnew

/-- Three quarters of a chunk are requested, and a third chunk is made. -/
theorem unable_of_skipped_fewCalls :
    Unable .default afterFewCalls.arena.store 1 73 ∧
      ∀ l ∈ [q50, q25, q00, qInit, q75], ∀ id ∈ afterFewCalls.arena.chunksOf l,
        Unable .default afterFewCalls.arena.store id 73 := by
  have hchunks : 1 ∈ afterFewCalls.arena.chunksOf q50 := by decide +kernel
  have hstep :
      ((afterFewCalls.arena.allocateNormal PoolConfig.default.sizeClass 12582912 73 true).map
        fun res => res.2.store.nextChunk) = some 3 := by decide +kernel
  obtain ⟨⟨r, a'⟩, hstep, hnew⟩ := Option.map_eq_some_iff.mp hstep
  have hold : afterFewCalls.arena.store.nextChunk = 2 := by decide +kernel
  have hskip := unable_of_skipped (.of_foldlM (.of_init rfl) afterFewCalls_eq)
    (show 73 < PoolConfig.default.numSizes by decide)
  refine ⟨hskip.1 q50 (by decide +kernel) 1 hchunks, hskip.2 _ _ _ _ hstep ?_⟩
  dsimp only at hnew
  omega

end ChunkLists

end DuoDuo.Buffer
