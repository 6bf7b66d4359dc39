import DuoDuo.Buffer.Ownership

/-!
# The lists of chunks

Every chunk is on the list that its free bytes call for. The thresholds of neighbouring
lists overlap, so that a chunk that leaves a list by one of its bounds fits into the
next list within the other bound, in either direction.
-/

namespace DuoDuo.Buffer

open Library PoolChunk PoolSubpage PoolArena

namespace ChunkListName

/-- The free bytes of a chunk lie within the thresholds of a list. -/
def Admits (l : ChunkListName) (k : PoolConfig) (freeBytes : ℤ) : Prop :=
  l.freeMinThreshold k.sizeClass < freeBytes ∧ freeBytes ≤ l.freeMaxThreshold k.sizeClass

/-- How many lists follow by `nextList`. -/
def above : ChunkListName → ℕ
  | qInit => 5
  | q00 => 4
  | q25 => 3
  | q50 => 2
  | q75 => 1
  | q100 => 0

/-- How many lists precede by `prevList`, where `qInit` counts none. -/
def below : ChunkListName → ℕ
  | qInit => 0
  | q00 => 0
  | q25 => 1
  | q50 => 2
  | q75 => 3
  | q100 => 4

variable (k : PoolConfig) {l l' : ChunkListName} {freeBytes : ℤ}

theorem above_nextList (h : l.nextList = some l') : l'.above + 1 = l.above := by
  cases l <;> cases h <;> rfl

theorem below_prevList (h : l.prevList = some l') (hinit : l ≠ qInit) :
    l'.below + 1 = l.below := by
  cases l <;> cases h
  · exact absurd rfl hinit
  all_goals rfl

theorem prevList_ne_qInit (h : l.prevList = some l') (hinit : l ≠ qInit) : l' ≠ qInit := by
  cases l <;> cases h
  · exact absurd rfl hinit
  all_goals exact nofun

theorem chunkSize_pos : 0 < k.chunkSize := by
  rw [PoolConfig.chunkSize_eq]
  exact Nat.mul_pos k.chunkPages_pos (Nat.two_pow_pos _)

/-- A threshold between zero and the hundredth percent is rounded down. -/
theorem freeThreshold_eq (usage : ℤ) (h : 0 ≤ usage) (h' : usage ≤ 100) :
    freeThreshold k.sizeClass usage =
      (k.chunkSize * (10099999999 - usage * 10 ^ 8) : ℤ) / 10 ^ 10 := by
  have hpos : (0 : ℤ) ≤ k.chunkSize * (10099999999 - usage * 10 ^ 8) :=
    Int.mul_nonneg (Int.natCast_nonneg _) (by omega)
  rw [freeThreshold, k.chunkSize_sizeClass, Int.tdiv_eq_ediv_of_nonneg hpos, max_eq_right]
  have hdiv := Int.ediv_nonneg hpos (show (0 : ℤ) ≤ 10 ^ 10 by decide)
  omega

/-- The upper threshold of the last list lies below zero. -/
theorem freeMinThreshold_q100 : q100.freeMinThreshold k.sizeClass < 0 := by
  have hpos := chunkSize_pos k
  rw [freeMinThreshold, if_neg (by decide), freeThreshold, k.chunkSize_sizeClass, max_lt_iff]
  refine ⟨by decide, ?_⟩
  have hneg : (k.chunkSize * (10099999999 - q100.maxUsage * 10 ^ 8) : ℤ) ≤ -10 ^ 10 := by
    have h : (10099999999 - q100.maxUsage * 10 ^ 8 : ℤ) ≤ -10 ^ 10 := by decide
    nlinarith
  have hdiv := Int.tdiv_le_tdiv (show (0 : ℤ) < 10 ^ 10 by decide) hneg
  exact lt_of_le_of_lt hdiv (by decide)

/-- The thresholds of a list as quotients. -/
theorem thresholds :
    freeMinThreshold k.sizeClass qInit = k.chunkSize * 7599999999 / 10 ^ 10 ∧
    freeMinThreshold k.sizeClass q00 = k.chunkSize * 5099999999 / 10 ^ 10 ∧
    freeMinThreshold k.sizeClass q25 = k.chunkSize * 2599999999 / 10 ^ 10 ∧
    freeMinThreshold k.sizeClass q50 = 0 ∧ freeMinThreshold k.sizeClass q75 = 0 ∧
    freeMaxThreshold k.sizeClass qInit = k.chunkSize * 10099999999 / 10 ^ 10 ∧
    freeMaxThreshold k.sizeClass q00 = k.chunkSize * 9999999999 / 10 ^ 10 ∧
    freeMaxThreshold k.sizeClass q25 = k.chunkSize * 7599999999 / 10 ^ 10 ∧
    freeMaxThreshold k.sizeClass q50 = k.chunkSize * 5099999999 / 10 ^ 10 ∧
    freeMaxThreshold k.sizeClass q75 = k.chunkSize * 2599999999 / 10 ^ 10 ∧
    freeMaxThreshold k.sizeClass q100 = 0 := by
  have h : ∀ usage : ℤ, 0 ≤ usage ∧ usage ≤ 100 → freeThreshold k.sizeClass usage =
      (k.chunkSize * (10099999999 - usage * 10 ^ 8) : ℤ) / 10 ^ 10 :=
    fun usage husage => freeThreshold_eq k usage husage.1 husage.2
  exact ⟨h 25 (by decide), h 50 (by decide), h 75 (by decide), rfl, rfl, h 0 (by decide),
    h 1 (by decide), h 25 (by decide), h 50 (by decide), h 75 (by decide), rfl⟩

/-- A chunk with too few free bytes for a list has not too many for the next one. -/
theorem freeMinThreshold_le_nextList (h : l.nextList = some l') :
    l.freeMinThreshold k.sizeClass ≤ l'.freeMaxThreshold k.sizeClass := by
  obtain ⟨hi, h0, h2, h5, h7, hi', h0', h2', h5', h7', h10⟩ := thresholds k
  cases l <;> cases h <;> omega

/-- A chunk with too many free bytes for a list has not too few for the previous one. -/
theorem freeMinThreshold_prevList_le (h : l.prevList = some l') (hinit : l ≠ qInit) :
    l'.freeMinThreshold k.sizeClass ≤ l.freeMaxThreshold k.sizeClass := by
  obtain ⟨hi, h0, h2, h5, h7, hi', h0', h2', h5', h7', h10⟩ := thresholds k
  cases l <;> cases h
  · exact absurd rfl hinit
  all_goals omega

/-- No chunk has too many free bytes for the first list. -/
theorem chunkSize_le_qInit : (k.chunkSize : ℤ) ≤ qInit.freeMaxThreshold k.sizeClass := by
  obtain ⟨hi, h0, h2, h5, h7, hi', h0', h2', h5', h7', h10⟩ := thresholds k
  omega

/-- A chunk with too many free bytes for `q00` is free as a whole. -/
theorem chunkSize_le_of_q00 (h : q00.freeMaxThreshold k.sizeClass < freeBytes) :
    (k.chunkSize : ℤ) ≤ freeBytes := by
  obtain ⟨hi, h0, h2, h5, h7, hi', h0', h2', h5', h7', h10⟩ := thresholds k
  have hle := k.chunkSize_le
  omega

/-- The usage of a chunk is no more than the part of it that may be in use. -/
theorem usage_le {c : PoolChunk} {usage : ℤ} (hpos : 0 < c.freeBytes)
    (hbytes : k.chunkSize * (100 - usage) ≤ c.freeBytes * 100) :
    c.usage k.sizeClass ≤ usage := by
  have hsize : (0 : ℤ) < k.chunkSize := by exact_mod_cast chunkSize_pos k
  have hdiv : 100 - usage ≤ c.freeBytes * 100 / k.chunkSize := by
    rw [Int.le_ediv_iff_mul_le hsize, mul_comm]
    exact hbytes
  rw [PoolChunk.usage, k.chunkSize_sizeClass, Int.tdiv_eq_ediv_of_nonneg (by omega)]
  dsimp only
  split_ifs <;> omega

/-- A chunk with a free byte is not used up. -/
theorem usage_lt_hundred {c : PoolChunk} (hpos : 0 < c.freeBytes) :
    c.usage k.sizeClass < 100 := by
  have hsize : (0 : ℤ) < k.chunkSize := by exact_mod_cast chunkSize_pos k
  have hdiv : 0 ≤ c.freeBytes * 100 / k.chunkSize := Int.ediv_nonneg (by omega) hsize.le
  rw [PoolChunk.usage, k.chunkSize_sizeClass, Int.tdiv_eq_ediv_of_nonneg (by omega)]
  dsimp only
  split_ifs <;> omega

/-- The usage of a chunk with too many free bytes for a list is below the bound of the
previous list. -/
theorem usage_lt_prevList {c : PoolChunk} (h : l.prevList = some l') (hinit : l ≠ qInit)
    (hbytes : l.freeMaxThreshold k.sizeClass < c.freeBytes) :
    c.usage k.sizeClass < l'.maxUsage := by
  obtain ⟨hi, h0, h2, h5, h7, hi', h0', h2', h5', h7', h10⟩ := thresholds k
  have hpos : 0 < c.freeBytes := by
    refine lt_of_le_of_lt ?_ hbytes
    cases l <;> omega
  cases l <;> cases h
  · exact absurd rfl hinit
  · exact lt_of_le_of_lt (usage_le k hpos (by omega) : _ ≤ (25 : ℤ)) (by decide)
  · exact lt_of_le_of_lt (usage_le k hpos (by omega) : _ ≤ (50 : ℤ)) (by decide)
  · exact usage_lt_hundred k hpos
  · exact usage_lt_hundred k hpos

/-- A chunk that is free as a whole has no usage. -/
theorem usage_eq_zero {c : PoolChunk} (h : c.freeBytes = k.chunkSize) :
    c.usage k.sizeClass = 0 := by
  have hsize : (0 : ℤ) < k.chunkSize := by exact_mod_cast chunkSize_pos k
  have hdiv : c.freeBytes * 100 / k.chunkSize = 100 := by
    rw [h, mul_comm]
    exact Int.mul_ediv_cancel _ hsize.ne'
  rw [PoolChunk.usage, k.chunkSize_sizeClass, Int.tdiv_eq_ediv_of_nonneg (by omega), hdiv, h,
    if_neg hsize.ne']
  rfl

end ChunkListName

open ChunkListName

/-- An operation on one chunk. The other chunks stay as they are, the chunk keeps its
list, and its free bytes change as `r` says. -/
structure Touches (r : ℤ → ℤ → Prop) (id : ℕ) (s s' : ChunkStore) : Prop where
  nextChunk : s'.nextChunk = s.nextChunk
  other : ∀ {id'}, id' ≠ id → s'.chunks id' = s.chunks id'
  self : ∃ c c', s.chunks id = some c ∧ s'.chunks id = some c' ∧ c'.parent = c.parent ∧
    r c.freeBytes c'.freeBytes

section Touches

variable {sc : SizeClass} {r r' : ℤ → ℤ → Prop} {s s' s'' : ChunkStore}
  {id sizeIdx reqCapacity : ℕ} {c c' : PoolChunk} {pools pools' : Pools} {cache : Bool}

theorem touches_setChunk (c' : PoolChunk) (pools : Pools) (hid : s.chunks id = some c)
    (hparent : c'.parent = c.parent) (hbytes : r c.freeBytes c'.freeBytes) :
    Touches r id s (s.setChunk id c' pools) :=
  ⟨rfl, fun hne => s.chunks_setChunk_of_ne hne c' pools,
    c, c', hid, s.chunks_setChunk_self id c' pools, hparent, hbytes⟩

theorem Touches.trans (h : Touches r id s s') (h' : Touches r id s' s'')
    (htrans : ∀ {x y z}, r x y → r y z → r x z) : Touches r id s s'' := by
  obtain ⟨c, c₁, hid, hid₁, hparent, hbytes⟩ := h.self
  obtain ⟨c₁', c₂, hid₁', hid₂, hparent', hbytes'⟩ := h'.self
  rw [hid₁] at hid₁'
  cases hid₁'
  exact ⟨h'.nextChunk.trans h.nextChunk, fun hne => (h'.other hne).trans (h.other hne),
    c, c₂, hid, hid₂, hparent'.trans hparent, htrans hbytes hbytes'⟩

/-- `splitLargeRun` does not count the run. -/
theorem sameRest_splitLargeRun {run pages handle : ℕ}
    (h : c.splitLargeRun sc run pages = some (handle, c')) :
    SameRest c c' ∧ c'.freeBytes = c.freeBytes := by
  unfold splitLargeRun at h
  dsimp only at h
  split_ifs at h
  · cases h
    exact sameRest_insertAvailRun _ _ _ _ _
  · cases h
    exact ⟨⟨rfl, rfl, rfl, rfl⟩, rfl⟩

/-- `allocateRun` takes the bytes of the run from those that are free. -/
theorem allocateRun_freeBytes {runSize : ℕ} {res : Option ℕ}
    (h : c.allocateRun sc runSize = some (res, c')) :
    SameRest c c' ∧
      c'.freeBytes = c.freeBytes - (res.elim 0 (PoolChunk.runSize sc.pageShifts) : ℕ) := by
  rcases allocateRun_cases h with ⟨rfl, rfl⟩ | ⟨i, run, handle, c₂, _, _, hsplit, rfl, rfl⟩
  · exact ⟨⟨rfl, rfl, rfl, rfl⟩, (sub_zero _).symm⟩
  · obtain ⟨hrest, hbytes⟩ := sameRest_splitLargeRun hsplit
    have hremove : ∀ c₀ : PoolChunk, SameRest c₀ (c₀.removeAvailRunFrom i run) ∧
        (c₀.removeAvailRunFrom i run).freeBytes = c₀.freeBytes := by
      intro c₀
      unfold removeAvailRunFrom
      dsimp only
      split <;> exact ⟨⟨rfl, rfl, rfl, rfl⟩, rfl⟩
    have hsplit := (hremove _).1.trans hrest
    refine ⟨⟨hsplit.subpages, hsplit.cachedBuffers, hsplit.offset, hsplit.parent⟩, ?_⟩
    have hsame := hbytes.trans (hremove _).2
    dsimp only at hsame ⊢
    rw [hsame]
    rfl

/-- `allocateRun` changes the runs and the free bytes only, of which there are no more. -/
theorem allocateRun_rest {runSize : ℕ} {res : Option ℕ}
    (h : c.allocateRun sc runSize = some (res, c')) :
    SameRest c c' ∧ c'.freeBytes ≤ c.freeBytes := by
  obtain ⟨hrest, hbytes⟩ := allocateRun_freeBytes h
  exact ⟨hrest, by omega⟩

/-- `allocateSubpage` takes bytes from those that are free. -/
theorem allocateSubpage_freeBytes {res : Option ℕ}
    (h : c.allocateSubpage sc id pools sizeIdx = some (res, c', pools')) :
    c'.parent = c.parent ∧ c'.freeBytes ≤ c.freeBytes := by
  obtain ⟨_, _, _, _, ⟨hrun, _⟩ | ⟨_, c₁, _, _, _, hrun, _, _, _, rfl⟩⟩ := allocateSubpage_cases h
  · obtain ⟨hrest, hbytes⟩ := allocateRun_rest hrun
    exact ⟨hrest.parent, hbytes⟩
  · obtain ⟨hrest, hbytes⟩ := allocateRun_rest hrun
    exact ⟨hrest.parent, hbytes⟩

/-- A request to a chunk takes bytes from those that are free there. -/
theorem touches_allocateHandle {res : Option ℕ}
    (h : s.allocateHandle sc id sizeIdx = some (res, s')) : Touches (· ≥ ·) id s s' := by
  rw [ChunkStore.allocateHandle] at h
  split_ifs at h
  · obtain ⟨c, hid, h⟩ := Option.bind_eq_some_iff.mp h
    obtain ⟨⟨_, c', pools'⟩, hsubpage, h⟩ := Option.bind_eq_some_iff.mp h
    cases h
    obtain ⟨hparent, hbytes⟩ := allocateSubpage_freeBytes hsubpage
    exact touches_setChunk c' pools' hid hparent hbytes
  · obtain ⟨c, hid, h⟩ := Option.bind_eq_some_iff.mp h
    obtain ⟨⟨_, c'⟩, hrun, h⟩ := Option.bind_eq_some_iff.mp h
    cases h
    obtain ⟨hrest, hbytes⟩ := allocateRun_rest hrun
    exact touches_setChunk c' s.pools hid hrest.parent hbytes

/-- `allocate` of a chunk takes bytes from those that are free there. -/
theorem touches_allocate {res : Option Region}
    (h : s.allocate sc id reqCapacity sizeIdx cache = some (res, s')) :
    Touches (· ≥ ·) id s s' := by
  obtain ⟨⟨handle, s₁⟩, hhandle, h⟩ := Option.bind_eq_some_iff.mp h
  have h₁ := touches_allocateHandle hhandle
  cases handle with
  | none =>
    cases h
    exact h₁
  | some handle =>
    dsimp only at h
    split_ifs at h
    obtain ⟨c, hid, h⟩ := Option.bind_eq_some_iff.mp h
    obtain ⟨region, _, h⟩ := Option.bind_eq_some_iff.mp h
    cases h
    have h₂ : Touches (· ≥ ·) id s₁ (s₁.popCachedBuffer id c) :=
      touches_setChunk _ s₁.pools hid rfl (le_refl c.freeBytes)
    exact h₁.trans h₂ fun h h' => ge_trans h h'

/-- `collapsePrev` does not count the runs that it joins. -/
theorem sameRest_collapsePrev (fuel handle : ℕ) :
    SameRest c (collapsePrev sc fuel c handle).2 ∧
      (collapsePrev sc fuel c handle).2.freeBytes = c.freeBytes := by
  induction fuel generalizing c handle with
  | zero => exact ⟨⟨rfl, rfl, rfl, rfl⟩, rfl⟩
  | succ fuel ih =>
    rw [collapsePrev]
    dsimp only
    split
    · exact ⟨⟨rfl, rfl, rfl, rfl⟩, rfl⟩
    · next prevRun _ =>
      split_ifs
      · obtain ⟨hrest, hbytes⟩ := sameRest_removeAvailRun sc c prevRun
        exact ⟨hrest.trans (ih _).1, (ih _).2.trans hbytes⟩
      · exact ⟨⟨rfl, rfl, rfl, rfl⟩, rfl⟩

/-- `collapseNext` does not count the runs that it joins. -/
theorem sameRest_collapseNext (fuel handle : ℕ) :
    SameRest c (collapseNext sc fuel c handle).2 ∧
      (collapseNext sc fuel c handle).2.freeBytes = c.freeBytes := by
  induction fuel generalizing c handle with
  | zero => exact ⟨⟨rfl, rfl, rfl, rfl⟩, rfl⟩
  | succ fuel ih =>
    rw [collapseNext]
    dsimp only
    split
    · exact ⟨⟨rfl, rfl, rfl, rfl⟩, rfl⟩
    · next nextRun _ =>
      split_ifs
      · obtain ⟨hrest, hbytes⟩ := sameRest_removeAvailRun sc c nextRun
        exact ⟨hrest.trans (ih _).1, (ih _).2.trans hbytes⟩
      · exact ⟨⟨rfl, rfl, rfl, rfl⟩, rfl⟩

/-- The release of a run counts its bytes as free. -/
theorem freeRun_rest (c : PoolChunk) (handle : ℕ) (buffer : Option Addr) :
    (c.freeRun sc handle buffer).subpages = c.subpages ∧
      (c.freeRun sc handle buffer).parent = c.parent ∧
      c.freeBytes ≤ (c.freeRun sc handle buffer).freeBytes := by
  obtain ⟨hrest₁, hbytes₁⟩ := @sameRest_collapsePrev sc c (2 ^ 15) handle
  obtain ⟨hrest₂, hbytes₂⟩ := @sameRest_collapseNext sc (collapsePrev sc (2 ^ 15) c handle).2
    (2 ^ 15) (collapsePrev sc (2 ^ 15) c handle).1
  have hcache : ∀ c₀ : PoolChunk, (c₀.cacheBuffer buffer).subpages = c₀.subpages ∧
      (c₀.cacheBuffer buffer).parent = c₀.parent ∧
      (c₀.cacheBuffer buffer).freeBytes = c₀.freeBytes := by
    intro c₀
    obtain ⟨_, _, hbytes, hsub, _, hparent⟩ := cacheBuffer_rest c₀ buffer
    exact ⟨hsub, hparent, hbytes⟩
  have hins := sameRest_insertAvailRun sc (c.collapseRuns sc handle).2
    (calculateRunOffset (clearUse (c.collapseRuns sc handle).1))
    (calculateRunPages (clearUse (c.collapseRuns sc handle).1))
    (clearUse (c.collapseRuns sc handle).1)
  rw [PoolChunk.freeRun]
  dsimp only
  have hrest := hrest₁.trans (hrest₂.trans hins.1)
  refine ⟨(hcache _).1.trans hrest.subpages, (hcache _).2.1.trans hrest.parent, ?_⟩
  rw [(hcache _).2.2]
  dsimp only
  have hsame : _ = c.freeBytes := hins.2.trans (hbytes₂.trans hbytes₁)
  rw [hsame]
  have hpos := Int.natCast_nonneg (calculateRunPages handle <<< sc.pageShifts)
  omega

/-- `free` of a chunk adds to its free bytes. -/
theorem touches_free {g : Grant} {buffer : Option Addr} (h : s.free sc g buffer = some s') :
    Touches (· ≤ ·) g.chunk s s' := by
  obtain ⟨c, hid, h⟩ := Option.bind_eq_some_iff.mp h
  obtain ⟨⟨c', pools'⟩, hfree, h⟩ := Option.bind_eq_some_iff.mp h
  cases h
  have hchunk : c'.parent = c.parent ∧ c.freeBytes ≤ c'.freeBytes := by
    rw [PoolChunk.free] at hfree
    split_ifs at hfree
    · obtain ⟨head, _, hfree⟩ := Option.bind_eq_some_iff.mp hfree
      obtain ⟨sp, _, hfree⟩ := Option.bind_eq_some_iff.mp hfree
      split_ifs at hfree
      obtain ⟨⟨kept, sp', pools₁⟩, _, hfree⟩ := Option.bind_eq_some_iff.mp hfree
      dsimp only at hfree
      split_ifs at hfree
      · cases hfree
        exact ⟨rfl, le_refl _⟩
      · cases hfree
        exact (freeRun_rest (c.setSubpage _ none) _ _).2
    · cases hfree
      exact (freeRun_rest c _ _).2
  exact touches_setChunk c' pools' hid hchunk.1 hchunk.2

/-- An element of a pool takes no bytes from those that are free. -/
theorem touches_allocatePooled {res : Option (ℕ × ℕ)}
    (h : s.allocatePooled sc sizeIdx = some (res, s')) :
    s' = s ∨ ∃ id, Touches (· = ·) id s s' := by
  rcases allocatePooled_cases h with
    ⟨_, rfl, _⟩ | ⟨id, o, c, sp, _, sp', pools', _, _, hid, _, _, _, rfl⟩
  · exact Or.inl rfl
  · exact Or.inr ⟨id, touches_setChunk _ pools' hid rfl rfl⟩

end Touches

/-- The chunks on the lists are those of the arena, apart from one that is between two
lists, and each is on the list that it names. -/
structure Linked (a : PoolArena) (lists : ChunkListName → List ℕ) (loose : Option ℕ) : Prop where
  holds : a.links.HoldsAll a.head lists
  mem_iff : ∀ {id l}, id ∈ lists l ↔
    loose ≠ some id ∧ ∃ c, a.store.chunks id = some c ∧ c.parent = some l

/-- Every chunk, apart from one, has the free bytes that its list admits. -/
def Within (k : PoolConfig) (s : ChunkStore) (loose : Option ℕ) : Prop :=
  ∀ id c, s.chunks id = some c → loose ≠ some id →
    ∃ l, c.parent = some l ∧ l.Admits k c.freeBytes

section Linked

variable {k : PoolConfig} {a a' : PoolArena} {lists : ChunkListName → List ℕ}
  {loose : Option ℕ} {l l' : ChunkListName} {r : ℤ → ℤ → Prop} {s s' : ChunkStore} {id : ℕ}
  {c : PoolChunk}

/-- An operation on a chunk leaves the lists as they are. -/
theorem Linked.touch (h : Linked a lists loose) (htouch : Touches r id a.store s') :
    Linked (a.setStore s') lists loose := by
  refine ⟨h.holds, fun {id' l} => h.mem_iff.trans (and_congr_right fun _ => ?_)⟩
  by_cases hne : id' = id
  · subst hne
    obtain ⟨c, c', hid, hid', hparent, _⟩ := htouch.self
    constructor
    · rintro ⟨c₁, hc₁, hl⟩
      rw [hid] at hc₁
      cases hc₁
      exact ⟨c', hid', hparent.trans hl⟩
    · rintro ⟨c₁, hc₁, hl⟩
      have hc₁ : s'.chunks id' = some c₁ := hc₁
      rw [hid'] at hc₁
      cases hc₁
      exact ⟨c, hid, hparent.symm.trans hl⟩
  · rw [← htouch.other hne]
    rfl

/-- After an operation on a chunk, the other chunks have the free bytes that they had. -/
theorem Within.touch_other (h : Within k s none) (htouch : Touches r id s s') :
    Within k s' (some id) := by
  intro id' c hc hne
  have hne' : id' ≠ id := fun heq => hne (congrArg some heq.symm)
  rw [htouch.other hne'] at hc
  exact h id' c hc nofun

/-- A chunk that its list still admits is not between two lists. -/
theorem Within.settle (h : Within k s (some id)) (hid : s.chunks id = some c)
    (hparent : c.parent = some l) (hadmits : l.Admits k c.freeBytes) : Within k s none := by
  intro id' c' hc' _
  by_cases hne : id' = id
  · subst hne
    rw [hid] at hc'
    cases hc'
    exact ⟨l, hparent, hadmits⟩
  · exact h id' c' hc' fun heq => hne (Option.some.inj heq).symm

/-- `remove` of a chunk from its list. -/
theorem Linked.remove (h : Linked a lists none) (hid : a.store.chunks id = some c)
    (hparent : c.parent = some l) :
    ∃ a', a.remove l id = some a' ∧ a'.store = a.store ∧
      Linked a' (Function.update lists l ((lists l).erase id)) (some id) := by
  have hmem : id ∈ lists l := h.mem_iff.mpr ⟨nofun, c, hid, hparent⟩
  obtain ⟨head', links', hunlink, hholds⟩ := h.holds.unlink hmem
  refine ⟨a.setList l head' links', ?_, rfl, hholds, fun {id' l'} => ?_⟩
  · rw [PoolArena.remove, hunlink]
    rfl
  · have hnodup : (lists l).Nodup := (h.holds.holds l).2
    have hold : id' ∈ lists l' ↔ ∃ c, a.store.chunks id' = some c ∧ c.parent = some l' :=
      h.mem_iff.trans (and_iff_right nofun)
    by_cases hl : l' = l
    · rw [hl, Function.update_self, hnodup.mem_erase_iff, ← hl, hold]
      exact and_congr_left fun _ => ⟨fun hne heq => hne (Option.some.inj heq).symm,
        fun hne heq => hne (congrArg some heq.symm)⟩
    · rw [Function.update_of_ne hl, hold]
      constructor
      · rintro ⟨c', hc', hparent'⟩
        refine ⟨?_, c', hc', hparent'⟩
        rintro ⟨⟩
        rw [hid] at hc'
        cases hc'
        rw [hparent] at hparent'
        exact hl (Option.some.inj hparent').symm
      · exact And.right

/-- `add0` of a chunk that is between two lists. -/
theorem Linked.add0 (h : Linked a lists (some id)) (hid : a.store.chunks id = some c)
    (l : ChunkListName) :
    ∃ a', a.add0 l id = some a' ∧
      a'.store = a.store.setChunk id { c with parent := some l } a.store.pools ∧
      Linked a' (Function.update lists l (id :: lists l)) none := by
  have hloose : ∀ l', id ∉ lists l' := fun l' hmem => (h.mem_iff.mp hmem).1 rfl
  refine ⟨(a.setStore (a.store.setChunk id { c with parent := some l } a.store.pools)).setList l
    (some id) (a.links.pushFront (a.head l) id), ?_, rfl, h.holds.pushFront hloose,
    fun {id' l'} => ?_⟩
  · rw [PoolArena.add0, hid]
    rfl
  · change _ ↔ _ ∧ ∃ c', (a.store.setChunk id { c with parent := some l } a.store.pools).chunks id'
      = some c' ∧ c'.parent = some l'
    by_cases hne : id' = id
    · subst hne
      rw [ChunkStore.chunks_setChunk_self]
      by_cases hl : l' = l
      · subst hl
        rw [Function.update_self]
        exact iff_of_true List.mem_cons_self ⟨nofun, _, rfl, rfl⟩
      · rw [Function.update_of_ne hl]
        refine iff_of_false (hloose l') ?_
        rintro ⟨_, _, ⟨⟩, hparent⟩
        exact hl (Option.some.inj hparent).symm
    · have hmem : id' ∈ Function.update lists l (id :: lists l) l' ↔ id' ∈ lists l' := by
        by_cases hl : l' = l
        · rw [hl, Function.update_self, List.mem_cons, or_iff_right hne]
        · rw [Function.update_of_ne hl]
      rw [hmem, h.mem_iff, ChunkStore.chunks_setChunk_of_ne _ hne]
      exact and_congr_left fun _ =>
        iff_of_true (fun heq => hne (Option.some.inj heq).symm) nofun

/-- A chunk that is placed in a list that admits it. -/
theorem Linked.place (h : Linked a lists (some id)) (hwithin : Within k a.store (some id))
    (hid : a.store.chunks id = some c) (hadmits : l.Admits k c.freeBytes) :
    ∃ a' lists', a.add0 l id = some a' ∧ Linked a' lists' none ∧ Within k a'.store none := by
  obtain ⟨a', hadd, hstore, hlinked⟩ := h.add0 hid l
  have htouch : ∀ id' ≠ id, a'.store.chunks id' = a.store.chunks id' := by
    intro id' hne
    rw [hstore, ChunkStore.chunks_setChunk_of_ne _ hne]
  refine ⟨a', _, hadd, hlinked, ?_⟩
  have hrest : Within k a'.store (some id) := by
    intro id' c' hc' hne
    rw [htouch id' fun heq => hne (congrArg some heq.symm)] at hc'
    exact hwithin id' c' hc' hne
  have hplaced : a'.store.chunks id = some { c with parent := some l } := by
    rw [hstore, ChunkStore.chunks_setChunk_self]
  exact hrest.settle hplaced rfl hadmits

/-- `add` places a chunk that has not too many free bytes for the list. -/
theorem add_eq (hid : a.store.chunks id = some c) (hnonneg : 0 ≤ c.freeBytes) {fuel : ℕ}
    (hmax : c.freeBytes ≤ l.freeMaxThreshold k.sizeClass) (hfuel : l.above < fuel) :
    ∃ l', a.add k.sizeClass id fuel l = a.add0 l' id ∧ l'.Admits k c.freeBytes := by
  induction fuel generalizing l with
  | zero => omega
  | succ fuel ih =>
    rw [PoolArena.add, hid, Option.bind_eq_bind, Option.bind_some]
    split_ifs with hmin
    · have hnext : ∃ next, l.nextList = some next := by
        cases l with
        | q100 =>
          have hneg := freeMinThreshold_q100 k
          omega
        | _ => exact ⟨_, rfl⟩
      obtain ⟨next, hnext⟩ := hnext
      have habove := above_nextList hnext
      rw [hnext, Option.bind_eq_bind, Option.bind_some]
      exact ih (hmin.trans (freeMinThreshold_le_nextList k hnext)) (by omega)
    · exact ⟨l, rfl, by omega, hmax⟩

/-- `move0` of a chunk with too many free bytes for its list places it, or finds it free
as a whole. -/
theorem move0_eq (hid : a.store.chunks id = some c) {fuel : ℕ} (hinit : l ≠ qInit)
    (hle : c.freeBytes ≤ k.chunkSize) (hmax : l.freeMaxThreshold k.sizeClass < c.freeBytes)
    (hfuel : 2 * l.below < fuel) :
    (a.move0 k.sizeClass id fuel l = some (false, a) ∧ c.freeBytes = k.chunkSize) ∨
      ∃ l', a.move0 k.sizeClass id fuel l = (a.add0 l' id).map (true, ·) ∧
        l'.Admits k c.freeBytes := by
  induction fuel using Nat.strong_induction_on generalizing l with
  | _ fuel ih =>
    obtain ⟨fuel, rfl⟩ : ∃ n, fuel = n + 1 := ⟨fuel - 1, by omega⟩
    rw [move0]
    cases hprev : l.prevList with
    | none =>
      have hwhole : c.freeBytes = k.chunkSize := by
        cases l <;> cases hprev
        exact le_antisymm hle (chunkSize_le_of_q00 k hmax)
      refine Or.inl ⟨?_, hwhole⟩
      dsimp only
      rw [hid, Option.bind_eq_bind, Option.bind_some, if_pos (usage_eq_zero k hwhole)]
    | some prev =>
      have hbelow := below_prevList hprev hinit
      obtain ⟨fuel, rfl⟩ : ∃ n, fuel = n + 1 := ⟨fuel - 1, by omega⟩
      dsimp only
      rw [move, hid, Option.bind_eq_bind, Option.bind_some,
        if_pos (usage_lt_prevList k hprev hinit hmax)]
      split_ifs with hmore
      · exact ih fuel (by omega) (prevList_ne_qInit hprev hinit) hmore (by omega)
      · refine Or.inr ⟨prev, ?_, lt_of_le_of_lt (freeMinThreshold_prevList_le k hprev hinit) hmax,
          by omega⟩
        cases a.add0 prev id <;> rfl

end Linked

/-- Every chunk is on the list that its free bytes call for. -/
def Placed (k : PoolConfig) (a : PoolArena) : Prop :=
  (∃ lists, Linked a lists none) ∧ Within k a.store none

section Placed

variable {k : PoolConfig} {a a' : PoolArena} {owned : List Grant} {l : ChunkListName}
  {reqCapacity sizeIdx id : ℕ} {cache : Bool} {lists : ChunkListName → List ℕ}
  {loose : Option ℕ} {g : Grant} {s s' : ChunkStore} {c : PoolChunk}

/-- The walk through a list finds all its chunks. -/
theorem Linked.chunksOf_eq (h : Linked a lists loose) (howns : Owns k a owned)
    (l : ChunkListName) : a.chunksOf l = lists l := by
  obtain ⟨blocks, hstore⟩ := howns
  refine (h.holds.holds l).1.walk_eq ?_
  have hsub : lists l ⊆ List.range a.store.nextChunk := by
    intro id hid
    obtain ⟨_, c, hc, _⟩ := h.mem_iff.mp hid
    exact List.mem_range.mpr (hstore.fresh hc)
  have hlength := ((h.holds.holds l).2.subperm hsub).length_le
  rwa [List.length_range] at hlength

/-- `add` of a chunk that is between two lists. -/
theorem Linked.add (h : Linked a lists (some id)) (hwithin : Within k a.store (some id))
    (hid : a.store.chunks id = some c) (hnonneg : 0 ≤ c.freeBytes)
    (hmax : c.freeBytes ≤ l.freeMaxThreshold k.sizeClass) :
    ∃ a', a.add k.sizeClass id listFuel l = some a' ∧ Placed k a' := by
  obtain ⟨l', hadd, hadmits⟩ := add_eq hid hnonneg hmax
    (show l.above < listFuel by cases l <;> decide)
  obtain ⟨a', lists', hadd', hlinked', hwithin'⟩ := h.place hwithin hid hadmits
  exact ⟨a', hadd.trans hadd', ⟨lists', hlinked'⟩, hwithin'⟩

/-- A chunk with too few free bytes for its list goes to a later one. -/
theorem Linked.demote (h : Linked a lists none) (hwithin : Within k a.store (some id))
    (hid : a.store.chunks id = some c) (hparent : c.parent = some l) (hnonneg : 0 ≤ c.freeBytes)
    (hmin : c.freeBytes ≤ l.freeMinThreshold k.sizeClass) :
    ∃ next a₁ a₂, l.nextList = some next ∧ a.remove l id = some a₁ ∧
      a₁.add k.sizeClass id listFuel next = some a₂ ∧ Placed k a₂ := by
  have hnext : ∃ next, l.nextList = some next := by
    cases l with
    | q100 =>
      have hneg := freeMinThreshold_q100 k
      omega
    | _ => exact ⟨_, rfl⟩
  obtain ⟨next, hnext⟩ := hnext
  obtain ⟨a₁, hremove, hstore, hlinked⟩ := h.remove hid hparent
  obtain ⟨a₂, hadd, hplaced⟩ := hlinked.add (hstore ▸ hwithin) (hstore ▸ hid) hnonneg
    (hmin.trans (freeMinThreshold_le_nextList k hnext))
  exact ⟨next, a₁, a₂, hnext, hremove, hadd, hplaced⟩

/-- A chunk of a list that was served has no more free bytes than its list admits. -/
theorem Within.served (h : Within k s none) (htouch : Touches (· ≥ ·) id s s')
    (hid : ∃ c, s.chunks id = some c ∧ c.parent = some l) :
    ∃ c, s'.chunks id = some c ∧ c.parent = some l ∧
      c.freeBytes ≤ l.freeMaxThreshold k.sizeClass := by
  obtain ⟨c, c', hc, hc', hparent, hbytes⟩ := htouch.self
  obtain ⟨_, hsame, hl⟩ := hid
  rw [hc] at hsame
  cases hsame
  obtain ⟨l', hl', hadmits⟩ := h id c hc nofun
  rw [hl] at hl'
  cases hl'
  exact ⟨c', hc', hparent.trans hl, le_trans hbytes hadmits.2⟩

/-- A chunk that was served from its list stays there or goes to the next one. -/
theorem Placed.allocateFrom (h : Placed k a) (howns : Owns k a owned) {ids : List ℕ}
    (hids : ∀ id ∈ ids, ∃ c, a.store.chunks id = some c ∧ c.parent = some l)
    {res : Option Region}
    (hstep : allocateFrom k.sizeClass l reqCapacity sizeIdx cache a ids = some (res, a')) :
    Placed k a' := by
  obtain ⟨⟨lists, hlinked⟩, hwithin⟩ := h
  induction ids with
  | nil =>
    cases hstep
    exact ⟨⟨lists, hlinked⟩, hwithin⟩
  | cons cur ids ih =>
    rw [List.forall_mem_cons] at hids
    obtain ⟨⟨region, store⟩, halloc, hrest⟩ := Option.bind_eq_some_iff.mp hstep
    obtain ⟨blocks, hstore⟩ := howns
    rcases hstore.allocate halloc with ⟨rfl, rfl⟩ | ⟨_, blocks', g, r, _, rfl, _, hstore', _⟩
    · exact ih hids.2 hrest
    · have htouch := touches_allocate halloc
      obtain ⟨c', hid', hparent', hmax⟩ := hwithin.served htouch hids.1
      have hlinked' : Linked (a.setStore store) lists none := hlinked.touch htouch
      have hwithin' : Within k store (some cur) := hwithin.touch_other htouch
      obtain ⟨_, hsame, hrest⟩ := Option.bind_eq_some_iff.mp hrest
      rw [hid'] at hsame
      cases hsame
      split_ifs at hrest with hmin
      · obtain ⟨next, a₁, a₂, hnext, hremove, hadd, hplaced⟩ := hlinked'.demote hwithin' hid'
          hparent' (hstore'.chunk hid').freeBytes_le.1 hmin
        rw [hnext, Option.bind_eq_bind, Option.bind_some, hremove, Option.bind_eq_bind,
          Option.bind_some, hadd] at hrest
        cases hrest
        exact hplaced
      · cases hrest
        exact ⟨⟨lists, hlinked'⟩, hwithin'.settle hid' hparent' ⟨by omega, hmax⟩⟩

/-- The lists that are asked for a region keep their chunks placed. -/
theorem Placed.allocateLists (h : Placed k a) (howns : Owns k a owned) {res : Option Region}
    {ls : List ChunkListName}
    (hstep : allocateLists k.sizeClass reqCapacity sizeIdx cache a ls = some (res, a')) :
    Placed k a' := by
  induction ls with
  | nil =>
    cases hstep
    exact h
  | cons l ls ih =>
    obtain ⟨⟨region, a₁⟩, hlist, hrest⟩ := Option.bind_eq_some_iff.mp hstep
    have hcases : Placed k a₁ ∧ (region = none → a₁ = a) := by
      rw [listAllocate] at hlist
      split_ifs at hlist
      · cases hlist
        exact ⟨h, fun _ => rfl⟩
      · obtain ⟨lists, hlinked⟩ := h.1
        refine ⟨h.allocateFrom howns (fun id hid => ?_) hlist, fun hnone => ?_⟩
        · rw [hlinked.chunksOf_eq howns] at hid
          exact (hlinked.mem_iff.mp hid).2
        · rcases howns.allocateFrom hlist with ⟨_, hsame⟩ | ⟨_, _, hsome, _⟩
          · exact hsame
          · rw [hnone] at hsome
            cases hsome
    obtain ⟨hplaced, hsame⟩ := hcases
    cases region with
    | none =>
      rw [hsame rfl] at hrest
      exact ih hrest
    | some region =>
      cases hrest
      exact hplaced

/-- A new chunk is on no list. -/
theorem Linked.newChunk (h : Linked a lists none) (howns : Owns k a owned) :
    Linked (a.setStore (a.store.newChunk k.sizeClass)) lists (some a.store.nextChunk) := by
  obtain ⟨blocks, hstore⟩ := howns
  refine ⟨h.holds, fun {id l} => ?_⟩
  change _ ↔ _ ∧ ∃ c, (a.store.newChunk k.sizeClass).chunks id = some c ∧ c.parent = some l
  by_cases hne : id = a.store.nextChunk
  · refine iff_of_false (fun hmem => ?_) fun hcontra => hcontra.1 (congrArg some hne.symm)
    obtain ⟨_, c, hc, _⟩ := h.mem_iff.mp hmem
    rw [hne, hstore.chunks_nextChunk] at hc
    cases hc
  · rw [h.mem_iff, ChunkStore.chunks_newChunk_of_ne _ _ hne]
    exact and_congr_left fun _ =>
      iff_of_true nofun fun heq => hne (Option.some.inj heq).symm

/-- A new chunk that was served is placed. -/
theorem Placed.addNew (h : Placed k a) (howns : Owns k a owned) {r : Region}
    (halloc : (a.store.newChunk k.sizeClass).allocate k.sizeClass a.store.nextChunk reqCapacity
      sizeIdx cache = some (some r, s')) :
    ∃ a', (a.setStore s').add k.sizeClass a.store.nextChunk listFuel qInit = some a' ∧
      Placed k a' := by
  obtain ⟨⟨lists, hlinked⟩, hwithin⟩ := h
  have htouch := touches_allocate halloc
  obtain ⟨c, c', hid, hid', _, hbytes⟩ := htouch.self
  have hlinked' : Linked (a.setStore s') lists (some a.store.nextChunk) :=
    (hlinked.newChunk howns).touch htouch
  have hwithin' : Within k s' (some a.store.nextChunk) := by
    intro id c hc hne
    have hne' : id ≠ a.store.nextChunk := fun heq => hne (congrArg some heq.symm)
    rw [htouch.other hne', ChunkStore.chunks_newChunk_of_ne _ _ hne'] at hc
    exact hwithin id c hc nofun
  have hnonneg : 0 ≤ c'.freeBytes := by
    obtain ⟨blocks, hstore⟩ := howns
    rcases hstore.newChunk.allocate halloc with ⟨hnone, _⟩ | ⟨_, _, _, _, _, _, _, hstore', _⟩
    · cases hnone
    · exact (hstore'.chunk hid').freeBytes_le.1
  have hmax : c'.freeBytes ≤ qInit.freeMaxThreshold k.sizeClass := by
    rw [ChunkStore.chunks_newChunk_self] at hid
    cases hid
    rw [(new_rest k).2.2.2.2] at hbytes
    exact le_trans hbytes (chunkSize_le_qInit k)
  exact hlinked'.add hwithin' hid' hnonneg hmax

/-- `allocateNormal` keeps all chunks placed, with the one that it may make. -/
theorem Placed.allocateNormal (h : Placed k a) (howns : Owns k a owned) {r : Region}
    (hstep : a.allocateNormal k.sizeClass reqCapacity sizeIdx cache = some (r, a')) :
    Placed k a' := by
  obtain ⟨⟨region, a₁⟩, hlists, hrest⟩ := Option.bind_eq_some_iff.mp hstep
  have h₁ := h.allocateLists howns hlists
  rcases howns.allocateLists hlists with ⟨rfl, rfl⟩ | ⟨g, r', rfl, _⟩
  · obtain ⟨⟨res, store⟩, halloc, hrest⟩ := Option.bind_eq_some_iff.mp hrest
    obtain ⟨region, hres, hrest⟩ := Option.bind_eq_some_iff.mp hrest
    obtain ⟨a₂, hadd, hrest⟩ := Option.bind_eq_some_iff.mp hrest
    cases hrest
    obtain rfl : res = some r := hres
    obtain ⟨a₂', hadd', hplaced⟩ := h₁.addNew howns halloc
    rw [hadd] at hadd'
    cases hadd'
    exact hplaced
  · cases hrest
    exact h₁

/-- An element of a pool is handed out without a change to the lists. -/
theorem Placed.pooledAllocate (h : Placed k a) {res : Option Region}
    (hstep : a.pooledAllocate k.sizeClass reqCapacity sizeIdx = some (res, a')) :
    Placed k a' := by
  obtain ⟨⟨lists, hlinked⟩, hwithin⟩ := h
  obtain ⟨⟨element, store⟩, hpool, hrest⟩ := Option.bind_eq_some_iff.mp hstep
  have hstore : Placed k (a.setStore store) := by
    rcases touches_allocatePooled hpool with rfl | ⟨id, htouch⟩
    · exact ⟨⟨lists, hlinked⟩, hwithin⟩
    · obtain ⟨c, c', hid, hid', hparent, hbytes⟩ := htouch.self
      obtain ⟨l, hl, hadmits⟩ := hwithin id c hid nofun
      exact ⟨⟨lists, hlinked.touch htouch⟩,
        (hwithin.touch_other htouch).settle hid' (hparent.trans hl) (hbytes ▸ hadmits)⟩
  cases element with
  | none =>
    cases hrest
    exact hstore
  | some element =>
    obtain ⟨region, _, hrest⟩ := Option.bind_eq_some_iff.mp hrest
    cases hrest
    exact hstore

/-- The release of a region that was handed out never fails in the lists. Its chunk is
placed again, or it is free as a whole and on no list. -/
theorem Placed.listFree (h : Placed k a) (howns : Owns k a owned) (hg : g ∈ owned)
    (buffer : Addr) :
    ∃ c l kept a', a.store.chunks g.chunk = some c ∧ c.parent = some l ∧
      a.listFree k.sizeClass l g buffer = some (kept, a') ∧ Owns k a' (owned.erase g) ∧
      (if kept then Placed k a'
      else (∃ lists, Linked a' lists (some g.chunk)) ∧ Within k a'.store (some g.chunk) ∧
        ∃ c', a'.store.chunks g.chunk = some c' ∧ c'.freeBytes = k.chunkSize) := by
  obtain ⟨⟨lists, hlinked⟩, hwithin⟩ := h
  obtain ⟨blocks, hstore⟩ := howns
  obtain ⟨store, blocks', hfree, hstore'⟩ := hstore.free hg (some buffer)
  have htouch := touches_free hfree
  obtain ⟨c, c', hid, hid', hparent, hbytes⟩ := htouch.self
  obtain ⟨l, hl, hadmits⟩ := hwithin g.chunk c hid nofun
  have hlinked' : Linked (a.setStore store) lists none := hlinked.touch htouch
  have hwithin' : Within k store (some g.chunk) := hwithin.touch_other htouch
  by_cases hmax : l.freeMaxThreshold k.sizeClass < c'.freeBytes
  · have hinit : l ≠ qInit := by
      rintro rfl
      exact absurd (le_trans (hstore'.chunk hid').freeBytes_le.2 (chunkSize_le_qInit k))
        (not_le.mpr hmax)
    obtain ⟨a₁, hremove, hstore₁, hlinked₁⟩ := hlinked'.remove hid' (hparent.trans hl)
    have hstart : a.listFree k.sizeClass l g buffer =
        a₁.move0 k.sizeClass g.chunk listFuel l := by
      rw [PoolArena.listFree, hfree, Option.bind_eq_bind, Option.bind_some, hid',
        Option.bind_eq_bind, Option.bind_some, if_pos hmax, hremove]
      rfl
    have hstore₁ : a₁.store = store := hstore₁
    have hid₁ : a₁.store.chunks g.chunk = some c' := hstore₁ ▸ hid'
    have hwithin₁ : Within k a₁.store (some g.chunk) := hstore₁ ▸ hwithin'
    have howns₁ : Owns k a₁ (owned.erase g) := ⟨blocks', hstore₁ ▸ hstore'⟩
    rcases move0_eq hid₁ hinit (hstore'.chunk hid').freeBytes_le.2 hmax
      (show 2 * l.below < listFuel by cases l <;> decide) with ⟨hmove, hwhole⟩ | ⟨l', hmove, hadmits'⟩
    · exact ⟨c, l, false, a₁, hid, hl, hstart.trans hmove, howns₁, ⟨_, hlinked₁⟩, hwithin₁,
        c', hid₁, hwhole⟩
    · obtain ⟨a₂, lists', hadd, hlinked₂, hwithin₂⟩ := hlinked₁.place hwithin₁ hid₁ hadmits'
      rw [hadd] at hmove
      exact ⟨c, l, true, a₂, hid, hl, hstart.trans hmove, howns₁.add0 hadd,
        ⟨lists', hlinked₂⟩, hwithin₂⟩
  · refine ⟨c, l, true, a.setStore store, hid, hl, ?_, ⟨blocks', hstore'⟩, ⟨lists, hlinked'⟩,
      hwithin'.settle hid' (hparent.trans hl) ⟨lt_of_lt_of_le hadmits.1 hbytes, by omega⟩⟩
    rw [PoolArena.listFree, hfree, Option.bind_eq_bind, Option.bind_some, hid',
      Option.bind_eq_bind, Option.bind_some, if_neg hmax]

/-- A chunk that is destroyed is no longer missing from the lists. -/
theorem Linked.destroyChunk (h : Linked a lists (some id)) :
    Linked (a.setStore (a.store.destroyChunk id)) lists none := by
  refine ⟨h.holds, fun {id' l} => ?_⟩
  change _ ↔ _ ∧ ∃ c, (a.store.destroyChunk id).chunks id' = some c ∧ c.parent = some l
  by_cases hne : id' = id
  · rw [hne, ChunkStore.chunks_destroyChunk_self]
    refine iff_of_false (fun hmem => (h.mem_iff.mp hmem).1 rfl) ?_
    rintro ⟨_, _, ⟨⟩, _⟩
  · rw [h.mem_iff, ChunkStore.chunks_destroyChunk_of_ne _ hne]
    exact and_congr_left fun _ =>
      iff_of_true (fun heq => hne (Option.some.inj heq).symm) nofun

/-- `freeChunk` keeps all chunks placed that remain. -/
theorem Placed.freeChunk (h : Placed k a) (howns : Owns k a owned) (hg : g ∈ owned)
    {buffer : Addr} (hstep : a.freeChunk k.sizeClass g buffer = some a') : Placed k a' := by
  obtain ⟨c, l, kept, a₁, hid, hl, hlist, _, hcases⟩ := h.listFree howns hg buffer
  rw [PoolArena.freeChunk, hid, Option.bind_eq_bind, Option.bind_some, hl, Option.bind_eq_bind,
    Option.bind_some, hlist, Option.bind_eq_bind, Option.bind_some] at hstep
  cases kept with
  | true =>
    cases hstep
    exact hcases
  | false =>
    cases hstep
    obtain ⟨⟨lists, hlinked⟩, hwithin, _⟩ := hcases
    refine ⟨⟨lists, hlinked.destroyChunk⟩, fun id c hc _ => ?_⟩
    have hc : (a₁.store.destroyChunk g.chunk).chunks id = some c := hc
    by_cases hne : id = g.chunk
    · rw [hne, ChunkStore.chunks_destroyChunk_self] at hc
      cases hc
    · rw [ChunkStore.chunks_destroyChunk_of_ne _ hne] at hc
      exact hwithin id c hc fun heq => hne (Option.some.inj heq).symm

end Placed

namespace ChunkLists

/-- An arena and the regions that it handed out and did not get back. -/
structure State where
  arena : PoolArena
  owned : List Grant

/-- A call of the arena. -/
inductive Call
  | allocateNormal (reqCapacity sizeIdx : ℕ) (threadCache : Bool)
  | pooledAllocate (reqCapacity sizeIdx : ℕ)
  | freeChunk (region : Grant) (buffer : Addr)

/-- The answer to a call. A region is freed while it is handed out only. -/
def next (sc : SizeClass) (s : State) : Call → Option State
  | .allocateNormal reqCapacity sizeIdx threadCache => do
    let (region, arena) ← s.arena.allocateNormal sc reqCapacity sizeIdx threadCache
    some ⟨arena, region.grants ++ s.owned⟩
  | .pooledAllocate reqCapacity sizeIdx => do
    let (region, arena) ← s.arena.pooledAllocate sc reqCapacity sizeIdx
    some ⟨arena, region.elim [] Region.grants ++ s.owned⟩
  | .freeChunk region buffer =>
    if region ∈ s.owned then do
      let arena ← s.arena.freeChunk sc region buffer
      some ⟨arena, s.owned.erase region⟩
    else none

/-- The arena under these calls, which begins without a chunk. -/
def machine (k : PoolConfig) : Machine State Call :=
  .ofNext (· = ⟨.empty, []⟩) (next k.sizeClass)

/-- The lists are doubly linked and hold chunks of the arena. Every chunk is on one of
them, its `m_parent`, and its free bytes are within the thresholds of that list. -/
structure ListsHold (k : PoolConfig) (a : PoolArena) : Prop where
  holds : ∀ l, a.links.Holds (a.head l) (a.chunksOf l)
  live : ∀ l, ∀ id ∈ a.chunksOf l, ∃ c, a.store.chunks id = some c
  placed : ∀ id c, a.store.chunks id = some c → ∃ l, c.parent = some l ∧
    (∀ l', id ∈ a.chunksOf l' ↔ l' = l) ∧ l.freeMinThreshold k.sizeClass < c.freeBytes ∧
    c.freeBytes ≤ l.freeMaxThreshold k.sizeClass

/-- The release of a region fails in no assertion of the lists, and destroys a chunk only
that is free as a whole and on no list. -/
def Releases (k : PoolConfig) (a : PoolArena) (g : Grant) (buffer : Addr) : Prop :=
  ∃ c l kept a', a.store.chunks g.chunk = some c ∧ c.parent = some l ∧
    a.listFree k.sizeClass l g buffer = some (kept, a') ∧
    (kept = false → (∃ c', a'.store.chunks g.chunk = some c' ∧ c'.freeBytes = k.chunkSize) ∧
      ∀ l', g.chunk ∉ a'.chunksOf l')

/-- The chunks agree with the regions handed out and are placed. -/
structure Inv (k : PoolConfig) (s : State) : Prop where
  owns : Owns k s.arena s.owned
  placed : Placed k s.arena

variable {k : PoolConfig} {s t : State} {call : Call}

theorem inv_empty (k : PoolConfig) : Inv k ⟨.empty, []⟩ where
  owns := ⟨fun _ _ => none, storeInv_empty k _⟩
  placed := by
    refine ⟨⟨fun _ => [], ⟨fun _ => Links.holds_nil _, nofun⟩, fun {id l} => ?_⟩, nofun⟩
    refine iff_of_false nofun ?_
    rintro ⟨_, _, ⟨⟩, _⟩

/-- Every call keeps the chunks placed. -/
theorem Inv.next (h : Inv k s) (hstep : next k.sizeClass s call = some t) : Inv k t := by
  cases call with
  | allocateNormal reqCapacity sizeIdx threadCache =>
    obtain ⟨⟨r, a⟩, halloc, hstep⟩ := Option.bind_eq_some_iff.mp hstep
    cases hstep
    obtain ⟨g, howns, hr⟩ := h.owns.allocateNormal halloc
    refine ⟨?_, h.placed.allocateNormal h.owns halloc⟩
    rw [hr]
    exact howns
  | pooledAllocate reqCapacity sizeIdx =>
    obtain ⟨⟨r, a⟩, halloc, hstep⟩ := Option.bind_eq_some_iff.mp hstep
    cases hstep
    refine ⟨?_, h.placed.pooledAllocate halloc⟩
    rcases h.owns.pooledAllocate halloc with ⟨rfl, rfl⟩ | ⟨g, r', rfl, howns, hr⟩
    · exact h.owns
    · rw [hr]
      exact howns
  | freeChunk g buffer =>
    rw [ChunkLists.next] at hstep
    split_ifs at hstep with hg
    obtain ⟨a, hfree, hstep⟩ := Option.bind_eq_some_iff.mp hstep
    cases hstep
    exact ⟨h.owns.freeChunk hg hfree, h.placed.freeChunk h.owns hg hfree⟩

/-- Chunks that are placed are on the lists as they should be. -/
theorem Inv.listsHold (h : Inv k s) : ListsHold k s.arena := by
  obtain ⟨⟨lists, hlinked⟩, hwithin⟩ := h.placed
  have hchunks := hlinked.chunksOf_eq h.owns
  constructor
  · intro l
    rw [hchunks]
    exact hlinked.holds.holds l
  · intro l id hid
    rw [hchunks] at hid
    obtain ⟨_, c, hc, _⟩ := hlinked.mem_iff.mp hid
    exact ⟨c, hc⟩
  · intro id c hc
    obtain ⟨l, hl, hadmits⟩ := hwithin id c hc nofun
    refine ⟨l, hl, fun l' => ?_, hadmits⟩
    rw [hchunks, hlinked.mem_iff]
    constructor
    · rintro ⟨_, c', hc', hl'⟩
      rw [hc] at hc'
      cases hc'
      rw [hl] at hl'
      exact (Option.some.inj hl').symm
    · rintro rfl
      exact ⟨nofun, c, hc, hl⟩

/-- Every region that was handed out can be released. -/
theorem Inv.releases (h : Inv k s) {g : Grant} (hg : g ∈ s.owned) (buffer : Addr) :
    Releases k s.arena g buffer := by
  obtain ⟨c, l, kept, a', hid, hl, hlist, howns, hcases⟩ := h.placed.listFree h.owns hg buffer
  refine ⟨c, l, kept, a', hid, hl, hlist, ?_⟩
  rintro rfl
  obtain ⟨⟨lists, hlinked⟩, _, hwhole⟩ := hcases
  refine ⟨hwhole, fun l' hmem => ?_⟩
  rw [hlinked.chunksOf_eq howns] at hmem
  exact (hlinked.mem_iff.mp hmem).1 rfl

/-- The chunks are placed after every sequence of calls. -/
theorem inv_of_reachable (hs : (machine k).Reachable s) : Inv k s := by
  refine hs.invariant ?_ fun s call t h hstep => h.next hstep
  rintro _ rfl
  exact inv_empty k

/-- After every sequence of calls, every chunk is on the list that its free bytes call
for, and every region that is handed out can be released. -/
theorem listsHold_of_reachable (hs : (machine k).Reachable s) :
    ListsHold k s.arena ∧ ∀ g ∈ s.owned, ∀ buffer, Releases k s.arena g buffer := by
  have hinv := inv_of_reachable hs
  exact ⟨hinv.listsHold, fun g hg buffer => hinv.releases hg buffer⟩

/-- A chunk with one region, and another one that loses the second of its two. -/
def fewCalls : List Call :=
  [.allocateNormal 12582912 73 true, .allocateNormal 8388608 71 true,
    .allocateNormal 8388608 71 true,
    .freeChunk ⟨1, 576478353079402496, 8388608⟩ (.pooled 1, 8388608)]

/-- The state after these calls. -/
def afterFewCalls : State :=
  (fewCalls.foldlM (next PoolConfig.default.sizeClass) ⟨.empty, []⟩).getD ⟨.empty, []⟩

theorem afterFewCalls_eq :
    fewCalls.foldlM (next PoolConfig.default.sizeClass) ⟨.empty, []⟩ = some afterFewCalls := by
  have hsome : (fewCalls.foldlM (next PoolConfig.default.sizeClass) ⟨.empty, []⟩).isSome = true := by
    decide +kernel
  rw [afterFewCalls, Option.getD_of_ne_none (Option.isSome_iff_ne_none.mp hsome)]

theorem listsHold_of_reachable_fewCalls :
    afterFewCalls.arena.chunksOf .q50 = [1, 0] ∧ ListsHold .default afterFewCalls.arena ∧
      ∀ g ∈ afterFewCalls.owned, ∀ buffer, Releases .default afterFewCalls.arena g buffer := by
  have hchunks : afterFewCalls.arena.chunksOf .q50 = [1, 0] := by decide +kernel
  exact ⟨hchunks, listsHold_of_reachable (.of_foldlM (.of_init rfl) afterFewCalls_eq)⟩

end ChunkLists

end DuoDuo.Buffer
