import DuoDuo.Buffer.ArenaOwnership
import DuoDuo.Buffer.RunAllocator

/-!
# Chunks answer every request

A request for a size class fails in no assertion of a chunk: the chunk hands out a region
of the class, or it has no run that is long enough. A chunk that is free as a whole has
one.
-/

namespace DuoDuo.Buffer

open Library PoolChunk PoolSubpage

/-- There is a run size for every class that is served by subpages. -/
def PoolConfig.Carvable (k : PoolConfig) : Prop :=
  ∀ i < k.sizeClass.nSubpages, (calculateRunSize k.sizeClass i).isSome = true

/-- The page and chunk sizes of the allocator have run sizes. -/
theorem PoolConfig.carvable_default : PoolConfig.default.Carvable := by
  unfold Carvable
  decide +kernel

variable {k : PoolConfig} {id sizeIdx : ℕ} {c : PoolChunk} {bs : ℕ → Option ℕ}

/-- A run is split when it has the pages that are needed. -/
theorem splitLargeRun_total {sc : SizeClass} {handle needPages : ℕ} (hpos : 0 < needPages)
    (hle : needPages ≤ calculateRunPages handle) :
    ∃ handle' c', c.splitLargeRun sc handle needPages = some (handle', c') := by
  rw [splitLargeRun, if_pos ⟨hpos, hle⟩]
  dsimp only
  split_ifs
  · exact ⟨_, _, rfl⟩
  · exact ⟨_, _, rfl⟩

/-- The queue that `runBestFit` finds begins with a run that is available and long
enough. -/
theorem ChunkInv.bestFit (hc : ChunkInv k id c bs) {pages i : ℕ} (hpos : 0 < pages)
    (hle : pages ≤ k.chunkPages)
    (h : c.runBestFit k.sizeClass (k.sizeClass.page2pageIdx pages) = some i) :
    ∃ run, BestFitQueue.top (c.runsAvail i) = some run ∧ isUsed run = false ∧
      pages ≤ calculateRunPages run := by
  rcases runBestFit_cases h with ⟨hwhole, rfl⟩ | ⟨hidx, run, htop⟩
  · obtain ⟨run, _, hpages, hqueue⟩ := hc.whole (by rw [hwhole, k.chunkSize_sizeClass])
    have htop : BestFitQueue.top (c.runsAvail (k.sizeClass.nPSizes - 1)) = some run := by
      rw [hqueue, if_pos rfl]
      rfl
    obtain ⟨o, hav, _⟩ := hc.runs.filed.top_eq htop
    exact ⟨run, htop, (unused_eq_some.mp hav).2, hpages ▸ hle⟩
  · obtain ⟨o, hav, hi⟩ := hc.runs.filed.top_eq htop
    obtain ⟨hb, hfree⟩ := unused_eq_some.mp hav
    have hbound := hc.runs.tiling.bounded hb
    refine ⟨run, htop, hfree, k.pages_le_of_page2pageIdx_le hpos hle (hc.runs.tiling.pos hb)
      (by omega) (hi ▸ hidx)⟩

/-- `allocateRun` finds a run, or there is none that is long enough. -/
theorem ChunkInv.allocateRun_total (hc : ChunkInv k id c bs) {runSize : ℕ}
    (hpos : 0 < runSize >>> k.pageShifts) (hle : runSize >>> k.pageShifts ≤ k.chunkPages) :
    ∃ r c', c.allocateRun k.sizeClass runSize = some (r, c') ∧
      (c.freeBytes = k.chunkSize → r.isSome = true) := by
  unfold PoolChunk.allocateRun
  dsimp only
  rw [k.pageShifts_sizeClass]
  cases hfit : c.runBestFit k.sizeClass (k.sizeClass.page2pageIdx (runSize >>> k.pageShifts)) with
  | none =>
    refine ⟨none, c, rfl, fun hwhole => ?_⟩
    rw [runBestFit, if_pos (by rw [hwhole, k.chunkSize_sizeClass])] at hfit
    cases hfit
  | some i =>
    obtain ⟨run, htop, hfree, hlong⟩ := hc.bestFit hpos hle hfit
    obtain ⟨handle, c', hsplit⟩ := @splitLargeRun_total (removeAvailRunFrom { c with
      runsAvail := Function.update c.runsAvail i (BestFitQueue.pop (c.runsAvail i)) } i run)
      k.sizeClass run _ hpos hlong
    refine ⟨some handle,
      { c' with freeBytes := c'.freeBytes - PoolChunk.runSize k.pageShifts handle }, ?_,
      fun _ => rfl⟩
    dsimp only
    rw [htop, Option.bind_eq_bind, Option.bind_some, hfree, if_neg Bool.false_ne_true, hsplit]
    rfl

/-- A run for a subpage is no larger than a chunk. -/
theorem le_of_calculateRunSize {runSize : ℕ}
    (h : calculateRunSize k.sizeClass sizeIdx = some runSize) : runSize ≤ k.chunkSize := by
  unfold calculateRunSize at h
  dsimp only at h
  split_ifs at h with hguard
  cases h
  exact hguard.2.1

/-- A run for a subpage has a page at least, and fits into a chunk. -/
theorem pages_of_calculateRunSize {runSize : ℕ}
    (h : calculateRunSize k.sizeClass sizeIdx = some runSize) (hi : sizeIdx < k.numSizes) :
    0 < runSize >>> k.pageShifts ∧ runSize >>> k.pageShifts ≤ k.chunkPages := by
  obtain ⟨hdvd, helem⟩ := calculateRunSize_spec h
  have hpos := ladder_pos sizeIdx
  rw [k.sizeIdx2size_eq hi] at helem
  have hle := le_of_calculateRunSize h
  rw [Nat.shiftRight_eq_div_pow]
  rw [k.chunkSize_eq] at hle
  exact ⟨Nat.div_pos (Nat.le_of_dvd (by omega) hdvd) (Nat.two_pow_pos _),
    Nat.div_le_of_le_mul (by rw [mul_comm]; exact hle)⟩

/-- A class that is not served by subpages has whole pages, and fits into a chunk. -/
theorem pages_of_normal (hi : sizeIdx < k.numSizes) (hnormal : k.sizeClass.nSubpages ≤ sizeIdx) :
    0 < k.sizeClass.sizeIdx2size sizeIdx >>> k.pageShifts ∧
      k.sizeClass.sizeIdx2size sizeIdx >>> k.pageShifts ≤ k.chunkPages ∧
      k.pageSize ∣ k.sizeClass.sizeIdx2size sizeIdx := by
  have hp := k.minPageSize
  rw [k.nSubpages_sizeClass] at hnormal
  have hdvd : k.pageSize ∣ k.sizeClass.sizeIdx2size sizeIdx := by
    obtain ⟨g, m, hm, rfl⟩ := exists_group (show 4 ≤ sizeIdx by omega)
    have hscale : k.pageSize = 16 * 2 ^ (k.pageShifts - 4) := by
      rw [PoolConfig.pageSize, show (16 : ℕ) = 2 ^ 4 by rfl, ← pow_add]
      congr 1
      omega
    rw [k.sizeIdx2size_eq hi, hscale, ladder_group g m hm]
    refine Nat.mul_dvd_mul_left 16 ?_
    rcases Nat.lt_or_ge g (k.pageShifts - 4) with hlt | hge
    · -- The first class that is not small is the last of its group.
      obtain ⟨rfl, hg⟩ : m = 3 ∧ g + 1 = k.pageShifts - 4 := by omega
      rw [← hg, pow_succ]
      exact Nat.mul_dvd_mul_left _ (by decide)
    · exact Dvd.dvd.mul_right (Nat.pow_dvd_pow 2 hge) _
  have hle : k.sizeClass.sizeIdx2size sizeIdx ≤ k.chunkSize := by
    rw [k.sizeIdx2size_eq hi, ← k.last_size]
    exact Nat.mul_le_mul_left 16 (ladder_strictMono.monotone (by omega))
  have hpos : 0 < k.sizeClass.sizeIdx2size sizeIdx := by
    rw [k.sizeIdx2size_eq hi]
    exact Nat.mul_pos (by decide) (ladder_pos sizeIdx)
  rw [k.chunkSize_eq] at hle
  rw [Nat.shiftRight_eq_div_pow]
  exact ⟨Nat.div_pos (Nat.le_of_dvd hpos hdvd) (Nat.two_pow_pos _),
    Nat.div_le_of_le_mul (by rw [mul_comm]; exact hle), hdvd⟩

/-- The handle of an element in use is that of a subpage. -/
theorem SubpageAt.isSubpage_toHandle {o i : ℕ} {sp : PoolSubpage} (hat : SubpageAt k id bs o sp)
    (hruns : Runs k c bs) (hset : sp.isSet i = true) : isSubpage (sp.toHandle i) = true := by
  obtain ⟨_, _, _, hpages, hlt, hidx⟩ := hat.bounds hruns
  exact PoolSubpage.isSubpage_toHandle hpages hlt (hidx i hset)

/-- `allocateSubpage` finds a run for a new subpage, or there is none that is long
enough. -/
theorem ChunkInv.allocateSubpage_total (hc : ChunkInv k id c bs) (hcarve : k.Carvable)
    {pools : Pools} {link : SubpageRef → Option ℕ} (hp : PoolsMatch link pools)
    (hlink : ∀ o, c.subpages o = none → link (id, o) = none)
    (hsmall : sizeIdx < k.sizeClass.nSubpages) :
    ∃ r c' pools', c.allocateSubpage k.sizeClass id pools sizeIdx = some (r, c', pools') ∧
      (c.freeBytes = k.chunkSize → r.isSome = true) ∧
      ∀ handle, r = some handle → isSubpage handle = true := by
  obtain ⟨runSize, hsize⟩ := Option.isSome_iff_exists.mp (hcarve sizeIdx hsmall)
  have hi : sizeIdx < k.numSizes := by
    rw [k.nSubpages_sizeClass] at hsmall
    omega
  obtain ⟨hpos, hle⟩ := pages_of_calculateRunSize hsize hi
  obtain ⟨run, c₁, hrun, hwhole⟩ := hc.allocateRun_total hpos hle
  cases run with
  | none =>
    refine ⟨none, c₁, pools, ?_, hwhole, nofun⟩
    rw [PoolChunk.allocateSubpage, findSubpagePoolHead, if_pos hsmall, Option.bind_eq_bind,
      Option.bind_some, hsize, Option.bind_eq_bind, Option.bind_some, hrun]
    rfl
  | some run =>
    obtain ⟨o, sp₁, pools₁, sp, i, pools', blocks', rfl, hnone, hnew, halloc, hset, _, hc', _⟩ :=
      hc.newSubpage hp hlink hsmall hsize hrun
    refine ⟨some (sp.toHandle i), c₁.setSubpage (calculateRunOffset run) (some sp), pools', ?_,
      fun _ => rfl, ?_⟩
    · rw [PoolChunk.allocateSubpage, findSubpagePoolHead, if_pos hsmall, Option.bind_eq_bind,
        Option.bind_some, hsize, Option.bind_eq_bind, Option.bind_some, hrun, Option.bind_eq_bind,
        Option.bind_some]
      dsimp only
      rw [hnone, if_neg (by simp), hnew, Option.bind_eq_bind, Option.bind_some, halloc]
      rfl
    · rintro _ ⟨⟩
      exact (hc'.subpage _ sp (subpages_setSubpage_self _ _ _)).isSubpage_toHandle hc'.runs hset

/-- A region of a class: its size is that of the class, and it is an element of a subpage
when the class is served by subpages. -/
structure Grant.OfClass (k : PoolConfig) (sizeIdx : ℕ) (g : Grant) : Prop where
  normCapacity : g.normCapacity = k.sizeClass.sizeIdx2size sizeIdx
  isSubpage_iff : isSubpage g.handle = true ↔ sizeIdx < k.sizeClass.nSubpages

/-- A region that serves a request: its length is that of the request, and the region of
the chunk is of the class. -/
structure Region.Fits (k : PoolConfig) (sizeIdx reqCapacity : ℕ) (r : Region) : Prop where
  length : r.length = reqCapacity
  grant : ∃ g : Grant, r.chunk = .pooled g.chunk ∧ r.handle = g.handle ∧
    r.maxLength = g.normCapacity ∧ g.OfClass k sizeIdx

theorem Grant.OfClass.fits {g : Grant} (h : g.OfClass k sizeIdx) (buffer : Option Addr)
    (reqCapacity : ℕ) (cache : Bool) :
    (g.region k buffer reqCapacity cache).Fits k sizeIdx reqCapacity :=
  ⟨rfl, g, rfl, rfl, rfl, h⟩

/-- The small classes are those that are served by subpages. -/
theorem le_smallMaxSizeIdx_iff :
    sizeIdx ≤ k.sizeClass.smallMaxSizeIdx ↔ sizeIdx < k.sizeClass.nSubpages := by
  have hp := k.minPageSize
  have hnum := k.numSizes_ge
  rw [k.smallMaxSizeIdx_sizeClass, k.nSubpages_sizeClass]
  omega

section Store

variable {s : ChunkStore} {blocks : ℕ → ℕ → Option ℕ} {owned : List Grant} {g : Grant}
  {buffer : Option Addr} {reqCapacity : ℕ} {cache : Bool}

/-- A buffer is initialised with any element in use that is large enough. -/
theorem StoreInv.initBufWithSubpage_total (h : StoreInv k s blocks owned) (hg : g ∈ owned)
    (hsub : isSubpage g.handle = true) (hreq : reqCapacity ≤ g.normCapacity) :
    ∃ r, s.initBufWithSubpage k.sizeClass g.chunk buffer g.handle reqCapacity cache = some r := by
  obtain ⟨c, hid, hholds⟩ := (h.owned_iff g).mp hg
  have hc := h.chunk hid
  obtain ⟨_, _, _, _, ⟨hrun, _⟩ | ⟨sp, _, hsp, _, _, hcap⟩⟩ := hholds.block hc
  · rw [hsub] at hrun
    cases hrun
  · rw [ChunkStore.initBufWithSubpage, hid, Option.bind_eq_bind, Option.bind_some]
    dsimp only
    rw [hsp, Option.bind_eq_bind, Option.bind_some,
      if_pos ⟨(hc.subpage _ sp hsp).inv.kept, hcap ▸ hreq⟩]
    exact ⟨_, rfl⟩

/-- A buffer is initialised with any region in use that is large enough. -/
theorem StoreInv.initBuf_total (h : StoreInv k s blocks owned) (hg : g ∈ owned)
    (hreq : reqCapacity ≤ g.normCapacity) :
    ∃ r, s.initBuf k.sizeClass g.chunk buffer g.handle reqCapacity cache = some r := by
  rw [ChunkStore.initBuf]
  split_ifs with hsub
  · exact h.initBufWithSubpage_total hg hsub hreq
  · exact ⟨_, rfl⟩

/-- A request to a chunk is answered, with a region of the class or with none. -/
theorem StoreInv.allocateHandle_total (h : StoreInv k s blocks owned) (hcarve : k.Carvable)
    (hid : s.chunks id = some c) (hi : sizeIdx < k.numSizes) :
    ∃ res s', s.allocateHandle k.sizeClass id sizeIdx = some (res, s') ∧
      (c.freeBytes = k.chunkSize → res.isSome = true) ∧
      ∀ handle, res = some handle → ∃ g blocks', g.chunk = id ∧ g.handle = handle ∧
        g.OfClass k sizeIdx ∧ StoreInv k s' blocks' (g :: owned) := by
  have hc := h.chunk hid
  rw [ChunkStore.allocateHandle]
  split_ifs with hsmall
  · have hlt := le_smallMaxSizeIdx_iff.mp hsmall
    have hlink : ∀ o, c.subpages o = none → s.link (id, o) = none := by
      intro o hnone
      rw [ChunkStore.link, hid, Option.bind_some, hnone]
      rfl
    obtain ⟨res, c', pools', hstep, hwhole, hsub⟩ :=
      hc.allocateSubpage_total hcarve h.pools hlink hlt
    have hstart : s.allocateSubpage k.sizeClass id sizeIdx =
        some (res, s.setChunk id c' pools') := by
      rw [ChunkStore.allocateSubpage, hid, Option.bind_eq_bind, Option.bind_some, hstep]
      rfl
    refine ⟨res, _, hstart, hwhole, ?_⟩
    rintro handle rfl
    obtain ⟨blocks', h'⟩ := h.allocateSubpage hstart
    exact ⟨⟨id, handle, k.sizeClass.sizeIdx2size sizeIdx⟩, blocks', rfl, rfl,
      ⟨rfl, iff_of_true (hsub handle rfl) hlt⟩, h'⟩
  · have hnormal := not_lt.mp (mt le_smallMaxSizeIdx_iff.mpr hsmall)
    obtain ⟨hpos, hle, hdvd⟩ := pages_of_normal hi hnormal
    obtain ⟨res, c', hrun, hwhole⟩ := hc.allocateRun_total hpos hle
    have hstart : s.allocateRun k.sizeClass id (k.sizeClass.sizeIdx2size sizeIdx) =
        some (res, s.setChunk id c' s.pools) := by
      rw [ChunkStore.allocateRun, hid, Option.bind_eq_bind, Option.bind_some, hrun]
      rfl
    refine ⟨res, _, hstart, hwhole, ?_⟩
    rintro handle rfl
    obtain ⟨blocks', h'⟩ := h.allocateRun hstart
    obtain ⟨_, hc', _, _, _, _, hb, _, hpages, _⟩ := hc.allocateRun hrun
    refine ⟨⟨id, handle, PoolChunk.runSize k.pageShifts handle⟩, blocks', rfl, rfl, ⟨?_, ?_⟩, h'⟩
    · rw [PoolChunk.runSize, hpages, Nat.shiftLeft_eq, Nat.shiftRight_eq_div_pow]
      exact Nat.div_mul_cancel hdvd
    · rw [hc'.runs.isRun hb]
      exact iff_of_false Bool.false_ne_true (not_lt.mpr hnormal)

/-- `allocate` of a chunk answers every request that the class can serve. -/
theorem StoreInv.allocate_total (h : StoreInv k s blocks owned) (hcarve : k.Carvable)
    (hid : s.chunks id = some c) (hi : sizeIdx < k.numSizes)
    (hreq : reqCapacity ≤ k.sizeClass.sizeIdx2size sizeIdx) :
    ∃ res s', s.allocate k.sizeClass id reqCapacity sizeIdx cache = some (res, s') ∧
      (c.freeBytes = k.chunkSize → res.isSome = true) ∧
      ∀ r, res = some r → r.Fits k sizeIdx reqCapacity := by
  obtain ⟨res, s₁, hhandle, hwhole, hclass⟩ := h.allocateHandle_total hcarve hid hi
  cases res with
  | none =>
    refine ⟨none, s₁, ?_, hwhole, nofun⟩
    rw [ChunkStore.allocate, hhandle]
    rfl
  | some handle =>
    obtain ⟨g, blocks', rfl, rfl, hof, h₁⟩ := hclass handle rfl
    obtain ⟨c₁, hid₁, _⟩ := (h₁.owned_iff g).mp List.mem_cons_self
    have h' : StoreInv k (s₁.popCachedBuffer g.chunk c₁) blocks' (g :: owned) :=
      h₁.retouch hid₁ rfl rfl rfl rfl rfl
    obtain ⟨r, hinit⟩ : ∃ r, (s₁.popCachedBuffer g.chunk c₁).initBuf k.sizeClass g.chunk
        c₁.cachedBuffers.head? g.handle reqCapacity cache = some r :=
      h'.initBuf_total List.mem_cons_self (hof.normCapacity ▸ hreq)
    have hguard : ¬(sizeIdx ≤ k.sizeClass.smallMaxSizeIdx ∧ isSubpage g.handle = false) := by
      rintro ⟨hsmall, hrun⟩
      rw [hof.isSubpage_iff.mpr (le_smallMaxSizeIdx_iff.mp hsmall)] at hrun
      cases hrun
    refine ⟨some r, s₁.popCachedBuffer g.chunk c₁, ?_, fun _ => rfl, ?_⟩
    · rw [ChunkStore.allocate, hhandle, Option.bind_eq_bind, Option.bind_some]
      dsimp only
      rw [if_neg hguard, hid₁, Option.bind_eq_bind, Option.bind_some, hinit]
      rfl
    · rintro _ ⟨⟩
      rw [h'.initBuf_eq List.mem_cons_self hinit]
      exact hof.fits _ _ _

/-- A pool hands out an element of its first subpage, unless it is empty. -/
theorem StoreInv.allocatePooled_total (h : StoreInv k s blocks owned) :
    ∃ res s', s.allocatePooled k.sizeClass sizeIdx = some (res, s') ∧
      ∀ id handle, res = some (id, handle) → isSubpage handle = true := by
  cases hpool : s.pools sizeIdx with
  | nil =>
    refine ⟨none, s, ?_, nofun⟩
    rw [ChunkStore.allocatePooled, hpool]
  | cons ref rest =>
    obtain ⟨id, o⟩ := ref
    have hlink : s.link (id, o) = some sizeIdx :=
      (h.pools.1 sizeIdx (id, o)).mp (by rw [hpool]; exact List.mem_cons_self)
    obtain ⟨c, hid, hrest⟩ := Option.bind_eq_some_iff.mp hlink
    obtain ⟨sp, hsp, hlinked⟩ := Option.bind_eq_some_iff.mp hrest
    have hc := h.chunk hid
    have hat := hc.subpage o sp hsp
    obtain ⟨i, _, _, helem, hclass⟩ := hat.sizeIdx
    rw [← hclass sizeIdx hlinked] at helem
    have havail : 0 < sp.numAvail := by
      rw [← hat.inv.linked, hlinked]
      rfl
    obtain ⟨i, sp', pools', halloc, hat', hsame, hset, _⟩ := hc.allocateElement hsp havail s.pools
    refine ⟨some (id, sp.toHandle i), s.setChunk id (c.setSubpage o (some sp')) pools', ?_, ?_⟩
    · rw [ChunkStore.allocatePooled, hpool]
      dsimp only
      rw [hid, Option.bind_eq_bind, Option.bind_some, hsp, Option.bind_eq_bind, Option.bind_some,
        if_pos ⟨hat.inv.kept, helem⟩, halloc]
      rfl
    · rintro _ _ ⟨⟩
      rw [← hsame.toHandle]
      exact hat'.isSubpage_toHandle hc.runs hset

end Store

end DuoDuo.Buffer
