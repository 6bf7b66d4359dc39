import DuoDuo.Buffer.ChunkProgress

/-!
# Which run a request is served from

Requests are rounded up to a page class, while available runs are filed under a class
that is rounded down. Where the pages that are requested are a class themselves, the two
roundings meet: the queues from that class on hold exactly the runs that are long enough.
-/

namespace DuoDuo.Buffer

open Library PoolChunk

namespace PoolChunk

variable {sc : SizeClass} {c c' : PoolChunk}

/-- What is split off a run begins where the run begins, and has the pages needed. -/
theorem splitLargeRun_spec {run needPages handle : ℕ} (hsub : isSubpage run = false)
    (h : c.splitLargeRun sc run needPages = some (handle, c')) :
    calculateRunOffset handle = calculateRunOffset run ∧ calculateRunPages handle = needPages ∧
      isUsed handle = true ∧ isSubpage handle = false := by
  have hpages := calculateRunPages_lt run
  unfold splitLargeRun at h
  dsimp only at h
  split_ifs at h with hguard hremain
  · cases h
    refine ⟨calculateRunOffset_toRunHandle (by omega) (by omega),
      calculateRunPages_toRunHandle (by omega) (by omega), ?_,
      isSubpage_toRunHandle (by omega) (by omega)⟩
    rw [isUsed_toRunHandle (by omega) (by omega)]
    rfl
  · cases h
    refine ⟨calculateRunOffset_setUsed run, ?_, isUsed_setUsed run, ?_⟩
    · rw [calculateRunPages_setUsed]
      omega
    · rw [isSubpage_setUsed, hsub]

/-- The top of a queue begins before all its other runs. -/
theorem calculateRunOffset_top_le {q : List ℕ} {run run' : ℕ}
    (htop : BestFitQueue.top q = some run) (hmem : run' ∈ q) :
    calculateRunOffset run ≤ calculateRunOffset run' := by
  have hle : run ≤ run' := (List.min?_eq_some_iff.mp htop).2 run' hmem
  rw [calculateRunOffset, calculateRunOffset, Nat.shiftRight_eq_div_pow, Nat.shiftRight_eq_div_pow]
  exact Nat.div_le_div_right hle

end PoolChunk

variable {k : PoolConfig} {id : ℕ} {c : PoolChunk} {bs : ℕ → Option ℕ} {pages : ℕ}

/-- The number of pages is that of a page class. -/
def PoolConfig.IsPageClass (k : PoolConfig) (pages : ℕ) : Prop :=
  ∃ i < k.sizeClass.nPSizes, k.sizeClass.pageIdx2size i = pages * k.pageSize

/-- A page class is a rung of the ladder, and no longer than a chunk. -/
theorem PoolConfig.IsPageClass.spec (h : k.IsPageClass pages) :
    ladder (ladderIdx pages) = pages ∧ 0 < pages ∧ pages ≤ k.chunkPages := by
  obtain ⟨i, hi, hsize⟩ := h
  rw [k.pageIdx2size_eq hi, mul_comm] at hsize
  obtain rfl := Nat.eq_of_mul_eq_mul_right (Nat.two_pow_pos k.pageShifts) hsize
  refine ⟨by rw [ladderIdx_ladder], ladder_pos i, ?_⟩
  rw [PoolConfig.nPSizes_sizeClass] at hi
  have hchunk : ladder (ladderIdx k.chunkPages) = k.chunkPages := ladder_two_pow k.maxOrder
  rw [← hchunk]
  exact ladder_strictMono.monotone (by omega)

/-- A page class holds runs for a request exactly when it is not below the class of the
request. -/
theorem PoolConfig.able_iff (hpages : k.IsPageClass pages) {i : ℕ} (hi : i < k.sizeClass.nPSizes) :
    pages * k.pageSize ≤ k.sizeClass.pageIdx2size i ↔ k.sizeClass.page2pageIdx pages ≤ i := by
  obtain ⟨hrung, hpos, hle⟩ := hpages.spec
  have hpage : 0 < k.pageSize := Nat.two_pow_pos _
  rw [k.pageIdx2size_eq hi, k.page2pageIdx_eq hpos hle, mul_comm, Nat.mul_le_mul_left_iff hpage,
    ladderIdx_le_iff hpos]

/-- A run is long enough for a request exactly when its queue is not below the class of the
request: this is where the two roundings meet. -/
theorem PoolConfig.le_pages_iff (hpages : k.IsPageClass pages) {runPages : ℕ}
    (hpos : 0 < runPages) (hle : runPages ≤ k.chunkPages) :
    pages ≤ runPages ↔ k.sizeClass.page2pageIdx pages ≤ k.sizeClass.page2pageIdxFloor runPages := by
  obtain ⟨hrung, hpages, hmax⟩ := hpages.spec
  rw [k.page2pageIdx_eq hpages hmax, k.page2pageIdxFloor_eq hpos hle, le_ladderFloor_iff hpos,
    hrung]

/-- The queue `i` is the lowest of those that hold a run and are of a class able to serve a
request for so many pages. -/
structure LowestAble (k : PoolConfig) (c : PoolChunk) (pages i : ℕ) : Prop where
  holds : c.runsAvail i ≠ []
  able : pages * k.pageSize ≤ k.sizeClass.pageIdx2size i
  lowest : ∀ j, c.runsAvail j ≠ [] → pages * k.pageSize ≤ k.sizeClass.pageIdx2size j → i ≤ j

/-- What a request for a run is answered with. -/
structure RunAnswer (k : PoolConfig) (c : PoolChunk) (pages : ℕ) (r : Option ℕ) : Prop where
  /-- No run is given exactly when no available run has as many pages. -/
  refused : r = none ↔ ∀ i, ∀ run ∈ c.runsAvail i, calculateRunPages run < pages
  used : ∀ handle, r = some handle → isUsed handle = true ∧ isSubpage handle = false ∧
    calculateRunPages handle = pages
  /-- The handle begins an available run that is long enough, the first one of the lowest
  queue that is able to serve the request. -/
  taken : ∀ handle, r = some handle → ∃ i, LowestAble k c pages i ∧ ∃ run ∈ c.runsAvail i,
    isUsed run = false ∧ pages ≤ calculateRunPages run ∧
    calculateRunOffset handle = calculateRunOffset run ∧
    ∀ run' ∈ c.runsAvail i, calculateRunOffset run ≤ calculateRunOffset run'
  /-- A chunk that is free as a whole has one run, and serves the request from it. -/
  whole : c.freeBytes = k.chunkSize → ∃ run handle, r = some handle ∧
    (∀ i, c.runsAvail i = if i = k.sizeClass.nPSizes - 1 then [run] else []) ∧
    calculateRunPages run = k.chunkPages ∧ calculateRunOffset handle = calculateRunOffset run

/-- A run that is available is in the queue of its class, and that is one of the queues. -/
theorem ChunkInv.queue_of_mem (hc : ChunkInv k id c bs) {i run : ℕ} (hrun : run ∈ c.runsAvail i) :
    i = k.sizeClass.page2pageIdxFloor (calculateRunPages run) ∧ i < k.sizeClass.nPSizes ∧
      0 < calculateRunPages run ∧ calculateRunPages run ≤ k.chunkPages ∧
      isUsed run = false ∧ isSubpage run = false := by
  obtain ⟨o, hav, hi⟩ := hc.runs.filed.queue.mp hrun
  obtain ⟨hb, hfree⟩ := unused_eq_some.mp hav
  have hpos := hc.runs.tiling.pos hb
  have hbound := hc.runs.tiling.bounded hb
  have hle : calculateRunPages run ≤ k.chunkPages := by omega
  exact ⟨hi, hi ▸ k.page2pageIdxFloor_lt hpos hle, hpos, hle, hfree, hc.runs.isRun hb⟩

/-- The queue that `runBestFit` finds is the lowest that is able to serve the request. -/
theorem ChunkInv.lowestAble (hc : ChunkInv k id c bs) (hpages : k.IsPageClass pages) {i : ℕ}
    (h : c.runBestFit k.sizeClass (k.sizeClass.page2pageIdx pages) = some i) :
    LowestAble k c pages i := by
  obtain ⟨-, hpos, hle⟩ := hpages.spec
  obtain ⟨run, htop, -, hlong⟩ := hc.bestFit hpos hle h
  have hmem : run ∈ c.runsAvail i := List.min?_mem htop
  obtain ⟨hi, hlt, hrunpos, hrunle, -, -⟩ := hc.queue_of_mem hmem
  have hidx := (k.le_pages_iff hpages hrunpos hrunle).mp hlong
  rw [← hi] at hidx
  refine ⟨List.ne_nil_of_mem hmem, (k.able_iff hpages hlt).mpr hidx, fun j hj hable => ?_⟩
  obtain ⟨run', hmem'⟩ := List.exists_mem_of_ne_nil _ hj
  obtain ⟨-, hlt', -⟩ := hc.queue_of_mem hmem'
  rw [k.able_iff hpages hlt'] at hable
  by_contra hbelow
  by_cases hwhole : c.freeBytes = k.chunkSize
  · -- The only queue of such a chunk that is not empty is the last one.
    obtain ⟨single, -, -, hqueue⟩ := hc.whole hwhole
    have hlast : ∀ {l run}, run ∈ c.runsAvail l → l = k.sizeClass.nPSizes - 1 := by
      intro l run hl
      rw [hqueue] at hl
      split at hl
      · assumption
      · simp at hl
    rw [hlast hmem, hlast hmem'] at hbelow
    exact hbelow le_rfl
  · rw [runBestFit, if_neg (by rwa [k.chunkSize_sizeClass]), List.find?_range'_eq_some] at h
    have hempty := h.2.2 j hable (by omega)
    rw [Bool.not_not, List.isEmpty_iff] at hempty
    exact hj hempty

/-- Where `runBestFit` finds no queue, no available run is long enough. -/
theorem ChunkInv.short_of_none (hc : ChunkInv k id c bs) (hpages : k.IsPageClass pages)
    (h : c.runBestFit k.sizeClass (k.sizeClass.page2pageIdx pages) = none) {i run : ℕ}
    (hrun : run ∈ c.runsAvail i) : calculateRunPages run < pages := by
  obtain ⟨hi, hlt, hpos, hle, -, -⟩ := hc.queue_of_mem hrun
  by_contra hlong
  rw [not_lt, k.le_pages_iff hpages hpos hle, ← hi] at hlong
  rw [runBestFit] at h
  split_ifs at h
  rw [List.find?_range'_eq_none] at h
  have hempty := h i hlong (by omega)
  rw [Bool.not_not, List.isEmpty_iff] at hempty
  rw [hempty] at hrun
  cases hrun

/-- A request for the pages of a page class breaks no assertion, and is answered as it
should be. -/
theorem ChunkInv.allocateRun_answer (hc : ChunkInv k id c bs) {runSize : ℕ}
    (hpages : k.IsPageClass (runSize >>> k.pageShifts)) :
    ∃ r c', c.allocateRun k.sizeClass runSize = some (r, c') ∧
      RunAnswer k c (runSize >>> k.pageShifts) r := by
  obtain ⟨-, hpos, hle⟩ := hpages.spec
  obtain ⟨r, c', hrun, hsome⟩ := hc.allocateRun_total hpos hle
  refine ⟨r, c', hrun, ?_⟩
  rcases allocateRun_bestFit hrun with ⟨hfit, rfl, -⟩ |
    ⟨i, run, handle, c₂, hfit, htop, hfree, hsplit, rfl, -⟩
  · rw [k.pageShifts_sizeClass] at hfit
    refine ⟨iff_of_true rfl fun i run hmem => hc.short_of_none hpages hfit hmem, nofun, nofun,
      fun hwhole => ?_⟩
    simpa using hsome hwhole
  · rw [k.pageShifts_sizeClass] at hfit hsplit
    have hmem : run ∈ c.runsAvail i := List.min?_mem htop
    have hlow := hc.lowestAble hpages hfit
    obtain ⟨run', htop', -, hlong⟩ := hc.bestFit hpos hle hfit
    obtain rfl : run = run' := Option.some.inj (htop.symm.trans htop')
    obtain ⟨-, -, -, -, -, hsub⟩ := hc.queue_of_mem hmem
    obtain ⟨hoffset, hexact, hused, hrunSub⟩ := splitLargeRun_spec hsub hsplit
    refine ⟨iff_of_false (by simp) fun hshort => ?_, ?_, ?_, fun hwhole => ?_⟩
    · have hlt := hshort i run hmem
      omega
    · rintro _ ⟨⟩
      exact ⟨hused, hrunSub, hexact⟩
    · rintro _ ⟨⟩
      exact ⟨i, hlow, run, hmem, hfree, hlong, hoffset, fun run' hmem' =>
        calculateRunOffset_top_le htop hmem'⟩
    · obtain ⟨single, -, hall, hqueue⟩ := hc.whole hwhole
      have hone : run = single := by
        rw [hqueue] at hmem
        split at hmem
        · exact List.mem_singleton.mp hmem
        · cases hmem
      exact ⟨single, handle, rfl, hqueue, hall, hone ▸ hoffset⟩

namespace RunAllocator

/-- In every state of every history, a chunk answers a request for the pages of a page
class as it should: with no run exactly if no available run is long enough, and otherwise
with the first of the lowest queue that is able to serve it. -/
theorem allocateRun_answer_of_reachable {k : PoolConfig} {s : State}
    (hs : (machine k).Reachable s) {id : ℕ} {c : PoolChunk} (hc : s.store.chunks id = some c)
    {runSize : ℕ} (hpages : k.IsPageClass (runSize >>> k.pageShifts)) :
    ∃ r c', c.allocateRun k.sizeClass runSize = some (r, c') ∧
      RunAnswer k c (runSize >>> k.pageShifts) r := by
  obtain ⟨blocks, h⟩ := inv_of_reachable hs
  exact (h.chunk hc).allocateRun_answer hpages

/-- After a few requests five pages are found. -/
theorem allocateRun_answer_of_reachable_fewRequests :
    ∃ c r c', afterFewRequests.store.chunks 0 = some c ∧
      c.allocateRun PoolConfig.default.sizeClass 40960 = some (r, c') ∧
      RunAnswer .default c 5 r := by
  have hsome : (afterFewRequests.store.chunks 0).isSome = true := by decide +kernel
  obtain ⟨c, hc⟩ := Option.isSome_iff_exists.mp hsome
  have hfive : PoolConfig.default.IsPageClass (40960 >>> PoolConfig.default.pageShifts) :=
    ⟨4, by decide +kernel, by decide +kernel⟩
  obtain ⟨r, c', hanswer⟩ := allocateRun_answer_of_reachable
    (.of_foldlM (.of_init rfl) afterFewRequests_eq) hc hfive
  exact ⟨c, r, c', hc, hanswer⟩

end RunAllocator

end DuoDuo.Buffer
