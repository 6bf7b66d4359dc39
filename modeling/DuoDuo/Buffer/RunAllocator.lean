import DuoDuo.Buffer.ChunkStore
import Mathlib.Algebra.BigOperators.Group.Finset.Basic
import Mathlib.Algebra.Order.BigOperators.Group.Finset

/-!
# The run allocator over all histories

The chunks take requests for runs and for elements of subpages, and releases of what
was handed out, in any order. In every state of such a history the pages of a chunk
are partitioned by its runs, and its queues, boundary map and byte counter tell the
same available runs.
-/

namespace DuoDuo.Buffer

open Library PoolChunk PoolSubpage

namespace PoolChunk

variable {sc : SizeClass} {c : PoolChunk} {avail : ℕ → Option ℕ}

/-- A sum over one queue is a sum over the offsets of its runs. -/
theorem Filed.sum_queue (hf : Filed sc c avail) (f : ℕ → ℕ) (i N : ℕ)
    (hN : ∀ {o h}, avail o = some h → o < N) :
    ((c.runsAvail i).map f).sum = ∑ o ∈ Finset.range N, (avail o).elim 0 fun h =>
      if i = sc.page2pageIdxFloor (calculateRunPages h) then f h else 0 := by
  have hmem : ∀ {h}, h ∈ (c.runsAvail i).toFinset → avail (calculateRunOffset h) = some h ∧
      i = sc.page2pageIdxFloor (calculateRunPages h) := by
    intro h hh
    obtain ⟨o, ho, hi⟩ := hf.queue.mp (List.mem_toFinset.mp hh)
    rw [hf.offset ho]
    exact ⟨ho, hi⟩
  have hinj : Set.InjOn calculateRunOffset ((c.runsAvail i).toFinset : Set ℕ) := by
    intro h hh h' hh' heq
    have hav := (hmem hh).1
    rw [heq, (hmem hh').1] at hav
    exact (Option.some.inj hav).symm
  rw [← List.sum_toFinset f (hf.nodup i)]
  calc ∑ h ∈ (c.runsAvail i).toFinset, f h
      = ∑ h ∈ (c.runsAvail i).toFinset, (avail (calculateRunOffset h)).elim 0 fun h =>
          if i = sc.page2pageIdxFloor (calculateRunPages h) then f h else 0 := by
        refine Finset.sum_congr rfl fun h hh => ?_
        rw [(hmem hh).1, Option.elim_some, if_pos (hmem hh).2]
    _ = ∑ o ∈ (c.runsAvail i).toFinset.image calculateRunOffset, (avail o).elim 0 fun h =>
          if i = sc.page2pageIdxFloor (calculateRunPages h) then f h else 0 := by
        rw [Finset.sum_image hinj]
    _ = _ := by
        apply Finset.sum_subset
        · intro o ho
          obtain ⟨h, hh, rfl⟩ := Finset.mem_image.mp ho
          exact Finset.mem_range.mpr (hN (hmem hh).1)
        · intro o _ ho
          rcases hav : avail o with _ | h
          · rfl
          · refine if_neg fun hi => ho (Finset.mem_image.mpr ⟨h, ?_, hf.offset hav⟩)
            exact List.mem_toFinset.mpr (hf.queue.mpr ⟨o, hav, hi⟩)

/-- A sum over all queues is a sum over the offsets of the available runs. -/
theorem Filed.sum_queues (hf : Filed sc c avail) (f : ℕ → ℕ) {n N : ℕ}
    (hn : ∀ {o h}, avail o = some h → sc.page2pageIdxFloor (calculateRunPages h) < n)
    (hN : ∀ {o h}, avail o = some h → o < N) :
    ∑ i ∈ Finset.range n, ((c.runsAvail i).map f).sum =
      ∑ o ∈ Finset.range N, (avail o).elim 0 f := by
  rw [Finset.sum_congr rfl fun i _ => hf.sum_queue f i N hN, Finset.sum_comm]
  refine Finset.sum_congr rfl fun o _ => ?_
  rcases hav : avail o with _ | h
  · simp
  · simp only [Option.elim_some]
    rw [Finset.sum_ite_eq' (Finset.range n), if_pos (Finset.mem_range.mpr (hn hav))]

/-- When one run is available, its queue holds it and the other queues are empty. -/
theorem Filed.eq_single (hf : Filed sc c avail) {run : ℕ}
    (hsingle : ∀ o, avail o = if o = 0 then some run else none) (i : ℕ) :
    c.runsAvail i = if i = sc.page2pageIdxFloor (calculateRunPages run) then [run] else [] := by
  have hmem : ∀ h, h ∈ c.runsAvail i ↔
      h = run ∧ i = sc.page2pageIdxFloor (calculateRunPages run) := by
    intro h
    rw [hf.queue]
    constructor
    · rintro ⟨o, ho, hi⟩
      rw [hsingle] at ho
      split_ifs at ho
      cases ho
      exact ⟨rfl, hi⟩
    · rintro ⟨rfl, hi⟩
      exact ⟨0, hsingle 0, hi⟩
  split
  · next hi =>
    apply List.perm_singleton.mp
    rw [List.perm_ext_iff_of_nodup (hf.nodup i) (List.nodup_singleton run)]
    intro h
    rw [hmem, List.mem_singleton]
    exact and_iff_left hi
  · next hi =>
    exact List.eq_nil_iff_forall_not_mem.mpr fun h hh => hi ((hmem h).mp hh).2

/-- `runBestFit` finds the last queue of a chunk that is free as a whole, or a queue
that is not empty. -/
theorem runBestFit_cases {pageIdx i : ℕ} (h : c.runBestFit sc pageIdx = some i) :
    (c.freeBytes = sc.chunkSize ∧ i = sc.nPSizes - 1) ∨
      (pageIdx ≤ i ∧ ∃ run, BestFitQueue.top (c.runsAvail i) = some run) := by
  rw [runBestFit] at h
  split_ifs at h with hwhole
  · cases h
    exact Or.inl ⟨hwhole, rfl⟩
  · have hmem := List.mem_of_find?_eq_some h
    have hne := List.find?_some h
    rw [List.mem_range'_1] at hmem
    refine Or.inr ⟨hmem.1, Option.ne_none_iff_exists'.mp fun hnone => ?_⟩
    rw [BestFitQueue.top, List.min?_eq_none_iff] at hnone
    rw [hnone] at hne
    cases hne

end PoolChunk

/-- The runs of a chunk: those that its queues hold, those that were handed out, and
those that carry a subpage. -/
inductive ChunkRun
  | available (handle : ℕ)
  | handedOut (handle : ℕ)
  | subpage (sp : PoolSubpage)

namespace ChunkRun

/-- The first page of a run. -/
def start : ChunkRun → ℕ
  | available handle => calculateRunOffset handle
  | handedOut handle => calculateRunOffset handle
  | subpage sp => sp.runOffset

/-- The number of pages of a run. -/
def pages (pageShifts : ℕ) : ChunkRun → ℕ
  | available handle => calculateRunPages handle
  | handedOut handle => calculateRunPages handle
  | subpage sp => sp.runSize >>> pageShifts

/-- A run belongs to chunk `id`. -/
def MemberOf (id : ℕ) (c : PoolChunk) (granted : List Grant) : ChunkRun → Prop
  | available handle => ∃ i, handle ∈ c.runsAvail i
  | handedOut handle => isSubpage handle = false ∧ ∃ cap, (⟨id, handle, cap⟩ : Grant) ∈ granted
  | subpage sp => c.subpages sp.runOffset = some sp

end ChunkRun

/-- What the run allocator promises of chunk `id`. -/
structure RunInvariant (k : PoolConfig) (id : ℕ) (c : PoolChunk) (granted : List Grant) :
    Prop where
  bounded : ∀ run : ChunkRun, run.MemberOf id c granted →
    0 < run.pages k.pageShifts ∧ run.start + run.pages k.pageShifts ≤ k.chunkPages
  partition : ∀ page < k.chunkPages, ∃! run : ChunkRun, run.MemberOf id c granted ∧
    run.start ≤ page ∧ page < run.start + run.pages k.pageShifts
  queue : ∀ {i handle}, handle ∈ c.runsAvail i →
    i = k.sizeClass.page2pageIdxFloor (calculateRunPages handle) ∧
      (c.runsAvail i).count handle = 1
  map : ∀ {x handle}, c.runsAvailMap x = some handle ↔ (∃ i, handle ∈ c.runsAvail i) ∧
    (x = calculateRunOffset handle ∨
      x = tailPage (calculateRunOffset handle) (calculateRunPages handle))
  coalesced : ∀ {i j handle handle'}, handle ∈ c.runsAvail i → handle' ∈ c.runsAvail j →
    calculateRunOffset handle + calculateRunPages handle ≠ calculateRunOffset handle'
  freeBytes : c.freeBytes = (∑ i ∈ Finset.range k.sizeClass.nPSizes,
    ((c.runsAvail i).map (PoolChunk.runSize k.pageShifts)).sum : ℕ)
  whole : c.freeBytes = k.chunkSize → ∃ handle, calculateRunOffset handle = 0 ∧
    calculateRunPages handle = k.chunkPages ∧
    ∀ i, c.runsAvail i = if i = k.sizeClass.nPSizes - 1 then [handle] else []
  bestFit : ∀ {pages i}, 0 < pages → pages ≤ k.chunkPages →
    c.runBestFit k.sizeClass (k.sizeClass.page2pageIdx pages) = some i →
    ∃ handle, BestFitQueue.top (c.runsAvail i) = some handle ∧ isUsed handle = false ∧
      pages ≤ calculateRunPages handle

variable {k : PoolConfig} {id : ℕ} {c : PoolChunk} {bs : ℕ → Option ℕ} {granted : List Grant}

/-- A run of the chunk is the block at its first page. -/
theorem ChunkInv.block_of_memberOf (hc : ChunkInv k id c bs)
    (hgranted : ∀ h cap, (⟨id, h, cap⟩ : Grant) ∈ granted ↔ Holds k c bs h cap) {run : ChunkRun}
    (hrun : run.MemberOf id c granted) {o : ℕ} (hstart : run.start = o) :
    ∃ handle, bs o = some handle ∧ calculateRunPages handle = run.pages k.pageShifts ∧
      match run with
      | .available h => isUsed handle = false ∧ h = handle
      | .handedOut h => isUsed handle = true ∧ c.subpages o = none ∧ h = handle
      | .subpage sp => isUsed handle = true ∧ c.subpages o = some sp := by
  cases run with
  | available h =>
    obtain ⟨i, hi⟩ := hrun
    obtain ⟨o', ho', _⟩ := hc.runs.filed.queue.mp hi
    obtain ⟨hb, hfree⟩ := unused_eq_some.mp ho'
    obtain rfl : o' = o := (hc.runs.offset hb).symm.trans hstart
    exact ⟨h, hb, rfl, hfree, rfl⟩
  | handedOut h =>
    subst hstart
    obtain ⟨hsub, cap, hmem⟩ := hrun
    obtain ⟨run, hb, hused, hpages, ⟨_, rfl, hnone, _⟩ | ⟨sp, hsub', _⟩⟩ :=
      ((hgranted h cap).mp hmem).block hc
    · exact ⟨run, hb, rfl, hused, hnone, rfl⟩
    · rw [hsub] at hsub'
      cases hsub'
  | subpage sp =>
    subst hstart
    have hat := hc.subpage _ sp hrun
    obtain ⟨run, hb, hused, hpages, _⟩ := hat.bounds hc.runs
    refine ⟨run, hb, ?_, hused, hrun⟩
    rw [ChunkRun.pages, ← hpages, hat.pageShifts]

/-- Every block of the chunk is one of its runs. -/
theorem ChunkInv.exists_memberOf (hc : ChunkInv k id c bs)
    (hgranted : ∀ h cap, (⟨id, h, cap⟩ : Grant) ∈ granted ↔ Holds k c bs h cap) {o handle : ℕ}
    (hb : bs o = some handle) :
    ∃ run : ChunkRun, run.MemberOf id c granted ∧ run.start = o ∧
      run.pages k.pageShifts = calculateRunPages handle := by
  have ho := hc.runs.offset hb
  by_cases hused : isUsed handle = true
  · rcases hsp : c.subpages o with _ | sp
    · exact ⟨.handedOut handle, ⟨hc.runs.isRun hb, _, (hgranted _ _).mpr (.run hb hused hsp)⟩, ho, rfl⟩
    · have hat := hc.subpage o sp hsp
      obtain ⟨run, hb', _, hpages, _⟩ := hat.bounds hc.runs
      rw [hb] at hb'
      cases hb'
      refine ⟨.subpage sp, ?_, hat.runOffset, ?_⟩
      · rw [ChunkRun.MemberOf, hat.runOffset, hsp]
      · rw [ChunkRun.pages, ← hpages, hat.pageShifts]
  · have hav : unused isUsed bs o = some handle :=
      unused_eq_some.mpr ⟨hb, by simpa using hused⟩
    exact ⟨.available handle, ⟨_, hc.runs.filed.queue.mpr ⟨o, hav, rfl⟩⟩, ho, rfl⟩

/-- A run of the chunk is determined by its first page. -/
theorem ChunkInv.memberOf_unique (hc : ChunkInv k id c bs)
    (hgranted : ∀ h cap, (⟨id, h, cap⟩ : Grant) ∈ granted ↔ Holds k c bs h cap)
    {run run' : ChunkRun} (hrun : run.MemberOf id c granted) (hrun' : run'.MemberOf id c granted)
    (hstart : run.start = run'.start) : run = run' := by
  obtain ⟨handle, hb, _, hkind⟩ := hc.block_of_memberOf hgranted hrun hstart
  obtain ⟨handle', hb', _, hkind'⟩ := hc.block_of_memberOf hgranted hrun' rfl
  rw [hb'] at hb
  cases hb
  cases run <;> cases run' <;> simp_all

/-- A chunk that is free as a whole holds one run, in the last queue. -/
theorem ChunkInv.whole (hc : ChunkInv k id c bs) (hwhole : c.freeBytes = k.chunkSize) :
    ∃ handle, calculateRunOffset handle = 0 ∧ calculateRunPages handle = k.chunkPages ∧
      ∀ i, c.runsAvail i = if i = k.sizeClass.nPSizes - 1 then [handle] else [] := by
  obtain ⟨run, hfree, hpages, hsingle⟩ := hc.single hwhole
  refine ⟨run, hc.runs.offset ((hsingle 0).trans (if_pos rfl)), hpages, fun i => ?_⟩
  rw [← k.page2pageIdxFloor_chunkPages, ← hpages]
  refine hc.runs.filed.eq_single (fun o => ?_) i
  rw [unused, hsingle]
  split
  · exact Option.filter_some_pos (by rw [hfree]; rfl)
  · rfl

/-- A chunk whose regions in use are the ones granted keeps its promise. -/
theorem ChunkInv.runInvariant (hc : ChunkInv k id c bs)
    (hgranted : ∀ h cap, (⟨id, h, cap⟩ : Grant) ∈ granted ↔ Holds k c bs h cap) :
    RunInvariant k id c granted := by
  have hf := hc.runs.filed
  have hblock : ∀ {o h}, unused isUsed bs o = some h → bs o = some h ∧ isUsed h = false :=
    fun ho => unused_eq_some.mp ho
  have hle : ∀ {o h}, unused isUsed bs o = some h → calculateRunPages h ≤ k.chunkPages := by
    intro o h ho
    have hbound := hc.runs.tiling.bounded (hblock ho).1
    omega
  refine ⟨fun run hrun => ?_, fun page hpage => ?_, fun hmem => ?_, ?_, fun hmem hmem' => ?_, ?_,
    fun hwhole => ?_, fun hpos hpages hfit => ?_⟩
  · obtain ⟨handle, hb, hpages, _⟩ := hc.block_of_memberOf hgranted hrun rfl
    rw [← hpages]
    exact ⟨hc.runs.tiling.pos hb, hc.runs.tiling.bounded hb⟩
  · obtain ⟨o, handle, hb, hstart, hstop⟩ := hc.runs.tiling.cover hpage
    obtain ⟨run, hrun, rfl, hpages⟩ := hc.exists_memberOf hgranted hb
    refine ⟨run, ⟨hrun, hstart, hpages ▸ hstop⟩, fun run' ⟨hrun', hstart', hstop'⟩ => ?_⟩
    obtain ⟨handle', hb', hpages', _⟩ := hc.block_of_memberOf hgranted hrun' rfl
    apply hc.memberOf_unique hgranted hrun' hrun
    exact hc.runs.tiling.offset_eq hb' hb ⟨hstart', hpages' ▸ hstop'⟩ ⟨hstart, hstop⟩
  · obtain ⟨o, _, hi⟩ := hf.queue.mp hmem
    exact ⟨hi, List.count_eq_one_of_mem (hf.nodup _) hmem⟩
  · intro x handle
    rw [hf.map]
    constructor
    · rintro ⟨o, ho, hx⟩
      rw [hf.offset ho]
      exact ⟨⟨_, hf.queue.mpr ⟨o, ho, rfl⟩⟩, hx⟩
    · rintro ⟨⟨i, hi⟩, hx⟩
      obtain ⟨o, ho, _⟩ := hf.queue.mp hi
      rw [hf.offset ho] at hx
      exact ⟨o, ho, hx⟩
  · intro heq
    obtain ⟨o, ho, _⟩ := hf.queue.mp hmem
    obtain ⟨o', ho', _⟩ := hf.queue.mp hmem'
    rw [hf.offset ho, hf.offset ho'] at heq
    obtain ⟨hb, hfree⟩ := hblock ho
    obtain ⟨hb', hfree'⟩ := hblock ho'
    rw [← heq] at hb'
    rcases hc.runs.coalesced _ _ _ hb hb' with h | h
    · rw [hfree] at h
      cases h
    · rw [hfree'] at h
      cases h
  · rw [hc.runs.freeBytes, hf.sum_queues (PoolChunk.runSize k.pageShifts) (N := k.chunkPages)
      (fun ho => k.page2pageIdxFloor_lt (hf.pos ho) (hle ho))
      (fun ho => hc.runs.tiling.lt_of_block (hblock ho).1), total, Finset.mul_sum]
    congr 1
    refine Finset.sum_congr rfl fun o _ => ?_
    rcases unused isUsed bs o with _ | h
    · exact Nat.mul_zero _
    · rw [Option.elim_some, Option.elim_some, PoolChunk.runSize, Nat.shiftLeft_eq, Nat.mul_comm]
      rfl
  · exact hc.whole hwhole
  · rcases runBestFit_cases hfit with ⟨hwhole, rfl⟩ | ⟨hidx, run, htop⟩
    · obtain ⟨run, _, hlong, hqueue⟩ := hc.whole (hwhole.trans (by rw [k.chunkSize_sizeClass]))
      have hmem : run ∈ c.runsAvail (k.sizeClass.nPSizes - 1) := by
        rw [hqueue, if_pos rfl]
        exact List.mem_singleton_self run
      obtain ⟨o, ho, _⟩ := hf.queue.mp hmem
      refine ⟨run, ?_, (hblock ho).2, hlong.symm ▸ hpages⟩
      rw [hqueue, if_pos rfl]
      rfl
    · obtain ⟨o, ho, rfl⟩ := hf.top_eq htop
      exact ⟨run, htop, (hblock ho).2,
        k.pages_le_of_page2pageIdx_le hpos hpages (hf.pos ho) (hle ho) hidx⟩

namespace RunAllocator

/-- The chunks of an arena, and the regions that are allocated. -/
structure State where
  store : ChunkStore
  granted : List Grant

/-- The requests to the run allocator. -/
inductive Request
  | newChunk
  | allocateRun (id size : ℕ)
  | allocateSubpage (id sizeIdx : ℕ)
  | allocatePooled (sizeIdx : ℕ)
  | free (region : Grant) (buffer : Option Addr)

/-- A region that a request returned, if any, is allocated from then on. -/
def State.grant (store : ChunkStore) (granted : List Grant) : Option Grant → State
  | some region => ⟨store, region :: granted⟩
  | none => ⟨store, granted⟩

/-- The answer to a request. A handle is freed while it is allocated only. -/
def next (sc : SizeClass) (s : State) : Request → Option State
  | .newChunk => some ⟨s.store.newChunk sc, s.granted⟩
  | .allocateRun id size => do
    let (handle, store) ← s.store.allocateRun sc id size
    some (.grant store s.granted
      (handle.map fun handle => ⟨id, handle, PoolChunk.runSize sc.pageShifts handle⟩))
  | .allocateSubpage id sizeIdx => do
    let (handle, store) ← s.store.allocateSubpage sc id sizeIdx
    some (.grant store s.granted
      (handle.map fun handle => ⟨id, handle, sc.sizeIdx2size sizeIdx⟩))
  | .allocatePooled sizeIdx => do
    let (region, store) ← s.store.allocatePooled sc sizeIdx
    some (.grant store s.granted
      (region.map fun region => ⟨region.1, region.2, sc.sizeIdx2size sizeIdx⟩))
  | .free region buffer =>
    if region ∈ s.granted then do
      let store ← s.store.free sc region buffer
      some ⟨store, s.granted.erase region⟩
    else none

/-- The run allocator, which begins without a chunk. -/
def machine (k : PoolConfig) : Machine State Request :=
  .ofNext (· = ⟨.empty, []⟩) (next k.sizeClass)

/-- The chunks and the allocated regions agree. -/
def Inv (k : PoolConfig) (s : State) : Prop := ∃ blocks, StoreInv k s.store blocks s.granted

/-- Every request keeps the agreement. -/
theorem Inv.next {k : PoolConfig} {s t : State} {request : Request} (h : Inv k s)
    (hstep : next k.sizeClass s request = some t) : Inv k t := by
  obtain ⟨blocks, h⟩ := h
  cases request with
  | newChunk =>
    cases hstep
    exact ⟨_, h.newChunk⟩
  | allocateRun id size =>
    obtain ⟨⟨r, store⟩, hrun, hstep⟩ := Option.bind_eq_some_iff.mp hstep
    cases hstep
    obtain ⟨blocks', h'⟩ := h.allocateRun hrun
    cases r <;> exact ⟨blocks', h'⟩
  | allocateSubpage id sizeIdx =>
    obtain ⟨⟨r, store⟩, hsubpage, hstep⟩ := Option.bind_eq_some_iff.mp hstep
    cases hstep
    obtain ⟨blocks', h'⟩ := h.allocateSubpage hsubpage
    cases r <;> exact ⟨blocks', h'⟩
  | allocatePooled sizeIdx =>
    obtain ⟨⟨r, store⟩, hpool, hstep⟩ := Option.bind_eq_some_iff.mp hstep
    cases hstep
    cases r with
    | none =>
      obtain ⟨_, rfl, _⟩ | ⟨_, _, _, _, _, _, _, hr, _⟩ := allocatePooled_cases hpool
      · exact ⟨blocks, h⟩
      · cases hr
    | some region => exact ⟨blocks, h.allocatePooled hpool⟩
  | free region buffer =>
    rw [RunAllocator.next] at hstep
    split_ifs at hstep with hregion
    obtain ⟨store, hfree, hstep⟩ := Option.bind_eq_some_iff.mp hstep
    cases hstep
    obtain ⟨store', blocks', hfree', h'⟩ := h.free hregion buffer
    rw [hfree] at hfree'
    cases hfree'
    exact ⟨blocks', h'⟩

/-- The agreement holds in every state of every history. -/
theorem inv_of_reachable {k : PoolConfig} {s : State} (hs : (machine k).Reachable s) :
    Inv k s := by
  refine hs.invariant ?_ fun s request t h hstep => h.next hstep
  rintro _ rfl
  exact ⟨fun _ _ => none, storeInv_empty k _⟩

/-- After every sequence of requests, every chunk keeps the invariant of the run
allocator. -/
theorem runInvariant_of_reachable {k : PoolConfig} {s : State} (hs : (machine k).Reachable s)
    {id : ℕ} {c : PoolChunk} (hc : s.store.chunks id = some c) :
    RunInvariant k id c s.granted := by
  obtain ⟨blocks, h⟩ := inv_of_reachable hs
  refine (h.chunk hc).runInvariant fun handle cap => ?_
  rw [h.owned_iff]
  constructor
  · rintro ⟨c', hc', hholds⟩
    rw [hc] at hc'
    cases hc'
    exact hholds
  · intro hholds
    exact ⟨c, hc, hholds⟩

/-- Requests for a run of eight pages and for two elements of one subpage, the first
of which is freed again. -/
def fewRequests : List Request :=
  [.newChunk, .allocateRun 0 65536, .allocateSubpage 0 0, .allocatePooled 0,
    .free ⟨0, 4503629692141568, 16⟩ none]

/-- The state after these requests. -/
def afterFewRequests : State :=
  (fewRequests.foldlM (next PoolConfig.default.sizeClass) ⟨.empty, []⟩).getD ⟨.empty, []⟩

theorem afterFewRequests_eq :
    fewRequests.foldlM (next PoolConfig.default.sizeClass) ⟨.empty, []⟩ = some afterFewRequests := by
  have hsome : (fewRequests.foldlM (next PoolConfig.default.sizeClass) ⟨.empty, []⟩).isSome = true := by
    decide +kernel
  rw [afterFewRequests, Option.getD_of_ne_none (Option.isSome_iff_ne_none.mp hsome)]

theorem runInvariant_of_reachable_fewRequests :
    ∃ c, afterFewRequests.store.chunks 0 = some c ∧
      RunInvariant .default 0 c afterFewRequests.granted := by
  have hsome : (afterFewRequests.store.chunks 0).isSome = true := by decide +kernel
  obtain ⟨c, hc⟩ := Option.isSome_iff_exists.mp hsome
  exact ⟨c, hc, runInvariant_of_reachable (.of_foldlM (.of_init rfl) afterFewRequests_eq) hc⟩

end RunAllocator

end DuoDuo.Buffer
