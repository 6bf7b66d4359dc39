import DuoDuo.Buffer.ChunkProgress

/-!
# The life of one subpage

From the constructor on, elements of a subpage are taken and given back in any order,
while other subpages enter and leave the pools, until the subpage is released. The
elements that have been taken are recorded beside the subpage, by the handles that
`allocate` returned; the bitmap, the counter, the hint and the link in the pool are all
to agree with that record.
-/

namespace DuoDuo.Buffer

open Library PoolChunk PoolSubpage

/-- A subpage, the pools, and the elements that are allocated. -/
structure SubpageLife where
  subpage : PoolSubpage
  pools : Pools
  /-- The pool that the subpage belongs to. -/
  head : ℕ
  /-- The elements whose handles have been returned and not given back. -/
  allocated : Finset ℕ := ∅
  /-- The last `free` has released the subpage. -/
  released : Bool := false

/-- What happens to a subpage: a call, or a change of the pools by other subpages. -/
inductive SubpageCall
  | allocate
  | free (bitmapIdx : ℕ)
  | others (pools : Pools)

namespace SubpageLife

/-- A subpage as `allocateSubpage` builds it for a small size, in a run of the size that
`calculateRunSize` finds. -/
def Built (s : SubpageLife) : Prop :=
  ∃ (k : PoolConfig) (runSize chunk runOffset : ℕ) (pools : Pools),
    s.head < k.sizeClass.nSubpages ∧ calculateRunSize k.sizeClass s.head = some runSize ∧
    (∀ head, (chunk, runOffset) ∉ pools head) ∧
    PoolSubpage.new s.head chunk k.pageShifts runOffset runSize
      (k.sizeClass.sizeIdx2size s.head) pools = some (s.subpage, s.pools) ∧
    s.allocated = ∅ ∧ s.released = false

/-- A step. Elements are given back only while they are allocated, and the subpage is not
used once it has been released. Other subpages leave its own links in the pools alone. A
call that breaks an assertion has no result. -/
inductive Step : SubpageLife → SubpageCall → SubpageLife → Prop
  | full {s : SubpageLife} {sp : PoolSubpage} {pools : Pools} : s.released = false →
      s.subpage.allocate s.pools = some (none, sp, pools) →
      Step s .allocate { s with subpage := sp, pools }
  | allocate {s : SubpageLife} {handle : ℕ} {sp : PoolSubpage} {pools : Pools} :
      s.released = false → s.subpage.allocate s.pools = some (some handle, sp, pools) →
      Step s .allocate { s with
        subpage := sp, pools
        allocated := insert (calculateBitmapIdx handle) s.allocated }
  | free {s : SubpageLife} {i : ℕ} {kept : Bool} {sp : PoolSubpage} {pools : Pools} :
      s.released = false → i ∈ s.allocated →
      s.subpage.free s.head i s.pools = some (kept, sp, pools) →
      Step s (.free i) { s with
        subpage := sp, pools, allocated := s.allocated.erase i, released := !kept }
  | others {s : SubpageLife} {pools : Pools} :
      (∀ head, (pools head).count s.subpage.ref = (s.pools head).count s.subpage.ref) →
      Step s (.others pools) { s with pools }

/-- Every order of calls on a subpage. -/
def machine : Machine SubpageLife SubpageCall where
  init := Built
  step := Step

/-- What `allocateSubpage` builds in a chunk begins a life, and its first element is taken. -/
theorem built_of_allocateSubpage {k : PoolConfig} {id sizeIdx handle : ℕ} {c c' : PoolChunk}
    {blocks : ℕ → Option ℕ} {pools pools' : Pools} {link : SubpageRef → Option ℕ}
    (hc : ChunkInv k id c blocks) (hp : PoolsMatch link pools)
    (hlink : ∀ o, c.subpages o = none → link (id, o) = none)
    (h : c.allocateSubpage k.sizeClass id pools sizeIdx = some (some handle, c', pools')) :
    ∃ s t o, s.Built ∧ Step s .allocate t ∧ s.head = sizeIdx ∧ c'.subpages o = some t.subpage ∧
      t.pools = pools' ∧ t.allocated = {calculateBitmapIdx handle} := by
  obtain ⟨head, runSize, hhead, hsize, ⟨-, hnone, -⟩ | ⟨run, c₁, sp, pools₁, sp', hrun, hfree, hnew,
    halloc, rfl⟩⟩ := allocateSubpage_cases h
  · cases hnone
  rw [findSubpagePoolHead, Option.ite_none_right_eq_some, Option.some.injEq] at hhead
  obtain ⟨hsub, rfl⟩ := hhead
  obtain ⟨_, _, hsubpages, _, _, _, _, _, hpages, _⟩ := hc.allocateRun hrun
  obtain ⟨hdvd, -⟩ := calculateRunSize_spec hsize
  have hrunSize : PoolChunk.runSize k.sizeClass.pageShifts run = runSize :=
    runSize_of_dvd hdvd hpages
  rw [hrunSize, k.pageShifts_sizeClass] at hnew
  have hnot : ∀ head, (id, calculateRunOffset run) ∉ pools head := by
    intro head hmem
    have hlinked := (hp.1 head _).mp hmem
    rw [hlink _ (hsubpages ▸ hfree)] at hlinked
    cases hlinked
  refine ⟨⟨sp, pools₁, sizeIdx, ∅, false⟩, _, calculateRunOffset run,
    ⟨k, runSize, id, _, pools, hsub, hsize, hnot, hnew, rfl, rfl⟩, .allocate rfl halloc, rfl,
    subpages_setSubpage_self _ _ _, rfl, by simp⟩

/-- What holds of a subpage that has not been released. -/
structure Inv (s : SubpageLife) : Prop where
  inv : s.subpage.Inv
  isSet_iff : ∀ i, s.subpage.isSet i = true ↔ i ∈ s.allocated
  pages : s.subpage.runSize >>> s.subpage.pageShifts < 2 ^ 15
  elements : s.subpage.maxNumElems ≤ 2 ^ 32
  pool : ∀ head, s.subpage.pool = some head → head = s.head
  links : ∀ head, (s.pools head).count s.subpage.ref =
    if s.subpage.pool = some head then 1 else 0

/-- A new subpage is linked, and nothing of it is allocated. -/
theorem Inv.of_built {s : SubpageLife} (h : s.Built) : s.Inv := by
  obtain ⟨k, runSize, chunk, runOffset, pools, hsub, hsize, hnot, hnew, hnone, -⟩ := h
  obtain ⟨helem, hfit, hunit⟩ := elements_of_calculateRunSize hsize hsub
  obtain ⟨hcore, havail, hclear⟩ :=
    @construct_core chunk k.pageShifts runOffset _ _ helem hfit hunit
  have hsizes : s.head < k.numSizes := by
    rw [PoolConfig.nSubpages_sizeClass] at hsub
    omega
  obtain ⟨hpos, hpages⟩ := pages_of_calculateRunSize hsize hsizes
  have hchunk := k.chunkPages_lt
  rw [PoolSubpage.new, addToPool, if_neg (by simp [construct]), Option.some.injEq,
    Prod.mk.injEq] at hnew
  obtain ⟨hsp, hpools⟩ := hnew
  have hmax : s.subpage.maxNumElems = runSize / k.sizeClass.sizeIdx2size s.head := by
    rw [← hsp]
    rfl
  refine ⟨?_, ?_, ?_, ?_, ?_, ?_⟩
  · rw [← hsp]
    exact ⟨⟨hcore.elemSize_pos, hcore.fits, hcore.words, hcore.covered, hcore.bitmapLength_eq,
      hcore.next, hcore.numAvail_eq, hcore.beyond⟩, rfl, by simpa using havail⟩
  · intro i
    have hbit : s.subpage.isSet i = false := by
      rw [← hsp]
      exact hclear i
    simp [hbit, hnone]
  · rw [← hsp]
    show runSize >>> k.pageShifts < 2 ^ 15
    omega
  · have hle : runSize / k.sizeClass.sizeIdx2size s.head ≤ runSize := Nat.div_le_self _ _
    have hrun := le_of_calculateRunSize hsize
    have hchunkSize := k.chunkSize_le
    rw [hmax]
    omega
  · intro head hhead
    rw [← hsp] at hhead
    exact (Option.some.inj hhead).symm
  · intro head
    rw [← hsp, ← hpools]
    show (Function.update pools s.head ((chunk, runOffset) :: pools s.head) head).count
      (chunk, runOffset) = if some s.head = some head then 1 else 0
    have hzero := List.count_eq_zero.mpr (hnot head)
    by_cases hhead : head = s.head
    · rw [hhead, Function.update_self, List.count_cons_self, ← hhead, hzero, if_pos rfl]
    · rw [Function.update_of_ne hhead, hzero, if_neg (by simpa using Ne.symm hhead)]

/-- The link of a subpage in the pools is the one that it keeps. -/
theorem count_of_relink {sp sp' : PoolSubpage} {pools pools' : Pools}
    (hrelink : sp.Relink sp' pools pools')
    (h : ∀ head, (pools head).count sp.ref = if sp.pool = some head then 1 else 0) (head : ℕ) :
    (pools' head).count sp.ref = if sp'.pool = some head then 1 else 0 := by
  cases hrelink with
  | same hsame => rw [hsame, h]
  | @remove head' hold hnew =>
    rw [hnew, if_neg (by simp)]
    by_cases hhead : head = head'
    · rw [hhead, Function.update_self, List.count_erase_self, h, if_pos hold]
    · rw [Function.update_of_ne hhead, h, hold, if_neg (by simpa using Ne.symm hhead)]
  | @add head' hold hnew =>
    by_cases hhead : head = head'
    · rw [hhead, Function.update_self, List.count_cons_self, h, hold, hnew]
      simp
    · rw [Function.update_of_ne hhead, h, hold, hnew]
      simp [Ne.symm hhead]

/-- `allocate` keeps the record and the link. -/
theorem Inv.allocate {s : SubpageLife} (h : s.Inv) (havail : 0 < s.subpage.numAvail) :
    ∃ handle sp pools, s.subpage.allocate s.pools = some (some handle, sp, pools) ∧
      calculateBitmapIdx handle < s.subpage.maxNumElems ∧
      calculateBitmapIdx handle ∉ s.allocated ∧
      ({ s with
        subpage := sp, pools
        allocated := insert (calculateBitmapIdx handle) s.allocated } : SubpageLife).Inv := by
  obtain ⟨i, sp, pools, hi, hclear, hallocate, hinv, hsame, hbits, hrelink⟩ :=
    h.inv.allocate_eq havail s.pools
  have hlinked := h.inv.linked.mpr havail
  obtain ⟨handle, hhandle⟩ : ∃ handle, handle = s.subpage.toHandle i := ⟨_, rfl⟩
  have hidx : calculateBitmapIdx handle = i := by
    rw [hhandle]
    exact calculateBitmapIdx_toHandle rfl h.pages (hi.trans_le h.elements)
  have hnot : i ∉ s.allocated := by
    rw [← h.isSet_iff, hclear]
    exact Bool.false_ne_true
  refine ⟨handle, sp, pools, hhandle ▸ hallocate, hidx ▸ hi, hidx ▸ hnot, hinv, ?_, ?_, ?_, ?_, ?_⟩
  · intro j
    rw [hidx, hbits, Bool.or_eq_true, decide_eq_true_eq, h.isSet_iff, Finset.mem_insert, or_comm]
  · rw [hsame.runSize, hsame.pageShifts]
    exact h.pages
  · rw [hsame.maxNumElems]
    exact h.elements
  · intro head hhead
    cases hrelink with
    | same hpool => exact h.pool head (hpool ▸ hhead)
    | remove _ hnone => simp [hnone] at hhead
    | add hnone _ => simp [hnone] at hlinked
  · intro head
    rw [hsame.ref]
    exact count_of_relink hrelink h.links head

/-- `free` of an element that is allocated keeps the record and the link, unless it
releases the subpage. -/
theorem Inv.free {s : SubpageLife} (h : s.Inv) {i : ℕ} (hi : i ∈ s.allocated) :
    ∃ kept sp pools, s.subpage.free s.head i s.pools = some (kept, sp, pools) ∧
      (kept = true → ({ s with
        subpage := sp, pools, allocated := s.allocated.erase i, released := !kept } :
          SubpageLife).Inv) := by
  obtain ⟨kept, sp, pools, hfree, hsame, hbits, hrelink, hkept, -⟩ :=
    h.inv.free_eq ((h.isSet_iff i).mpr hi) s.head s.pools
  refine ⟨kept, sp, pools, hfree, fun hstays => ?_⟩
  obtain ⟨hinv, hpool⟩ := hkept hstays
  refine ⟨hinv, ?_, ?_, ?_, ?_, ?_⟩
  · intro j
    rw [hbits, Bool.and_eq_true, h.isSet_iff, Finset.mem_erase, and_comm]
    simp
  · rw [hsame.runSize, hsame.pageShifts]
    exact h.pages
  · rw [hsame.maxNumElems]
    exact h.elements
  · intro head hhead
    rcases hpool with hpool | hpool
    · exact h.pool head (hpool ▸ hhead)
    · exact (Option.some.inj (hpool.symm.trans hhead)).symm
  · intro head
    rw [hsame.ref]
    exact count_of_relink hrelink h.links head

/-- Every step on a subpage that is not released keeps the invariant, or releases it. -/
theorem Inv.step {s t : SubpageLife} {call : SubpageCall} (h : s.Inv) (hstep : Step s call t)
    (hstays : t.released = false) : t.Inv := by
  cases hstep with
  | full _ hcall =>
    rcases Nat.eq_zero_or_pos s.subpage.numAvail with hzero | havail
    · rw [PoolSubpage.allocate, if_pos (.inl hzero), Option.some.injEq, Prod.mk.injEq,
        Prod.mk.injEq] at hcall
      obtain ⟨-, rfl, rfl⟩ := hcall
      exact h
    · obtain ⟨handle, sp, pools, hallocate, -⟩ := h.allocate havail
      simp [hcall] at hallocate
  | allocate _ hcall =>
    rcases Nat.eq_zero_or_pos s.subpage.numAvail with hzero | havail
    · rw [PoolSubpage.allocate, if_pos (.inl hzero)] at hcall
      simp at hcall
    · obtain ⟨handle, sp, pools, hallocate, -, -, hinv⟩ := h.allocate havail
      obtain ⟨hsome, rfl, rfl⟩ : _ ∧ _ ∧ _ := by simpa using hcall.symm.trans hallocate
      rw [hsome]
      exact hinv
  | free _ hmem hcall =>
    obtain ⟨kept, sp, pools, hfree, hinv⟩ := h.free hmem
    obtain ⟨rfl, rfl, rfl⟩ : _ ∧ _ ∧ _ := by simpa using hcall.symm.trans hfree
    exact hinv (by simpa using hstays)
  | others hlinks =>
    exact ⟨h.inv, h.isSet_iff, h.pages, h.elements, h.pool, fun head =>
      (hlinks head).trans (h.links head)⟩

/-- What is expected of a subpage in use: its counter, its bitmap, its hint and its link
agree, and neither `allocate` nor `free` fails. -/
structure Holds (s : SubpageLife) : Prop where
  /-- The counter is the number of clear bits among those of the elements. -/
  counted : s.subpage.numAvail = s.subpage.numClear
  beyond : ∀ i, s.subpage.maxNumElems ≤ i → s.subpage.isSet i = false
  hint : ∀ i, s.subpage.nextAvail = some i →
    i < s.subpage.maxNumElems ∧ s.subpage.isSet i = false
  /-- The searched words and the words of all elements are in the bitmap. -/
  indexed : s.subpage.bitmapLength ≤ s.subpage.bitmap.length ∧
    ∀ i < s.subpage.maxNumElems, i >>> 6 < s.subpage.bitmap.length
  finds : 0 < s.subpage.numAvail → ∃ i < s.subpage.maxNumElems,
    s.subpage.isSet i = false ∧ s.subpage.findNextAvail = some i
  allocates : 0 < s.subpage.numAvail → ∃ handle sp pools,
    s.subpage.allocate s.pools = some (some handle, sp, pools) ∧
    calculateBitmapIdx handle < s.subpage.maxNumElems ∧ calculateBitmapIdx handle ∉ s.allocated
  frees : ∀ i ∈ s.allocated, (s.subpage.free s.head i s.pools).isSome = true
  linked : ∀ head, s.subpage.ref ∈ s.pools head ↔ head = s.head ∧ 0 < s.subpage.numAvail

/-- The invariant says so. -/
theorem Inv.holds {s : SubpageLife} (h : s.Inv) : s.Holds where
  counted := h.inv.numAvail_eq
  beyond := by
    intro i hi
    by_contra hset
    have hlt := h.inv.beyond i (Bool.eq_true_of_not_eq_false hset)
    omega
  hint := h.inv.next
  indexed := by
    refine ⟨h.inv.covered, fun i hi => ?_⟩
    obtain ⟨word, hword, -⟩ := h.inv.toCore.getElem?_word hi
    exact (List.getElem?_eq_some_iff.mp hword).1
  finds := h.inv.findNextAvail_eq
  allocates := by
    intro havail
    obtain ⟨handle, sp, pools, hallocate, hlt, hnot, -⟩ := h.allocate havail
    exact ⟨handle, sp, pools, hallocate, hlt, hnot⟩
  frees := by
    intro i hi
    obtain ⟨kept, sp, pools, hfree, -⟩ := h.free hi
    rw [hfree]
    rfl
  linked := by
    intro head
    rw [← List.count_pos_iff, h.links head, ← h.inv.linked]
    constructor
    · intro hcount
      split at hcount
      · next hpool => exact ⟨h.pool head hpool, by simp [hpool]⟩
      · simp at hcount
    · rintro ⟨rfl, hsome⟩
      obtain ⟨head, hpool⟩ := Option.isSome_iff_exists.mp hsome
      rw [h.pool head hpool] at hpool
      rw [if_pos hpool]
      decide

/-- Until a subpage is released its bitmap, its counter, its hint and its link agree, and no
call on it fails, in whatever order its elements are taken and given back. -/
theorem holds_of_reachable {s : SubpageLife} (h : machine.Reachable s)
    (hkept : s.released = false) : s.Holds := by
  have hinv : s.released = false → s.Inv := by
    refine h.invariant (I := fun s => s.released = false → s.Inv) ?_ ?_
    · exact fun s hbuilt _ => .of_built hbuilt
    · intro s call t hs hstep hstays
      refine (hs ?_).step hstep hstays
      cases hstep with
      | full hrun _ | allocate hrun _ | free hrun _ _ => exact hrun
      | others _ => exact hstays
  exact (hinv hkept).holds

/-- A new subpage of two elements of 20480 bytes, alone in its pool. -/
def twoElements : SubpageLife where
  subpage := { PoolSubpage.construct 0 13 5 40960 20480 with pool := some 36 }
  pools := Function.update (fun _ => []) 36 [(0, 5)]
  head := 36

theorem built_twoElements : twoElements.Built := by
  have hsize : PoolConfig.default.sizeClass.sizeIdx2size 36 = 20480 := by decide +kernel
  refine ⟨.default, 40960, 0, 5, fun _ => [], by decide +kernel, by decide +kernel, by simp, ?_,
    rfl, rfl⟩
  rw [show twoElements.head = 36 from rfl, hsize]
  rfl

/-- After one element has been taken the subpage is in order. -/
theorem holds_of_reachable_twoElements :
    ∃ s, Step twoElements .allocate s ∧ s.released = false ∧ s.Holds := by
  have hinv := Inv.of_built built_twoElements
  obtain ⟨handle, sp, pools, hallocate, -⟩ := hinv.allocate (by decide)
  have hstep : Step twoElements .allocate _ := .allocate rfl hallocate
  have hreachable : machine.Reachable twoElements := .of_init built_twoElements
  exact ⟨_, hstep, rfl, holds_of_reachable (Machine.Reachable.tail hreachable hstep) rfl⟩

end SubpageLife

end DuoDuo.Buffer
