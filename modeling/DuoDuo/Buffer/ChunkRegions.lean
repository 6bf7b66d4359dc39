import DuoDuo.Buffer.ChunkRuns

/-!
# The regions of a chunk

A region in use is a run without a subpage, or an element of a subpage. Every
operation of a chunk changes the regions in use by the one it hands out or is given
back, and a subpage is linked in the pools while it has a free element.
-/

namespace DuoDuo.Buffer

open Library PoolChunk PoolSubpage

variable (k : PoolConfig)

/-- What holds of the subpage at run offset `o` of chunk `id`. -/
structure SubpageAt (id : ℕ) (blocks : ℕ → Option ℕ) (o : ℕ) (sp : PoolSubpage) : Prop where
  inv : sp.Inv
  chunk : sp.chunk = id
  runOffset : sp.runOffset = o
  pageShifts : sp.pageShifts = k.pageShifts
  run : ∃ run, blocks o = some run ∧ isUsed run = true ∧
    sp.runSize = calculateRunPages run * k.pageSize
  sizeIdx : ∃ i < k.numSizes, i < k.sizeClass.nSubpages ∧
    sp.elemSize = k.sizeClass.sizeIdx2size i ∧ ∀ j, sp.pool = some j → j = i

/-- What holds of chunk `id`, whose runs are `blocks`. -/
structure ChunkInv (id : ℕ) (c : PoolChunk) (blocks : ℕ → Option ℕ) : Prop where
  runs : Runs k c blocks
  offset : c.offset = 0
  subpage : ∀ o sp, c.subpages o = some sp → SubpageAt k id blocks o sp

/-- The regions that are in use in a chunk, by handle and size. -/
inductive Holds (c : PoolChunk) (blocks : ℕ → Option ℕ) : ℕ → ℕ → Prop
  | run {o handle : ℕ} : blocks o = some handle → isUsed handle = true → c.subpages o = none →
      Holds c blocks handle (calculateRunPages handle * k.pageSize)
  | element {o i : ℕ} {sp : PoolSubpage} : c.subpages o = some sp → sp.isSet i = true →
      Holds c blocks (sp.toHandle i) sp.elemSize

/-- The links of subpages agree with the lists of the pools. -/
def PoolsMatch (link : SubpageRef → Option ℕ) (pools : Pools) : Prop :=
  (∀ i ref, ref ∈ pools i ↔ link ref = some i) ∧ ∀ i, (pools i).Nodup

/-- A change of one link is followed by the pools. -/
theorem PoolsMatch.relink {link : SubpageRef → Option ℕ} {pools pools' : Pools}
    {sp sp' : PoolSubpage} (h : PoolsMatch link pools) (hlink : link sp.ref = sp.pool)
    (hrelink : sp.Relink sp' pools pools') :
    PoolsMatch (Function.update link sp.ref sp'.pool) pools' := by
  cases hrelink with
  | same hsame =>
    rw [hsame, ← hlink, Function.update_eq_self]
    exact h
  | @remove head hold hnew =>
    rw [hold] at hlink
    constructor
    · intro i ref
      by_cases hi : i = head
      · rw [hi, Function.update_self, (h.2 head).mem_erase_iff, h.1, hnew]
        by_cases href : ref = sp.ref
        · rw [href, Function.update_self]
          simp
        · rw [Function.update_of_ne href]
          simp [href]
      · rw [Function.update_of_ne hi, h.1, hnew]
        by_cases href : ref = sp.ref
        · rw [href, Function.update_self, hlink]
          simp [Ne.symm hi]
        · rw [Function.update_of_ne href]
    · intro i
      by_cases hi : i = head
      · rw [hi, Function.update_self]
        exact (h.2 head).erase _
      · rw [Function.update_of_ne hi]
        exact h.2 i
  | @add head hold hnew =>
    rw [hold] at hlink
    constructor
    · intro i ref
      by_cases hi : i = head
      · rw [hi, Function.update_self, List.mem_cons, h.1, hnew]
        by_cases href : ref = sp.ref
        · rw [href, Function.update_self]
          simp
        · rw [Function.update_of_ne href]
          simp [href]
      · rw [Function.update_of_ne hi, h.1, hnew]
        by_cases href : ref = sp.ref
        · rw [href, Function.update_self, hlink]
          simp [Ne.symm hi]
        · rw [Function.update_of_ne href]
    · intro i
      by_cases hi : i = head
      · rw [hi, Function.update_self, List.nodup_cons, h.1, hlink]
        exact ⟨by simp, h.2 head⟩
      · rw [Function.update_of_ne hi]
        exact h.2 i

variable {k} {id : ℕ} {c c' : PoolChunk} {blocks : ℕ → Option ℕ}

/-- The pages of a subpage, and bounds of its elements. -/
theorem SubpageAt.bounds {o : ℕ} {sp : PoolSubpage} (h : SubpageAt k id blocks o sp)
    (hr : Runs k c blocks) :
    ∃ run, blocks o = some run ∧ isUsed run = true ∧
      sp.runSize >>> sp.pageShifts = calculateRunPages run ∧ calculateRunPages run < 2 ^ 15 ∧
      ∀ i, sp.isSet i = true → i < 2 ^ 32 := by
  obtain ⟨run, hb, hused, hsize⟩ := h.run
  have hlt := (hr.lt hb).2
  refine ⟨run, hb, hused, ?_, hlt, fun i hi => ?_⟩
  · rw [hsize, h.pageShifts, Nat.shiftRight_eq_div_pow]
    exact Nat.mul_div_cancel _ (Nat.two_pow_pos _)
  · have hmax := h.inv.beyond i hi
    have hfits := h.inv.fits
    have helem := h.inv.elemSize_pos
    have hchunk : sp.runSize ≤ 2 ^ 30 := by
      rw [hsize]
      calc calculateRunPages run * k.pageSize ≤ k.chunkPages * k.pageSize := by
            apply Nat.mul_le_mul_right
            have hbound := hr.tiling.bounded hb
            omega
        _ = k.chunkSize := k.chunkSize_eq.symm
        _ ≤ 2 ^ 30 := k.chunkSize_le
    have hle : sp.maxNumElems ≤ sp.maxNumElems * sp.elemSize := Nat.le_mul_of_pos_right _ helem
    omega

/-- The regions in use depend on the subpages of a chunk only. -/
theorem Holds.congr {handle cap : ℕ} (hsub : c'.subpages = c.subpages)
    (h : Holds k c blocks handle cap) : Holds k c' blocks handle cap := by
  cases h with
  | run hb hused hnone => exact .run hb hused (hsub ▸ hnone)
  | element hsp hset => exact .element (hsub ▸ hsp) hset

/-- A region in use lies at its own offset, in a run in use. -/
theorem Holds.block {handle cap : ℕ} (h : Holds k c blocks handle cap) (hc : ChunkInv k id c blocks) :
    ∃ run, blocks (calculateRunOffset handle) = some run ∧ isUsed run = true ∧
      calculateRunPages handle = calculateRunPages run ∧
      ((isSubpage handle = false ∧ run = handle ∧
          c.subpages (calculateRunOffset handle) = none ∧
          cap = calculateRunPages handle * k.pageSize) ∨
        ∃ sp, isSubpage handle = true ∧ c.subpages (calculateRunOffset handle) = some sp ∧
          sp.isSet (calculateBitmapIdx handle) = true ∧
          handle = sp.toHandle (calculateBitmapIdx handle) ∧ cap = sp.elemSize) := by
  cases h with
  | run hb hused hsub =>
    have ho := hc.runs.offset hb
    rw [ho]
    exact ⟨handle, hb, hused, rfl, Or.inl ⟨hc.runs.isRun hb, rfl, hsub, rfl⟩⟩
  | @element o i sp hsp hset =>
    have hat := hc.subpage o sp hsp
    obtain ⟨run, hb, hused, hpages, hlt, hidx⟩ := hat.bounds hc.runs
    have hi := hidx i hset
    rw [calculateRunOffset_toHandle hpages hlt hi, calculateRunPages_toHandle hpages hlt hi,
      hat.runOffset, calculateBitmapIdx_toHandle hpages hlt hi]
    exact ⟨run, hb, hused, rfl,
      Or.inr ⟨sp, isSubpage_toHandle hpages hlt hi, hsp, hset, rfl, rfl⟩⟩

/-- A region in use is kept under one size. -/
theorem Holds.cap_unique {handle cap cap' : ℕ} (hc : ChunkInv k id c blocks)
    (h : Holds k c blocks handle cap) (h' : Holds k c blocks handle cap') : cap = cap' := by
  obtain ⟨_, _, _, _, ⟨hsub, _, _, hcap⟩ | ⟨sp, hsub, hsp, _, _, hcap⟩⟩ := h.block hc <;>
  obtain ⟨_, _, _, _, ⟨hsub', _, _, hcap'⟩ | ⟨sp', hsub', hsp', _, _, hcap'⟩⟩ := h'.block hc
  · rw [hcap, hcap']
  · rw [hsub] at hsub'
    cases hsub'
  · rw [hsub] at hsub'
    cases hsub'
  · rw [hsp] at hsp'
    cases hsp'
    rw [hcap, hcap']

/-- The handle of a run is not in use as long as the run is available. -/
theorem ChunkInv.not_holds (hc : ChunkInv k id c blocks) {o run handle cap : ℕ}
    (hb : blocks o = some run) (hfree : isUsed run = false)
    (ho : calculateRunOffset handle = o) : ¬Holds k c blocks handle cap := by
  intro hholds
  obtain ⟨run', hb', hused, _⟩ := hholds.block hc
  rw [ho, hb] at hb'
  cases hb'
  rw [hfree] at hused
  cases hused

/-- An available run carries no subpage. -/
theorem ChunkInv.subpage_none (hc : ChunkInv k id c blocks) {o run : ℕ}
    (hb : blocks o = some run) (hfree : isUsed run = false) : c.subpages o = none := by
  rcases hsp : c.subpages o with _ | sp
  · rfl
  · obtain ⟨run', hb', hused, _⟩ := (hc.subpage o sp hsp).run
    rw [hb] at hb'
    cases hb'
    rw [hfree] at hused
    cases hused

/-- A run that was allocated is one more region in use. -/
theorem ChunkInv.allocateRun (hc : ChunkInv k id c blocks) {runSize handle : ℕ}
    (h : c.allocateRun k.sizeClass runSize = some (some handle, c')) :
    ∃ blocks', ChunkInv k id c' blocks' ∧ c'.subpages = c.subpages ∧ c'.parent = c.parent ∧
      c'.cachedBuffers = c.cachedBuffers ∧
      c.subpages (calculateRunOffset handle) = none ∧
      blocks' (calculateRunOffset handle) = some handle ∧ isUsed handle = true ∧
      calculateRunPages handle = runSize >>> k.pageShifts ∧
      (∀ h cap, Holds k c' blocks' h cap ↔ Holds k c blocks h cap ∨
        (h = handle ∧ cap = calculateRunPages handle * k.pageSize)) ∧
      ∀ h cap, calculateRunOffset h = calculateRunOffset handle → ¬Holds k c blocks h cap := by
  obtain ⟨o, run, blocks', hb, hfree, hb', hused, hpages, hruns, hrest, hins⟩ :=
    hc.runs.allocateRun h
  have ho := hruns.offset hb'
  subst ho
  have hnone := hc.subpage_none hb hfree
  refine ⟨blocks', ⟨hruns, hrest.offset.trans hc.offset, ?_⟩, hrest.subpages, hrest.parent,
    hrest.cachedBuffers, hnone, hb', hused, hpages, ?_, fun _ _ ho => hc.not_holds hb hfree ho⟩
  · intro o sp hsp
    rw [hrest.subpages] at hsp
    have hat := hc.subpage o sp hsp
    obtain ⟨run', hrun', hused', hsize⟩ := hat.run
    exact { hat with run := ⟨run', (hins o run' hused').mpr (Or.inl hrun'), hused', hsize⟩ }
  · intro h cap
    constructor
    · intro hholds
      cases hholds with
      | run hb₁ hused₁ hsub =>
        rw [hrest.subpages] at hsub
        rcases (hins _ _ hused₁).mp hb₁ with hold | ⟨rfl, rfl⟩
        · exact Or.inl (.run hold hused₁ hsub)
        · exact Or.inr ⟨rfl, rfl⟩
      | element hsp hset =>
        rw [hrest.subpages] at hsp
        exact Or.inl (.element hsp hset)
    · rintro (hholds | ⟨rfl, rfl⟩)
      · cases hholds with
        | run hb₁ hused₁ hsub =>
          exact .run ((hins _ _ hused₁).mpr (Or.inl hb₁)) hused₁ (hrest.subpages ▸ hsub)
        | element hsp hset => exact .element (hrest.subpages ▸ hsp) hset
      · exact .run hb' hused (hrest.subpages ▸ hnone)

/-- The loops of `calculateRunSize` keep to whole pages. -/
theorem growRun_dvd {pageSize elemSize maxElements : ℕ} :
    ∀ fuel runSize, pageSize ∣ runSize →
      pageSize ∣ growRun pageSize elemSize maxElements fuel runSize := by
  intro fuel
  induction fuel with
  | zero =>
    intro runSize h
    exact h
  | succ fuel ih =>
    intro runSize h
    unfold growRun
    dsimp only
    split
    · exact ih _ (Nat.dvd_add h (Nat.dvd_refl _))
    · exact Nat.dvd_add h (Nat.dvd_refl _)

theorem shrinkRun_dvd {pageSize elemSize maxElements : ℕ} :
    ∀ fuel runSize, pageSize ∣ runSize →
      pageSize ∣ shrinkRun pageSize elemSize maxElements fuel runSize := by
  intro fuel
  induction fuel with
  | zero =>
    intro runSize h
    exact h
  | succ fuel ih =>
    intro runSize h
    unfold shrinkRun
    split
    · exact ih _ (Nat.dvd_sub h (Nat.dvd_refl _))
    · exact h

/-- A run for a subpage has whole pages and holds at least one element. -/
theorem calculateRunSize_spec {sizeIdx runSize : ℕ}
    (h : calculateRunSize k.sizeClass sizeIdx = some runSize) :
    k.pageSize ∣ runSize ∧ k.sizeClass.sizeIdx2size sizeIdx ≤ runSize := by
  unfold calculateRunSize at h
  dsimp only at h
  split_ifs at h with hguard
  cases h
  exact ⟨shrinkRun_dvd _ _ (growRun_dvd _ _ (Nat.dvd_zero _)), hguard.2.2⟩

/-- A run with the pages of a size that is whole pages has that size. -/
theorem runSize_of_dvd {runSize handle : ℕ} (hdvd : k.pageSize ∣ runSize)
    (hpages : calculateRunPages handle = runSize >>> k.pageShifts) :
    PoolChunk.runSize k.pageShifts handle = runSize := by
  rw [PoolChunk.runSize, hpages, Nat.shiftLeft_eq, Nat.shiftRight_eq_div_pow]
  exact Nat.div_mul_cancel hdvd

/-- The elements of a small class have at least sixteen bytes, and the run that is found
for them holds one of them and consists of whole units of 1024 bytes. -/
theorem elements_of_calculateRunSize {sizeIdx runSize : ℕ}
    (h : calculateRunSize k.sizeClass sizeIdx = some runSize)
    (hsub : sizeIdx < k.sizeClass.nSubpages) :
    16 ≤ k.sizeClass.sizeIdx2size sizeIdx ∧ k.sizeClass.sizeIdx2size sizeIdx ≤ runSize ∧
      1024 ∣ runSize := by
  obtain ⟨hdvd, hfit⟩ := calculateRunSize_spec h
  refine ⟨?_, hfit, Dvd.dvd.trans ?_ hdvd⟩
  · have hpos := ladder_pos sizeIdx
    rw [PoolConfig.nSubpages_sizeClass] at hsub
    rw [k.sizeIdx2size_eq (by omega)]
    omega
  · exact Nat.pow_dvd_pow 2 (show 10 ≤ k.pageShifts from le_trans (by decide) k.minPageSize)

/-- What `allocateSubpage` does: it may find no run, or it builds a subpage in one and
takes its first element. -/
theorem allocateSubpage_cases {sc : SizeClass} {pools pools' : Pools} {sizeIdx : ℕ} {r : Option ℕ}
    (h : c.allocateSubpage sc id pools sizeIdx = some (r, c', pools')) :
    ∃ head runSize, findSubpagePoolHead sc sizeIdx = some head ∧
      calculateRunSize sc sizeIdx = some runSize ∧
      ((c.allocateRun sc runSize = some (none, c') ∧ r = none ∧ pools' = pools) ∨
        ∃ run c₁ sp pools₁ sp', c.allocateRun sc runSize = some (some run, c₁) ∧
          c₁.subpages (calculateRunOffset run) = none ∧
          PoolSubpage.new head id sc.pageShifts (calculateRunOffset run)
            (PoolChunk.runSize sc.pageShifts run) (sc.sizeIdx2size sizeIdx) pools =
              some (sp, pools₁) ∧
          sp.allocate pools₁ = some (r, sp', pools') ∧
          c' = c₁.setSubpage (calculateRunOffset run) (some sp')) := by
  unfold allocateSubpage at h
  obtain ⟨head, hhead, h⟩ := Option.bind_eq_some_iff.mp h
  obtain ⟨runSize, hsize, h⟩ := Option.bind_eq_some_iff.mp h
  obtain ⟨⟨res, c₁⟩, hrun, h⟩ := Option.bind_eq_some_iff.mp h
  refine ⟨head, runSize, hhead, hsize, ?_⟩
  cases res with
  | none =>
    cases h
    exact Or.inl ⟨hrun, rfl, rfl⟩
  | some run =>
    dsimp only at h
    split_ifs at h with hnone
    obtain ⟨⟨sp, pools₁⟩, hnew, h⟩ := Option.bind_eq_some_iff.mp h
    obtain ⟨⟨r', sp', pools₂⟩, halloc, h⟩ := Option.bind_eq_some_iff.mp h
    cases h
    exact Or.inr ⟨run, c₁, sp, pools₁, sp', hrun, by simpa using hnone, hnew, halloc, rfl⟩

/-- A chunk may carry a subpage on any of its runs in use. -/
theorem ChunkInv.setSubpage (hc : ChunkInv k id c blocks) {o : ℕ} {sp : Option PoolSubpage}
    (hsp : ∀ sp', sp = some sp' → SubpageAt k id blocks o sp') :
    ChunkInv k id (c.setSubpage o sp) blocks where
  runs := ⟨hc.runs.tiling, hc.runs.coalesced, hc.runs.offset, hc.runs.isRun,
    hc.runs.filed.congr rfl rfl, hc.runs.freeBytes⟩
  offset := hc.offset
  subpage := by
    intro o' sp' h
    by_cases ho : o' = o
    · rw [ho] at h ⊢
      rw [subpages_setSubpage_self] at h
      exact hsp sp' h
    · rw [subpages_setSubpage_of_ne c ho] at h
      exact hc.subpage o' sp' h

/-- Away from one run offset, a subpage changes no region. -/
theorem holds_setSubpage_of_ne (hc : ChunkInv k id c blocks) {o h cap : ℕ}
    {sp : Option PoolSubpage} (hsp : ∀ sp', sp = some sp' → SubpageAt k id blocks o sp')
    (ho : calculateRunOffset h ≠ o) :
    Holds k (c.setSubpage o sp) blocks h cap ↔ Holds k c blocks h cap := by
  have hother : ∀ {o'}, o' ≠ o → (c.setSubpage o sp).subpages o' = c.subpages o' :=
    fun hne => subpages_setSubpage_of_ne c hne sp
  constructor
  · intro hholds
    cases hholds with
    | @run o' _ hb hused hsub =>
      have hne : o' ≠ o := by rwa [hc.runs.offset hb] at ho
      exact .run hb hused ((hother hne).symm.trans hsub)
    | @element o' i sp' hsub hset =>
      have hat := (hc.setSubpage hsp).subpage o' sp' hsub
      obtain ⟨run, hb, hused, hpages, hlt, hidx⟩ := hat.bounds hc.runs
      have hne : o' ≠ o := by
        rw [calculateRunOffset_toHandle hpages hlt (hidx i hset), hat.runOffset] at ho
        exact ho
      exact .element ((hother hne).symm.trans hsub) hset
  · intro hholds
    cases hholds with
    | @run o' _ hb hused hsub =>
      have hne : o' ≠ o := by rwa [hc.runs.offset hb] at ho
      exact .run hb hused ((hother hne).trans hsub)
    | @element o' i sp' hsub hset =>
      have hat := hc.subpage o' sp' hsub
      obtain ⟨run, hb, hused, hpages, hlt, hidx⟩ := hat.bounds hc.runs
      have hne : o' ≠ o := by
        rw [calculateRunOffset_toHandle hpages hlt (hidx i hset), hat.runOffset] at ho
        exact ho
      exact .element ((hother hne).trans hsub) hset

/-- The regions in use at the run offset of a subpage are its elements in use. -/
theorem ChunkInv.holds_subpage_iff (hc : ChunkInv k id c blocks) {o h cap : ℕ} {sp : PoolSubpage}
    (hsp : c.subpages o = some sp) (ho : calculateRunOffset h = o) :
    Holds k c blocks h cap ↔
      ∃ i, sp.isSet i = true ∧ h = sp.toHandle i ∧ cap = sp.elemSize := by
  constructor
  · intro hholds
    obtain ⟨run, _, _, _, ⟨_, _, hnone, _⟩ | ⟨sp', _, hsp', hset, heq, hcap⟩⟩ := hholds.block hc
    · rw [ho, hsp] at hnone
      cases hnone
    · rw [ho, hsp] at hsp'
      cases hsp'
      exact ⟨_, hset, heq, hcap⟩
  · rintro ⟨i, hset, rfl, rfl⟩
    exact .element hsp hset

/-- The region in use at the run offset of a run without a subpage is the run. -/
theorem ChunkInv.holds_run_iff (hc : ChunkInv k id c blocks) {o run h cap : ℕ}
    (hb : blocks o = some run) (hused : isUsed run = true) (hsp : c.subpages o = none)
    (ho : calculateRunOffset h = o) :
    Holds k c blocks h cap ↔ h = run ∧ cap = calculateRunPages run * k.pageSize := by
  constructor
  · intro hholds
    obtain ⟨run', hb', _, _, ⟨_, heq, _, hcap⟩ | ⟨sp', _, hsp', _⟩⟩ := hholds.block hc
    · rw [ho, hb] at hb'
      cases hb'
      subst heq
      exact ⟨rfl, hcap⟩
    · rw [ho, hsp] at hsp'
      cases hsp'
  · rintro ⟨rfl, rfl⟩
    exact .run hb hused hsp

/-- Taking an element of a subpage is one more region in use. -/
theorem holds_setSubpage_taken (hc : ChunkInv k id c blocks) {o i : ℕ} {sp sp' : PoolSubpage}
    (hsp : c.subpages o = some sp) (hat : SubpageAt k id blocks o sp') (hsame : SameRun sp sp')
    (hbits : ∀ j, sp'.isSet j = (sp.isSet j || (j = i : Bool))) (h cap : ℕ) :
    Holds k (c.setSubpage o (some sp')) blocks h cap ↔
      Holds k c blocks h cap ∨ (h = sp.toHandle i ∧ cap = sp.elemSize) := by
  have hsp' := subpages_setSubpage_self c o (some sp')
  have hnew : ∀ sp'', some sp' = some sp'' → SubpageAt k id blocks o sp'' := by
    rintro sp'' ⟨⟩
    exact hat
  have hc' := hc.setSubpage hnew
  obtain ⟨run, hb, hused, hpages, hlt, hidx⟩ := hat.bounds hc.runs
  have hi : i < 2 ^ 32 := hidx i (by rw [hbits]; simp)
  have hoff : calculateRunOffset (sp.toHandle i) = o := by
    rw [← hsame.toHandle, calculateRunOffset_toHandle hpages hlt hi, hat.runOffset]
  by_cases ho : calculateRunOffset h = o
  · rw [hc'.holds_subpage_iff hsp' ho, hc.holds_subpage_iff hsp ho]
    constructor
    · rintro ⟨j, hset, rfl, rfl⟩
      rw [hbits, Bool.or_eq_true, decide_eq_true_eq] at hset
      rw [hsame.toHandle, hsame.elemSize]
      rcases hset with hset | rfl
      · exact Or.inl ⟨j, hset, rfl, rfl⟩
      · exact Or.inr ⟨rfl, rfl⟩
    · rintro (⟨j, hset, rfl, rfl⟩ | ⟨rfl, rfl⟩)
      · exact ⟨j, by rw [hbits, hset, Bool.true_or], (hsame.toHandle j).symm, hsame.elemSize.symm⟩
      · exact ⟨i, by rw [hbits]; simp, (hsame.toHandle i).symm, hsame.elemSize.symm⟩
  · rw [holds_setSubpage_of_ne hc hnew ho]
    constructor
    · exact Or.inl
    · rintro (hholds | ⟨rfl, _⟩)
      · exact hholds
      · exact absurd hoff ho

/-- Giving an element of a subpage back is one region in use less. -/
theorem holds_setSubpage_freed (hc : ChunkInv k id c blocks) {o i : ℕ} {sp sp' : PoolSubpage}
    (hsp : c.subpages o = some sp) (hat : SubpageAt k id blocks o sp') (hsame : SameRun sp sp')
    (hset : sp.isSet i = true) (hbits : ∀ j, sp'.isSet j = (sp.isSet j && !(j = i : Bool)))
    (h cap : ℕ) :
    Holds k (c.setSubpage o (some sp')) blocks h cap ↔
      Holds k c blocks h cap ∧ h ≠ sp.toHandle i := by
  have hsp' := subpages_setSubpage_self c o (some sp')
  have hnew : ∀ sp'', some sp' = some sp'' → SubpageAt k id blocks o sp'' := by
    rintro sp'' ⟨⟩
    exact hat
  have hc' := hc.setSubpage hnew
  have hatold := hc.subpage o sp hsp
  obtain ⟨run, hb, hused, hpages, hlt, hidx⟩ := hatold.bounds hc.runs
  have hi : i < 2 ^ 32 := hidx i hset
  have hoff : calculateRunOffset (sp.toHandle i) = o := by
    rw [calculateRunOffset_toHandle hpages hlt hi, hatold.runOffset]
  by_cases ho : calculateRunOffset h = o
  · rw [hc'.holds_subpage_iff hsp' ho, hc.holds_subpage_iff hsp ho]
    constructor
    · rintro ⟨j, hset', rfl, rfl⟩
      rw [hbits, Bool.and_eq_true, Bool.not_eq_true', decide_eq_false_iff_not] at hset'
      rw [hsame.toHandle, hsame.elemSize]
      refine ⟨⟨j, hset'.1, rfl, rfl⟩, fun heq => hset'.2 ?_⟩
      have hidxeq := congrArg calculateBitmapIdx heq
      rwa [calculateBitmapIdx_toHandle hpages hlt (hidx j hset'.1),
        calculateBitmapIdx_toHandle hpages hlt hi] at hidxeq
    · rintro ⟨⟨j, hset', rfl, rfl⟩, hne⟩
      have hji : j ≠ i := fun heq => hne (heq ▸ rfl)
      refine ⟨j, ?_, (hsame.toHandle j).symm, hsame.elemSize.symm⟩
      rw [hbits, hset', decide_eq_false hji]
      rfl
  · rw [holds_setSubpage_of_ne hc hnew ho]
    constructor
    · intro hholds
      refine ⟨hholds, ?_⟩
      rintro rfl
      exact ho hoff
    · exact And.left

/-- A subpage that has changed in its elements and links only is still in its place. -/
theorem SubpageAt.of_sameRun {o : ℕ} {sp sp' : PoolSubpage} (hat : SubpageAt k id blocks o sp)
    (hsame : SameRun sp sp') (hinv : sp'.Inv)
    (hpool : ∀ i j, i < k.numSizes → sp.elemSize = k.sizeClass.sizeIdx2size i →
      sp'.pool = some j → sp.pool = some j ∨ j = i) : SubpageAt k id blocks o sp' where
  inv := hinv
  chunk := hsame.chunk.trans hat.chunk
  runOffset := hsame.runOffset.trans hat.runOffset
  pageShifts := hsame.pageShifts.trans hat.pageShifts
  run := by
    rw [hsame.runSize]
    exact hat.run
  sizeIdx := by
    obtain ⟨i, hi, hsub, helem, hclass⟩ := hat.sizeIdx
    refine ⟨i, hi, hsub, hsame.elemSize.trans helem, fun j hj => ?_⟩
    rcases hpool i j hi helem hj with h | h
    · exact hclass j h
    · exact h

/-- A subpage with a free element gives one out. -/
theorem ChunkInv.allocateElement (hc : ChunkInv k id c blocks) {o : ℕ} {sp : PoolSubpage}
    (hsp : c.subpages o = some sp) (havail : 0 < sp.numAvail) (pools : Pools) :
    ∃ i sp' pools', sp.allocate pools = some (some (sp.toHandle i), sp', pools') ∧
      SubpageAt k id blocks o sp' ∧ SameRun sp sp' ∧ sp'.isSet i = true ∧
      sp.Relink sp' pools pools' ∧ ChunkInv k id (c.setSubpage o (some sp')) blocks ∧
      (∀ h cap, Holds k (c.setSubpage o (some sp')) blocks h cap ↔
        Holds k c blocks h cap ∨ (h = sp.toHandle i ∧ cap = sp.elemSize)) ∧
      ∀ cap, ¬Holds k c blocks (sp.toHandle i) cap := by
  have hat := hc.subpage o sp hsp
  obtain ⟨i, sp', pools', hi, hclear, halloc, hinv, hsame, hbits, hrelink⟩ :=
    hat.inv.allocate_eq havail pools
  have hpool : sp'.pool = sp.pool ∨ sp'.pool = none := by
    cases hrelink with
    | same h => exact Or.inl h
    | remove _ h => exact Or.inr h
    | add h _ =>
      have hlinked := hat.inv.linked.mpr havail
      rw [h] at hlinked
      cases hlinked
  have hat' : SubpageAt k id blocks o sp' := by
    refine hat.of_sameRun hsame hinv fun _ j _ _ hj => ?_
    rcases hpool with h | h
    · exact Or.inl (h ▸ hj)
    · rw [h] at hj
      cases hj
  have hset : sp'.isSet i = true := by rw [hbits]; simp
  obtain ⟨run, hb, hused, hpages, hlt, hidx⟩ := hat'.bounds hc.runs
  have hi' : i < 2 ^ 32 := hidx i hset
  refine ⟨i, sp', pools', halloc, hat', hsame, hset, hrelink, hc.setSubpage ?_,
    holds_setSubpage_taken hc hsp hat' hsame hbits, fun cap hholds => ?_⟩
  · rintro _ ⟨⟩
    exact hat'
  · have hoff : calculateRunOffset (sp.toHandle i) = o := by
      rw [← hsame.toHandle, calculateRunOffset_toHandle hpages hlt hi', hat'.runOffset]
    obtain ⟨j, hsetj, heq, _⟩ := (hc.holds_subpage_iff hsp hoff).mp hholds
    obtain ⟨run', _, _, hpages', hlt', hidx'⟩ := hat.bounds hc.runs
    have hij := congrArg calculateBitmapIdx heq
    rw [calculateBitmapIdx_toHandle hpages' hlt' hi',
      calculateBitmapIdx_toHandle hpages' hlt' (hidx' j hsetj)] at hij
    rw [hij, hsetj] at hclear
    cases hclear

/-- The subpage that `allocateSubpage` builds on a new run in use. -/
theorem subpageAt_construct {run runSize sizeIdx : ℕ}
    (hb : blocks (calculateRunOffset run) = some run) (hused : isUsed run = true)
    (hsize : calculateRunSize k.sizeClass sizeIdx = some runSize)
    (hpages : calculateRunPages run = runSize >>> k.pageShifts)
    (hsub : sizeIdx < k.sizeClass.nSubpages) :
    SubpageAt k id blocks (calculateRunOffset run)
      { PoolSubpage.construct id k.pageShifts (calculateRunOffset run)
        (PoolChunk.runSize k.pageShifts run) (k.sizeClass.sizeIdx2size sizeIdx) with
        pool := some sizeIdx } ∧
      0 < (PoolSubpage.construct id k.pageShifts (calculateRunOffset run)
        (PoolChunk.runSize k.pageShifts run) (k.sizeClass.sizeIdx2size sizeIdx)).numAvail ∧
      ∀ i, (PoolSubpage.construct id k.pageShifts (calculateRunOffset run)
        (PoolChunk.runSize k.pageShifts run) (k.sizeClass.sizeIdx2size sizeIdx)).isSet i = false := by
  obtain ⟨hdvd, -⟩ := calculateRunSize_spec hsize
  have hsizes : sizeIdx < k.numSizes := by
    rw [PoolConfig.nSubpages_sizeClass] at hsub
    omega
  have hruns : PoolChunk.runSize k.pageShifts run = runSize := runSize_of_dvd hdvd hpages
  obtain ⟨helem, hfit, hunit⟩ := elements_of_calculateRunSize hsize hsub
  obtain ⟨hcore, hpos, hclear⟩ := @PoolSubpage.construct_core id k.pageShifts
    (calculateRunOffset run) _ _ helem (hruns ▸ hfit) (hruns ▸ hunit)
  refine ⟨⟨⟨⟨hcore.elemSize_pos, hcore.fits, hcore.words, hcore.covered, hcore.bitmapLength_eq,
    hcore.next, hcore.numAvail_eq, hcore.beyond⟩, rfl, ?_⟩, rfl, rfl, rfl, ?_, ?_⟩, hpos, hclear⟩
  · simp only [Option.isSome_some, true_iff]
    exact hpos
  · refine ⟨run, hb, hused, ?_⟩
    exact Nat.shiftLeft_eq _ _
  · refine ⟨sizeIdx, hsizes, hsub, rfl, ?_⟩
    rintro j ⟨⟩
    rfl

/-- A new subpage on a run that was allocated for it gives out its first element. -/
theorem ChunkInv.newSubpage (hc : ChunkInv k id c blocks) {pools : Pools}
    {link : SubpageRef → Option ℕ} (hp : PoolsMatch link pools)
    (hlink : ∀ o, c.subpages o = none → link (id, o) = none) {sizeIdx runSize run : ℕ}
    {c₁ : PoolChunk} (hlt : sizeIdx < k.sizeClass.nSubpages)
    (hsize : calculateRunSize k.sizeClass sizeIdx = some runSize)
    (hrun : c.allocateRun k.sizeClass runSize = some (some run, c₁)) :
    ∃ o sp₁ pools₁ sp i pools' blocks', calculateRunOffset run = o ∧ c₁.subpages o = none ∧
      PoolSubpage.new sizeIdx id k.sizeClass.pageShifts o
        (PoolChunk.runSize k.sizeClass.pageShifts run) (k.sizeClass.sizeIdx2size sizeIdx) pools =
          some (sp₁, pools₁) ∧
      sp₁.allocate pools₁ = some (some (sp.toHandle i), sp, pools') ∧ sp.isSet i = true ∧
      c.subpages o = none ∧ ChunkInv k id (c₁.setSubpage o (some sp)) blocks' ∧
      c₁.subpages = c.subpages ∧ c₁.parent = c.parent ∧ c₁.cachedBuffers = c.cachedBuffers ∧
      PoolsMatch (Function.update link (id, o) sp.pool) pools' ∧
      sp.elemSize = k.sizeClass.sizeIdx2size sizeIdx ∧
      (∀ h cap, Holds k (c₁.setSubpage o (some sp)) blocks' h cap ↔
        Holds k c blocks h cap ∨ (h = sp.toHandle i ∧ cap = sp.elemSize)) ∧
      ∀ cap, ¬Holds k c blocks (sp.toHandle i) cap := by
  obtain ⟨blocks', hc₁, hsub₁, hparent, hcached, hnone, hb', hused, hpages, hholds₁, hfresh⟩ :=
    hc.allocateRun hrun
  obtain ⟨hat₀, hpos, hclear⟩ := @subpageAt_construct _ id _ _ _ _ hb' hused hsize hpages hlt
  obtain ⟨o, ho⟩ : ∃ o, calculateRunOffset run = o := ⟨_, rfl⟩
  obtain ⟨sp₁, hsp₁⟩ : ∃ sp₁, sp₁ = PoolSubpage.construct id k.pageShifts (calculateRunOffset run)
    (PoolChunk.runSize k.pageShifts run) (k.sizeClass.sizeIdx2size sizeIdx) := ⟨_, rfl⟩
  rw [← hsp₁] at hat₀ hpos hclear
  have hpool₁ : sp₁.pool = none := by rw [hsp₁]; rfl
  have href : sp₁.ref = (id, o) := by rw [hsp₁, ← ho]; rfl
  have helem : sp₁.elemSize = k.sizeClass.sizeIdx2size sizeIdx := by rw [hsp₁]; rfl
  rw [ho] at hb' hnone hfresh hat₀
  -- The new subpage is linked, and nothing is in use in it.
  obtain ⟨sp₂, hsp₂⟩ : ∃ sp₂ : PoolSubpage, sp₂ = { sp₁ with pool := some sizeIdx } := ⟨_, rfl⟩
  have hnew : PoolSubpage.new sizeIdx id k.sizeClass.pageShifts o
      (PoolChunk.runSize k.sizeClass.pageShifts run) (k.sizeClass.sizeIdx2size sizeIdx) pools =
        some (sp₂, Function.update pools sizeIdx (sp₁.ref :: pools sizeIdx)) := by
    rw [PoolSubpage.new, PoolConfig.pageShifts_sizeClass, ← ho, ← hsp₁, PoolSubpage.addToPool,
      hpool₁, hsp₂]
    rfl
  rw [← hsp₂] at hat₀
  have hp₁ : PoolsMatch (Function.update link sp₁.ref sp₂.pool)
      (Function.update pools sizeIdx (sp₁.ref :: pools sizeIdx)) := by
    refine hp.relink ?_ (.add hpool₁ (by rw [hsp₂]))
    rw [href, hpool₁, hlink o hnone]
  have hc₂ : ChunkInv k id (c₁.setSubpage o (some sp₂)) blocks' := by
    refine hc₁.setSubpage ?_
    rintro _ ⟨⟩
    exact hat₀
  have hholds₂ : ∀ h cap, Holds k (c₁.setSubpage o (some sp₂)) blocks' h cap ↔
      Holds k c blocks h cap := by
    intro h cap
    by_cases hoff : calculateRunOffset h = o
    · rw [hc₂.holds_subpage_iff (subpages_setSubpage_self _ _ _) hoff]
      constructor
      · rintro ⟨i, hset, _⟩
        have hzero : sp₂.isSet i = false := by rw [hsp₂]; exact hclear i
        rw [hzero] at hset
        cases hset
      · intro hholds
        exact absurd hholds (hfresh h cap hoff)
    · rw [holds_setSubpage_of_ne hc₁ (by rintro _ ⟨⟩; exact hat₀) hoff, hholds₁]
      constructor
      · rintro (hholds | ⟨rfl, _⟩)
        · exact hholds
        · exact absurd ho hoff
      · exact Or.inl
  have hself := subpages_setSubpage_self c₁ o (some sp₂)
  obtain ⟨i, sp₃, pools₂, halloc, hat₃, hsame, hset, hrelink, hc₃, hholds₃, hnew₃⟩ :=
    hc₂.allocateElement hself (by rw [hsp₂]; exact hpos)
      (Function.update pools sizeIdx (sp₁.ref :: pools sizeIdx))
  have htwice : (c₁.setSubpage o (some sp₂)).setSubpage o (some sp₃) =
      c₁.setSubpage o (some sp₃) := by
    simp only [PoolChunk.setSubpage, Function.update_idem]
  rw [htwice] at hc₃ hholds₃
  have href₂ : sp₂.ref = (id, o) := by rw [hsp₂]; exact href
  have hp₂ := hp₁.relink (by rw [href, href₂, Function.update_self]) hrelink
  rw [href, href₂, Function.update_idem] at hp₂
  refine ⟨o, sp₂, _, sp₃, i, pools₂, blocks', ho, by rw [hsub₁]; exact hnone, hnew, ?_, hset, hnone,
    hc₃, hsub₁, hparent, hcached, hp₂, ?_, fun h cap => ?_, fun cap hholds => ?_⟩
  · rw [hsame.toHandle]
    exact halloc
  · rw [hsame.elemSize, ← helem, hsp₂]
  · rw [hholds₃, hholds₂, hsame.toHandle, hsame.elemSize]
  · rw [hsame.toHandle] at hholds
    exact hnew₃ cap ((hholds₂ _ _).mpr hholds)

/-- `allocateSubpage` finds no run, or it gives out the first element of a new
subpage. -/
theorem ChunkInv.allocateSubpage (hc : ChunkInv k id c blocks) {pools pools' : Pools}
    {link : SubpageRef → Option ℕ} (hp : PoolsMatch link pools)
    (hlink : ∀ o, c.subpages o = none → link (id, o) = none) {sizeIdx : ℕ} {r : Option ℕ}
    (h : c.allocateSubpage k.sizeClass id pools sizeIdx = some (r, c', pools')) :
    (r = none ∧ c' = c ∧ pools' = pools) ∨
      ∃ o sp i blocks', r = some (sp.toHandle i) ∧ c.subpages o = none ∧
        ChunkInv k id c' blocks' ∧ c'.subpages = Function.update c.subpages o (some sp) ∧
        c'.parent = c.parent ∧ c'.cachedBuffers = c.cachedBuffers ∧
        PoolsMatch (Function.update link (id, o) sp.pool) pools' ∧
        sp.elemSize = k.sizeClass.sizeIdx2size sizeIdx ∧
        (∀ h cap, Holds k c' blocks' h cap ↔
          Holds k c blocks h cap ∨ (h = sp.toHandle i ∧ cap = sp.elemSize)) ∧
        ∀ cap, ¬Holds k c blocks (sp.toHandle i) cap := by
  obtain ⟨head, runSize, hhead, hsize, hcases⟩ := allocateSubpage_cases h
  rcases hcases with ⟨hrun, rfl, rfl⟩ | ⟨run, c₁, sp₀, pools₁, sp', hrun, -, hnew, halloc, rfl⟩
  · rcases allocateRun_cases hrun with ⟨_, rfl⟩ | ⟨_, _, _, _, _, _, _, hres, _⟩
    · exact Or.inl ⟨rfl, rfl, rfl⟩
    · cases hres
  have hheads : head = sizeIdx ∧ sizeIdx < k.sizeClass.nSubpages := by
    unfold findSubpagePoolHead at hhead
    split_ifs at hhead with hlt
    cases hhead
    exact ⟨rfl, hlt⟩
  obtain ⟨rfl, hlt⟩ := hheads
  obtain ⟨o, sp₁, _, sp, i, pools₂, blocks', rfl, _, hnew', halloc', _, hnone, hc', hsub, hparent,
    hcached, hp', helem, hholds, hfresh⟩ := hc.newSubpage hp hlink hlt hsize hrun
  rw [hnew] at hnew'
  cases hnew'
  rw [halloc] at halloc'
  cases halloc'
  refine Or.inr ⟨_, sp', i, blocks', rfl, hnone, hc', ?_, hparent, hcached, hp', helem, hholds,
    hfresh⟩
  rw [PoolChunk.setSubpage, hsub]

/-- Releasing a run in use without a subpage leaves the regions at other offsets. -/
theorem ChunkInv.freeRun (hc : ChunkInv k id c blocks) {o run handle : ℕ}
    (hb : blocks o = some run) (hused : isUsed run = true) (hsp : c.subpages o = none)
    (ho : calculateRunOffset handle = o)
    (hpages : calculateRunPages handle = calculateRunPages run) (buffer : Option Addr) :
    ∃ blocks', ChunkInv k id (c.freeRun k.sizeClass handle buffer) blocks' ∧
      (c.freeRun k.sizeClass handle buffer).subpages = c.subpages ∧
      (c.freeRun k.sizeClass handle buffer).parent = c.parent ∧
      ∀ h cap, Holds k (c.freeRun k.sizeClass handle buffer) blocks' h cap ↔
        Holds k c blocks h cap ∧ calculateRunOffset h ≠ o := by
  obtain ⟨blocks', hruns, herase, hsub, hoff, hparent⟩ :=
    hc.runs.freeRun hb hused ho hpages buffer
  have hc' : ChunkInv k id (c.freeRun k.sizeClass handle buffer) blocks' := by
    refine ⟨hruns, hoff.trans hc.offset, fun o' sp hsp' => ?_⟩
    rw [hsub] at hsp'
    have hat := hc.subpage o' sp hsp'
    obtain ⟨run', hb', hused', hsize⟩ := hat.run
    have hne : o' ≠ o := by
      rintro rfl
      rw [hsp] at hsp'
      cases hsp'
    exact { hat with run := ⟨run', (herase o' run' hused').mpr ⟨hb', hne⟩, hused', hsize⟩ }
  refine ⟨blocks', hc', hsub, hparent, fun h cap => ?_⟩
  constructor
  · intro hholds
    obtain ⟨run', hb', hused', _⟩ := hholds.block hc'
    obtain ⟨_, hne⟩ := (herase _ _ hused').mp hb'
    refine ⟨?_, hne⟩
    cases hholds with
    | run hb₁ hused₁ hsub₁ => exact .run ((herase _ _ hused₁).mp hb₁).1 hused₁ (hsub ▸ hsub₁)
    | element hsp₁ hset => exact .element (hsub ▸ hsp₁) hset
  · rintro ⟨hholds, hne⟩
    cases hholds with
    | run hb₁ hused₁ hsub₁ =>
      rw [hc.runs.offset hb₁] at hne
      exact .run ((herase _ _ hused₁).mpr ⟨hb₁, hne⟩) hused₁ (hsub.symm ▸ hsub₁)
    | element hsp₁ hset => exact .element (hsub.symm ▸ hsp₁) hset

/-- The size of a subpage's elements finds its pool. -/
theorem SubpageAt.head_eq {o : ℕ} {sp : PoolSubpage} (hat : SubpageAt k id blocks o sp) :
    ∃ i < k.numSizes, sp.elemSize = k.sizeClass.sizeIdx2size i ∧
      findSubpagePoolHead k.sizeClass (k.sizeClass.size2sizeIdx sp.elemSize) = some i := by
  obtain ⟨i, hi, hsub, helem, _⟩ := hat.sizeIdx
  refine ⟨i, hi, helem, ?_⟩
  rw [helem, k.size2sizeIdx_sizeIdx2size hi, findSubpagePoolHead, if_pos hsub]

/-- Two classes of one size have one index. -/
theorem sizeIdx_unique {i j : ℕ} (hi : i < k.numSizes) (hj : j < k.numSizes)
    (h : k.sizeClass.sizeIdx2size i = k.sizeClass.sizeIdx2size j) : i = j := by
  rw [← k.size2sizeIdx_sizeIdx2size hi, h, k.size2sizeIdx_sizeIdx2size hj]

/-- `free` of a region in use never fails, and leaves all other regions in use. -/
theorem ChunkInv.free (hc : ChunkInv k id c blocks) {pools : Pools}
    {link : SubpageRef → Option ℕ} (hp : PoolsMatch link pools)
    (hlink : ∀ o, link (id, o) = (c.subpages o).bind PoolSubpage.pool) {handle cap : ℕ}
    (hholds : Holds k c blocks handle cap) (buffer : Option Addr) :
    ∃ c' pools' blocks' link', c.free k.sizeClass pools handle cap buffer = some (c', pools') ∧
      ChunkInv k id c' blocks' ∧ c'.parent = c.parent ∧ PoolsMatch link' pools' ∧
      (∀ o, link' (id, o) = (c'.subpages o).bind PoolSubpage.pool) ∧
      (∀ ref, ref.1 ≠ id → link' ref = link ref) ∧
      ∀ h cap, Holds k c' blocks' h cap ↔ Holds k c blocks h cap ∧ h ≠ handle := by
  obtain ⟨run, hb, hused, hpages, ⟨hsub, rfl, hnone, _⟩ | ⟨sp, hsub, hsp, hset, hhandle, rfl⟩⟩ :=
    hholds.block hc
  · obtain ⟨blocks', hc', hsubs, hparent, hiff⟩ := hc.freeRun hb hused hnone rfl rfl buffer
    refine ⟨_, pools, blocks', link, ?_, hc', hparent, hp, ?_, fun _ _ => rfl, fun h cap' => ?_⟩
    · rw [PoolChunk.free, hsub]
      rfl
    · intro o
      rw [hsubs]
      exact hlink o
    · rw [hiff]
      constructor
      · rintro ⟨hold, hne⟩
        exact ⟨hold, fun heq => hne (heq ▸ rfl)⟩
      · rintro ⟨hold, hne⟩
        refine ⟨hold, fun ho => hne ?_⟩
        exact ((hc.holds_run_iff hb hused hnone ho).mp hold).1
  · obtain ⟨o, ho⟩ : ∃ o, calculateRunOffset handle = o := ⟨_, rfl⟩
    obtain ⟨i, hi⟩ : ∃ i, calculateBitmapIdx handle = i := ⟨_, rfl⟩
    rw [ho] at hb hsp
    rw [hi] at hset hhandle
    have hat := hc.subpage o sp hsp
    obtain ⟨head, hhead, helem, hfind⟩ := hat.head_eq
    obtain ⟨kept, sp', pools', hfree, hsame, hbits, hrelink, hkept, hreleased⟩ :=
      hat.inv.free_eq hset head pools
    have href : sp.ref = (id, o) := by rw [PoolSubpage.ref, hat.chunk, hat.runOffset]
    have hp' := hp.relink (by rw [href, hlink, hsp, Option.bind_some]) hrelink
    rw [href] at hp'
    have hother : ∀ ref : SubpageRef, ref.1 ≠ id →
        Function.update link (id, o) sp'.pool ref = link ref := by
      intro ref hne
      exact Function.update_of_ne (fun heq => hne (congrArg Prod.fst heq)) _ _
    have hstart : c.free k.sizeClass pools handle sp.elemSize buffer =
        if kept then some (c.setSubpage o (some sp'), pools')
        else if sp'.dontRelease then none
        else some ((c.setSubpage o none).freeRun k.sizeClass handle buffer, pools') := by
      rw [PoolChunk.free, if_pos hsub, Option.bind_eq_bind, hfind, Option.bind_some]
      dsimp only
      rw [ho, hsp, Option.bind_eq_bind, Option.bind_some, hat.inv.kept, Option.bind_eq_bind, hi,
        hfree]
      rfl
    cases kept with
    | true =>
      obtain ⟨hinv, hpool⟩ := hkept rfl
      have hat' : SubpageAt k id blocks o sp' := by
        refine hat.of_sameRun hsame hinv fun i' j hi' helem' hj => ?_
        rcases hpool with h | h
        · exact Or.inl (h ▸ hj)
        · rw [h] at hj
          cases hj
          exact Or.inr (sizeIdx_unique hhead hi' (helem.symm.trans helem'))
      refine ⟨_, pools', blocks, _, hstart, hc.setSubpage (by rintro _ ⟨⟩; exact hat'), rfl, hp',
        fun o' => ?_, hother, fun h cap' => ?_⟩
      · by_cases ho' : o' = o
        · rw [ho', Function.update_self, subpages_setSubpage_self, Option.bind_some]
        · rw [Function.update_of_ne (by simpa using ho'), subpages_setSubpage_of_ne c ho', hlink]
      · rw [holds_setSubpage_freed hc hsp hat' hsame hset hbits, ← hhandle]
    | false =>
      obtain ⟨hpool, hgone, hclear⟩ := hreleased rfl
      have hc₁ : ChunkInv k id (c.setSubpage o none) blocks := hc.setSubpage (by rintro _ ⟨⟩)
      obtain ⟨blocks', hc', hsubs, hparent, hiff⟩ := hc₁.freeRun hb hused
        (subpages_setSubpage_self c o none) ho hpages buffer
      rw [hgone] at hstart
      refine ⟨_, pools', blocks', _, hstart, hc', hparent, hp', fun o' => ?_, hother,
        fun h cap' => ?_⟩
      · rw [hsubs]
        by_cases ho' : o' = o
        · rw [ho', Function.update_self, subpages_setSubpage_self, hpool]
          rfl
        · rw [Function.update_of_ne (by simpa using ho'), subpages_setSubpage_of_ne c ho', hlink]
      · rw [hiff]
        constructor
        · rintro ⟨hholds', hne⟩
          rw [holds_setSubpage_of_ne hc (by rintro _ ⟨⟩) hne] at hholds'
          exact ⟨hholds', fun heq => hne (heq ▸ ho)⟩
        · rintro ⟨hholds', hne⟩
          have hoff : calculateRunOffset h ≠ o := by
            intro hoff
            obtain ⟨j, hj, rfl, _⟩ := (hc.holds_subpage_iff hsp hoff).mp hholds'
            have hbit := hclear j
            rw [hbits, hj, Bool.true_and, Bool.not_eq_false', decide_eq_true_eq] at hbit
            rw [hbit, ← hhandle] at hne
            exact hne rfl
          exact ⟨(holds_setSubpage_of_ne hc (by rintro _ ⟨⟩) hoff).mpr hholds', hoff⟩

end DuoDuo.Buffer
