import DuoDuo.Buffer.AvailableRuns
import DuoDuo.Buffer.SizeClassSpec
import DuoDuo.Library.Tiling

/-!
# The runs of a chunk

The available runs of a chunk and its runs in use tile its pages, and no two available
runs meet. Allocating a run cuts an available block, and releasing one fuses it with
its available neighbours.
-/

namespace DuoDuo.Buffer

open Library

namespace PoolChunk

/-- The chunk is filed as the tiling `blocks` of its pages by runs, given by their
handles. -/
structure Runs (k : PoolConfig) (c : PoolChunk) (blocks : ℕ → Option ℕ) : Prop where
  tiling : Tiling calculateRunPages k.chunkPages blocks
  coalesced : Coalesced calculateRunPages isUsed blocks
  offset : ∀ {o h}, blocks o = some h → calculateRunOffset h = o
  isRun : ∀ {o h}, blocks o = some h → isSubpage h = false
  filed : Filed k.sizeClass c (unused isUsed blocks)
  freeBytes : c.freeBytes =
    (k.pageSize * total calculateRunPages k.chunkPages (unused isUsed blocks) : ℕ)

variable {sc : SizeClass} {k : PoolConfig} {c c₀ : PoolChunk} {blocks : ℕ → Option ℕ}

theorem Runs.lt (hr : Runs k c blocks) {o h : ℕ} (hb : blocks o = some h) :
    o < 2 ^ 14 ∧ calculateRunPages h < 2 ^ 15 := by
  have hlt := hr.tiling.lt_of_block hb
  have hmax := k.chunkPages_lt
  have hbound := hr.tiling.bounded hb
  omega

/-- A new chunk is one available run. -/
theorem runs_new (k : PoolConfig) :
    Runs k (PoolChunk.new k.sizeClass)
      (fun o => if o = 0 then some (toRunHandle 0 k.chunkPages 0) else none) := by
  have hmax := k.chunkPages_lt
  have hpos := k.chunkPages_pos
  have hpages : calculateRunPages (toRunHandle 0 k.chunkPages 0) = k.chunkPages :=
    calculateRunPages_toRunHandle (by omega) (by omega)
  have hoffset : calculateRunOffset (toRunHandle 0 k.chunkPages 0) = 0 :=
    calculateRunOffset_toRunHandle (by omega) (by omega)
  have hused : isUsed (toRunHandle 0 k.chunkPages 0) = ((0 : ℕ) = 1 : Bool) :=
    isUsed_toRunHandle (by omega) (by omega)
  have hunused : unused isUsed
      (fun o => if o = 0 then some (toRunHandle 0 k.chunkPages 0) else none) =
        Function.update (fun _ => none) 0 (some (toRunHandle 0 k.chunkPages 0)) := by
    funext o
    by_cases ho : o = 0
    · rw [ho, Function.update_self, unused, if_pos rfl]
      simp [hused]
    · rw [Function.update_of_ne ho, unused, if_neg ho]
      rfl
  have hempty : total calculateRunPages k.chunkPages (fun _ => none) = 0 :=
    Finset.sum_eq_zero fun _ _ => rfl
  have hone : ∀ {o h}, (if o = 0 then some (toRunHandle 0 k.chunkPages 0) else none) = some h →
      o = 0 ∧ h = toRunHandle 0 k.chunkPages 0 := by
    intro o h hb
    split_ifs at hb with ho
    cases hb
    exact ⟨ho, rfl⟩
  have hchunk : k.sizeClass.chunkSize >>> k.sizeClass.pageShifts = k.chunkPages := by
    rw [PoolConfig.chunkSize_sizeClass, PoolConfig.pageShifts_sizeClass, PoolConfig.chunkSize_eq,
      Nat.shiftRight_eq_div_pow]
    exact Nat.mul_div_cancel _ (Nat.two_pow_pos _)
  have hinit : k.chunkPages <<< 34 = toRunHandle 0 k.chunkPages 0 := by
    simp [toRunHandle]
  refine ⟨Tiling.single hpos hpages, ?_, ?_, ?_, ?_, ?_⟩
  · intro o b b' hb hb'
    obtain ⟨rfl, rfl⟩ := hone hb
    have hzero := (hone hb').1
    omega
  · intro o h hb
    obtain ⟨rfl, rfl⟩ := hone hb
    exact hoffset
  · intro o h hb
    obtain ⟨rfl, rfl⟩ := hone hb
    exact isSubpage_toRunHandle (by omega) (by omega)
  · rw [hunused, PoolChunk.new, hchunk, hinit]
    conv in k.chunkPages => rw [← hpages]
    refine Filed.insert ?_ hoffset (by omega) (by rintro o' h' ⟨⟩)
    constructor
    · rintro o h ⟨⟩
    · rintro o h ⟨⟩
    · rintro o h o' h' ⟨⟩
    · intro x h
      simp
    · intro i h
      simp
    · intro i
      exact List.nodup_nil
  · rw [hunused, total_insert hpos rfl, hempty, PoolChunk.new,
      (sameRest_insertAvailRun _ _ _ _ _).2, hpages, PoolConfig.chunkSize_sizeClass,
      PoolConfig.chunkSize_eq, Nat.zero_add, Nat.mul_comm]

/-- What `allocateRun` does: nothing where `runBestFit` finds no queue, and otherwise it
takes the least run of that queue and splits it. -/
theorem allocateRun_bestFit {runSize : ℕ} {r : Option ℕ} {c' : PoolChunk}
    (h : c.allocateRun sc runSize = some (r, c')) :
    (c.runBestFit sc (sc.page2pageIdx (runSize >>> sc.pageShifts)) = none ∧ r = none ∧ c' = c) ∨
      ∃ i run handle c₂,
        c.runBestFit sc (sc.page2pageIdx (runSize >>> sc.pageShifts)) = some i ∧
        BestFitQueue.top (c.runsAvail i) = some run ∧ isUsed run = false ∧
        splitLargeRun sc (removeAvailRunFrom { c with
          runsAvail := Function.update c.runsAvail i (BestFitQueue.pop (c.runsAvail i)) } i run)
          run (runSize >>> sc.pageShifts) = some (handle, c₂) ∧
        r = some handle ∧
        c' = { c₂ with freeBytes := c₂.freeBytes - PoolChunk.runSize sc.pageShifts handle } := by
  unfold allocateRun at h
  dsimp only at h
  split at h
  · next hnone =>
    cases h
    exact Or.inl ⟨hnone, rfl, rfl⟩
  · next i hfit =>
    obtain ⟨run, htop, h⟩ := Option.bind_eq_some_iff.mp h
    split_ifs at h with hused
    obtain ⟨⟨handle, c₂⟩, hsplit, h⟩ := Option.bind_eq_some_iff.mp h
    cases h
    exact Or.inr ⟨i, run, handle, c₂, hfit, htop, by simpa using hused, hsplit, rfl, rfl⟩

/-- What `allocateRun` does: nothing, or it takes the least run of a queue and splits
it. -/
theorem allocateRun_cases {runSize : ℕ} {r : Option ℕ} {c' : PoolChunk}
    (h : c.allocateRun sc runSize = some (r, c')) :
    (r = none ∧ c' = c) ∨ ∃ i run handle c₂, BestFitQueue.top (c.runsAvail i) = some run ∧
      isUsed run = false ∧
      splitLargeRun sc (removeAvailRunFrom { c with
        runsAvail := Function.update c.runsAvail i (BestFitQueue.pop (c.runsAvail i)) } i run)
        run (runSize >>> sc.pageShifts) = some (handle, c₂) ∧
      r = some handle ∧
      c' = { c₂ with freeBytes := c₂.freeBytes - PoolChunk.runSize sc.pageShifts handle } := by
  rcases allocateRun_bestFit h with ⟨-, hnone⟩ | ⟨i, run, handle, c₂, -, htaken⟩
  · exact Or.inl hnone
  · exact Or.inr ⟨i, run, handle, c₂, htaken⟩

/-- The runs in use after one of them begins at `o` as `handle`. -/
def UsedInsert (blocks blocks' : ℕ → Option ℕ) (o handle : ℕ) : Prop :=
  ∀ o' h', isUsed h' = true →
    (blocks' o' = some h' ↔ blocks o' = some h' ∨ (o' = o ∧ h' = handle))

/-- The runs in use after the one at `o` is released. -/
def UsedErase (blocks blocks' : ℕ → Option ℕ) (o : ℕ) : Prop :=
  ∀ o' h', isUsed h' = true → (blocks' o' = some h' ↔ blocks o' = some h' ∧ o' ≠ o)

/-- An available run is used as a whole. -/
theorem Runs.useWhole (hr : Runs k c blocks) {o run : ℕ} (hb : blocks o = some run)
    (hfree : isUsed run = false) :
    Runs k { c.removeAvailRun k.sizeClass run with
      freeBytes := c.freeBytes - PoolChunk.runSize k.pageShifts run }
      (fuse blocks o (o + calculateRunPages run) (setUsed run)) := by
  have hav : unused isUsed blocks o = some run := unused_eq_some.mpr ⟨hb, hfree⟩
  have hpos := hr.tiling.pos hb
  have hunused := hr.tiling.unused_fuse_self hb (isUsed_setUsed run)
  have hinv : ∀ {o' h'}, fuse blocks o (o + calculateRunPages run) (setUsed run) o' = some h' →
      (o' = o ∧ h' = setUsed run) ∨ blocks o' = some h' := by
    intro o' h' hb'
    unfold fuse at hb'
    split_ifs at hb' with h₁ h₂
    · cases hb'
      exact Or.inl ⟨h₁, rfl⟩
    · exact Or.inr hb'
  refine ⟨hr.tiling.fuse hb (by omega) (hr.tiling.next hb) (by simp), ?_, ?_, ?_, ?_, ?_⟩
  · exact hr.coalesced.fuse (by simp) (by omega) (fun _ _ => Or.inr (isUsed_setUsed run))
      (fun _ => Or.inl (isUsed_setUsed run))
  · intro o' h' hb'
    rcases hinv hb' with ⟨rfl, rfl⟩ | hold
    · rw [calculateRunOffset_setUsed, hr.offset hb]
    · exact hr.offset hold
  · intro o' h' hb'
    rcases hinv hb' with ⟨rfl, rfl⟩ | hold
    · rw [isSubpage_setUsed, hr.isRun hb]
    · exact hr.isRun hold
  · rw [hunused]
    exact (hr.filed.remove hav).congr rfl rfl
  · have hpart := @total_erase _ calculateRunPages k.chunkPages _ _ (hr.tiling.lt_of_block hb) _ hav
    rw [hunused, hr.freeBytes, ← hpart, PoolChunk.runSize, Nat.shiftLeft_eq, PoolConfig.pageSize]
    push_cast
    ring

/-- The first pages of an available run are used, and the rest stays available. -/
theorem Runs.usePart (hr : Runs k c blocks) {o run need left : ℕ} (hb : blocks o = some run)
    (hfree : isUsed run = false) (hneed : 0 < need) (hleft : 0 < left)
    (hsum : need + left = calculateRunPages run) :
    Runs k { (c.removeAvailRun k.sizeClass run).insertAvailRun k.sizeClass (o + need) left
        (toRunHandle (o + need) left 0) with
      freeBytes := c.freeBytes - PoolChunk.runSize k.pageShifts (toRunHandle o need 1) }
      (cut blocks o (o + need) (toRunHandle o need 1) (toRunHandle (o + need) left 0)) := by
  have hav : unused isUsed blocks o = some run := unused_eq_some.mpr ⟨hb, hfree⟩
  have hlt := hr.lt hb
  have hbound := hr.tiling.bounded hb
  have hpages₁ : calculateRunPages (toRunHandle o need 1) = need :=
    calculateRunPages_toRunHandle (by omega) (by omega)
  have hpages₂ : calculateRunPages (toRunHandle (o + need) left 0) = left :=
    calculateRunPages_toRunHandle (by omega) (by omega)
  have hoffset₂ : calculateRunOffset (toRunHandle (o + need) left 0) = o + need :=
    calculateRunOffset_toRunHandle (by omega) (by omega)
  have hused₁ : isUsed (toRunHandle o need 1) = true := by
    rw [isUsed_toRunHandle (by omega) (by omega)]
    rfl
  have hused₂ : isUsed (toRunHandle (o + need) left 0) = false := by
    rw [isUsed_toRunHandle (by omega) (by omega)]
    rfl
  have hunused : unused isUsed (cut blocks o (o + need) (toRunHandle o need 1)
      (toRunHandle (o + need) left 0)) = Function.update (Function.update (unused isUsed blocks) o none)
        (o + need) (some (toRunHandle (o + need) left 0)) :=
    unused_cut hused₁ hused₂ (by omega)
  have hnone : Function.update (unused isUsed blocks) o none (o + need) = none := by
    rw [Function.update_of_ne (by omega), unused,
      hr.tiling.eq_none_of_mem hb (by omega) (by omega)]
    rfl
  have hinv : ∀ {o' h'}, cut blocks o (o + need) (toRunHandle o need 1)
      (toRunHandle (o + need) left 0) o' = some h' →
      (o' = o ∧ h' = toRunHandle o need 1) ∨
        (o' = o + need ∧ h' = toRunHandle (o + need) left 0) ∨ blocks o' = some h' := by
    intro o' h' hb'
    unfold cut at hb'
    split_ifs at hb' with h₁ h₂
    · cases hb'
      exact Or.inl ⟨h₁, rfl⟩
    · cases hb'
      exact Or.inr (Or.inl ⟨h₂, rfl⟩)
    · exact Or.inr (Or.inr hb')
  refine ⟨hr.tiling.cut hb (by omega) (by omega) (by omega) (by omega), ?_, ?_, ?_, ?_, ?_⟩
  · exact hr.coalesced.cut hr.tiling hb hfree hused₁ (by omega) (by omega) (by omega) (by omega)
  · intro o' h' hb'
    rcases hinv hb' with ⟨rfl, rfl⟩ | ⟨rfl, rfl⟩ | hold
    · exact calculateRunOffset_toRunHandle (by omega) (by omega)
    · exact hoffset₂
    · exact hr.offset hold
  · intro o' h' hb'
    rcases hinv hb' with ⟨rfl, rfl⟩ | ⟨rfl, rfl⟩ | hold
    · exact isSubpage_toRunHandle (by omega) (by omega)
    · exact isSubpage_toRunHandle (by omega) (by omega)
    · exact hr.isRun hold
  · have hfile := (hr.filed.remove hav).insert hoffset₂ (by omega) ?_
    · rw [hpages₂, ← hunused] at hfile
      exact hfile.congr rfl rfl
    · intro o' h' hav'
      by_cases heq : o' = o
      · rw [heq, Function.update_self] at hav'
        cases hav'
      · rw [Function.update_of_ne heq] at hav'
        obtain ⟨hb', -⟩ := unused_eq_some.mp hav'
        rcases Nat.lt_or_gt_of_ne heq with hbefore | hafter
        · have hdis := hr.tiling.disjoint hb' hb hbefore
          omega
        · have hdis := hr.tiling.disjoint hb hb' hafter
          omega
  · have hpart := @total_erase _ calculateRunPages k.chunkPages _ _ (hr.tiling.lt_of_block hb) _ hav
    have hmore := @total_insert _ calculateRunPages k.chunkPages _ _
      (show o + need < k.chunkPages by omega) hnone (toRunHandle (o + need) left 0)
    rw [hunused, hmore, hr.freeBytes, ← hpart, PoolChunk.runSize, Nat.shiftLeft_eq, hpages₁,
      hpages₂, ← hsum, PoolConfig.pageSize]
    push_cast
    ring

/-- Away from the offset `o` of an available run, the runs in use stay the same. -/
theorem usedInsert_of_ne {blocks' : ℕ → Option ℕ} {o run handle : ℕ} (hb : blocks o = some run)
    (hfree : isUsed run = false) (hb' : blocks' o = some handle)
    (hother : ∀ o' h', o' ≠ o → isUsed h' = true → (blocks' o' = some h' ↔ blocks o' = some h')) :
    UsedInsert blocks blocks' o handle := by
  intro o' h' hused
  by_cases heq : o' = o
  · rw [heq, hb', hb]
    constructor
    · intro hsome
      cases hsome
      exact Or.inr ⟨rfl, rfl⟩
    · rintro (hsome | ⟨_, rfl⟩)
      · cases hsome
        rw [hfree] at hused
        cases hused
      · rfl
  · rw [hother o' h' heq hused]
    simp [heq]

/-- `allocateRun` turns a part of an available run, or all of it, into a run in use of
the requested number of pages. -/
theorem Runs.allocateRun (hr : Runs k c blocks) {runSize handle : ℕ} {c' : PoolChunk}
    (h : c.allocateRun k.sizeClass runSize = some (some handle, c')) :
    ∃ o run blocks', blocks o = some run ∧ isUsed run = false ∧ blocks' o = some handle ∧
      isUsed handle = true ∧ calculateRunPages handle = runSize >>> k.pageShifts ∧
      Runs k c' blocks' ∧ SameRest c c' ∧ UsedInsert blocks blocks' o handle := by
  rcases allocateRun_cases h with ⟨hnone, _⟩ | ⟨i, run, handle', c₂, htop, hfree, hsplit, hres, rfl⟩
  · cases hnone
  cases hres
  obtain ⟨o, hav, _⟩ := hr.filed.top_eq htop
  obtain ⟨hb, -⟩ := unused_eq_some.mp hav
  rw [hr.filed.removeAvailRunFrom_pop htop] at hsplit
  have hlt := hr.lt hb
  have hrest := sameRest_removeAvailRun k.sizeClass c run
  obtain ⟨need, hneed⟩ : ∃ need, runSize >>> k.pageShifts = need := ⟨_, rfl⟩
  rw [PoolConfig.pageShifts_sizeClass, hneed] at hsplit
  unfold splitLargeRun at hsplit
  dsimp only at hsplit
  split_ifs at hsplit with hguard hremain
  · cases hsplit
    obtain ⟨left, hleft⟩ : ∃ left, calculateRunPages run - need = left := ⟨_, rfl⟩
    rw [hleft, hr.offset hb]
    have hins := sameRest_insertAvailRun k.sizeClass (c.removeAvailRun k.sizeClass run)
      (o + need) left (toRunHandle (o + need) left 0)
    refine ⟨o, run, cut blocks o (o + need) (toRunHandle o need 1)
      (toRunHandle (o + need) left 0), hb, hfree, if_pos rfl, ?_, ?_, ?_, ?_, ?_⟩
    · rw [isUsed_toRunHandle (by omega) (by omega)]
      rfl
    · rw [calculateRunPages_toRunHandle (by omega) (by omega), hneed]
    · have hpart := hr.usePart hb hfree hguard.1 (by omega) (show need + left = _ by omega)
      rw [hins.2, hrest.2]
      exact hpart
    · exact hrest.1.trans (hins.1.trans ⟨rfl, rfl, rfl, rfl⟩)
    · refine usedInsert_of_ne hb hfree (if_pos rfl) fun o' h' hne hused => ?_
      rw [cut, if_neg hne]
      split
      · next heq =>
        have hnone := hr.tiling.eq_none_of_mem hb (p := o') (by omega) (by omega)
        have hleft_free : isUsed (toRunHandle (o + need) left 0) = ((0 : ℕ) = 1 : Bool) :=
          isUsed_toRunHandle (by omega) (by omega)
        rw [hnone]
        constructor
        · intro hsome
          cases hsome
          rw [hleft_free] at hused
          cases hused
        · rintro ⟨⟩
      · rfl
  · cases hsplit
    have hall : need = calculateRunPages run := by omega
    refine ⟨o, run, fuse blocks o (o + calculateRunPages run) (setUsed run), hb, hfree, if_pos rfl,
      isUsed_setUsed run, ?_, ?_, ?_, ?_⟩
    · rw [calculateRunPages_setUsed, hneed, hall]
    · have hwhole := hr.useWhole hb hfree
      rw [hrest.2, PoolConfig.pageShifts_sizeClass, PoolChunk.runSize, calculateRunPages_setUsed]
      exact hwhole
    · exact hrest.1.trans ⟨rfl, rfl, rfl, rfl⟩
    · refine usedInsert_of_ne hb hfree (if_pos rfl) fun o' h' hne hused => ?_
      rw [fuse, if_neg hne]
      split
      · next hmid => rw [hr.tiling.eq_none_of_mem hb hmid.1 hmid.2]
      · rfl

/-- The available runs outside the pages from `a` up to `e`. -/
def outside (blocks : ℕ → Option ℕ) (a e x : ℕ) : Option ℕ :=
  if a ≤ x ∧ x < e then none else unused isUsed blocks x

/-- While the run in use at `o`, of `n` pages, is released, the pages from `a` up to `e`
are out of the structures of the chunk, and `handle` stands for them. -/
structure Gap (k : PoolConfig) (blocks : ℕ → Option ℕ) (o n : ℕ) (c : PoolChunk)
    (a e handle : ℕ) : Prop where
  filed : Filed k.sizeClass c (outside blocks a e)
  lt : a < e
  mem : a ≤ o ∧ o < e
  inside : ∀ x h, blocks x = some h → a ≤ x → x < e → isUsed h = true → x = o
  start : ∃ b, blocks a = some b
  stop : e = k.chunkPages ∨ ∃ b, blocks e = some b
  offset : calculateRunOffset handle = a
  pages : calculateRunPages handle = e - a
  total : total calculateRunPages k.chunkPages (outside blocks a e) + (e - a) =
    total calculateRunPages k.chunkPages (unused isUsed blocks) + n

variable {r n a e handle : ℕ}

theorem Gap.stop_le (hg : Gap k blocks r n c a e handle)
    (ht : Tiling calculateRunPages k.chunkPages blocks) : e ≤ k.chunkPages := by
  rcases hg.stop with rfl | ⟨b, hb⟩
  · exact le_rfl
  · exact (ht.lt_of_block hb).le

/-- A run in use is taken out of the structures already. -/
theorem Runs.gap (hr : Runs k c blocks) {o b : ℕ} (hb : blocks o = some b)
    (hused : isUsed b = true) (hoffset : calculateRunOffset handle = o)
    (hpages : calculateRunPages handle = calculateRunPages b) :
    Gap k blocks o (calculateRunPages b) c o (o + calculateRunPages b) handle := by
  have hpos := hr.tiling.pos hb
  have hout : outside blocks o (o + calculateRunPages b) = unused isUsed blocks := by
    funext x
    unfold outside
    split
    · next hx =>
      rcases hx.1.eq_or_lt with heq | hlt
      · rw [unused, ← heq, hb, Option.filter_some, hused]
        rfl
      · rw [unused, hr.tiling.eq_none_of_mem hb hlt hx.2]
        rfl
    · rfl
  refine ⟨?_, by omega, by omega, ?_, ⟨b, hb⟩, hr.tiling.next hb, hoffset, by omega, ?_⟩
  · rw [hout]
    exact hr.filed
  · intro x h hx hle hlt _
    by_contra hne
    rw [hr.tiling.eq_none_of_mem hb (by omega) hlt] at hx
    cases hx
  · rw [hout]
    omega

/-- The available run before a gap. -/
theorem Gap.prev (hg : Gap k blocks r n c a e handle)
    (ht : Tiling calculateRunPages k.chunkPages blocks) {prevRun : ℕ}
    (hmap : c.runsAvailMap ((a : ℤ) - 1) = some prevRun) :
    ∃ o, outside blocks a e o = some prevRun ∧ blocks o = some prevRun ∧
      o + calculateRunPages prevRun = a := by
  obtain ⟨o, hav, hbound⟩ := hg.filed.map.mp hmap
  have hpos := hg.filed.pos hav
  have hb : blocks o = some prevRun := by
    unfold outside at hav
    split_ifs at hav
    exact (unused_eq_some.mp hav).1
  obtain ⟨b, hstart⟩ := hg.start
  unfold tailPage at hbound
  have hdis := ht.disjoint hb hstart (by omega)
  exact ⟨o, hav, hb, by omega⟩

/-- The available run after a gap. -/
theorem Gap.next (hg : Gap k blocks r n c a e handle)
    (ht : Tiling calculateRunPages k.chunkPages blocks) {nextRun : ℕ}
    (hmap : c.runsAvailMap (e : ℕ) = some nextRun) :
    outside blocks a e e = some nextRun ∧ blocks e = some nextRun := by
  obtain ⟨o, hav, hbound⟩ := hg.filed.map.mp hmap
  have hpos := hg.filed.pos hav
  have hlt := hg.lt
  have hout : ¬(a ≤ o ∧ o < e) := by
    intro hin
    rw [outside, if_pos hin] at hav
    cases hav
  have hb : blocks o = some nextRun := by
    rw [outside, if_neg hout] at hav
    exact (unused_eq_some.mp hav).1
  have heq : o = e := by
    unfold tailPage at hbound
    rcases Nat.lt_or_ge o a with hbefore | hafter
    · obtain ⟨b, hstart⟩ := hg.start
      have hdis := ht.disjoint hb hstart hbefore
      omega
    · omega
  subst heq
  exact ⟨hav, hb⟩

/-- The gap grows by the available run before it. -/
theorem Gap.extendPrev (hg : Gap k blocks r n c a e handle)
    (ht : Tiling calculateRunPages k.chunkPages blocks) {o prevRun : ℕ}
    (hav : outside blocks a e o = some prevRun) (hb : blocks o = some prevRun)
    (ho : o + calculateRunPages prevRun = a) :
    Gap k blocks r n (c.removeAvailRun k.sizeClass prevRun) o e
      (toRunHandle o (calculateRunPages prevRun + calculateRunPages handle) 0) := by
  have hpos := ht.pos hb
  have hlt := hg.lt
  have hstop := hg.stop_le ht
  have hmax := k.chunkPages_lt
  have hpages := hg.pages
  have hout : outside blocks o e = Function.update (outside blocks a e) o none := by
    funext x
    by_cases hx : x = o
    · rw [hx, Function.update_self, outside, if_pos (by omega)]
    · rw [Function.update_of_ne hx, outside, outside]
      by_cases hin : o ≤ x ∧ x < e
      · rw [if_pos hin]
        split
        · rfl
        · rw [unused, ht.eq_none_of_mem hb (by omega) (by omega)]
          rfl
      · rw [if_neg hin, if_neg (by omega)]
  have hmem := hg.mem
  refine ⟨?_, by omega, by omega, ?_, ⟨_, hb⟩, hg.stop, ?_, ?_, ?_⟩
  · rw [hout]
    exact hg.filed.remove hav
  · intro x h hx hle hlt hused
    rcases Nat.lt_or_ge x a with hbefore | hafter
    · by_cases heq : x = o
      · rw [heq, hb] at hx
        cases hx
        rw [outside, if_neg (by omega)] at hav
        rw [(unused_eq_some.mp hav).2] at hused
        cases hused
      · rw [ht.eq_none_of_mem hb (by omega) (by omega)] at hx
        cases hx
    · exact hg.inside x h hx hafter hlt hused
  · exact calculateRunOffset_toRunHandle (by omega) (by omega)
  · rw [calculateRunPages_toRunHandle (by omega) (by omega)]
    omega
  · have herase := @total_erase _ calculateRunPages k.chunkPages _ _ (ht.lt_of_block hb) _ hav
    have htotal := hg.total
    rw [hout]
    omega

/-- The gap grows by the available run after it. -/
theorem Gap.extendNext (hg : Gap k blocks r n c a e handle)
    (ht : Tiling calculateRunPages k.chunkPages blocks) {nextRun : ℕ}
    (hav : outside blocks a e e = some nextRun) (hb : blocks e = some nextRun) :
    Gap k blocks r n (c.removeAvailRun k.sizeClass nextRun) a (e + calculateRunPages nextRun)
      (toRunHandle a (calculateRunPages nextRun + calculateRunPages handle) 0) := by
  have hpos := ht.pos hb
  have hlt := hg.lt
  have hstop := ht.bounded hb
  have hmax := k.chunkPages_lt
  have hpages := hg.pages
  have hout : outside blocks a (e + calculateRunPages nextRun) =
      Function.update (outside blocks a e) e none := by
    funext x
    by_cases hx : x = e
    · rw [hx, Function.update_self, outside, if_pos (by omega)]
    · rw [Function.update_of_ne hx, outside, outside]
      by_cases hin : a ≤ x ∧ x < e + calculateRunPages nextRun
      · rw [if_pos hin]
        split
        · rfl
        · rw [unused, ht.eq_none_of_mem hb (by omega) (by omega)]
          rfl
      · rw [if_neg hin, if_neg (by omega)]
  have hmem := hg.mem
  refine ⟨?_, by omega, by omega, ?_, hg.start, ht.next hb, ?_, ?_, ?_⟩
  · rw [hout]
    exact hg.filed.remove hav
  · intro x h hx hle hlt hused
    rcases Nat.lt_or_ge x e with hbefore | hafter
    · exact hg.inside x h hx hle hbefore hused
    · by_cases heq : x = e
      · rw [heq, hb] at hx
        cases hx
        rw [outside, if_neg (by omega)] at hav
        rw [(unused_eq_some.mp hav).2] at hused
        cases hused
      · rw [ht.eq_none_of_mem hb (by omega) (by omega)] at hx
        cases hx
  · exact calculateRunOffset_toRunHandle (by omega) (by omega)
  · rw [calculateRunPages_toRunHandle (by omega) (by omega)]
    omega
  · have herase := @total_erase _ calculateRunPages k.chunkPages _ _ (ht.lt_of_block hb) _ hav
    have htotal := hg.total
    rw [hout]
    omega

/-- `collapsePrev` takes the available runs before the gap into it. -/
theorem Gap.collapsePrev (hg : Gap k blocks r n c a e handle)
    (ht : Tiling calculateRunPages k.chunkPages blocks) {fuel : ℕ} (hfuel : a < fuel) :
    ∃ a' handle' c', PoolChunk.collapsePrev k.sizeClass fuel c handle = (handle', c') ∧
      Gap k blocks r n c' a' e handle' ∧ SameRest c c' ∧ c'.freeBytes = c.freeBytes ∧
      (∀ o b, blocks o = some b → o + calculateRunPages b = a' → isUsed b = true) ∧ a' ≤ a := by
  induction fuel generalizing c a handle with
  | zero => omega
  | succ fuel ih =>
    unfold PoolChunk.collapsePrev getAvailRunByOffset
    rw [hg.offset]
    dsimp only
    rcases hmap : c.runsAvailMap ((a : ℤ) - 1) with _ | prevRun
    · refine ⟨a, handle, c, rfl, hg, ⟨rfl, rfl, rfl, rfl⟩, rfl, fun o b hb hend => ?_, le_rfl⟩
      by_contra hfree
      rw [Bool.not_eq_true] at hfree
      have hpos := ht.pos hb
      have hav : outside blocks a e o = some b := by
        rw [outside, if_neg (by omega)]
        exact unused_eq_some.mpr ⟨hb, hfree⟩
      have hlast := hg.filed.map.mpr ⟨o, hav, Or.inr rfl⟩
      rw [show tailPage o (calculateRunPages b) = (a : ℤ) - 1 by unfold tailPage; omega, hmap]
        at hlast
      cases hlast
    · obtain ⟨o, hav, hb, ho⟩ := hg.prev ht hmap
      have hpos := ht.pos hb
      have hoffset := hg.filed.offset hav
      have hne : prevRun ≠ handle := by
        rintro rfl
        have hsame := hg.offset
        omega
      dsimp only
      rw [hoffset, if_pos ⟨hne, by omega⟩]
      have hrest := sameRest_removeAvailRun k.sizeClass c prevRun
      obtain ⟨a', handle', c', hrun, hg', hrest', hbytes, hprev, hle⟩ :=
        ih (hg.extendPrev ht hav hb ho) (by omega)
      exact ⟨a', handle', c', hrun, hg', hrest.1.trans hrest', hbytes.trans hrest.2, hprev,
        by omega⟩

/-- `collapseNext` takes the available runs after the gap into it. -/
theorem Gap.collapseNext (hg : Gap k blocks r n c a e handle)
    (ht : Tiling calculateRunPages k.chunkPages blocks) {fuel : ℕ}
    (hfuel : k.chunkPages < e + fuel) :
    ∃ e' handle' c', PoolChunk.collapseNext k.sizeClass fuel c handle = (handle', c') ∧
      Gap k blocks r n c' a e' handle' ∧ SameRest c c' ∧ c'.freeBytes = c.freeBytes ∧
      (∀ b, blocks e' = some b → isUsed b = true) := by
  induction fuel generalizing c e handle with
  | zero =>
    have hstop := hg.stop_le ht
    omega
  | succ fuel ih =>
    unfold PoolChunk.collapseNext getAvailRunByOffset
    have hlt := hg.lt
    have hend : a + (e - a) = e := by omega
    rw [hg.offset, hg.pages]
    dsimp only
    rw [hend]
    rcases hmap : c.runsAvailMap (e : ℕ) with _ | nextRun
    · refine ⟨e, handle, c, rfl, hg, ⟨rfl, rfl, rfl, rfl⟩, rfl, fun b hb => ?_⟩
      by_contra hfree
      rw [Bool.not_eq_true] at hfree
      have hav : outside blocks a e e = some b := by
        rw [outside, if_neg (by omega)]
        exact unused_eq_some.mpr ⟨hb, hfree⟩
      have hfirst := hg.filed.map.mpr ⟨e, hav, Or.inl rfl⟩
      rw [hmap] at hfirst
      cases hfirst
    · obtain ⟨hav, hb⟩ := hg.next ht hmap
      have hpos := ht.pos hb
      have hoffset := hg.filed.offset hav
      have hne : nextRun ≠ handle := by
        rintro rfl
        have hsame := hg.offset
        omega
      dsimp only
      rw [hoffset, if_pos ⟨hne, by omega⟩, ← hg.pages]
      have hrest := sameRest_removeAvailRun k.sizeClass c nextRun
      obtain ⟨e', handle', c', hrun, hg', hrest', hbytes, hnext⟩ :=
        ih (hg.extendNext ht hav hb) (by omega)
      exact ⟨e', handle', c', hrun, hg', hrest.1.trans hrest', hbytes.trans hrest.2, hnext⟩

/-- Once the gap cannot grow, the run that stands for it is filed as available. -/
theorem Gap.close (hg : Gap k blocks r n c a e handle) (hr : Runs k c₀ blocks)
    (hfree : isUsed handle = false) (hsub : isSubpage handle = false)
    (hprev : ∀ o b, blocks o = some b → o + calculateRunPages b = a → isUsed b = true)
    (hnext : ∀ b, blocks e = some b → isUsed b = true)
    (hbytes : c.freeBytes = c₀.freeBytes) :
    Runs k { c.insertAvailRun k.sizeClass a (calculateRunPages handle) handle with
        freeBytes := c.freeBytes + (n * k.pageSize : ℕ) } (fuse blocks a e handle) ∧
      UsedErase blocks (fuse blocks a e handle) r := by
  have ht := hr.tiling
  have hlt := hg.lt
  have hmem := hg.mem
  have hpages := hg.pages
  have hstop := hg.stop_le ht
  obtain ⟨b, hstart⟩ := hg.start
  have hunused : unused isUsed (fuse blocks a e handle) =
      Function.update (outside blocks a e) a (some handle) := by
    funext x
    by_cases hx : x = a
    · rw [hx, Function.update_self, unused, fuse, if_pos rfl, Option.filter_some, hfree]
      rfl
    · rw [Function.update_of_ne hx, unused, fuse, if_neg hx, outside]
      by_cases hin : a < x ∧ x < e
      · rw [if_pos hin, if_pos (by omega)]
        rfl
      · rw [if_neg hin, if_neg (by omega), unused]
  have hnone : outside blocks a e a = none := by
    rw [outside, if_pos (by omega)]
  have hinv : ∀ {x h}, fuse blocks a e handle x = some h → (x = a ∧ h = handle) ∨
      ((x < a ∨ e ≤ x) ∧ blocks x = some h) := by
    intro x h hx
    unfold fuse at hx
    split_ifs at hx with h₁ h₂
    · cases hx
      exact Or.inl ⟨h₁, rfl⟩
    · exact Or.inr ⟨by omega, hx⟩
  refine ⟨⟨ht.fuse hstart hlt hg.stop hpages, ?_, ?_, ?_, ?_, ?_⟩, ?_⟩
  · refine hr.coalesced.fuse hpages hlt ?_ ?_
    · intro o b' hb' hend
      exact Or.inl (hprev o b' hb' hend)
    · intro b' hb'
      exact Or.inr (hnext b' hb')
  · intro x h hx
    rcases hinv hx with ⟨rfl, rfl⟩ | ⟨_, hold⟩
    · exact hg.offset
    · exact hr.offset hold
  · intro x h hx
    rcases hinv hx with ⟨rfl, rfl⟩ | ⟨_, hold⟩
    · exact hsub
    · exact hr.isRun hold
  · rw [hunused]
    refine (hg.filed.insert hg.offset (by omega) fun x h hx => ?_).congr rfl rfl
    have hout : x < a ∨ e ≤ x := by
      by_contra hin
      rw [outside, if_pos (by omega)] at hx
      cases hx
    rw [outside, if_neg (by omega)] at hx
    rcases hout with hbefore | hafter
    · exact Or.inl (ht.disjoint (unused_eq_some.mp hx).1 hstart hbefore)
    · exact Or.inr (by omega)
  · have hinsert := @total_insert _ calculateRunPages k.chunkPages _ _
      (show a < k.chunkPages by omega) hnone handle
    have htotal := hg.total
    have hsum : Library.total calculateRunPages k.chunkPages (outside blocks a e) +
        calculateRunPages handle =
          Library.total calculateRunPages k.chunkPages (unused isUsed blocks) + n := by omega
    rw [hunused, hinsert, hsum, hbytes, hr.freeBytes]
    push_cast
    ring
  · intro x h hused
    unfold fuse
    split_ifs with h₁ h₂
    · constructor
      · intro hx
        cases hx
        rw [hfree] at hused
        cases hused
      · rintro ⟨hx, hne⟩
        exact absurd (hg.inside x h hx (by omega) (by omega) hused) hne
    · constructor
      · rintro ⟨⟩
      · rintro ⟨hx, hne⟩
        exact absurd (hg.inside x h hx (by omega) (by omega) hused) hne
    · constructor
      · intro hx
        exact ⟨hx, by omega⟩
      · exact And.left

/-- Keeping a pointer changes nothing else. -/
theorem cacheBuffer_rest (c : PoolChunk) (buffer : Option Addr) :
    (c.cacheBuffer buffer).runsAvailMap = c.runsAvailMap ∧
      (c.cacheBuffer buffer).runsAvail = c.runsAvail ∧
      (c.cacheBuffer buffer).freeBytes = c.freeBytes ∧
      (c.cacheBuffer buffer).subpages = c.subpages ∧
      (c.cacheBuffer buffer).offset = c.offset ∧ (c.cacheBuffer buffer).parent = c.parent := by
  cases buffer with
  | none => exact ⟨rfl, rfl, rfl, rfl, rfl, rfl⟩
  | some p =>
    unfold cacheBuffer
    dsimp only
    split <;> exact ⟨rfl, rfl, rfl, rfl, rfl, rfl⟩

/-- Releasing the run in use at `o`, by a handle that names it. -/
theorem Runs.freeRun (hr : Runs k c blocks) {o b : ℕ} (hb : blocks o = some b)
    (hused : isUsed b = true) (hoffset : calculateRunOffset handle = o)
    (hpages : calculateRunPages handle = calculateRunPages b) (buffer : Option Addr) :
    ∃ blocks', Runs k (c.freeRun k.sizeClass handle buffer) blocks' ∧
      UsedErase blocks blocks' o ∧ (c.freeRun k.sizeClass handle buffer).subpages = c.subpages ∧
      (c.freeRun k.sizeClass handle buffer).offset = c.offset ∧
      (c.freeRun k.sizeClass handle buffer).parent = c.parent := by
  have ht := hr.tiling
  have hmax := k.chunkPages_lt
  have hlt := ht.lt_of_block hb
  have hpos := ht.pos hb
  obtain ⟨a, h₁, c₁, hrun₁, hg₁, hrest₁, hbytes₁, hprev, _⟩ :=
    (hr.gap hb hused hoffset hpages).collapsePrev ht (show o < 2 ^ 15 by omega)
  obtain ⟨e, h₂, c₂, hrun₂, hg₂, hrest₂, hbytes₂, hnext⟩ :=
    hg₁.collapseNext ht (show k.chunkPages < o + calculateRunPages b + 2 ^ 15 by omega)
  obtain ⟨run, hrunh⟩ : ∃ run, clearUse h₂ = run := ⟨_, rfl⟩
  have hg : Gap k blocks o (calculateRunPages b) c₂ a e run :=
    { hg₂ with
      offset := by rw [← hrunh, calculateRunOffset_clearUse, hg₂.offset]
      pages := by rw [← hrunh, calculateRunPages_clearUse, hg₂.pages] }
  obtain ⟨hclose, herase⟩ := hg.close hr (by rw [← hrunh, isUsed_clearUse])
    (by rw [← hrunh, isSubpage_clearUse]) hprev hnext (hbytes₂.trans hbytes₁)
  have hcollapse : c.collapseRuns k.sizeClass handle = (h₂, c₂) := by
    rw [collapseRuns, hrun₁]
    exact hrun₂
  have hins := sameRest_insertAvailRun k.sizeClass c₂ a (calculateRunPages run) run
  have hrest := hrest₁.trans (hrest₂.trans hins.1)
  obtain ⟨c₃, hc₃⟩ : ∃ c₃ : PoolChunk, c₃ =
      { c₂.insertAvailRun k.sizeClass a (calculateRunPages run) run with
        freeBytes := c₂.freeBytes + (calculateRunPages b * k.pageSize : ℕ) } := ⟨_, rfl⟩
  have hfree : c.freeRun k.sizeClass handle buffer = c₃.cacheBuffer buffer := by
    rw [PoolChunk.freeRun, hcollapse]
    dsimp only
    rw [hrunh, hg.offset, hins.2, hpages, PoolConfig.pageShifts_sizeClass, Nat.shiftLeft_eq,
      show 2 ^ k.pageShifts = k.pageSize by rfl, ← hc₃]
  rw [← hc₃] at hclose
  obtain ⟨hmap, hqueue, hbytes, hsub, hoff, hpar⟩ := cacheBuffer_rest c₃ buffer
  rw [hfree]
  refine ⟨_, ⟨hclose.tiling, hclose.coalesced, hclose.offset, hclose.isRun,
    hclose.filed.congr hmap hqueue, hbytes.trans hclose.freeBytes⟩, herase, ?_, ?_, ?_⟩
  · rw [hsub, hc₃]
    exact hrest.subpages
  · rw [hoff, hc₃]
    exact hrest.offset
  · rw [hpar, hc₃]
    exact hrest.parent

end PoolChunk

end DuoDuo.Buffer
