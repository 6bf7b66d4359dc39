import DuoDuo.Buffer.PoolChunk

/-!
# The available runs of a chunk

The queues and the boundary map of a chunk hold one set of available runs. Filing a
run that meets none of them, and taking one of them out, keep the two in step.
-/

namespace DuoDuo.Buffer

namespace PoolChunk

/-- The two chunks differ in their available runs and bytes only. -/
structure SameRest (c c' : PoolChunk) : Prop where
  subpages : c'.subpages = c.subpages
  cachedBuffers : c'.cachedBuffers = c.cachedBuffers
  offset : c'.offset = c.offset
  parent : c'.parent = c.parent

theorem SameRest.trans {c₁ c₂ c₃ : PoolChunk} (h₁ : SameRest c₁ c₂) (h₂ : SameRest c₂ c₃) :
    SameRest c₁ c₃ :=
  ⟨h₂.subpages.trans h₁.subpages, h₂.cachedBuffers.trans h₁.cachedBuffers,
    h₂.offset.trans h₁.offset, h₂.parent.trans h₁.parent⟩

theorem sameRest_insertAvailRun0 (c : PoolChunk) (x : ℤ) (handle : ℕ) :
    SameRest c (c.insertAvailRun0 x handle) ∧
      (c.insertAvailRun0 x handle).freeBytes = c.freeBytes := by
  unfold insertAvailRun0
  split <;> exact ⟨⟨rfl, rfl, rfl, rfl⟩, rfl⟩

theorem sameRest_insertAvailRun (sc : SizeClass) (c : PoolChunk) (runOffset pages handle : ℕ) :
    SameRest c (c.insertAvailRun sc runOffset pages handle) ∧
      (c.insertAvailRun sc runOffset pages handle).freeBytes = c.freeBytes := by
  have hpush : SameRest c (c.pushRun (sc.page2pageIdxFloor pages) handle) := ⟨rfl, rfl, rfl, rfl⟩
  have hfirst := sameRest_insertAvailRun0 (c.pushRun (sc.page2pageIdxFloor pages) handle)
    runOffset handle
  unfold insertAvailRun
  dsimp only
  split
  · have hlast := sameRest_insertAvailRun0
      ((c.pushRun (sc.page2pageIdxFloor pages) handle).insertAvailRun0 runOffset handle)
      (tailPage runOffset pages) handle
    exact ⟨hpush.trans (hfirst.1.trans hlast.1), hlast.2.trans hfirst.2⟩
  · exact ⟨hpush.trans hfirst.1, hfirst.2⟩

theorem sameRest_removeAvailRun (sc : SizeClass) (c : PoolChunk) (handle : ℕ) :
    SameRest c (c.removeAvailRun sc handle) ∧
      (c.removeAvailRun sc handle).freeBytes = c.freeBytes := by
  unfold removeAvailRun removeAvailRunFrom
  dsimp only
  split <;> exact ⟨⟨rfl, rfl, rfl, rfl⟩, rfl⟩

variable (sc : SizeClass)

/-- The queues after a run is filed. -/
theorem runsAvail_insertAvailRun (c : PoolChunk) (runOffset pages handle : ℕ) :
    (c.insertAvailRun sc runOffset pages handle).runsAvail =
      Function.update c.runsAvail (sc.page2pageIdxFloor pages)
        (c.runsAvail (sc.page2pageIdxFloor pages) ++ [handle]) := by
  have hkeep : ∀ (d : PoolChunk) (x : ℤ) (h : ℕ), (d.insertAvailRun0 x h).runsAvail = d.runsAvail := by
    intro d x h
    unfold insertAvailRun0
    split <;> rfl
  unfold insertAvailRun
  dsimp only
  split
  · rw [hkeep, hkeep]
    rfl
  · rw [hkeep]
    rfl

/-- The boundary map after a run is filed between runs that are there. -/
theorem runsAvailMap_insertAvailRun {c : PoolChunk} {runOffset pages : ℕ} (handle : ℕ)
    (hpos : 0 < pages) (hfirst : c.runsAvailMap runOffset = none)
    (hlast : c.runsAvailMap (tailPage runOffset pages) = none) (x : ℤ) :
    (c.insertAvailRun sc runOffset pages handle).runsAvailMap x =
      if x = runOffset ∨ x = tailPage runOffset pages then some handle else c.runsAvailMap x := by
  have hnew : ∀ (d : PoolChunk) (y : ℤ), d.runsAvailMap y = none →
      (d.insertAvailRun0 y handle).runsAvailMap = Function.update d.runsAvailMap y (some handle) := by
    intro d y hy
    unfold insertAvailRun0
    rw [hy]
  unfold insertAvailRun
  dsimp only
  split
  · next hpages =>
    have hne : tailPage runOffset pages ≠ runOffset := by
      unfold tailPage
      omega
    rw [hnew, hnew]
    · by_cases h₁ : x = tailPage runOffset pages
      · rw [h₁, Function.update_self, if_pos (Or.inr rfl)]
      · rw [Function.update_of_ne h₁]
        by_cases h₂ : x = runOffset
        · rw [h₂, Function.update_self, if_pos (Or.inl rfl)]
        · rw [Function.update_of_ne h₂, if_neg (by tauto)]
          rfl
    · exact hfirst
    · rw [hnew (c.pushRun _ _) _ hfirst, Function.update_of_ne hne]
      exact hlast
  · next hpages =>
    have heq : tailPage runOffset pages = runOffset := by
      unfold tailPage
      omega
    rw [hnew (c.pushRun _ _) _ hfirst, heq]
    by_cases h₂ : x = runOffset
    · rw [h₂, Function.update_self, if_pos (Or.inl rfl)]
    · rw [Function.update_of_ne h₂, if_neg (by tauto)]
      rfl

/-- The queues after a run is taken from one. -/
theorem runsAvail_removeAvailRunFrom (c : PoolChunk) (queue handle : ℕ) :
    (c.removeAvailRunFrom queue handle).runsAvail =
      Function.update c.runsAvail queue ((c.runsAvail queue).erase handle) := by
  unfold removeAvailRunFrom
  dsimp only
  split <;> rfl

/-- The boundary map after a run is taken. -/
theorem runsAvailMap_removeAvailRunFrom (c : PoolChunk) (queue : ℕ) {handle : ℕ}
    (hpos : 0 < calculateRunPages handle) (x : ℤ) :
    (c.removeAvailRunFrom queue handle).runsAvailMap x =
      if x = calculateRunOffset handle ∨
          x = tailPage (calculateRunOffset handle) (calculateRunPages handle) then none
      else c.runsAvailMap x := by
  unfold removeAvailRunFrom
  dsimp only
  split
  · by_cases h₁ : x = tailPage (calculateRunOffset handle) (calculateRunPages handle)
    · rw [h₁, if_pos (Or.inr rfl)]
      exact Function.update_self _ _ _
    · by_cases h₂ : x = calculateRunOffset handle
      · rw [h₂, if_pos (Or.inl rfl)]
        rw [h₂] at h₁
        exact (Function.update_of_ne h₁ _ _).trans (Function.update_self _ _ _)
      · rw [if_neg (by tauto)]
        exact (Function.update_of_ne h₁ _ _).trans (Function.update_of_ne h₂ _ _)
  · have heq : tailPage (calculateRunOffset handle) (calculateRunPages handle) =
        calculateRunOffset handle := by
      unfold tailPage
      omega
    rw [heq]
    by_cases h₂ : x = calculateRunOffset handle
    · rw [h₂, if_pos (Or.inl rfl)]
      exact Function.update_self _ _ _
    · rw [if_neg (by tauto)]
      exact Function.update_of_ne h₂ _ _

/-- The available runs `avail`, by their offsets, are what the queues and the boundary
map of the chunk hold. -/
structure Filed (c : PoolChunk) (avail : ℕ → Option ℕ) : Prop where
  offset : ∀ {o h}, avail o = some h → calculateRunOffset h = o
  pos : ∀ {o h}, avail o = some h → 0 < calculateRunPages h
  disjoint : ∀ {o h o' h'}, avail o = some h → avail o' = some h' → o < o' →
    o + calculateRunPages h ≤ o'
  map : ∀ {x h}, c.runsAvailMap x = some h ↔
    ∃ o, avail o = some h ∧ (x = o ∨ x = tailPage o (calculateRunPages h))
  queue : ∀ {i h}, h ∈ c.runsAvail i ↔
    ∃ o, avail o = some h ∧ i = sc.page2pageIdxFloor (calculateRunPages h)
  nodup : ∀ i, (c.runsAvail i).Nodup

variable {sc} {c : PoolChunk} {avail : ℕ → Option ℕ}

/-- A boundary of a run that meets no available run is not in the map. -/
theorem Filed.map_eq_none (hf : Filed sc c avail) {o n : ℕ} {x : ℤ}
    (hx : (o : ℤ) ≤ x ∧ x < o + n)
    (hfree : ∀ o' h', avail o' = some h' → o' + calculateRunPages h' ≤ o ∨ o + n ≤ o') :
    c.runsAvailMap x = none := by
  rcases hmap : c.runsAvailMap x with _ | h'
  · rfl
  · obtain ⟨o', ho', hbound⟩ := hf.map.mp hmap
    have hpos := hf.pos ho'
    have hout := hfree o' h' ho'
    unfold tailPage at hbound
    omega

/-- Filing a run that meets no available run. -/
theorem Filed.insert (hf : Filed sc c avail) {o h : ℕ} (ho : calculateRunOffset h = o)
    (hpos : 0 < calculateRunPages h)
    (hfree : ∀ o' h', avail o' = some h' →
      o' + calculateRunPages h' ≤ o ∨ o + calculateRunPages h ≤ o') :
    Filed sc (c.insertAvailRun sc o (calculateRunPages h) h)
      (Function.update avail o (some h)) := by
  have hnone : avail o = none := by
    rcases hav : avail o with _ | h'
    · rfl
    · have hout := hfree o h' hav
      have hpos' := hf.pos hav
      omega
  have hinv : ∀ {o' h'}, Function.update avail o (some h) o' = some h' →
      (o' = o ∧ h' = h) ∨ (o' ≠ o ∧ avail o' = some h') := by
    intro o' h' hupd
    by_cases heq : o' = o
    · rw [heq, Function.update_self] at hupd
      cases hupd
      exact Or.inl ⟨heq, rfl⟩
    · rw [Function.update_of_ne heq] at hupd
      exact Or.inr ⟨heq, hupd⟩
  have hnew : ∀ {o' h'}, avail o' = some h' → Function.update avail o (some h) o' = some h' := by
    intro o' h' hav
    rw [Function.update_of_ne (by rintro rfl; rw [hnone] at hav; cases hav)]
    exact hav
  have hfirst := hf.map_eq_none (x := o) ⟨le_rfl, by omega⟩ hfree
  have hlast := hf.map_eq_none (x := tailPage o (calculateRunPages h))
    (by unfold tailPage; omega) hfree
  constructor
  · intro o' h' hav
    rcases hinv hav with ⟨rfl, rfl⟩ | ⟨_, hold⟩
    · exact ho
    · exact hf.offset hold
  · intro o' h' hav
    rcases hinv hav with ⟨rfl, rfl⟩ | ⟨_, hold⟩
    · exact hpos
    · exact hf.pos hold
  · intro o₁ h₁ o₂ h₂ hav₁ hav₂ hlt
    rcases hinv hav₁ with ⟨rfl, rfl⟩ | ⟨_, hold₁⟩ <;>
      rcases hinv hav₂ with ⟨rfl, rfl⟩ | ⟨_, hold₂⟩
    · omega
    · have hout := hfree _ _ hold₂
      have hpos₂ := hf.pos hold₂
      omega
    · have hout := hfree _ _ hold₁
      omega
    · exact hf.disjoint hold₁ hold₂ hlt
  · intro x h'
    rw [runsAvailMap_insertAvailRun sc h hpos hfirst hlast]
    constructor
    · intro hmap
      split_ifs at hmap with hbound
      · cases hmap
        exact ⟨o, Function.update_self _ _ _, hbound⟩
      · obtain ⟨o', hav, hbound'⟩ := hf.map.mp hmap
        exact ⟨o', hnew hav, hbound'⟩
    · rintro ⟨o', hav, hbound⟩
      rcases hinv hav with ⟨rfl, rfl⟩ | ⟨_, hold⟩
      · rw [if_pos hbound]
      · have hmap := hf.map.mpr ⟨o', hold, hbound⟩
        rw [if_neg]
        · exact hmap
        · rintro (rfl | rfl)
          · rw [hfirst] at hmap
            cases hmap
          · rw [hlast] at hmap
            cases hmap
  · intro i h'
    rw [runsAvail_insertAvailRun]
    by_cases hi : i = sc.page2pageIdxFloor (calculateRunPages h)
    · rw [hi, Function.update_self, List.mem_append, List.mem_singleton, hf.queue]
      constructor
      · rintro (⟨o', hav, hidx⟩ | rfl)
        · exact ⟨o', hnew hav, hidx⟩
        · exact ⟨o, Function.update_self _ _ _, rfl⟩
      · rintro ⟨o', hav, hidx⟩
        rcases hinv hav with ⟨_, rfl⟩ | ⟨_, hold⟩
        · exact Or.inr rfl
        · exact Or.inl ⟨o', hold, hidx⟩
    · rw [Function.update_of_ne hi, hf.queue]
      constructor
      · rintro ⟨o', hav, hidx⟩
        exact ⟨o', hnew hav, hidx⟩
      · rintro ⟨o', hav, hidx⟩
        rcases hinv hav with ⟨_, rfl⟩ | ⟨_, hold⟩
        · exact absurd hidx hi
        · exact ⟨o', hold, hidx⟩
  · intro i
    rw [runsAvail_insertAvailRun]
    by_cases hi : i = sc.page2pageIdxFloor (calculateRunPages h)
    · rw [hi, Function.update_self]
      refine List.nodup_append.mpr ⟨hf.nodup _, List.nodup_singleton _, ?_⟩
      intro a ha b hb
      rw [List.mem_singleton] at hb
      rintro rfl
      rw [hb] at ha
      obtain ⟨o', hav, _⟩ := hf.queue.mp ha
      rw [← hf.offset hav, ho, hnone] at hav
      cases hav
    · rw [Function.update_of_ne hi]
      exact hf.nodup i

/-- Taking an available run out. -/
theorem Filed.remove (hf : Filed sc c avail) {o h : ℕ} (hav : avail o = some h) :
    Filed sc (c.removeAvailRun sc h) (Function.update avail o none) := by
  have ho := hf.offset hav
  have hpos := hf.pos hav
  have hinv : ∀ {o' h'}, Function.update avail o none o' = some h' ↔
      o' ≠ o ∧ avail o' = some h' := by
    intro o' h'
    by_cases heq : o' = o
    · rw [heq, Function.update_self]
      simp
    · rw [Function.update_of_ne heq]
      simp [heq]
  have hsep : ∀ {o' h'}, o' ≠ o → avail o' = some h' →
      o' + calculateRunPages h' ≤ o ∨ o + calculateRunPages h ≤ o' := by
    intro o' h' hne hav'
    rcases Nat.lt_or_gt_of_ne hne with hlt | hgt
    · exact Or.inl (hf.disjoint hav' hav hlt)
    · exact Or.inr (hf.disjoint hav hav' hgt)
  constructor
  · intro o' h' hav'
    exact hf.offset (hinv.mp hav').2
  · intro o' h' hav'
    exact hf.pos (hinv.mp hav').2
  · intro o₁ h₁ o₂ h₂ hav₁ hav₂ hlt
    exact hf.disjoint (hinv.mp hav₁).2 (hinv.mp hav₂).2 hlt
  · intro x h'
    rw [removeAvailRun, runsAvailMap_removeAvailRunFrom _ _ hpos, ho]
    constructor
    · intro hmap
      split_ifs at hmap with hbound
      obtain ⟨o', hav', hbound'⟩ := hf.map.mp hmap
      refine ⟨o', hinv.mpr ⟨?_, hav'⟩, hbound'⟩
      rintro rfl
      rw [hav] at hav'
      cases hav'
      exact hbound hbound'
    · rintro ⟨o', hav', hbound'⟩
      obtain ⟨hne, hold⟩ := hinv.mp hav'
      have hout := hsep hne hold
      have hpos' := hf.pos hold
      rw [if_neg (by unfold tailPage at *; omega)]
      exact hf.map.mpr ⟨o', hold, hbound'⟩
  · intro i h'
    rw [removeAvailRun, runsAvail_removeAvailRunFrom]
    by_cases hi : i = sc.page2pageIdxFloor (calculateRunPages h)
    · rw [hi, Function.update_self, (hf.nodup _).mem_erase_iff, hf.queue]
      constructor
      · rintro ⟨hne, o', hav', hidx⟩
        refine ⟨o', hinv.mpr ⟨?_, hav'⟩, hidx⟩
        rintro rfl
        rw [hav] at hav'
        cases hav'
        exact hne rfl
      · rintro ⟨o', hav', hidx⟩
        obtain ⟨hne, hold⟩ := hinv.mp hav'
        refine ⟨?_, o', hold, hidx⟩
        rintro rfl
        exact hne ((hf.offset hold).symm.trans ho)
    · rw [Function.update_of_ne hi, hf.queue]
      constructor
      · rintro ⟨o', hav', hidx⟩
        refine ⟨o', hinv.mpr ⟨?_, hav'⟩, hidx⟩
        rintro rfl
        rw [hav] at hav'
        cases hav'
        exact hi hidx
      · rintro ⟨o', hav', hidx⟩
        exact ⟨o', (hinv.mp hav').2, hidx⟩
  · intro i
    rw [removeAvailRun, runsAvail_removeAvailRunFrom]
    by_cases hi : i = sc.page2pageIdxFloor (calculateRunPages h)
    · rw [hi, Function.update_self]
      exact (hf.nodup _).erase _
    · rw [Function.update_of_ne hi]
      exact hf.nodup i

/-- The least handle of a queue belongs to an available run. -/
theorem Filed.top_eq (hf : Filed sc c avail) {i h : ℕ}
    (htop : BestFitQueue.top (c.runsAvail i) = some h) :
    ∃ o, avail o = some h ∧ i = sc.page2pageIdxFloor (calculateRunPages h) :=
  hf.queue.mp (List.min?_mem htop)

/-- Removing the run that was popped already removes nothing more from its queue. -/
theorem Filed.removeAvailRunFrom_pop (hf : Filed sc c avail) {i h : ℕ}
    (htop : BestFitQueue.top (c.runsAvail i) = some h) :
    removeAvailRunFrom { c with
      runsAvail := Function.update c.runsAvail i (BestFitQueue.pop (c.runsAvail i)) } i h =
      c.removeAvailRun sc h := by
  obtain ⟨o, _, hi⟩ := hf.top_eq htop
  have hpop : BestFitQueue.pop (c.runsAvail i) = (c.runsAvail i).erase h := by
    rw [BestFitQueue.pop, htop]
  have hgone : h ∉ (c.runsAvail i).erase h := (hf.nodup i).not_mem_erase
  rw [removeAvailRun, ← hi, hpop]
  simp only [removeAvailRunFrom, BestFitQueue.remove, Function.update_self, Function.update_idem,
    List.erase_of_not_mem hgone]

/-- The runs of a chunk do not depend on the rest of it. -/
theorem Filed.congr (hf : Filed sc c avail) {c' : PoolChunk}
    (hmap : c'.runsAvailMap = c.runsAvailMap) (hqueue : c'.runsAvail = c.runsAvail) :
    Filed sc c' avail where
  offset := hf.offset
  pos := hf.pos
  disjoint := hf.disjoint
  map := by
    rw [hmap]
    exact hf.map
  queue := by
    rw [hqueue]
    exact hf.queue
  nodup := by
    rw [hqueue]
    exact hf.nodup

end PoolChunk

end DuoDuo.Buffer
