import DuoDuo.Library.Rounding
import DuoDuo.Timers.TimingWheel

/-!
# Wheels that fit together

A tick of an overflow wheel is a turn of the wheel below it, and its time is that of
the wheel below, rounded down. Adding an overflow wheel and advancing the clock keep
this, and it lets a task that does not fit a wheel find its place on a higher one.
-/

namespace DuoDuo.Timers

open Library

/-- The list of wheels after overflow wheels have been added to it. -/
inductive Grows : List TimingWheel → List TimingWheel → Prop
  | refl (ws : List TimingWheel) : Grows ws ws
  | add {ws ws' : List TimingWheel} {w : TimingWheel} : w ∈ ws.getLast? →
      Grows (ws ++ [.new w.interval w.wheelSize w.currentTime ws.length]) ws' → Grows ws ws'

/-- The wheels that were there before remain. -/
theorem Grows.isPrefix {ws ws' : List TimingWheel} (h : Grows ws ws') : ws <+: ws' := by
  induction h with
  | refl => exact List.prefix_refl _
  | add _ _ ih => exact (List.prefix_append _ _).trans ih

/-- Overflow wheels can be added in several calls. -/
theorem Grows.trans {ws ws' ws'' : List TimingWheel} (h : Grows ws ws') (h' : Grows ws' ws'') :
    Grows ws ws'' := by
  induction h with
  | refl => exact h'
  | add hw _ ih => exact .add hw (ih h')

/-- The wheels keep their levels. -/
theorem Grows.getElem? {ws ws' : List TimingWheel} (h : Grows ws ws') {level : ℕ}
    {w : TimingWheel} (hw : ws[level]? = some w) : ws'[level]? = some w := by
  obtain ⟨rest, rfl⟩ := h.isPrefix
  obtain ⟨hlt, rfl⟩ := List.getElem?_eq_some_iff.mp hw
  rw [List.getElem?_append_left hlt, List.getElem?_eq_getElem hlt]

/-- A wheel as its constructor and `advanceClock` keep it. -/
structure TimingWheel.Sound (w : TimingWheel) : Prop where
  tick_pos : 0 < w.tickMs
  size_pos : 0 < w.wheelSize
  interval_eq : w.interval = w.tickMs * w.wheelSize
  current_nonneg : 0 ≤ w.currentTime
  aligned : w.tickMs ∣ w.currentTime

/-- An overflow wheel fits the wheel below it: one of its ticks is a turn of that
wheel, and its time is that of the wheel, rounded down. -/
def TimingWheel.Meshes (w overflow : TimingWheel) : Prop :=
  overflow.tickMs = w.interval ∧
    overflow.currentTime = roundDown overflow.tickMs w.currentTime

/-- The wheels of a timer fit together. -/
structure Geared (ws : List TimingWheel) : Prop where
  sound : ∀ w ∈ ws, w.Sound
  meshes : ws.IsChain TimingWheel.Meshes

/-- A wheel's interval is at least its tick. -/
theorem TimingWheel.Sound.tick_le_interval {w : TimingWheel} (h : w.Sound) :
    w.tickMs ≤ w.interval := by
  rw [h.interval_eq]
  exact le_mul_of_one_le_right h.tick_pos.le (by exact_mod_cast h.size_pos)

/-- The ticks of a wheel's turn, the current one included. -/
theorem TimingWheel.Sound.tick_in_turn {w : TimingWheel} (h : w.Sound) {x : TimeEntry}
    (hle : w.currentTime ≤ x) (hlt : x < w.currentTime + w.interval) :
    w.currentTime / w.tickMs ≤ x / w.tickMs ∧
      x / w.tickMs < w.currentTime / w.tickMs + w.wheelSize := by
  refine ⟨Int.ediv_le_ediv h.tick_pos hle, ?_⟩
  rw [Int.ediv_lt_iff_lt_mul h.tick_pos, add_mul, Int.ediv_mul_cancel h.aligned, mul_comm,
    ← h.interval_eq]
  exact hlt

/-- A new wheel is sound, and its time is the starting time rounded down. -/
theorem TimingWheel.Sound.new {tickMs startMs : TimeEntry} (htick : 0 < tickMs)
    (hstart : 0 ≤ startMs) {wheelSize : ℕ} (hsize : 0 < wheelSize) (root : ℕ) :
    (TimingWheel.new tickMs wheelSize startMs root).Sound ∧
      (TimingWheel.new tickMs wheelSize startMs root).currentTime = roundDown tickMs startMs := by
  have hcurrent : (TimingWheel.new tickMs wheelSize startMs root).currentTime =
      roundDown tickMs startMs := TimeEntry.sub_mod hstart htick
  refine ⟨⟨htick, hsize, rfl, ?_, ?_⟩, hcurrent⟩
  · rw [hcurrent, roundDown]
    exact mul_nonneg htick.le (Int.ediv_nonneg hstart htick.le)
  · rw [hcurrent]
    exact dvd_roundDown tickMs startMs

/-- A new overflow wheel fits. -/
theorem Geared.grow {ws : List TimingWheel} (h : Geared ws) {w : TimingWheel}
    (hw : w ∈ ws.getLast?) (root : ℕ) :
    Geared (ws ++ [.new w.interval w.wheelSize w.currentTime root]) := by
  have hsound := h.sound w (List.mem_of_getLast? hw)
  have hinterval : 0 < w.interval := hsound.tick_pos.trans_le hsound.tick_le_interval
  obtain ⟨hnew, hcurrent⟩ :=
    TimingWheel.Sound.new hinterval hsound.current_nonneg hsound.size_pos root
  constructor
  · rw [List.forall_mem_append, List.forall_mem_singleton]
    exact ⟨h.sound, hnew⟩
  · refine h.meshes.append (List.isChain_singleton _) ?_
    intro x hx y hy
    obtain rfl : w = x := Option.some.inj (hw.symm.trans hx)
    obtain rfl : TimingWheel.new w.interval w.wheelSize w.currentTime root = y :=
      Option.some.inj hy
    exact ⟨rfl, hcurrent⟩

/-- Overflow wheels fit. -/
theorem Geared.of_grows {ws ws' : List TimingWheel} (h : Geared ws) (hgrows : Grows ws ws') :
    Geared ws' := by
  induction hgrows with
  | refl => exact h
  | add hw _ ih => exact ih (h.grow hw _)

/-- The wheel above a wheel fits it. -/
theorem Geared.meshes_succ {ws : List TimingWheel} (h : Geared ws) {level : ℕ}
    {w overflow : TimingWheel} (hw : ws[level]? = some w)
    (hoverflow : ws[level + 1]? = some overflow) : w.Meshes overflow := by
  obtain ⟨hlt, rfl⟩ := List.getElem?_eq_some_iff.mp hw
  obtain ⟨hlt', rfl⟩ := List.getElem?_eq_some_iff.mp hoverflow
  exact List.isChain_iff_getElem.mp h.meshes level hlt'

/-- A task beyond a turn of a wheel is not due on the wheel above. -/
theorem TimingWheel.Meshes.not_due {w overflow : TimingWheel} (h : w.Meshes overflow)
    (hsound : overflow.Sound) {x : TimeEntry} (hx : w.currentTime + w.interval ≤ x) :
    overflow.currentTime + overflow.tickMs ≤ x := by
  obtain ⟨htick, hcurrent⟩ := h
  have hle := roundDown_le hsound.tick_pos w.currentTime
  rw [← hcurrent] at hle
  linarith

/-- The wheels above the first have coarser ticks, which end no earlier. -/
theorem Geared.above {w : TimingWheel} {ws : List TimingWheel} (h : Geared (w :: ws)) :
    ∀ w' ∈ ws, w.tickMs ∣ w'.tickMs ∧
      w.currentTime + w.tickMs ≤ w'.currentTime + w'.tickMs := by
  induction ws generalizing w with
  | nil => simp
  | cons overflow ws ih =>
    have hsound := h.sound w (List.mem_cons_self ..)
    have hsound' := h.sound overflow (by simp)
    obtain ⟨hmesh, hchain⟩ := List.isChain_cons_cons.mp h.meshes
    have hdvd : w.tickMs ∣ overflow.tickMs := by
      rw [hmesh.1, hsound.interval_eq]
      exact Dvd.intro _ rfl
    have hends : w.currentTime + w.tickMs ≤ overflow.currentTime + overflow.tickMs := by
      have hlt := lt_roundDown_add hsound'.tick_pos w.currentTime
      rw [← hmesh.2] at hlt
      exact add_le_of_lt_of_dvd hsound.tick_pos hsound.aligned
        (dvd_add (hdvd.trans hsound'.aligned) hdvd) hlt
    have hgeared : Geared (overflow :: ws) := ⟨fun w' hw' => h.sound w' (by simp [hw']), hchain⟩
    intro w' hw'
    rcases List.mem_cons.mp hw' with rfl | hw'
    · exact ⟨hdvd, hends⟩
    · obtain ⟨hdvd', hends'⟩ := ih hgeared w' hw'
      exact ⟨hdvd.trans hdvd', hends.trans hends'⟩

/-- A wheel after the clock has been advanced to a time. -/
def TimingWheel.advanced (timeMs : TimeEntry) (w : TimingWheel) : TimingWheel :=
  { w with currentTime := max w.currentTime (roundDown w.tickMs timeMs) }

/-- A wheel whose current tick contains the time, or which is ahead of it, stays as it is. -/
theorem TimingWheel.Sound.advanced_of_lt {w : TimingWheel} (h : w.Sound) {timeMs : TimeEntry}
    (hlt : timeMs < w.currentTime + w.tickMs) : w.advanced timeMs = w := by
  rw [TimingWheel.advanced, max_eq_left (roundDown_le_of_lt h.tick_pos h.aligned hlt)]

/-- `TimingWheel::advanceClock` advances every wheel, although it stops at the first
whose current tick contains the time. -/
theorem advanceWheels_eq {ws : List TimingWheel} (h : Geared ws) {timeMs : TimeEntry}
    (htime : 0 ≤ timeMs) : Timer.advanceWheels timeMs ws = ws.map (·.advanced timeMs) := by
  induction ws generalizing timeMs with
  | nil => rfl
  | cons w overflow ih =>
    have hsound := h.sound w (List.mem_cons_self ..)
    have hgeared : Geared overflow :=
      ⟨fun w' hw' => h.sound w' (List.mem_cons_of_mem w hw'), h.meshes.tail⟩
    rw [Timer.advanceWheels, List.map_cons]
    by_cases hreached : timeMs ≥ w.currentTime + w.tickMs
    · have hround : TimeEntry.sub timeMs (.mod timeMs w.tickMs) = roundDown w.tickMs timeMs :=
        TimeEntry.sub_mod htime hsound.tick_pos
      have hnonneg : 0 ≤ roundDown w.tickMs timeMs :=
        mul_nonneg hsound.tick_pos.le (Int.ediv_nonneg htime hsound.tick_pos.le)
      have hcurrent : w.currentTime ≤ roundDown w.tickMs timeMs :=
        (le_roundDown_iff hsound.tick_pos hsound.aligned).mpr (by linarith [hsound.tick_pos])
      rw [if_pos hreached, TimingWheel.advanced, max_eq_right hcurrent]
      dsimp only
      rw [hround, ih hgeared hnonneg]
      congr 1
      refine List.map_congr_left fun w' hw' => ?_
      have htick' := (hgeared.sound w' hw').tick_pos
      rw [TimingWheel.advanced, TimingWheel.advanced,
        roundDown_roundDown hsound.tick_pos htick' (h.above w' hw').1]
    · rw [if_neg hreached, hsound.advanced_of_lt (not_le.mp hreached)]
      congr 1
      rw [List.map_congr_left (g := id), List.map_id]
      intro w' hw'
      have hends := (h.above w' hw').2
      exact (hgeared.sound w' hw').advanced_of_lt (by linarith)

/-- Advanced wheels fit together. -/
theorem Geared.advance {ws : List TimingWheel} (h : Geared ws) (timeMs : TimeEntry) :
    Geared (ws.map (·.advanced timeMs)) := by
  constructor
  · rw [List.forall_mem_map]
    intro w hw
    have hsound := h.sound w hw
    refine ⟨hsound.tick_pos, hsound.size_pos, hsound.interval_eq,
      hsound.current_nonneg.trans (le_max_left ..), ?_⟩
    show w.tickMs ∣ max w.currentTime (roundDown w.tickMs timeMs)
    rcases max_choice w.currentTime (roundDown w.tickMs timeMs) with hmax | hmax <;> rw [hmax]
    · exact hsound.aligned
    · exact dvd_roundDown ..
  · rw [List.isChain_map]
    refine h.meshes.imp_of_mem_imp fun w overflow hw hoverflow hmesh => ?_
    have hsound := h.sound w hw
    have hsound' := h.sound overflow hoverflow
    have hdvd : w.tickMs ∣ overflow.tickMs := by
      rw [hmesh.1, hsound.interval_eq]
      exact Dvd.intro _ rfl
    refine ⟨hmesh.1, ?_⟩
    show max overflow.currentTime (roundDown overflow.tickMs timeMs) =
      roundDown overflow.tickMs (max w.currentTime (roundDown w.tickMs timeMs))
    rw [roundDown_max hsound'.tick_pos, roundDown_roundDown hsound.tick_pos hsound'.tick_pos hdvd,
      hmesh.2]

/-- The bucket in which the wheels from a level on file a task. There is none for a task
that is due, and none yet for a task that needs a new overflow wheel. -/
def place (x : TimeEntry) : List TimingWheel → ℕ → Option BucketId
  | [], _ => none
  | w :: overflow, level =>
    if x < w.currentTime + w.tickMs then none
    else if x < w.currentTime + w.interval then
      some ⟨level, ((TimeEntry.div x w.tickMs).tmod w.wheelSize).toNat⟩
    else place x overflow (level + 1)

/-- A task is placed on the level at which the search starts, or above. -/
theorem le_of_place {x : TimeEntry} {ws : List TimingWheel} {level : ℕ} {b : BucketId}
    (h : place x ws level = some b) : level ≤ b.level := by
  induction ws generalizing level with
  | nil => cases h
  | cons w overflow ih =>
    rw [place] at h
    split at h
    · cases h
    · split at h
      · exact (Option.some.inj h) ▸ le_rfl
      · exact (Nat.le_succ level).trans (ih h)

/-- A task in the range of a wheel is placed on it. -/
theorem place_here {x : TimeEntry} {ws : List TimingWheel} {level : ℕ} {w : TimingWheel}
    (hw : ws[level]? = some w) (hlate : w.currentTime + w.tickMs ≤ x)
    (hfits : x < w.currentTime + w.interval) :
    place x (ws.drop level) level =
      some ⟨level, ((TimeEntry.div x w.tickMs).tmod w.wheelSize).toNat⟩ := by
  obtain ⟨hlt, rfl⟩ := List.getElem?_eq_some_iff.mp hw
  rw [List.drop_eq_getElem_cons hlt, place, if_neg (not_lt.mpr hlate), if_pos hfits]

/-- A task beyond the range of a wheel is placed on the wheels above. -/
theorem place_above {x : TimeEntry} {ws : List TimingWheel} {level : ℕ} {w : TimingWheel}
    (hw : ws[level]? = some w) (hlate : w.currentTime + w.tickMs ≤ x)
    (hbeyond : w.currentTime + w.interval ≤ x) :
    place x (ws.drop level) level = place x (ws.drop (level + 1)) (level + 1) := by
  obtain ⟨hlt, rfl⟩ := List.getElem?_eq_some_iff.mp hw
  rw [List.drop_eq_getElem_cons hlt, place, if_neg (not_lt.mpr hlate),
    if_neg (not_lt.mpr hbeyond)]

/-- A task is placed in the range of a wheel, but not in its current tick, in the bucket
that its expiration determines. -/
theorem place_spec {x : TimeEntry} {ws : List TimingWheel} {level : ℕ} {b : BucketId}
    (h : place x ws level = some b) : ∃ w, ws[b.level - level]? = some w ∧
      w.currentTime + w.tickMs ≤ x ∧ x < w.currentTime + w.interval ∧
      b.index = ((TimeEntry.div x w.tickMs).tmod w.wheelSize).toNat := by
  induction ws generalizing level with
  | nil => cases h
  | cons w overflow ih =>
    rw [place] at h
    split at h
    · cases h
    · next hlate =>
      split at h
      · next hfits =>
        obtain rfl := Option.some.inj h
        exact ⟨w, by simp, not_lt.mp hlate, hfits, rfl⟩
      · obtain ⟨w', hw', hspec⟩ := ih h
        have hlevel := le_of_place h
        have hindex : b.level - level = b.level - (level + 1) + 1 := by omega
        exact ⟨w', by rw [hindex, List.getElem?_cons_succ]; exact hw', hspec⟩

/-- A task that is due has no place. -/
theorem place_due {x : TimeEntry} {ws : List TimingWheel} {w : TimingWheel}
    (hw : ws[0]? = some w) (hdue : x < w.currentTime + w.tickMs) : place x ws 0 = none := by
  cases ws with
  | nil => rfl
  | cons w' overflow =>
    obtain rfl : w' = w := by simpa using hw
    rw [place, if_pos hdue]

/-- With more wheels on top, a task is placed where it was, or on one of these. -/
theorem place_append {x : TimeEntry} {ws rest : List TimingWheel} {level : ℕ} {b : BucketId}
    (h : place x (ws ++ rest) level = some b) :
    place x ws level = some b ∨ level + ws.length ≤ b.level := by
  induction ws generalizing level with
  | nil => exact .inr (le_of_place h)
  | cons w overflow ih =>
    rw [List.cons_append, place] at h
    rw [place]
    split at h
    · cases h
    · next hlate =>
      rw [if_neg hlate]
      split at h
      · next hfits => exact .inl (by rw [if_pos hfits]; exact h)
      · next hbeyond =>
        rw [if_neg hbeyond, List.length_cons]
        rcases ih h with hplaced | hlevel
        · exact .inl hplaced
        · exact .inr (by omega)

/-- A task that has its place keeps it when overflow wheels are added. -/
theorem place_append_of_some {x : TimeEntry} {ws : List TimingWheel} {level : ℕ} {b : BucketId}
    (h : place x ws level = some b) (rest : List TimingWheel) :
    place x (ws ++ rest) level = some b := by
  induction ws generalizing level with
  | nil => cases h
  | cons w overflow ih =>
    rw [List.cons_append, place]
    rw [place] at h
    split at h
    · cases h
    · next hlate =>
      rw [if_neg hlate]
      split at h
      · next hfits => rw [if_pos hfits]; exact h
      · next hbeyond => rw [if_neg hbeyond]; exact ih h

/-- The buckets of an overflow wheel that has been added have no expiration. -/
theorem Grows.expiration_unset {ws ws' : List TimingWheel} (h : Grows ws ws') {level : ℕ}
    {w : TimingWheel} (hw : ws'[level]? = some w) (hlevel : ws.length ≤ level) :
    ∀ l ∈ w.buckets, l.expiration = .unset := by
  induction h with
  | refl ws =>
    rw [List.getElem?_eq_none hlevel] at hw
    cases hw
  | @add ws ws' w₀ hlast hgrows ih =>
    rcases hlevel.lt_or_eq with hlt | rfl
    · exact ih hw (by simpa using hlt)
    · have hnew : ws'[ws.length]? =
          some (.new w₀.interval w₀.wheelSize w₀.currentTime ws.length) :=
        hgrows.getElem? (by simp)
      obtain rfl := Option.some.inj (hw.symm.trans hnew)
      intro l hl
      rw [List.eq_of_mem_replicate hl]
      rfl

/-- The wheel and the bucket at a position. -/
def BucketAt (ws : List TimingWheel) (b : BucketId) (w : TimingWheel) (l : TimerTaskList) : Prop :=
  ws[b.level]? = some w ∧ w.buckets[b.index]? = some l

/-- Replace a bucket in the list of wheels. -/
def setBucket (ws : List TimingWheel) (b : BucketId) (w : TimingWheel) (l : TimerTaskList) :
    List TimingWheel :=
  ws.set b.level { w with buckets := w.buckets.set b.index l }

variable {ws : List TimingWheel} {b b' : BucketId} {w w' : TimingWheel} {l l' : TimerTaskList}

/-- There is one bucket at a position. -/
theorem BucketAt.unique (h : BucketAt ws b w l) (h' : BucketAt ws b w' l') : w = w' ∧ l = l' := by
  obtain rfl : w = w' := Option.some.inj (h.1.symm.trans h'.1)
  exact ⟨rfl, Option.some.inj (h.2.symm.trans h'.2)⟩

/-- The bucket that has been replaced. -/
theorem BucketAt.set_self (h : BucketAt ws b w l) (l' : TimerTaskList) :
    BucketAt (setBucket ws b w l') b { w with buckets := w.buckets.set b.index l' } l' := by
  obtain ⟨hlevel, -⟩ := List.getElem?_eq_some_iff.mp h.1
  obtain ⟨hindex, -⟩ := List.getElem?_eq_some_iff.mp h.2
  exact ⟨List.getElem?_set_self hlevel, List.getElem?_set_self hindex⟩

/-- The other buckets stay, on wheels with the same time. -/
theorem BucketAt.set_of_ne (h : BucketAt ws b w l) (h' : BucketAt ws b' w' l') (hne : b' ≠ b)
    (l₁ : TimerTaskList) :
    ∃ buckets, BucketAt (setBucket ws b w l₁) b' { w' with buckets } l' := by
  by_cases hlevel : b'.level = b.level
  · have hindex : b.index ≠ b'.index := by
      rintro hindex
      exact hne (by cases b; cases b'; simp_all)
    obtain rfl : w = w' := Option.some.inj (h.1.symm.trans (hlevel ▸ h'.1))
    obtain ⟨hlt, -⟩ := List.getElem?_eq_some_iff.mp h.1
    refine ⟨w.buckets.set b.index l₁, ?_, ?_⟩
    · rw [setBucket, hlevel, List.getElem?_set_self hlt]
    · rw [List.getElem?_set_ne hindex]
      exact h'.2
  · refine ⟨w'.buckets, ?_, h'.2⟩
    rw [setBucket, List.getElem?_set_ne (Ne.symm hlevel)]
    exact h'.1

/-- Buckets keep their places when overflow wheels are added. -/
theorem BucketAt.of_grows (h : BucketAt ws b w l) {ws' : List TimingWheel}
    (hgrows : Grows ws ws') : BucketAt ws' b w l :=
  ⟨hgrows.getElem? h.1, h.2⟩

/-- Buckets keep their places when the clock is advanced. -/
theorem BucketAt.advanced (h : BucketAt ws b w l) (timeMs : TimeEntry) :
    BucketAt (ws.map (·.advanced timeMs)) b (w.advanced timeMs) l := by
  refine ⟨?_, h.2⟩
  rw [List.getElem?_map, h.1]
  rfl

/-- Replacing a bucket leaves the wheels as they are, except for their buckets. -/
theorem BucketAt.getElem?_setBucket (h : BucketAt ws b w l) {i : ℕ} {w' : TimingWheel}
    (hw' : ws[i]? = some w') (l' : TimerTaskList) :
    ∃ buckets, (setBucket ws b w l')[i]? = some { w' with buckets } := by
  by_cases hlevel : i = b.level
  · subst hlevel
    obtain rfl : w = w' := Option.some.inj (h.1.symm.trans hw')
    obtain ⟨hlt, -⟩ := List.getElem?_eq_some_iff.mp h.1
    exact ⟨_, List.getElem?_set_self hlt⟩
  · refine ⟨w'.buckets, ?_⟩
    rw [setBucket, List.getElem?_set_ne (Ne.symm hlevel)]
    exact hw'

/-- Whether wheels fit does not depend on their buckets. -/
theorem Geared.setBucket (h : Geared ws) (hbucket : BucketAt ws b w l) (l' : TimerTaskList) :
    Geared (setBucket ws b w l') := by
  have hget : ∀ (i : ℕ) (hi : i < (DuoDuo.Timers.setBucket ws b w l').length),
      ∃ (hi' : i < ws.length) (buckets : List TimerTaskList),
        (DuoDuo.Timers.setBucket ws b w l')[i] = { ws[i] with buckets } := by
    intro i hi
    have hi' : i < ws.length := by simpa [DuoDuo.Timers.setBucket] using hi
    obtain ⟨buckets, hset⟩ := hbucket.getElem?_setBucket (List.getElem?_eq_getElem hi') l'
    exact ⟨hi', buckets, (List.getElem?_eq_some_iff.mp hset).2⟩
  constructor
  · intro x hx
    obtain ⟨i, hi, rfl⟩ := List.mem_iff_getElem.mp hx
    obtain ⟨hi', buckets, heq⟩ := hget i hi
    obtain ⟨htick, hsize, hinterval, hcurrent, haligned⟩ := h.sound ws[i] (List.getElem_mem hi')
    rw [heq]
    exact ⟨htick, hsize, hinterval, hcurrent, haligned⟩
  · rw [List.isChain_iff_getElem]
    intro i hi
    obtain ⟨hi₀, buckets₀, heq₀⟩ := hget i (by omega)
    obtain ⟨hi₁, buckets₁, heq₁⟩ := hget (i + 1) hi
    rw [heq₀, heq₁]
    exact List.isChain_iff_getElem.mp h.meshes i hi₁

end DuoDuo.Timers
