import DuoDuo.Timers.Gears

/-!
# Filing a task

What one call of `addTimerTaskEntry` does. The wheels of a timer fit together, and
overflow wheels are added as they are needed. A task that is due is handed over. Any
other task is filed in the bucket that the wheels determine, and handed over as well
if the value that the overflow branch happens to yield is false.
-/

namespace DuoDuo.Timers

open Library

namespace Timer

/-- Only the links of one entry have changed, and its pointer to its list. -/
def Relinked (t : Timer) (id : EntryId) (e : TimerTaskEntry) (list : Option BucketId)
    (t' : Timer) : Prop :=
  ∃ rings, t' = { t with
      rings, entries := Function.update t.entries id (some { e with list }) } ∧
    ∀ root, ∀ id' ≠ id, id' ∈ rings root ↔ id' ∈ t.rings root

/-- Nothing has changed. -/
theorem Relinked.refl {t : Timer} {id : EntryId} {e : TimerTaskEntry}
    (hentry : t.entries id = some e) : t.Relinked id e e.list t := by
  refine ⟨t.rings, ?_, fun _ _ _ => Iff.rfl⟩
  have hentries : Function.update t.entries id (some { e with list := e.list }) = t.entries := by
    rw [show some { e with list := e.list } = t.entries id from hentry.symm,
      Function.update_eq_self]
  rw [hentries]

/-- The lists after an entry with the given pointer has been unlinked. -/
def Unlinked (ws : List TimingWheel) (rings : ℕ → List EntryId) (id : EntryId) :
    Option BucketId → (ℕ → List EntryId) → Prop
  | none, rings' => rings' = rings
  | some b, rings' => ∃ w l, BucketAt ws b w l ∧
      rings' = Function.update rings l.root ((rings l.root).erase id)

/-- Unlinking an entry leaves the others in their lists. -/
theorem Unlinked.mem_iff {ws : List TimingWheel} {rings rings' : ℕ → List EntryId} {id : EntryId}
    {list : Option BucketId} (h : Unlinked ws rings id list rings') (root : ℕ) {id' : EntryId}
    (hne : id' ≠ id) : id' ∈ rings' root ↔ id' ∈ rings root := by
  cases list with
  | none =>
    obtain rfl := h
    exact Iff.rfl
  | some b =>
    obtain ⟨w, l, -, rfl⟩ := h
    by_cases hroot : root = l.root
    · rw [hroot, Function.update_self]
      exact List.mem_erase_of_ne hne
    · rw [Function.update_of_ne hroot]

/-- The bucket at a position of the wheels. -/
theorem bucketAt_of_bucket {t : Timer} {b : BucketId} {l : TimerTaskList}
    (h : t.bucket b = some l) : ∃ w, BucketAt t.wheels b w l := by
  obtain ⟨w, hw, hl⟩ := Option.bind_eq_some_iff.mp h
  exact ⟨w, hw, hl⟩

/-- Access to a bucket succeeds if it exists. -/
theorem bucket_of_bucketAt {t : Timer} {b : BucketId} {l : TimerTaskList}
    (h : t.bucketAt b = .ok l) : t.bucket b = some l := by
  rw [bucketAt] at h
  cases hbucket : t.bucket b with
  | none => rw [hbucket] at h; cases h
  | some l' =>
    rw [hbucket] at h
    exact congrArg some (Except.ok.inj h)

/-- `removeFrom` unlinks an entry that points to the bucket, and leaves others alone. -/
theorem removeFrom_spec {t t' : Timer} {b : BucketId} {id : EntryId}
    (h : t.removeFrom b id = .ok t') :
    ∃ e, t.entries id = some e ∧
      ((e.list = some b ∧ ∃ rings, Unlinked t.wheels t.rings id e.list rings ∧ t' = { t with
        rings, entries := Function.update t.entries id (some { e with list := none }) }) ∨
      (e.list ≠ some b ∧ t' = t)) := by
  rw [removeFrom] at h
  cases hentry : t.entries id with
  | none => simp [entry, hentry, bind, Except.bind] at h
  | some e =>
    refine ⟨e, rfl, ?_⟩
    simp only [entry_eq hentry, bind, Except.bind] at h
    split at h
    · next hlist =>
      left
      refine ⟨hlist, ?_⟩
      cases hbucket : t.bucketAt b with
      | error stuck => simp [hbucket] at h
      | ok l =>
        simp only [hbucket] at h
        split at h
        · obtain rfl := Except.ok.inj h
          obtain ⟨w, hw⟩ := bucketAt_of_bucket (bucket_of_bucketAt hbucket)
          refine ⟨_, ?_, rfl⟩
          rw [hlist]
          exact ⟨w, l, hw, rfl⟩
        · cases h
    · next hlist =>
      exact .inr ⟨hlist, (Except.ok.inj h).symm⟩

/-- The links of one entry have changed, or nothing. -/
theorem removeFrom_ok {t t' : Timer} {b : BucketId} {id : EntryId}
    (h : t.removeFrom b id = .ok t') :
    ∃ e, t.entries id = some e ∧
      (e.list = some b ∧ t.Relinked id e none t' ∨ e.list ≠ some b ∧ t' = t) := by
  obtain ⟨e, hentry, ⟨hlist, rings, hunlinked, rfl⟩ | hother⟩ := removeFrom_spec h
  · exact ⟨e, hentry, .inl ⟨hlist, rings, rfl, fun root _ hne => hunlinked.mem_iff root hne⟩⟩
  · exact ⟨e, hentry, .inr hother⟩

/-- `TimerTaskEntry::remove` unlinks the entry. -/
theorem removeEntry_ok {t t' : Timer} {id : EntryId} (h : t.removeEntry id = .ok t') :
    ∃ e rings, t.entries id = some e ∧ Unlinked t.wheels t.rings id e.list rings ∧
      t' = { t with
        rings, entries := Function.update t.entries id (some { e with list := none }) } := by
  rw [removeEntry] at h
  cases hentry : t.entries id with
  | none => simp [entry, hentry, bind, Except.bind] at h
  | some e =>
    simp only [entry_eq hentry, bind, Except.bind] at h
    cases hlist : e.list with
    | none =>
      rw [hlist] at h
      obtain rfl := Except.ok.inj h
      refine ⟨e, t.rings, rfl, by rw [hlist]; rfl, ?_⟩
      rw [← hlist, show some { e with list := e.list } = t.entries id from hentry.symm,
        Function.update_eq_self]
    | some b =>
      rw [hlist] at h
      obtain ⟨e', hentry', hremoved⟩ := removeFrom_spec h
      obtain rfl : e = e' := Option.some.inj (hentry.symm.trans hentry')
      obtain ⟨-, rings, hunlinked, rfl⟩ := hremoved.resolve_right fun hother => hother.1 hlist
      exact ⟨e, rings, rfl, hunlinked, rfl⟩

/-- `TimerTaskList::add` unlinks the entry, and appends it to the list of the bucket, whose
last entry has not been deleted. -/
theorem link_spec {t t' : Timer} {b : BucketId} {id : EntryId} (h : t.link b id = .ok t') :
    ∃ e l rings, t.entries id = some e ∧ t.bucket b = some l ∧
      Unlinked t.wheels t.rings id e.list rings ∧
      (∀ tail ∈ (rings l.root).getLast?, (t.entries tail).isSome = true) ∧
      t' = { t with
        rings := Function.update rings l.root (rings l.root ++ [id])
        entries := Function.update t.entries id (some { e with list := some b }) } := by
  rw [link] at h
  cases hremove : t.removeEntry id with
  | error stuck => simp [hremove, bind, Except.bind] at h
  | ok t₁ =>
    obtain ⟨e, rings, hentry, hunlinked, rfl⟩ := removeEntry_ok hremove
    have hentry₁ : Function.update t.entries id (some { e with list := none }) id =
        some { e with list := none } := Function.update_self ..
    simp only [hremove, bind, Except.bind, entry, hentry₁, bucketAt, bucket] at h
    cases hbucket : t.bucket b with
    | none =>
      rw [bucket] at hbucket
      simp [hbucket] at h
    | some l =>
      rw [bucket] at hbucket
      simp only [hbucket] at h
      split at h
      · next htail =>
        obtain rfl := Except.ok.inj h
        refine ⟨e, l, rings, hentry, rfl, hunlinked, fun tail hmem => ?_, ?_⟩
        · rw [Option.mem_def] at hmem
          rw [hmem, Option.all_some] at htail
          by_cases hid : tail = id
          · rw [hid, hentry]
            rfl
          · rwa [Function.update_of_ne hid] at htail
        · simp only [setEntry, setRing, Function.update_idem]
      · cases h

/-- `TimerTaskList::add` links the entry into the list of the bucket. -/
theorem link_relinked {t t' : Timer} {b : BucketId} {id : EntryId} (h : t.link b id = .ok t') :
    ∃ e l, t.entries id = some e ∧ t.bucket b = some l ∧ t.Relinked id e (some b) t' ∧
      id ∈ t'.rings l.root := by
  obtain ⟨e, l, rings, hentry, hbucket, hunlinked, -, rfl⟩ := link_spec h
  refine ⟨e, l, hentry, hbucket, ⟨_, rfl, fun root id' hne => ?_⟩, by simp⟩
  by_cases hroot : root = l.root
  · rw [hroot, Function.update_self, List.mem_append, List.mem_singleton, or_iff_left hne]
    exact hunlinked.mem_iff l.root hne
  · rw [Function.update_of_ne hroot]
    exact hunlinked.mem_iff root hne

/-- Setting the expiration of a bucket that exists. -/
theorem setExpiration_eq {t : Timer} {b : BucketId} {w : TimingWheel} {l : TimerTaskList}
    (hw : t.wheels[b.level]? = some w) (hl : t.bucket b = some l) (x : TimeEntry) :
    t.setExpiration b x = (t.setWheel b.level
      { w with buckets := w.buckets.set b.index { l with expiration := x } },
      decide (x ≠ l.expiration)) := by
  simp only [setExpiration, hw, hl]

/-- A wheel that files exists. -/
theorem exists_wheel_of_addToWheel {undef : ℕ → Bool} {fuel level : ℕ} {id : EntryId}
    {t : Timer} {p : Timer × Bool} (h : addToWheel undef fuel level id t = .ok p) :
    ∃ w, t.wheels[level]? = some w := by
  cases fuel with
  | zero => cases h
  | succ fuel =>
    rw [addToWheel] at h
    cases hentry : t.entry id with
    | error stuck => rw [hentry] at h; cases h
    | ok e =>
      cases hwheel : t.wheels[level]? with
      | none => rw [hentry, hwheel] at h; cases h
      | some w => exact ⟨w, rfl⟩

/-- An entry filed in a bucket by the wheels from a level on: the wheels, with the
overflow wheels that were needed, the wheel and the bucket, and the lists afterwards. -/
structure Filing (t : Timer) (level : ℕ) (id : EntryId) (e : TimerTaskEntry) (b : BucketId) where
  wheels : List TimingWheel
  wheel : TimingWheel
  bucket : TimerTaskList
  rings : ℕ → List EntryId
  grows : Grows t.wheels wheels
  placed : place e.expiration (wheels.drop level) level = some b
  bucketAt : BucketAt wheels b wheel bucket
  mem_rings : ∀ root, ∀ id' ≠ id, id' ∈ rings root ↔ id' ∈ t.rings root
  linked : id ∈ rings bucket.root

namespace Filing

variable {t : Timer} {level : ℕ} {id : EntryId} {e : TimerTaskEntry} {b : BucketId}

/-- The beginning of the tick of the wheel in which the task expires. -/
def slot (f : t.Filing level id e b) : TimeEntry :=
  f.wheel.tickMs * TimeEntry.div e.expiration f.wheel.tickMs

/-- The wheels after the expiration of the bucket has been set. -/
def wheels' (f : t.Filing level id e b) : List TimingWheel :=
  setBucket f.wheels b f.wheel { f.bucket with expiration := f.slot }

/-- The delay queue, to which the bucket is offered if its expiration has changed. -/
def delayQueue' (f : t.Filing level id e b) : List DelayQueueEntry :=
  if f.slot ≠ f.bucket.expiration then ⟨e.expiration, b⟩ :: t.delayQueue else t.delayQueue

/-- The timer after the entry has been filed. -/
def result (f : t.Filing level id e b) : Timer :=
  { t with
    wheels := f.wheels'
    rings := f.rings
    entries := Function.update t.entries id (some { e with list := some b })
    delayQueue := f.delayQueue'
    overflows := t.overflows + (b.level - level) }

/-- If the present wheels place the task, it is filed there. -/
theorem placed_eq {b' : BucketId} (f : t.Filing 0 id e b)
    (h : place e.expiration t.wheels 0 = some b') : b' = b := by
  obtain ⟨rest, hrest⟩ := f.grows.isPrefix
  have hplaced := f.placed
  rw [List.drop_zero, ← hrest, place_append_of_some h rest] at hplaced
  exact Option.some.inj hplaced

/-- The lists after the entry has been filed: it has been unlinked, and appended to the list
of the bucket, the last entry of which had not been deleted. -/
def Links (f : t.Filing level id e b) : Prop :=
  ∃ rings, Unlinked f.wheels t.rings id e.list rings ∧
    (∀ tail ∈ (rings f.bucket.root).getLast?, (t.entries tail).isSome = true) ∧
    f.rings = Function.update rings f.bucket.root (rings f.bucket.root ++ [id])

end Filing

/-- Unlinking an entry does not depend on overflow wheels. -/
theorem Unlinked.of_grows {ws ws' : List TimingWheel} {rings rings' : ℕ → List EntryId}
    {id : EntryId} {list : Option BucketId} (h : Unlinked ws rings id list rings')
    (hgrows : Grows ws ws') : Unlinked ws' rings id list rings' := by
  cases list with
  | none => exact h
  | some b =>
    obtain ⟨w, l, hbucket, hrings⟩ := h
    exact ⟨w, l, hbucket.of_grows hgrows, hrings⟩

/-- The wheels when the wheel above a wheel is called, with that wheel if there was none. -/
theorem exists_overflow {t : Timer} {level : ℕ} {w : TimingWheel}
    (hwheel : t.wheels[level]? = some w) :
    ∃ ws, (if t.wheels.length = level + 1 then t.addOverflowWheel w else t) =
        { t with wheels := ws } ∧
      (∀ ws', Grows ws ws' → Grows t.wheels ws') ∧ level + 1 < ws.length := by
  obtain ⟨hlt, -⟩ := List.getElem?_eq_some_iff.mp hwheel
  by_cases hlast : t.wheels.length = level + 1
  · have hlast' : w ∈ t.wheels.getLast? := by
      rw [List.getLast?_eq_getElem?, hlast]
      exact hwheel
    rw [if_pos hlast]
    exact ⟨_, rfl, fun ws' hws' => .add hlast' hws', by simp [hlast]⟩
  · rw [if_neg hlast]
    exact ⟨_, rfl, fun ws' hws' => hws', by omega⟩

/-- The wheels from a level on file an entry that is not due there. The value returned is
true if the wheel itself has filed it, and else that of the overflow branch. -/
theorem addToWheel_ok {undef : ℕ → Bool} {fuel level : ℕ} {id : EntryId} {t t' : Timer}
    {r : Bool} {e : TimerTaskEntry} {w : TimingWheel} (hgeared : Geared t.wheels)
    (hentry : t.entries id = some e) (hcancelled : e.cancelled id = false)
    (hwheel : t.wheels[level]? = some w) (hlate : w.currentTime + w.tickMs ≤ e.expiration)
    (h : addToWheel undef fuel level id t = .ok (t', r)) :
    ∃ b, ∃ f : t.Filing level id e b, t' = f.result ∧
      r = (b.level = level || undef (t'.overflows - 1)) ∧ f.Links := by
  induction fuel generalizing t t' level r w with
  | zero => cases h
  | succ fuel ih =>
    rw [addToWheel, entry_eq hentry] at h
    simp only [bind, Except.bind, hwheel, hcancelled, if_neg (not_lt.mpr hlate),
      Bool.false_eq_true, if_false] at h
    by_cases hfits : e.expiration < w.currentTime + w.interval
    · rw [if_pos hfits] at h
      split at h
      · cases h
      · set b : BucketId :=
          ⟨level, ((TimeEntry.div e.expiration w.tickMs).tmod w.wheelSize).toNat⟩ with hb
        cases hlink : t.link b id with
        | error stuck => rw [hlink] at h; cases h
        | ok t₁ =>
          rw [hlink] at h
          obtain ⟨_, _, hentry', hbucket', ⟨_, ht₁', hrings⟩, hlinked⟩ := link_relinked hlink
          obtain ⟨_, l, rings, hentry'', hbucket, hunlinked, htail, ht₁⟩ := link_spec hlink
          obtain rfl := Option.some.inj (hentry.symm.trans hentry')
          obtain rfl := Option.some.inj (hentry.symm.trans hentry'')
          obtain rfl := Option.some.inj (hbucket.symm.trans hbucket')
          obtain rfl := congrArg Timer.rings (ht₁.symm.trans ht₁')
          rw [ht₁] at hlinked
          have hwheel₁ : t₁.wheels[b.level]? = some w := by rwa [ht₁]
          have hbucket₁ : t₁.bucket b = some l := by rwa [ht₁]
          dsimp only at h
          rw [setExpiration_eq hwheel₁ hbucket₁] at h
          obtain ⟨ht', rfl⟩ := Prod.mk.inj (Except.ok.inj h)
          let f : t.Filing level id e b := {
            wheels := t.wheels
            wheel := w
            bucket := l
            rings := Function.update rings l.root (rings l.root ++ [id])
            grows := .refl _
            placed := place_here hwheel hlate hfits
            bucketAt := ⟨hwheel, by simpa [Timer.bucket, hb, hwheel] using hbucket⟩
            mem_rings := hrings
            linked := hlinked }
          refine ⟨b, f, ?_, by simp [hb], rings, hunlinked, htail, rfl⟩
          rw [← ht', ht₁]
          simp only [Filing.result, Filing.wheels', Filing.delayQueue', Filing.slot, f]
          by_cases hsame : w.tickMs * e.expiration.div w.tickMs = l.expiration
          · simp [setWheel, setBucket, hb, hsame]
          · simp [setWheel, setBucket, offer, hb, hsame]
    · rw [if_neg hfits] at h
      have hbeyond : w.currentTime + w.interval ≤ e.expiration := not_lt.mp hfits
      obtain ⟨ws, hws, hgrows, -⟩ := exists_overflow hwheel
      rw [hws] at h
      cases hover : addToWheel undef fuel (level + 1) id { t with wheels := ws } with
      | error stuck => rw [hover] at h; cases h
      | ok p =>
        obtain ⟨t₁, r₁⟩ := p
        rw [hover] at h
        obtain ⟨rfl, rfl⟩ := Prod.mk.inj (Except.ok.inj h)
        have hgeared' : Geared ws := hgeared.of_grows (hgrows ws (.refl ws))
        have hwheel' : ws[level]? = some w := (hgrows ws (.refl ws)).getElem? hwheel
        obtain ⟨overflow, hoverflow⟩ := exists_wheel_of_addToWheel hover
        have hmeshes := hgeared'.meshes_succ hwheel' hoverflow
        have hsound := hgeared'.sound overflow (List.mem_of_getElem? hoverflow)
        have hentry' : { t with wheels := ws }.entries id = some e := hentry
        obtain ⟨b, f, rfl, -, hlinks⟩ :=
          ih hgeared' hentry' hoverflow (hmeshes.not_due hsound hbeyond) hover
        have hlevel : level + 1 ≤ b.level := le_of_place f.placed
        refine ⟨b, {
          wheels := f.wheels
          wheel := f.wheel
          bucket := f.bucket
          rings := f.rings
          grows := hgrows _ f.grows
          placed := (place_above (f.grows.getElem? hwheel') hlate hbeyond).trans f.placed
          bucketAt := f.bucketAt
          mem_rings := f.mem_rings
          linked := f.linked }, ?_, ?_, hlinks⟩
        · simp only [Filing.result, Filing.wheels', Filing.delayQueue', Filing.slot,
            Timer.mk.injEq, true_and]
          exact ⟨rfl, by omega⟩
        · have hne : b.level ≠ level := by omega
          simp [hne]

/-- The end of `addTimerTaskEntry`, for a task that is handed over. -/
def handOver (t : Timer) (id : EntryId) : Timer :=
  { t with threadPool := t.threadPool ++ [id] }.setEntry id none

/-- `addTimerTaskEntry` hands over a task that is due and files any other. A task for an
overflow wheel is filed and handed over if the overflow branch yields false. -/
theorem addTimerTaskEntry_ok {undef : ℕ → Bool} {fuel : ℕ} {id : EntryId} {t t' : Timer}
    {e : TimerTaskEntry} {w : TimingWheel} (hgeared : Geared t.wheels)
    (hentry : t.entries id = some e) (hcancelled : e.cancelled id = false)
    (hwheel : t.wheels[0]? = some w) (h : addTimerTaskEntry undef fuel id t = .ok t') :
    (e.expiration < w.currentTime + w.tickMs ∧ t' = t.handOver id) ∨
      (w.currentTime + w.tickMs ≤ e.expiration ∧ ∃ b, ∃ f : t.Filing 0 id e b,
        f.Links ∧ t' = if b.level = 0 ∨ undef (f.result.overflows - 1) = true then f.result
          else f.result.handOver id) := by
  rw [addTimerTaskEntry] at h
  cases hadd : addToWheel undef fuel 0 id t with
  | error stuck => rw [hadd] at h; cases h
  | ok p =>
    obtain ⟨t₁, added⟩ := p
    rw [hadd] at h
    rcases lt_or_ge e.expiration (w.currentTime + w.tickMs) with hdue | hlate
    · left
      refine ⟨hdue, ?_⟩
      cases fuel with
      | zero => cases hadd
      | succ fuel =>
        rw [addToWheel_due hentry hwheel hdue] at hadd
        obtain ⟨rfl, rfl⟩ := Prod.mk.inj (Except.ok.inj hadd)
        simp only [bind, Except.bind, entry_eq hentry, hcancelled, Bool.false_eq_true,
          if_false] at h
        exact (Except.ok.inj h).symm
    · right
      obtain ⟨b, f, rfl, rfl, hlinks⟩ := addToWheel_ok hgeared hentry hcancelled hwheel hlate hadd
      refine ⟨hlate, b, f, hlinks, ?_⟩
      have hentry' : f.result.entries id = some { e with list := some b } :=
        Function.update_self ..
      have hcancelled' : TimerTaskEntry.cancelled { e with list := some b } id = false :=
        hcancelled
      by_cases hkept : b.level = 0 ∨ undef (f.result.overflows - 1) = true
      · rw [if_pos hkept]
        have hadded : (decide (b.level = 0) || undef (f.result.overflows - 1)) = true := by
          simpa using hkept
        simp only [bind, Except.bind, hadded, if_true] at h
        exact (Except.ok.inj h).symm
      · rw [if_neg hkept]
        have hadded : (decide (b.level = 0) || undef (f.result.overflows - 1)) = false := by
          simpa [not_or] using hkept
        simp only [bind, Except.bind, hadded, entry_eq hentry', hcancelled', Bool.false_eq_true,
          if_false] at h
        exact (Except.ok.inj h).symm

/-- The values that the overflow branches yield do not influence what is filed, and only
one of them, or none, what the call returns. -/
theorem addToWheel_const {undef : ℕ → Bool} {fuel level : ℕ} {id : EntryId} {t t' : Timer}
    {r : Bool} (h : addToWheel undef fuel level id t = .ok (t', r)) (undef' : ℕ → Bool) :
    ∃ r', addToWheel undef' fuel level id t = .ok (t', r') ∧
      ((∀ n, undef' n = r) → r' = r) := by
  induction fuel generalizing level t t' r with
  | zero => cases h
  | succ fuel ih =>
    rw [addToWheel] at h ⊢
    cases hentry : t.entry id with
    | error stuck => rw [hentry] at h; cases h
    | ok e =>
      rw [hentry] at h
      simp only [bind, Except.bind] at h ⊢
      cases hwheel : t.wheels[level]? with
      | none => rw [hwheel] at h; cases h
      | some w =>
        simp only [hwheel] at h
        dsimp only
        by_cases hcancelled : e.cancelled id = true
        · rw [if_pos hcancelled] at h ⊢
          exact ⟨r, h, fun _ => rfl⟩
        · rw [if_neg hcancelled] at h ⊢
          by_cases hdue : e.expiration < w.currentTime + w.tickMs
          · rw [if_pos hdue] at h ⊢
            exact ⟨r, h, fun _ => rfl⟩
          · rw [if_neg hdue] at h ⊢
            by_cases hfits : e.expiration < w.currentTime + w.interval
            · rw [if_pos hfits] at h ⊢
              exact ⟨r, h, fun _ => rfl⟩
            · rw [if_neg hfits] at h ⊢
              cases hover : addToWheel undef fuel (level + 1) id
                  (if t.wheels.length = level + 1 then t.addOverflowWheel w else t) with
              | error stuck => rw [hover] at h; cases h
              | ok p =>
                rw [hover] at h
                obtain ⟨rfl, -⟩ := Prod.mk.inj (Except.ok.inj h)
                obtain ⟨r₁, hover', -⟩ := ih hover
                rw [hover']
                exact ⟨undef' p.1.overflows, rfl, fun hall => hall _⟩

/-- A call of `addTimerTaskEntry` is one in which the overflow branches all yield the
same value. -/
theorem addTimerTaskEntry_const {undef : ℕ → Bool} {fuel : ℕ} {id : EntryId} {t t' : Timer}
    (h : addTimerTaskEntry undef fuel id t = .ok t') :
    ∃ overflow, addTimerTaskEntry (fun _ => overflow) fuel id t = .ok t' := by
  rw [addTimerTaskEntry] at h
  cases hadd : addToWheel undef fuel 0 id t with
  | error stuck => rw [hadd] at h; cases h
  | ok p =>
    obtain ⟨t₁, added⟩ := p
    obtain ⟨r', hadd', hsame⟩ := addToWheel_const hadd fun _ => added
    obtain rfl := hsame fun _ => rfl
    rw [hadd] at h
    refine ⟨r', ?_⟩
    rw [addTimerTaskEntry, hadd']
    exact h

/-- An entry that is not linked can be linked into a bucket, if the list of the bucket does
not end in a deleted entry. -/
theorem link_total {t : Timer} {b : BucketId} {id : EntryId} {e : TimerTaskEntry}
    {l : TimerTaskList} (hentry : t.entries id = some e) (hlist : e.list = none)
    (hbucket : t.bucket b = some l)
    (htail : ∀ tail ∈ (t.rings l.root).getLast?, (t.entries tail).isSome = true) :
    ∃ t', t.link b id = .ok t' := by
  have hremove : t.removeEntry id = .ok t := by
    rw [removeEntry, entry_eq hentry]
    simp only [bind, Except.bind, hlist]
    rfl
  have hall : ((t.rings l.root).getLast?.all fun tail => (t.entries tail).isSome) = true := by
    cases hlast : (t.rings l.root).getLast? with
    | none => rfl
    | some tail => exact htail tail hlast
  rw [link, hremove]
  simp only [bind, Except.bind, entry_eq hentry, bucketAt, hbucket, if_pos hall]
  exact ⟨_, rfl⟩

/-- The wheels from a level on file an entry that is not linked where they place it, with the
overflow wheels that this takes. -/
theorem addToWheel_total {undef : ℕ → Bool} {fuel level : ℕ} {id : EntryId} {t : Timer}
    {e : TimerTaskEntry} {ws' : List TimingWheel} {b : BucketId} {w : TimingWheel}
    {l : TimerTaskList} (hgeared : Geared ws') (hgrows : Grows t.wheels ws')
    (hentry : t.entries id = some e) (hcancelled : e.cancelled id = false)
    (hlist : e.list = none) (hlevel : level < t.wheels.length)
    (hplace : place e.expiration (ws'.drop level) level = some b)
    (hbucket : BucketAt ws' b w l)
    (htail : ∀ tail ∈ (t.rings l.root).getLast?, (t.entries tail).isSome = true)
    (hfuel : b.level < level + fuel) : ∃ p, addToWheel undef fuel level id t = .ok p := by
  induction fuel generalizing t level with
  | zero => exact absurd (le_of_place hplace) (by omega)
  | succ fuel ih =>
    obtain ⟨w₀, hwheel⟩ : ∃ w₀, t.wheels[level]? = some w₀ := ⟨_, List.getElem?_eq_getElem hlevel⟩
    have hwheel' := hgrows.getElem? hwheel
    have hsound := hgeared.sound w₀ (List.mem_of_getElem? hwheel')
    have hlate : w₀.currentTime + w₀.tickMs ≤ e.expiration := by
      obtain ⟨hlt, hw₀⟩ := List.getElem?_eq_some_iff.mp hwheel'
      rw [List.drop_eq_getElem_cons hlt, place, hw₀] at hplace
      split at hplace
      · cases hplace
      · next hlate => exact not_lt.mp hlate
    rw [addToWheel, entry_eq hentry]
    simp only [bind, Except.bind, hwheel, hcancelled, if_neg (not_lt.mpr hlate),
      Bool.false_eq_true, if_false]
    rcases lt_or_ge e.expiration (w₀.currentTime + w₀.interval) with hfits | hbeyond
    · rw [place_here hwheel' hlate hfits] at hplace
      have hx : 0 ≤ e.expiration := by linarith [hsound.current_nonneg, hsound.tick_pos]
      have hindex : ¬ (TimeEntry.div e.expiration w₀.tickMs).tmod w₀.wheelSize < 0 := by
        rw [TimeEntry.div, Int.tdiv_eq_ediv_of_nonneg hx, not_lt]
        exact Int.tmod_nonneg _ (Int.ediv_nonneg hx hsound.tick_pos.le)
      have hbucket' : t.bucket b = some l := by
        obtain ⟨hw, hl⟩ := hbucket
        rw [← Option.some.inj hplace] at hw hl ⊢
        obtain rfl := Option.some.inj (hwheel'.symm.trans hw)
        rw [bucket, hwheel]
        exact hl
      obtain ⟨t', hlink⟩ := link_total hentry hlist hbucket' htail
      rw [if_pos hfits, if_neg hindex, Option.some.inj hplace, hlink]
      exact ⟨_, rfl⟩
    · rw [if_neg (not_lt.mpr hbeyond)]
      rw [place_above hwheel' hlate hbeyond] at hplace
      have hlength : level + 1 < ws'.length := by
        by_contra hshort
        rw [List.drop_eq_nil_of_le (not_lt.mp hshort)] at hplace
        cases hplace
      obtain ⟨ws, hws, hgrown, hover⟩ : ∃ ws,
          (if t.wheels.length = level + 1 then t.addOverflowWheel w₀ else t) =
            { t with wheels := ws } ∧ Grows ws ws' ∧ level + 1 < ws.length := by
        by_cases hlast : t.wheels.length = level + 1
        · rw [if_pos hlast]
          refine ⟨_, rfl, ?_, by simp [hlast]⟩
          cases hgrows with
          | refl => omega
          | add hw hgrows =>
            rw [List.getLast?_eq_getElem?, hlast, Nat.add_sub_cancel, hwheel] at hw
            obtain rfl := Option.some.inj hw
            exact hgrows
        · rw [if_neg hlast]
          exact ⟨_, rfl, hgrows, by omega⟩
      obtain ⟨p, hp⟩ := @ih (level + 1) { t with wheels := ws } hgrown hentry hover hplace htail
        (by omega)
      rw [hws, hp]
      exact ⟨_, rfl⟩

/-- `addTimerTaskEntry` returns when `TimingWheel::add` does. -/
theorem addTimerTaskEntry_total {undef : ℕ → Bool} {fuel : ℕ} {id : EntryId} {t t' : Timer}
    {r : Bool} {e : TimerTaskEntry} (hadd : addToWheel undef fuel 0 id t = .ok (t', r))
    (hentry : t'.entries id = some e) : ∃ t'', addTimerTaskEntry undef fuel id t = .ok t'' := by
  rw [addTimerTaskEntry, hadd]
  simp only [bind, Except.bind, entry_eq hentry]
  split
  · exact ⟨_, rfl⟩
  · split
    · exact ⟨_, rfl⟩
    · exact ⟨_, rfl⟩

end Timer

end DuoDuo.Timers
