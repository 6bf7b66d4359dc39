import DuoDuo.Timers.EarlyFiring

/-!
# The links of entries

All buckets of a wheel have one root entry, and nothing else shares it. An entry that has
not been deleted is linked behind the root of the wheel to whose bucket it points, once
and nowhere else, and it expires within the range of that wheel. A deleted entry may
still be linked.
-/

namespace DuoDuo.Timers

open Library

/-- Every wheel has as many buckets as its size says, and the root entry of all of them is
that of its level. All wheels are of the size of the first one. -/
def Fitted (ws : List TimingWheel) : Prop :=
  ∀ (level : ℕ) (w : TimingWheel), ws[level]? = some w →
    w.buckets.length = w.wheelSize ∧ (∀ l ∈ w.buckets, l.root = level) ∧
      ∀ first ∈ ws.head?, w.wheelSize = first.wheelSize

section Fitted

variable {ws ws' : List TimingWheel} {b : BucketId} {w : TimingWheel} {l l' : TimerTaskList}

/-- A new wheel has its own root entry. -/
theorem fitted_new (tickMs : TimeEntry) (wheelSize : ℕ) (startMs : TimeEntry) (root : ℕ) :
    (TimingWheel.new tickMs wheelSize startMs root).buckets.length = wheelSize ∧
      ∀ l ∈ (TimingWheel.new tickMs wheelSize startMs root).buckets, l.root = root := by
  refine ⟨List.length_replicate, fun l hl => ?_⟩
  rw [List.eq_of_mem_replicate hl]
  rfl

/-- The root entry of a bucket is that of its level. -/
theorem Fitted.root_eq (h : Fitted ws) (hbucket : BucketAt ws b w l) : l.root = b.level :=
  (h b.level w hbucket.1).2.1 l (List.mem_of_getElem? hbucket.2)

/-- Overflow wheels have their own root entries. -/
theorem Fitted.of_grows (h : Fitted ws) (hgrows : Grows ws ws') : Fitted ws' := by
  induction hgrows with
  | refl => exact h
  | @add ws ws' w₀ hlast _ ih =>
    refine ih fun level w hw => ?_
    have hne : ws ≠ [] := by
      rintro rfl
      cases hlast
    rw [List.head?_append_of_ne_nil _ hne]
    rcases Nat.lt_trichotomy level ws.length with hlt | rfl | hgt
    · rw [List.getElem?_append_left hlt] at hw
      exact h level w hw
    · rw [List.getElem?_append_right le_rfl, Nat.sub_self] at hw
      obtain rfl := Option.some.inj hw
      obtain ⟨hlength, hroots⟩ := fitted_new w₀.interval w₀.wheelSize w₀.currentTime ws.length
      rw [Option.mem_def, List.getLast?_eq_getElem?] at hlast
      exact ⟨hlength, hroots, (h _ w₀ hlast).2.2⟩
    · rw [List.getElem?_eq_none (by simpa using hgt)] at hw
      cases hw

/-- A bucket that is replaced keeps its root entry. -/
theorem Fitted.setBucket (h : Fitted ws) (hbucket : BucketAt ws b w l) (hroot : l'.root = l.root) :
    Fitted (setBucket ws b w l') := by
  have hhead : ∀ first' ∈ (DuoDuo.Timers.setBucket ws b w l').head?,
      ∃ first ∈ ws.head?, first'.wheelSize = first.wheelSize := by
    intro first' hfirst'
    rw [DuoDuo.Timers.setBucket, Option.mem_def, List.head?_eq_getElem?] at hfirst'
    rw [List.head?_eq_getElem?]
    by_cases hlevel : b.level = 0
    · rw [hlevel, List.getElem?_set_self (List.getElem?_eq_some_iff.mp (hlevel ▸ hbucket.1)).1]
        at hfirst'
      rw [← Option.some.inj hfirst']
      exact ⟨w, hlevel ▸ hbucket.1, rfl⟩
    · rw [List.getElem?_set_ne hlevel] at hfirst'
      exact ⟨first', hfirst', rfl⟩
  intro level w' hw'
  have hold : ∃ w₀, ws[level]? = some w₀ ∧ w'.wheelSize = w₀.wheelSize ∧
      w'.buckets.length = w₀.buckets.length ∧ ∀ l ∈ w'.buckets, l.root = level := by
    by_cases hlevel : level = b.level
    · subst hlevel
      obtain ⟨hlt, -⟩ := List.getElem?_eq_some_iff.mp hbucket.1
      rw [DuoDuo.Timers.setBucket, List.getElem?_set_self hlt] at hw'
      obtain rfl := Option.some.inj hw'
      refine ⟨w, hbucket.1, rfl, List.length_set, fun l₁ hl₁ => ?_⟩
      rcases List.mem_or_eq_of_mem_set hl₁ with hl₁ | rfl
      · exact (h b.level w hbucket.1).2.1 l₁ hl₁
      · rw [hroot]
        exact h.root_eq hbucket
    · rw [DuoDuo.Timers.setBucket, List.getElem?_set_ne (Ne.symm hlevel)] at hw'
      exact ⟨w', hw', rfl, rfl, (h level w' hw').2.1⟩
  obtain ⟨w₀, hw₀, hsize, hlength, hroots⟩ := hold
  obtain ⟨hlength₀, -, hfirst₀⟩ := h level w₀ hw₀
  refine ⟨by rw [hlength, hlength₀, hsize], hroots, fun first' hfirst' => ?_⟩
  obtain ⟨first, hfirst, hsame⟩ := hhead first' hfirst'
  rw [hsize, hsame]
  exact hfirst₀ first hfirst

/-- The clock does not matter. -/
theorem Fitted.advanced (h : Fitted ws) (timeMs : TimeEntry) :
    Fitted (ws.map (·.advanced timeMs)) := by
  intro level w hw
  rw [List.getElem?_map, Option.map_eq_some_iff] at hw
  obtain ⟨w₀, hw₀, rfl⟩ := hw
  obtain ⟨hlength, hroots, hfirst⟩ := h level w₀ hw₀
  refine ⟨hlength, hroots, fun first' hfirst' => ?_⟩
  rw [List.head?_map, Option.mem_def, Option.map_eq_some_iff] at hfirst'
  obtain ⟨first, hmem, rfl⟩ := hfirst'
  exact hfirst first hmem

end Fitted

/-- The wheels remain, and their times do not go back. -/
def Advances (ws ws' : List TimingWheel) : Prop :=
  ∀ (level : ℕ) (w : TimingWheel), ws[level]? = some w → ∃ w', ws'[level]? = some w' ∧
    w'.tickMs = w.tickMs ∧ w'.wheelSize = w.wheelSize ∧ w'.interval = w.interval ∧
    w.currentTime ≤ w'.currentTime

section Advances

variable {ws ws' : List TimingWheel} {b : BucketId} {w : TimingWheel} {l : TimerTaskList}

theorem Advances.of_grows (h : Grows ws ws') : Advances ws ws' :=
  fun _ w hw => ⟨w, h.getElem? hw, rfl, rfl, rfl, le_rfl⟩

theorem Advances.setBucket (h : BucketAt ws b w l) (l' : TimerTaskList) :
    Advances ws (setBucket ws b w l') := by
  intro level w' hw'
  obtain ⟨buckets, hset⟩ := h.getElem?_setBucket hw' l'
  exact ⟨_, hset, rfl, rfl, rfl, le_rfl⟩

theorem Advances.advanced (ws : List TimingWheel) (timeMs : TimeEntry) :
    Advances ws (ws.map (·.advanced timeMs)) := by
  intro level w hw
  refine ⟨w.advanced timeMs, ?_, rfl, rfl, rfl, le_max_left ..⟩
  rw [List.getElem?_map, hw]
  rfl

theorem Advances.trans {ws'' : List TimingWheel} (h : Advances ws ws') (h' : Advances ws' ws'') :
    Advances ws ws'' := by
  intro level w hw
  obtain ⟨w', hw', htick, hsize, hinterval, htime⟩ := h level w hw
  obtain ⟨w'', hw'', htick', hsize', hinterval', htime'⟩ := h' level w' hw'
  exact ⟨w'', hw'', htick'.trans htick, hsize'.trans hsize, hinterval'.trans hinterval,
    htime.trans htime'⟩

/-- There are no fewer wheels. -/
theorem Advances.length_le (h : Advances ws ws') : ws.length ≤ ws'.length := by
  by_contra hlt
  have hw := List.getElem?_eq_getElem (not_le.mp hlt)
  obtain ⟨w', hw', -⟩ := h _ _ hw
  rw [List.getElem?_eq_none le_rfl] at hw'
  cases hw'

end Advances

namespace Timer

/-- A bucket has been given an entry, and it expires within the range of the wheel. -/
def Holds (ws : List TimingWheel) (b : BucketId) (x : TimeEntry) : Prop :=
  ∃ w, ws[b.level]? = some w ∧ x < w.currentTime + w.interval ∧
    (b.index : ℤ) = x / w.tickMs % w.wheelSize

theorem Holds.advances {ws ws' : List TimingWheel} {b : BucketId} {x : TimeEntry}
    (h : Holds ws b x) (hadvances : Advances ws ws') : Holds ws' b x := by
  obtain ⟨w, hw, hx, hindex⟩ := h
  obtain ⟨w', hw', htick, hsize, hinterval, htime⟩ := hadvances _ _ hw
  exact ⟨w', hw', by linarith, by rw [htick, hsize]; exact hindex⟩

/-- The invariant of the links. -/
structure Linked (t : Timer) : Prop where
  geared : Geared t.wheels
  fitted : Fitted t.wheels
  first : 0 < t.wheels.length
  tasks : ∀ id e, t.entries id = some e → e.taskEntry = id ∧ id < t.created
  filed : ∀ id e b, t.entries id = some e → e.list = some b →
    id ∈ t.rings b.level ∧ Holds t.wheels b e.expiration
  rings : ∀ root, ∀ id ∈ t.rings root,
    root < t.wheels.length ∧ id < t.created ∧
      ∀ e, t.entries id = some e → ∃ b, e.list = some b ∧ b.level = root
  nodup : ∀ root, (t.rings root).Nodup

variable {t t' : Timer} {id : EntryId} {e : TimerTaskEntry} {b : BucketId}
  {rings : ℕ → List EntryId}

/-- The links do not depend on the expirations and the queue of buckets. -/
theorem Linked.of_wheels (h : t.Linked) {ws : List TimingWheel} (hgeared : Geared ws)
    (hfitted : Fitted ws) (hadvances : Advances t.wheels ws) (queue : List DelayQueueEntry) :
    Linked { t with wheels := ws, delayQueue := queue } where
  geared := hgeared
  fitted := hfitted
  first := h.first.trans_le hadvances.length_le
  tasks := h.tasks
  filed := by
    intro id e b hentry hlist
    obtain ⟨hmem, hholds⟩ := h.filed id e b hentry hlist
    exact ⟨hmem, hholds.advances hadvances⟩
  rings := by
    intro root id hmem
    obtain ⟨hroot, hrest⟩ := h.rings root id hmem
    exact ⟨hroot.trans_le hadvances.length_le, hrest⟩
  nodup := h.nodup

/-- An entry that points to no list is not linked. -/
theorem Linked.not_mem (h : t.Linked) (hentry : t.entries id = some e) (hlist : e.list = none)
    (root : ℕ) : id ∉ t.rings root := by
  intro hmem
  obtain ⟨b, hb, -⟩ := (h.rings root id hmem).2.2 e hentry
  rw [hlist] at hb
  cases hb

/-- An entry that points to a bucket is linked behind the root of its level only. -/
theorem Linked.level_eq (h : t.Linked) (hentry : t.entries id = some e) (hlist : e.list = some b)
    {root : ℕ} (hmem : id ∈ t.rings root) : root = b.level := by
  obtain ⟨c, hc, hlevel⟩ := (h.rings root id hmem).2.2 e hentry
  obtain rfl := Option.some.inj (hlist.symm.trans hc)
  exact hlevel.symm

/-- The lists after an entry has been unlinked do not contain it, nor any entry twice. -/
theorem Linked.unlinked (h : t.Linked) {ws : List TimingWheel} (hfitted : Fitted ws)
    (hentry : t.entries id = some e) (hunlinked : Unlinked ws t.rings id e.list rings)
    (root : ℕ) : id ∉ rings root ∧ (rings root).Nodup := by
  cases hlist : e.list with
  | none =>
    rw [hlist] at hunlinked
    obtain rfl := hunlinked
    exact ⟨h.not_mem hentry hlist root, h.nodup root⟩
  | some b =>
    rw [hlist] at hunlinked
    obtain ⟨w, l, hbucket, rfl⟩ := hunlinked
    have hroot := hfitted.root_eq hbucket
    by_cases heq : root = l.root
    · rw [heq, Function.update_self]
      exact ⟨(h.nodup l.root).not_mem_erase, (h.nodup l.root).erase id⟩
    · rw [Function.update_of_ne heq]
      exact ⟨fun hmem => heq ((h.level_eq hentry hlist hmem).trans hroot.symm), h.nodup root⟩

/-- A new entry is not linked. -/
theorem Linked.withEntry (h : t.Linked) (x : TimeEntry) : (t.withEntry x).Linked where
  geared := h.geared
  fitted := h.fitted
  first := h.first
  tasks := by
    intro id e hentry
    by_cases hid : id = t.created
    · subst hid
      rw [t.withEntry_entries x] at hentry
      obtain rfl := Option.some.inj hentry
      exact ⟨rfl, Nat.lt_succ_self _⟩
    · obtain ⟨htask, hlt⟩ := h.tasks id e (by simpa [Timer.withEntry, setEntry, hid] using hentry)
      exact ⟨htask, hlt.trans (Nat.lt_succ_self _)⟩
  filed := by
    intro id e b hentry hlist
    by_cases hid : id = t.created
    · subst hid
      rw [t.withEntry_entries x] at hentry
      obtain rfl := Option.some.inj hentry
      cases hlist
    · exact h.filed id e b (by simpa [Timer.withEntry, setEntry, hid] using hentry) hlist
  rings := by
    intro root id hmem
    obtain ⟨hroot, hlt, hrest⟩ := h.rings root id hmem
    refine ⟨hroot, hlt.trans (Nat.lt_succ_self _), fun e hentry => hrest e ?_⟩
    simpa [Timer.withEntry, setEntry, hlt.ne] using hentry
  nodup := h.nodup

/-- The entry that is handed over is deleted, and may remain linked. -/
theorem Linked.handOver (h : t.Linked) (id : EntryId) : (t.handOver id).Linked := by
  have hold : ∀ id' e, (t.handOver id).entries id' = some e → t.entries id' = some e := by
    intro id' e hentry
    by_cases hid : id' = id
    · subst hid
      simp [Timer.handOver, setEntry] at hentry
    · simpa [Timer.handOver, setEntry, hid] using hentry
  refine ⟨h.geared, h.fitted, h.first, fun id' e hentry => h.tasks id' e (hold id' e hentry),
    fun id' e b hentry => h.filed id' e b (hold id' e hentry), fun root id' hmem => ?_, h.nodup⟩
  obtain ⟨hroot, hlt, hrest⟩ := h.rings root id' hmem
  exact ⟨hroot, hlt, fun e hentry => hrest e (hold id' e hentry)⟩

/-- An entry that has been unlinked points to no list. -/
theorem Linked.unlink (h : t.Linked) (hentry : t.entries id = some e)
    (hunlinked : Unlinked t.wheels t.rings id e.list rings) :
    Linked { t with
      rings, entries := Function.update t.entries id (some { e with list := none }) } where
  geared := h.geared
  fitted := h.fitted
  first := h.first
  tasks := by
    intro id' e' hentry'
    by_cases hid : id' = id
    · subst hid
      obtain rfl : { e with list := none } = e' := by simpa using hentry'
      exact h.tasks id' e hentry
    · exact h.tasks id' e' (by simpa [hid] using hentry')
  filed := by
    intro id' e' b' hentry' hlist'
    by_cases hid : id' = id
    · subst hid
      obtain rfl : { e with list := none } = e' := by simpa using hentry'
      cases hlist'
    · obtain ⟨hmem, hholds⟩ := h.filed id' e' b' (by simpa [hid] using hentry') hlist'
      exact ⟨(hunlinked.mem_iff _ hid).mpr hmem, hholds⟩
  rings := by
    intro root id' hmem
    have hid : id' ≠ id := fun heq => (h.unlinked h.fitted hentry hunlinked root).1 (heq ▸ hmem)
    obtain ⟨hroot, hlt, hrest⟩ := h.rings root id' ((hunlinked.mem_iff root hid).mp hmem)
    exact ⟨hroot, hlt, fun e' hentry' => hrest e' (by simpa [hid] using hentry')⟩
  nodup := fun root => (h.unlinked h.fitted hentry hunlinked root).2

/-- The root entry of the bucket is that of its level. -/
theorem Linked.root_eq (h : t.Linked) (f : t.Filing 0 id e b) : f.bucket.root = b.level :=
  (h.fitted.of_grows f.grows).root_eq f.bucketAt

/-- An entry that has been filed is linked behind the root of its wheel only. -/
theorem Linked.mem_filed_iff (h : t.Linked) (hentry : t.entries id = some e)
    (f : t.Filing 0 id e b) (hlinks : f.Links) (root : ℕ) :
    id ∈ f.rings root ↔ root = b.level := by
  obtain ⟨rings, hunlinked, -, hrings⟩ := hlinks
  have hnot := (h.unlinked (h.fitted.of_grows f.grows) hentry hunlinked root).1
  rw [hrings, h.root_eq f]
  by_cases hroot : root = b.level
  · rw [hroot, Function.update_self]
    simp
  · rw [Function.update_of_ne hroot]
    exact iff_of_false hnot hroot

/-- Filing an entry keeps the links. -/
theorem Linked.result (h : t.Linked) (hentry : t.entries id = some e) (f : t.Filing 0 id e b)
    (hlinks : f.Links) : f.result.Linked := by
  have hgrown := h.fitted.of_grows f.grows
  have hadvances : Advances t.wheels f.wheels' :=
    (Advances.of_grows f.grows).trans (Advances.setBucket f.bucketAt _)
  have hself := h.mem_filed_iff hentry f hlinks
  have hother : ∀ id' ≠ id, f.result.entries id' = t.entries id' := fun id' hid =>
    Function.update_of_ne hid ..
  have hentry' : f.result.entries id = some { e with list := some b } := Function.update_self ..
  refine ⟨f.geared h.geared, hgrown.setBucket f.bucketAt rfl,
    h.first.trans_le hadvances.length_le, ?_, ?_, ?_, ?_⟩
  · intro id' e' he'
    by_cases hid : id' = id
    · subst hid
      obtain rfl := Option.some.inj (hentry'.symm.trans he')
      exact h.tasks id' e hentry
    · rw [hother id' hid] at he'
      exact h.tasks id' e' he'
  · intro id' e' b' he' hlist'
    by_cases hid : id' = id
    · subst hid
      obtain rfl := Option.some.inj (hentry'.symm.trans he')
      obtain rfl := Option.some.inj hlist'
      refine ⟨(hself b.level).mpr rfl, ?_⟩
      exact Holds.advances ⟨f.wheel, f.bucketAt.1, f.in_range.2.1, f.index_eq h.geared⟩
        (Advances.setBucket f.bucketAt _)
    · rw [hother id' hid] at he'
      obtain ⟨hmem, hholds⟩ := h.filed id' e' b' he' hlist'
      exact ⟨(f.mem_rings b'.level id' hid).mpr hmem, hholds.advances hadvances⟩
  · intro root id' hmem
    by_cases hid : id' = id
    · subst hid
      obtain rfl := (hself root).mp hmem
      obtain ⟨hlt, -⟩ := List.getElem?_eq_some_iff.mp f.bucketAt.1
      refine ⟨by simpa [Filing.result, Filing.wheels', setBucket] using hlt,
        (h.tasks id' e hentry).2, fun e' he' => ?_⟩
      obtain rfl := Option.some.inj (hentry'.symm.trans he')
      exact ⟨b, rfl, rfl⟩
    · obtain ⟨hroot, hlt, hrest⟩ := h.rings root id' ((f.mem_rings root id' hid).mp hmem)
      refine ⟨hroot.trans_le hadvances.length_le, hlt, fun e' he' => hrest e' ?_⟩
      rwa [hother id' hid] at he'
  · intro root
    obtain ⟨rings, hunlinked, -, hrings⟩ := hlinks
    obtain ⟨hnot, hnodup⟩ := h.unlinked hgrown hentry hunlinked root
    show (f.rings root).Nodup
    rw [hrings]
    by_cases hroot : root = f.bucket.root
    · rw [hroot] at hnot hnodup ⊢
      rw [Function.update_self]
      refine List.nodup_append.mpr ⟨hnodup, List.nodup_singleton id, ?_⟩
      rintro id' hmem _ hid rfl
      exact hnot ((List.mem_singleton.mp hid) ▸ hmem)
    · rw [Function.update_of_ne hroot]
      exact hnodup

/-- What `addTimerTaskEntry` does while the links are in order: a task that is due is handed
over, and any other one is filed. -/
theorem Linked.addTimerTaskEntry_cases (h : t.Linked) {undef : ℕ → Bool} {fuel : ℕ}
    (hok : addTimerTaskEntry undef fuel id t = .ok t') :
    ∃ e, t.entries id = some e ∧ ∃ w, t.wheels[0]? = some w ∧
      ((e.expiration < w.currentTime + w.tickMs ∧ t' = t.handOver id) ∨
        (w.currentTime + w.tickMs ≤ e.expiration ∧ ∃ b, ∃ f : t.Filing 0 id e b,
          f.Links ∧ t' = if b.level = 0 ∨ undef (f.result.overflows - 1) = true then f.result
            else f.result.handOver id)) := by
  obtain ⟨w, hw⟩ : ∃ w, t.wheels[0]? = some w := ⟨_, List.getElem?_eq_getElem h.first⟩
  obtain ⟨e, hentry⟩ : ∃ e, t.entries id = some e := by
    cases hentry : t.entries id with
    | some e => exact ⟨e, rfl⟩
    | none =>
      cases fuel with
      | zero => cases hok
      | succ fuel =>
        rw [addTimerTaskEntry, addToWheel, entry, hentry] at hok
        cases hok
  have hcancelled : e.cancelled id = false := by
    simp [TimerTaskEntry.cancelled, (h.tasks id e hentry).1]
  exact ⟨e, hentry, w, hw, addTimerTaskEntry_ok h.geared hentry hcancelled hw hok⟩

/-- `addTimerTaskEntry` keeps the links. -/
theorem Linked.addTimerTaskEntry (h : t.Linked) {undef : ℕ → Bool} {fuel : ℕ}
    (hok : addTimerTaskEntry undef fuel id t = .ok t') : t'.Linked := by
  obtain ⟨e, hentry, w, -, ⟨-, rfl⟩ | ⟨-, b, f, hlinks, rfl⟩⟩ := h.addTimerTaskEntry_cases hok
  · exact h.handOver id
  · split
    · exact h.result hentry f hlinks
    · exact (h.result hentry f hlinks).handOver id

/-- `removeFrom` keeps the links. -/
theorem Linked.removeFrom (h : t.Linked) (hok : t.removeFrom b id = .ok t') : t'.Linked := by
  obtain ⟨e, hentry, ⟨-, rings, hunlinked, rfl⟩ | ⟨-, rfl⟩⟩ := removeFrom_spec hok
  · exact h.unlink hentry hunlinked
  · exact h

/-- The links do not depend on the expiration of a bucket. -/
theorem Linked.setExpiration (h : t.Linked) (b : BucketId) (x : TimeEntry) :
    (t.setExpiration b x).1.Linked := by
  cases hl : t.bucket b with
  | none =>
    have hsame : t.setExpiration b x = (t, false) := by
      simp [Timer.setExpiration, hl]
    rw [hsame]
    exact h
  | some l =>
    obtain ⟨w, hbucket⟩ := bucketAt_of_bucket hl
    rw [setExpiration_eq hbucket.1 hl]
    exact h.of_wheels (h.geared.setBucket hbucket { l with expiration := x })
      (h.fitted.setBucket hbucket rfl) (Advances.setBucket hbucket _) t.delayQueue

end Timer

namespace Ticker

variable {tickMs : TimeEntry} {wheelSize : ℕ} {s s' : Ticker}

/-- Every step keeps the links. -/
theorem linked_step (hclocked : s.Clocked tickMs) (h : s.timer.Linked)
    {a : TimeEntry × TickerAction} (hstep : (machine tickMs wheelSize).step s a s') :
    s'.timer.Linked := by
  obtain ⟨fuel, hnext⟩ := hstep
  obtain ⟨hnow, hperform⟩ := next_ok hnext
  obtain ⟨now, action⟩ := a
  cases action with
  | add x overflow =>
    exact (h.withEntry x).addTimerTaskEntry (file_timer (perform_add hperform).2).1
  | poll choice =>
    obtain ⟨-, hpoll⟩ := perform_poll hperform
    rcases poll_ok hpoll with rfl | ⟨q, l, hq, -, -, hbucket, rfl⟩
    · exact h
    · obtain ⟨w, -, hnonneg, -⟩ := hclocked.queued_bucket hq hbucket
      dsimp only
      rw [advanceWheels_eq hclocked.geared hnonneg]
      exact h.of_wheels (h.geared.advance _) (h.fitted.advanced _) (.advanced _ _) _
  | refile overflow =>
    obtain ⟨b, -, hrefile⟩ := perform_refile hperform
    obtain ⟨l, head, rest, t, -, -, hremove, hfile⟩ := refile_removeFrom hrefile
    exact (h.removeFrom hremove).addTimerTaskEntry (file_timer hfile).1
  | finish =>
    obtain ⟨b, -, hfinish⟩ := perform_finish hperform
    obtain ⟨l, -, -, rfl⟩ := finish_ok hfinish
    exact h.setExpiration b .unset

/-- A new timer has no links. -/
theorem linked_init (htick : 0 < tickMs) (hsize : 0 < wheelSize)
    (h : (machine tickMs wheelSize).init s) : s.timer.Linked := by
  have hgeared := (Clocked.init htick hsize h).1.geared
  obtain ⟨startMs, -, rfl⟩ := h
  refine ⟨hgeared, ?_, by simp [start, Timer.new], nofun, nofun, nofun, fun _ => List.nodup_nil⟩
  intro level w hw
  obtain ⟨hlt, rfl⟩ := List.getElem?_eq_some_iff.mp hw
  obtain rfl : level = 0 := by simpa [start, Timer.new] using hlt
  obtain ⟨hlength, hroots⟩ := fitted_new tickMs wheelSize startMs 0
  refine ⟨hlength, hroots, fun first hfirst => ?_⟩
  exact (Option.some.inj hfirst) ▸ rfl

/-- The links are in order in every state that is reached. -/
theorem linked_of_reachable (htick : 0 < tickMs) (hsize : 0 < wheelSize)
    (hs : (machine tickMs wheelSize).Reachable s) : s.Clocked tickMs ∧ s.timer.Linked := by
  refine hs.invariant (I := fun s => s.Clocked tickMs ∧ s.timer.Linked) ?_ ?_
  · intro s h
    exact ⟨(Clocked.init htick hsize h).1, linked_init htick hsize h⟩
  · rintro s a s' ⟨hclocked, hlinked⟩ hstep
    exact ⟨(hclocked.step hstep).1, linked_step hclocked hlinked hstep⟩

end Ticker

end DuoDuo.Timers
