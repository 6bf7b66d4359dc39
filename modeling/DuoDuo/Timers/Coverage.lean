import DuoDuo.Timers.EarlyFiring

/-!
# When no task waits for a later one

A bucket is in the delay queue under the expiration of the task that was filed in it
first. A task filed after a later one of the same tick is not covered by that key,
and nothing else can take the cover of a task away.
-/

namespace DuoDuo.Timers

open Library

namespace Ticker

/-- Every task linked in a bucket is covered by an element of the delay queue for that
bucket with a key that is not later than its expiration. The bucket whose tasks are
being filed again has been taken from the queue. -/
def Covered (s : Ticker) : Prop :=
  ∀ id e b, s.timer.entries id = some e → e.list = some b → s.flushing ≠ some b →
    ∃ q ∈ s.timer.delayQueue, q.bucket = b ∧ q.expiration ≤ e.expiration

/-- The condition on a step: a task that is filed, and stays, in a bucket which has the
expiration of its tick already is not earlier than all keys of that bucket. -/
def FilesBehindKey (s : Ticker) (a : TimeEntry × TickerAction) : Prop :=
  ∀ x ∈ s.filedExpiration a.2, ∀ b ∈ place x s.timer.wheels 0,
    (b.level = 0 ∨ overflowValue a.2 = true) → s.flushing ≠ some b →
      ∀ w ∈ s.timer.wheels[b.level]?, ∀ l ∈ w.buckets[b.index]?,
        l.expiration = w.tickMs * TimeEntry.div x w.tickMs →
          ∃ q ∈ s.timer.delayQueue, q.bucket = b ∧ q.expiration ≤ x

/-- An entry that points to a bucket is linked in the list of that bucket. -/
def Linked (s : Ticker) : Prop :=
  ∀ id e b, s.timer.entries id = some e → e.list = some b →
    ∃ w l, BucketAt s.timer.wheels b w l ∧ id ∈ s.timer.rings l.root

end Ticker

namespace Timer.Filing

variable {t : Timer} {id : EntryId} {e : TimerTaskEntry} {b b' : BucketId}

/-- The task is filed where the present wheels place it, or in a new wheel, whose buckets
have no expiration. -/
theorem placed_or_unset (f : t.Filing 0 id e b) :
    (place e.expiration t.wheels 0 = some b ∧ BucketAt t.wheels b f.wheel f.bucket) ∨
      f.bucket.expiration = .unset := by
  obtain ⟨rest, hrest⟩ := f.grows.isPrefix
  have hplaced := f.placed
  rw [List.drop_zero, ← hrest] at hplaced
  rcases lt_or_ge b.level t.wheels.length with hlt | hge
  · left
    refine ⟨(place_append hplaced).resolve_right (by omega), ?_, f.bucketAt.2⟩
    have hwheel := f.bucketAt.1
    rwa [← hrest, List.getElem?_append_left hlt] at hwheel
  · right
    exact f.grows.expiration_unset f.bucketAt.1 hge _ (List.mem_of_getElem? f.bucketAt.2)

/-- The slot of a task is a time. -/
theorem slot_ne_unset (f : t.Filing 0 id e b) (hgeared : Geared t.wheels) :
    f.slot ≠ .unset := by
  have hsound := f.sound hgeared
  have hnonneg : 0 ≤ f.slot := by
    rw [f.slot_eq hgeared, roundDown]
    exact mul_nonneg hsound.tick_pos.le
      (Int.ediv_nonneg (f.expiration_nonneg hgeared) hsound.tick_pos.le)
  intro hunset
  rw [hunset] at hnonneg
  exact absurd hnonneg (by decide)

/-- The roots of all buckets stay. -/
theorem bucketAt' (f : t.Filing 0 id e b) {w : TimingWheel} {l : TimerTaskList}
    (h : BucketAt t.wheels b' w l) :
    ∃ w' l', BucketAt f.wheels' b' w' l' ∧ l'.root = l.root := by
  have hgrown := h.of_grows f.grows
  by_cases hb : b' = b
  · subst hb
    obtain ⟨rfl, rfl⟩ := f.bucketAt.unique hgrown
    exact ⟨_, _, f.bucketAt.set_self _, rfl⟩
  · obtain ⟨buckets, hset⟩ := f.bucketAt.set_of_ne hgrown hb { f.bucket with expiration := f.slot }
    exact ⟨_, l, hset, rfl⟩

end Timer.Filing

namespace Ticker

variable {tickMs : TimeEntry} {s s' : Ticker}

/-- Filing a task links it. -/
theorem Linked.filed (h : s.Linked) {id : EntryId} {e : TimerTaskEntry} {b : BucketId}
    (f : s.timer.Filing 0 id e b) : Linked { s with timer := f.result } := by
  intro id' e' b' hentry' hlist'
  by_cases hid : id' = id
  · subst hid
    obtain rfl : { e with list := some b } = e' := by
      simpa [Timer.Filing.result] using hentry'
    obtain rfl : b = b' := Option.some.inj hlist'
    exact ⟨_, _, f.bucketAt.set_self _, f.linked⟩
  · obtain ⟨w, l, hbucket, hmem⟩ :=
      h id' e' b' (by simpa [Timer.Filing.result, hid] using hentry') hlist'
    obtain ⟨w', l', hbucket', hroot⟩ := f.bucketAt' hbucket
    refine ⟨w', l', hbucket', ?_⟩
    rw [hroot]
    exact (f.mem_rings l.root id' hid).mpr hmem

/-- A deleted entry need not be linked. -/
theorem Linked.handOver (h : s.Linked) (id : EntryId) (handedOver : List HandOver) :
    Linked { s with timer := s.timer.handOver id, handedOver } := by
  intro id' e' b' hentry' hlist'
  by_cases hid : id' = id
  · subst hid
    simp [Timer.handOver, Timer.setEntry] at hentry'
  · exact h id' e' b' (by simpa [Timer.handOver, Timer.setEntry, hid] using hentry') hlist'

/-- A new entry is not linked yet. -/
theorem Linked.withEntry (h : s.Linked) (x : TimeEntry) :
    Linked { s with timer := s.timer.withEntry x } := by
  intro id e b hentry hlist
  by_cases hid : id = s.timer.created
  · subst hid
    rw [s.timer.withEntry_entries x] at hentry
    obtain rfl := Option.some.inj hentry
    cases hlist
  · exact h id e b (by simpa [Timer.withEntry, Timer.setEntry, hid] using hentry) hlist

/-- An entry that is unlinked, or left alone. -/
theorem Linked.relinked (h : s.Linked) {id : EntryId} {e : TimerTaskEntry}
    {list : Option BucketId} {t : Timer} (hrelinked : s.timer.Relinked id e list t)
    (halone : list = none ∨ t = s.timer) : Linked { s with timer := t } := by
  rcases halone with rfl | rfl
  · obtain ⟨rings, rfl, hrings⟩ := hrelinked
    intro id' e' b' hentry' hlist'
    by_cases hid : id' = id
    · subst hid
      obtain rfl : { e with list := none } = e' := by simpa using hentry'
      cases hlist'
    · obtain ⟨w, l, hbucket, hmem⟩ := h id' e' b' (by simpa [hid] using hentry') hlist'
      exact ⟨w, l, hbucket, (hrings l.root id' hid).mpr hmem⟩
  · exact h

/-- An entry that is unlinked, or left alone, takes no cover away. -/
theorem Covered.relinked (h : s.Covered) {id : EntryId} {e : TimerTaskEntry}
    {list : Option BucketId} {t : Timer} (hrelinked : s.timer.Relinked id e list t)
    (halone : list = none ∨ t = s.timer) : Covered { s with timer := t } := by
  rcases halone with rfl | rfl
  · obtain ⟨rings, rfl, -⟩ := hrelinked
    intro id' e' b' hentry' hlist'
    by_cases hid : id' = id
    · subst hid
      obtain rfl : { e with list := none } = e' := by simpa using hentry'
      cases hlist'
    · exact h id' e' b' (by simpa [hid] using hentry') hlist'
  · exact h

/-- A new entry needs no cover. -/
theorem Covered.withEntry (h : s.Covered) (x : TimeEntry) :
    Covered { s with timer := s.timer.withEntry x } := by
  intro id e b hentry hlist
  by_cases hid : id = s.timer.created
  · subst hid
    rw [s.timer.withEntry_entries x] at hentry
    obtain rfl := Option.some.inj hentry
    cases hlist
  · exact h id e b (by simpa [Timer.withEntry, Timer.setEntry, hid] using hentry) hlist

/-- The other tasks stay covered when a task is handed over. -/
theorem covered_handOver {id : EntryId} {handedOver : List HandOver}
    (h : ∀ id' e b, id' ≠ id → s.timer.entries id' = some e → e.list = some b →
      s.flushing ≠ some b → ∃ q ∈ s.timer.delayQueue, q.bucket = b ∧
        q.expiration ≤ e.expiration) :
    Covered { s with timer := s.timer.handOver id, handedOver } := by
  intro id' e' b' hentry' hlist'
  by_cases hid : id' = id
  · subst hid
    simp [Timer.handOver, Timer.setEntry] at hentry'
  · exact h id' e' b' hid (by simpa [Timer.handOver, Timer.setEntry, hid] using hentry') hlist'

/-- The other tasks stay covered when a task is filed. -/
theorem Covered.others (h : s.Covered) {id : EntryId} {e : TimerTaskEntry} {b : BucketId}
    (f : s.timer.Filing 0 id e b) {id' : EntryId} {e' : TimerTaskEntry} {b' : BucketId}
    (hid : id' ≠ id) (hentry : f.result.entries id' = some e') (hlist : e'.list = some b')
    (hflushing : s.flushing ≠ some b') :
    ∃ q ∈ f.result.delayQueue, q.bucket = b' ∧ q.expiration ≤ e'.expiration := by
  obtain ⟨q, hq, hspec⟩ :=
    h id' e' b' (by simpa [Timer.Filing.result, hid] using hentry) hlist hflushing
  refine ⟨q, ?_, hspec⟩
  rw [Timer.Filing.result, Timer.Filing.delayQueue']
  split
  · exact List.mem_cons_of_mem _ hq
  · exact hq

/-- All tasks are covered after one has been filed exactly if it is covered itself: its
bucket has been offered to the queue with its expiration, or is there with a key that is
not later. -/
theorem Covered.filed_iff (h : s.Covered) {id : EntryId} {e : TimerTaskEntry} {b : BucketId}
    (f : s.timer.Filing 0 id e b) : Covered { s with timer := f.result } ↔
      (s.flushing ≠ some b → f.bucket.expiration = f.slot →
        ∃ q ∈ s.timer.delayQueue, q.bucket = b ∧ q.expiration ≤ e.expiration) := by
  have hentry : f.result.entries id = some { e with list := some b } := Function.update_self ..
  constructor
  · intro hall hflushing hsame
    obtain ⟨q, hq, hspec⟩ := hall id _ b hentry rfl hflushing
    have hqueue : f.delayQueue' = s.timer.delayQueue := by
      rw [Timer.Filing.delayQueue', if_neg (not_not.mpr hsame.symm)]
    have hq' : q ∈ f.delayQueue' := hq
    rw [hqueue] at hq'
    exact ⟨q, hq', hspec⟩
  · intro hcond id' e' b' hentry' hlist' hflushing
    by_cases hid : id' = id
    · subst hid
      obtain rfl : { e with list := some b } = e' :=
        Option.some.inj (hentry.symm.trans hentry')
      obtain rfl : b = b' := Option.some.inj hlist'
      show ∃ q ∈ f.delayQueue', _
      rw [Timer.Filing.delayQueue']
      split
      · exact ⟨⟨e.expiration, b⟩, List.mem_cons_self .., rfl, le_rfl⟩
      · next hsame => exact hcond hflushing (not_not.mp hsame).symm
    · exact h.others f hid hentry' hlist' hflushing

/-- Filing a task links it or hands it over, and all tasks are covered exactly if the
condition is met. -/
theorem Covered.file (hclocked : s.Clocked tickMs) (hlinked : s.Linked) {fuel : ℕ}
    {overflow : Bool} {id : EntryId} (hfile : file fuel overflow id s = .ok s') :
    s'.Linked ∧ ∃ e, s.timer.entries id = some e ∧ (s.Covered → (s'.Covered ↔
      ∀ b ∈ place e.expiration s.timer.wheels 0, (b.level = 0 ∨ overflow = true) →
        s.flushing ≠ some b → ∀ w ∈ s.timer.wheels[b.level]?, ∀ l ∈ w.buckets[b.index]?,
          l.expiration = w.tickMs * TimeEntry.div e.expiration w.tickMs →
            ∃ q ∈ s.timer.delayQueue, q.bucket = b ∧ q.expiration ≤ e.expiration)) := by
  obtain ⟨w₀, hw₀, -⟩ := hclocked.first
  obtain ⟨e, hentry, ⟨hdue, rfl⟩ | ⟨-, b, f, hkept | hparked⟩⟩ :=
    file_ok hclocked.geared hclocked.tasks hw₀ hfile
  · refine ⟨hlinked.handOver id _, e, hentry, fun h => iff_of_true ?_ ?_⟩
    · exact covered_handOver fun id' e' b' _ => h id' e' b'
    · simp [place_due hw₀ hdue]
  · obtain ⟨hstays, rfl⟩ := hkept
    refine ⟨hlinked.filed f, e, hentry, fun h => (h.filed_iff f).trans ⟨?_, ?_⟩⟩
    · intro hcond b' hb' _ hflushing w hw l hl hsame
      obtain rfl : b' = b := f.placed_eq hb'
      have hbucket : BucketAt s.timer.wheels b' w l := ⟨hw, hl⟩
      obtain ⟨rfl, rfl⟩ := f.bucketAt.unique (hbucket.of_grows f.grows)
      exact hcond hflushing hsame
    · intro hcond hflushing hsame
      rcases f.placed_or_unset with ⟨hplaced, hbucket⟩ | hunset
      · exact hcond b hplaced hstays hflushing _ hbucket.1 _ hbucket.2 hsame
      · exact absurd (hsame.symm.trans hunset) (f.slot_ne_unset hclocked.geared)
  · obtain ⟨hlevel, hfalse, rfl⟩ := hparked
    refine ⟨(hlinked.filed f).handOver id _, e, hentry, fun h => iff_of_true ?_ ?_⟩
    · exact covered_handOver (s := { s with timer := f.result })
        fun id' e' b' hid hentry' hlist hflushing => h.others f hid hentry' hlist hflushing
    · intro b' hb' hstays
      obtain rfl : b' = b := f.placed_eq hb'
      rw [hfalse] at hstays
      exact absurd (hstays.resolve_right (by decide)) hlevel

/-- Polling a bucket leaves the tasks of the other buckets covered. -/
theorem Covered.poll (h : s.Covered) (hclocked : s.Clocked tickMs) (hlinked : s.Linked)
    {choice : ℕ} (hflushing : s.flushing = none) (hpoll : poll choice s = .ok s') :
    s'.Linked ∧ s'.Covered := by
  rcases poll_ok hpoll with rfl | ⟨q, l, hq, -, -, hbucket, rfl⟩
  · exact ⟨hlinked, h⟩
  · obtain ⟨w, -, hnonneg, -⟩ := hclocked.queued_bucket hq hbucket
    constructor
    · intro id e b hentry hlist
      obtain ⟨w', l', hbucket', hmem⟩ := hlinked id e b hentry hlist
      refine ⟨w'.advanced l.expiration, l', ?_, hmem⟩
      rw [advanceWheels_eq hclocked.geared hnonneg]
      exact hbucket'.advanced _
    · intro id e b hentry hlist hother
      obtain ⟨q', hq', hb', hle'⟩ := h id e b hentry hlist (by simp [hflushing])
      refine ⟨q', (List.mem_erase_of_ne ?_).mpr hq', hb', hle'⟩
      rintro rfl
      exact hother (congrArg some hb')

/-- At the end of `flush` no task is linked in the bucket. -/
theorem Covered.finish (h : s.Covered) (hclocked : s.Clocked tickMs) (hlinked : s.Linked)
    {b : BucketId} (hflushing : s.flushing = some b) (hfinish : finish b s = .ok s') :
    s'.Linked ∧ s'.Covered := by
  obtain ⟨l, hbucket, hring, rfl⟩ := finish_ok hfinish
  obtain ⟨⟨w, l', hbucketAt, -⟩, -⟩ := hclocked.polled b hflushing
  obtain rfl : l' = l := by
    rw [Timer.bucket, hbucketAt.1] at hbucket
    exact Option.some.inj (hbucketAt.2.symm.trans hbucket)
  rw [Timer.setExpiration_eq hbucketAt.1 hbucket]
  constructor
  · intro id e b' hentry hlist
    obtain ⟨w', l'', hbucket', hmem⟩ := hlinked id e b' hentry hlist
    by_cases hb : b' = b
    · subst hb
      obtain ⟨rfl, rfl⟩ := hbucketAt.unique hbucket'
      rw [hring] at hmem
      cases hmem
    · obtain ⟨buckets, hset⟩ :=
        hbucketAt.set_of_ne hbucket' hb { l' with expiration := .unset }
      exact ⟨_, l'', hset, hmem⟩
  · intro id e b' hentry hlist _
    refine h id e b' hentry hlist ?_
    rintro hsame
    obtain rfl : b = b' := Option.some.inj (hflushing.symm.trans hsame)
    obtain ⟨w', l'', hbucket', hmem⟩ := hlinked id e b hentry hlist
    obtain ⟨rfl, rfl⟩ := hbucketAt.unique hbucket'
    rw [hring] at hmem
    cases hmem

/-- A step links what it files, and all tasks are covered exactly if the condition is met. -/
theorem Covered.step (h : s.Covered) (hclocked : s.Clocked tickMs) (hlinked : s.Linked)
    {wheelSize : ℕ} {a : TimeEntry × TickerAction}
    (hstep : (machine tickMs wheelSize).step s a s') :
    s'.Linked ∧ (s'.Covered ↔ s.FilesBehindKey a) := by
  obtain ⟨fuel, hnext⟩ := hstep
  obtain ⟨hnow, hperform⟩ := next_ok hnext
  obtain ⟨now, action⟩ := a
  have hclocked' := hclocked.wait hnow
  cases action with
  | add x overflow =>
    obtain ⟨-, hfile⟩ := perform_add hperform
    obtain ⟨hs', e, hentry, hiff⟩ :=
      Covered.file (hclocked'.withEntry x) (Linked.withEntry (s := { s with now }) hlinked x) hfile
    obtain rfl : TimerTaskEntry.mk x none s.timer.created = e :=
      Option.some.inj ((s.timer.withEntry_entries x).symm.trans hentry)
    refine ⟨hs', (hiff (Covered.withEntry (s := { s with now }) h x)).trans ?_⟩
    simp [FilesBehindKey, filedExpiration, overflowValue, Timer.withEntry, Timer.setEntry]
  | poll choice =>
    obtain ⟨hflushing, hpoll⟩ := perform_poll hperform
    obtain ⟨hs', hcovered⟩ := Covered.poll (s := { s with now }) h hclocked' hlinked hflushing hpoll
    exact ⟨hs', iff_of_true hcovered (by simp [FilesBehindKey, filedExpiration])⟩
  | refile overflow =>
    obtain ⟨b, hflushing, hrefile⟩ := perform_refile hperform
    obtain ⟨l, head, rest, t, e, list, hbucket, hring, hentry, hrelinked, halone, hfile⟩ :=
      refile_ok hrefile
    obtain ⟨hs', e', hentry', hiff⟩ := Covered.file (hclocked'.relinked hentry hrelinked)
      (Linked.relinked (s := { s with now }) hlinked hrelinked halone) hfile
    have hcovered := Covered.relinked (s := { s with now }) h hrelinked halone
    obtain ⟨rings, rfl, -⟩ := hrelinked
    have hsame : e'.expiration = e.expiration := by
      simp only [Function.update_self] at hentry'
      exact (Option.some.inj hentry') ▸ rfl
    have hfiled : s.filedExpiration (.refile overflow) = some e.expiration := by
      have hflushing' : s.flushing = some b := hflushing
      have hbucket' : s.timer.bucket b = some l := hbucket
      have hring' : s.timer.rings l.root = head :: rest := hring
      have hentry₀ : s.timer.entries head = some e := hentry
      simp [filedExpiration, hflushing', hbucket', hring', hentry₀]
    refine ⟨hs', (hiff hcovered).trans ?_⟩
    simp [FilesBehindKey, hfiled, overflowValue, hsame]
  | finish =>
    obtain ⟨b, hflushing, hfinish⟩ := perform_finish hperform
    obtain ⟨hs', hcovered⟩ :=
      Covered.finish (s := { s with now }) h hclocked' hlinked hflushing hfinish
    exact ⟨hs', iff_of_true hcovered (by simp [FilesBehindKey, filedExpiration])⟩

/-- A new timer has no tasks. -/
theorem Covered.init {wheelSize : ℕ} (h : (machine tickMs wheelSize).init s) :
    s.Linked ∧ s.Covered := by
  obtain ⟨startMs, -, rfl⟩ := h
  exact ⟨by simp [Linked, start, Timer.new], by simp [Covered, start, Timer.new]⟩

/-- Every task is covered throughout a run exactly when no task is filed in a bucket that
has the expiration of its tick already and is in the queue with later keys only. -/
theorem covered_iff_filesBehindKey {wheelSize : ℕ} (htick : 0 < tickMs) (hsize : 0 < wheelSize)
    {first last : Ticker} {trace : List (Ticker × TimeEntry × TickerAction)}
    (hinit : (machine tickMs wheelSize).init first)
    (h : (machine tickMs wheelSize).Run first trace last) :
    (∀ s ∈ Machine.visited trace last, s.Covered) ↔ ∀ p ∈ trace, p.1.FilesBehindKey p.2 := by
  refine h.forall_visited_iff (C := FilesBehindKey)
    (I := fun s => s.Clocked tickMs ∧ s.Linked ∧ s.Covered) (fun s hs => hs.2.2) ?_ ?_
    ⟨(Clocked.init htick hsize hinit).1, Covered.init hinit⟩
  · rintro s a s' ⟨hclocked, hlinked, hcovered⟩ hcond hstep
    obtain ⟨hs', hiff⟩ := hcovered.step hclocked hlinked hstep
    exact ⟨(hclocked.step hstep).1, hs', hiff.mpr hcond⟩
  · rintro s a s' ⟨hclocked, hlinked, hcovered⟩ hcond hstep hcovered'
    exact hcond ((hcovered.step hclocked hlinked hstep).2.mp hcovered')

instance (s : Ticker) (a : TimeEntry × TickerAction) : Decidable (s.FilesBehindKey a) := by
  unfold FilesBehindKey
  infer_instance

/-- Two tasks of one tick, the earlier one added first, and the flush of their bucket. -/
def twoInOrder : List (TimeEntry × TickerAction) :=
  [(100, .add 121 true), (101, .add 125 true), (122, .poll 0), (122, .refile true),
    (123, .refile true), (123, .finish)]

/-- The timer after these actions. -/
def afterTwoInOrder : Ticker :=
  (twoInOrder.foldlM (next 4) (start 10 4 100)).getD (start 10 4 100)

/-- The actions can be performed. -/
theorem afterTwoInOrder_eq :
    twoInOrder.foldlM (next 4) (start 10 4 100) = some afterTwoInOrder := by
  have hsome : (twoInOrder.foldlM (next 4) (start 10 4 100)).isSome = true := by decide +kernel
  exact (Option.getD_of_ne_none (Option.isSome_iff_ne_none.mp hsome) _).symm

/-- Tasks that are added in order are covered by the key of the first one. -/
theorem covered_iff_filesBehindKey_twoInOrder :
    (∀ s ∈ Machine.visited (Machine.traceOf (next 4) (start 10 4 100) twoInOrder) afterTwoInOrder,
      s.Covered) ∧ afterTwoInOrder.handedOver.map (·.id) = [0, 1] := by
  refine ⟨?_, by decide +kernel⟩
  have hinit : (machine 10 4).init (start 10 4 100) := ⟨100, by decide, rfl⟩
  exact (covered_iff_filesBehindKey (by decide) (by decide) hinit
    (run_of_foldlM afterTwoInOrder_eq)).mpr (by decide +kernel)

/-- A task that is added after a later one of the same tick waits for that one. -/
theorem later_task_first : ∃ s, (machine 10 4).Reachable s ∧ s.flushing = none ∧
    s.timer.delayQueue = [⟨19, ⟨0, 1⟩⟩] ∧ ¬ s.Covered := by
  have hinit : (machine 10 4).init (start 10 4 0) := ⟨0, by decide, rfl⟩
  have hsteps : ∃ s s', (machine 10 4).step (start 10 4 0) (0, .add 19 true) s ∧
      (machine 10 4).step s (0, .add 11 true) s' ∧ s'.flushing = none ∧
      s'.timer.delayQueue = [⟨19, ⟨0, 1⟩⟩] ∧
      s'.timer.entries 1 = some ⟨11, some ⟨0, 1⟩, 1⟩ :=
    ⟨_, _, ⟨2, rfl⟩, ⟨2, rfl⟩, rfl, rfl, rfl⟩
  obtain ⟨s, s', hfirst, hsecond, hflushing, hqueue, hentry⟩ := hsteps
  refine ⟨s', Machine.Reachable.tail (Machine.Reachable.tail (.of_init hinit) hfirst) hsecond,
    hflushing, hqueue, fun hcovered => ?_⟩
  obtain ⟨q, hq, -, hle⟩ := hcovered 1 _ ⟨0, 1⟩ hentry rfl (by simp [hflushing])
  rw [hqueue, List.mem_singleton] at hq
  subst hq
  exact absurd hle (by decide)

end Ticker

end DuoDuo.Timers
