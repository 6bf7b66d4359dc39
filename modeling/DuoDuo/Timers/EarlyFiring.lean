import DuoDuo.Timers.Ticker

/-!
# When no task fires early

The first wheel never runs ahead of the clock, because it is advanced to the
expiration of a polled bucket, and that is not after the key under which the bucket
was queued. So a task that the first wheel takes for due expires within a tick. The
one way to fire early is the overflow branch of `TimingWheel::add`, which files the
task and yields whatever value it happens to yield.
-/

namespace DuoDuo.Timers

open Library

variable {ws : List TimingWheel} {b b' : BucketId} {w : TimingWheel} {l : TimerTaskList}

/-- An element of the delay queue. It lies in the range of the wheel of its bucket, and
the bucket has the expiration of its tick. -/
def Queued (ws : List TimingWheel) (q : DelayQueueEntry) : Prop :=
  ∃ w l, BucketAt ws q.bucket w l ∧ w.currentTime ≤ q.expiration ∧
    q.expiration < w.currentTime + w.interval ∧
    (q.bucket.index : ℤ) = q.expiration / w.tickMs % w.wheelSize ∧
    l.expiration = roundDown w.tickMs q.expiration

/-- A bucket that has been polled. It is that of the current tick of its wheel. -/
def Polled (ws : List TimingWheel) (b : BucketId) : Prop :=
  ∃ w l, BucketAt ws b w l ∧ l.expiration = w.currentTime ∧
    (b.index : ℤ) = w.currentTime / w.tickMs % w.wheelSize

/-- A queued element does not depend on the other buckets. -/
theorem Queued.set {q : DelayQueueEntry} (h : Queued ws q) (hbucket : BucketAt ws b w l)
    (hne : q.bucket ≠ b) (l₁ : TimerTaskList) : Queued (setBucket ws b w l₁) q := by
  obtain ⟨w', l', hbucket', hspec⟩ := h
  obtain ⟨buckets, hset⟩ := hbucket.set_of_ne hbucket' hne l₁
  exact ⟨_, l', hset, hspec⟩

/-- A polled bucket does not depend on the other buckets. -/
theorem Polled.set (h : Polled ws b') (hbucket : BucketAt ws b w l) (hne : b' ≠ b)
    (l₁ : TimerTaskList) : Polled (setBucket ws b w l₁) b' := by
  obtain ⟨w', l', hbucket', hspec⟩ := h
  obtain ⟨buckets, hset⟩ := hbucket.set_of_ne hbucket' hne l₁
  exact ⟨_, l', hset, hspec⟩

/-- A queued element stays valid when the clock is advanced to a time before it. -/
theorem Queued.advanced (hgeared : Geared ws) {q : DelayQueueEntry} (h : Queued ws q)
    {timeMs : TimeEntry} (htime : timeMs ≤ q.expiration) :
    Queued (ws.map (·.advanced timeMs)) q := by
  obtain ⟨w, l, hbucket, hle, hlt, hindex, hexp⟩ := h
  have hsound := hgeared.sound w (List.mem_of_getElem? hbucket.1)
  refine ⟨_, l, hbucket.advanced timeMs, ?_, ?_, hindex, hexp⟩
  · exact max_le hle ((roundDown_le hsound.tick_pos timeMs).trans htime)
  · exact hlt.trans_le (add_le_add_left (le_max_left ..) _)

/-- The bucket of a queued element is that of the current tick of its wheel when the
clock has been advanced to the expiration of the bucket. -/
theorem Queued.polled (hgeared : Geared ws) {q : DelayQueueEntry} (h : Queued ws q)
    (hbucket : BucketAt ws q.bucket w l) : Polled (ws.map (·.advanced l.expiration)) q.bucket := by
  obtain ⟨w', l', hbucket', hle, hlt, hindex, hexp⟩ := h
  obtain ⟨rfl, rfl⟩ := hbucket.unique hbucket'
  have hsound := hgeared.sound w (List.mem_of_getElem? hbucket.1)
  have hcurrent : (w.advanced l.expiration).currentTime = l.expiration := by
    have hround : roundDown w.tickMs l.expiration = l.expiration := by
      rw [hexp]
      exact roundDown_of_dvd (dvd_roundDown ..)
    show max w.currentTime (roundDown w.tickMs l.expiration) = l.expiration
    rw [hround, max_eq_right]
    rw [hexp]
    exact (le_roundDown_iff hsound.tick_pos hsound.aligned).mpr hle
  refine ⟨_, l, hbucket.advanced _, hcurrent.symm, ?_⟩
  rw [hcurrent, hexp, hindex]
  show _ = roundDown w.tickMs q.expiration / w.tickMs % w.wheelSize
  rw [roundDown, Int.mul_ediv_cancel_left _ hsound.tick_pos.ne']

/-- Queued elements keep their places when overflow wheels are added. -/
theorem Queued.of_grows {q : DelayQueueEntry} (h : Queued ws q) {ws' : List TimingWheel}
    (hgrows : Grows ws ws') : Queued ws' q := by
  obtain ⟨w, l, hbucket, hspec⟩ := h
  exact ⟨w, l, hbucket.of_grows hgrows, hspec⟩

/-- A polled bucket keeps its place when overflow wheels are added. -/
theorem Polled.of_grows (h : Polled ws b) {ws' : List TimingWheel} (hgrows : Grows ws ws') :
    Polled ws' b := by
  obtain ⟨w, l, hbucket, hspec⟩ := h
  exact ⟨w, l, hbucket.of_grows hgrows, hspec⟩

namespace Timer.Filing

variable {t : Timer} {id : EntryId} {e : TimerTaskEntry}

/-- The wheel takes the task into a tick after the current one. -/
theorem in_range (f : t.Filing 0 id e b) :
    f.wheel.currentTime + f.wheel.tickMs ≤ e.expiration ∧
      e.expiration < f.wheel.currentTime + f.wheel.interval ∧
      b.index = ((TimeEntry.div e.expiration f.wheel.tickMs).tmod f.wheel.wheelSize).toNat := by
  obtain ⟨w, hw, hspec⟩ := place_spec f.placed
  rw [List.drop_zero, Nat.sub_zero] at hw
  obtain rfl : f.wheel = w := Option.some.inj (f.bucketAt.1.symm.trans hw)
  exact hspec

/-- The wheel is sound. -/
theorem sound (f : t.Filing 0 id e b) (hgeared : Geared t.wheels) : f.wheel.Sound :=
  (hgeared.of_grows f.grows).sound f.wheel (List.mem_of_getElem? f.bucketAt.1)

/-- The task expires after the beginning of time. -/
theorem expiration_nonneg (f : t.Filing 0 id e b) (hgeared : Geared t.wheels) :
    0 ≤ e.expiration := by
  have hsound := f.sound hgeared
  have hlate := f.in_range.1
  linarith [hsound.current_nonneg, hsound.tick_pos]

/-- The slot is the expiration rounded down. -/
theorem slot_eq (f : t.Filing 0 id e b) (hgeared : Geared t.wheels) :
    f.slot = roundDown f.wheel.tickMs e.expiration := by
  rw [slot, TimeEntry.div, Int.tdiv_eq_ediv_of_nonneg (f.expiration_nonneg hgeared)]
  rfl

/-- The index of the bucket is that of the tick in which the task expires. -/
theorem index_eq (f : t.Filing 0 id e b) (hgeared : Geared t.wheels) :
    (b.index : ℤ) = e.expiration / f.wheel.tickMs % f.wheel.wheelSize := by
  have hsound := f.sound hgeared
  have hx := f.expiration_nonneg hgeared
  have hsize : (0 : ℤ) < f.wheel.wheelSize := by exact_mod_cast hsound.size_pos
  rw [f.in_range.2.2, TimeEntry.div, Int.tdiv_eq_ediv_of_nonneg hx,
    Int.tmod_eq_emod_of_nonneg (Int.ediv_nonneg hx hsound.tick_pos.le),
    Int.toNat_of_nonneg (Int.emod_nonneg _ hsize.ne')]

/-- The ticks of a wheel's turn, the current one included. -/
theorem tick_in_turn (f : t.Filing 0 id e b) (hgeared : Geared t.wheels) {x : TimeEntry}
    (hle : f.wheel.currentTime ≤ x) (hlt : x < f.wheel.currentTime + f.wheel.interval) :
    f.wheel.currentTime / f.wheel.tickMs ≤ x / f.wheel.tickMs ∧
      x / f.wheel.tickMs < f.wheel.currentTime / f.wheel.tickMs + f.wheel.wheelSize :=
  (f.sound hgeared).tick_in_turn hle hlt

/-- The task does not expire in the current tick. -/
theorem current_tick_lt (f : t.Filing 0 id e b) (hgeared : Geared t.wheels) :
    f.wheel.currentTime / f.wheel.tickMs < e.expiration / f.wheel.tickMs := by
  have hsound := f.sound hgeared
  have hle := Int.ediv_le_ediv hsound.tick_pos f.in_range.1
  rw [Int.add_ediv_of_dvd_left hsound.aligned, Int.ediv_self hsound.tick_pos.ne'] at hle
  exact hle

/-- A bucket whose expiration changes is not in the queue. -/
theorem bucket_ne_of_queued (f : t.Filing 0 id e b) (hgeared : Geared t.wheels)
    (hchanged : f.slot ≠ f.bucket.expiration) {q : DelayQueueEntry} (hq : Queued t.wheels q) :
    q.bucket ≠ b := by
  rintro rfl
  obtain ⟨w, l, hbucket, hle, hlt, hindex, hexp⟩ := hq.of_grows f.grows
  obtain ⟨rfl, rfl⟩ := f.bucketAt.unique hbucket
  obtain ⟨hc, hc'⟩ := f.tick_in_turn hgeared hle hlt
  obtain ⟨hx, hx'⟩ := f.tick_in_turn hgeared
    (by linarith [f.in_range.1, (f.sound hgeared).tick_pos]) f.in_range.2.1
  have hsame := eq_of_emod_eq hc hc' hx hx' (hindex.symm.trans (f.index_eq hgeared))
  refine hchanged ?_
  rw [f.slot_eq hgeared, hexp, roundDown, roundDown, hsame]

/-- Nothing is filed in a polled bucket. -/
theorem bucket_ne_of_polled (f : t.Filing 0 id e b) (hgeared : Geared t.wheels)
    (hpolled : Polled t.wheels b') : b' ≠ b := by
  rintro rfl
  obtain ⟨w, l, hbucket, hexp, hindex⟩ := hpolled.of_grows f.grows
  obtain ⟨rfl, rfl⟩ := f.bucketAt.unique hbucket
  have hsound := f.sound hgeared
  have hinterval := hsound.tick_pos.trans_le hsound.tick_le_interval
  obtain ⟨hc, hc'⟩ := f.tick_in_turn hgeared le_rfl (by linarith)
  obtain ⟨hx, hx'⟩ := f.tick_in_turn hgeared
    (by linarith [f.in_range.1, hsound.tick_pos]) f.in_range.2.1
  have hsame := eq_of_emod_eq hc hc' hx hx' (hindex.symm.trans (f.index_eq hgeared))
  exact (f.current_tick_lt hgeared).ne hsame

/-- The wheels fit together afterwards. -/
theorem geared (f : t.Filing 0 id e b) (hgeared : Geared t.wheels) : Geared f.wheels' :=
  (hgeared.of_grows f.grows).setBucket f.bucketAt _

/-- The first wheel keeps its tick and its time. -/
theorem first_wheel (f : t.Filing 0 id e b) {w₀ : TimingWheel} (hw₀ : t.wheels[0]? = some w₀) :
    ∃ buckets, f.wheels'[0]? = some { w₀ with buckets } :=
  f.bucketAt.getElem?_setBucket (f.grows.getElem? hw₀) _

/-- The task is linked into a bucket of the first wheel exactly if it expires within a turn. -/
theorem level_eq_zero_iff (f : t.Filing 0 id e b) {w₀ : TimingWheel}
    (hw₀ : t.wheels[0]? = some w₀)
    (hlate : w₀.currentTime + w₀.tickMs ≤ e.expiration) :
    b.level = 0 ↔ e.expiration < w₀.currentTime + w₀.interval := by
  have hw₁ : f.wheels[0]? = some w₀ := f.grows.getElem? hw₀
  constructor
  · intro hlevel
    have hwheel : f.wheels[0]? = some f.wheel := by
      have hlevel' := f.bucketAt.1
      simpa only [hlevel] using hlevel'
    obtain rfl : f.wheel = w₀ := Option.some.inj (hwheel.symm.trans hw₁)
    exact f.in_range.2.1
  · intro hfits
    have hplaced := f.placed
    rw [place_here hw₁ hlate hfits] at hplaced
    exact (Option.some.inj hplaced) ▸ rfl

/-- The queue afterwards. -/
theorem queued (f : t.Filing 0 id e b) (hgeared : Geared t.wheels)
    (hqueued : ∀ q ∈ t.delayQueue, Queued t.wheels q) :
    ∀ q ∈ f.delayQueue', Queued f.wheels' q := by
  have hsound := f.sound hgeared
  intro q hq
  rw [delayQueue'] at hq
  split at hq
  · next hchanged =>
    rcases List.mem_cons.mp hq with rfl | hq
    · refine ⟨_, _, f.bucketAt.set_self _, ?_, f.in_range.2.1, f.index_eq hgeared,
        f.slot_eq hgeared⟩
      show f.wheel.currentTime ≤ e.expiration
      linarith [f.in_range.1, hsound.tick_pos]
    · exact ((hqueued q hq).of_grows f.grows).set f.bucketAt
        (f.bucket_ne_of_queued hgeared hchanged (hqueued q hq)) _
  · next hsame =>
    by_cases hbucket : q.bucket = b
    · subst hbucket
      obtain ⟨w, l, hbucket, hspec⟩ := (hqueued q hq).of_grows f.grows
      obtain ⟨rfl, rfl⟩ := f.bucketAt.unique hbucket
      refine ⟨_, _, f.bucketAt.set_self _, hspec.1, hspec.2.1, hspec.2.2.1, ?_⟩
      exact (not_not.mp hsame).trans hspec.2.2.2
    · exact ((hqueued q hq).of_grows f.grows).set f.bucketAt hbucket _

/-- No bucket is in the queue twice. -/
theorem nodup (f : t.Filing 0 id e b) (hgeared : Geared t.wheels)
    (hqueued : ∀ q ∈ t.delayQueue, Queued t.wheels q)
    (hnodup : (t.delayQueue.map (·.bucket)).Nodup) : (f.delayQueue'.map (·.bucket)).Nodup := by
  rw [delayQueue']
  split
  · next hchanged =>
    rw [List.map_cons, List.nodup_cons]
    refine ⟨?_, hnodup⟩
    rintro hmem
    obtain ⟨q, hq, hbucket⟩ := List.mem_map.mp hmem
    exact f.bucket_ne_of_queued hgeared hchanged (hqueued q hq) hbucket
  · exact hnodup

end Timer.Filing

namespace Ticker

/-- The invariant of a timer with the given tick: its first wheel does not run ahead of
the clock, and the buckets in the queue are set to the ticks of their elements. -/
structure Clocked (tickMs : TimeEntry) (s : Ticker) : Prop where
  geared : Geared s.timer.wheels
  first : ∃ w, s.timer.wheels[0]? = some w ∧ w.tickMs = tickMs ∧ w.currentTime ≤ s.now
  queued : ∀ q ∈ s.timer.delayQueue, Queued s.timer.wheels q
  nodup : (s.timer.delayQueue.map (·.bucket)).Nodup
  polled : ∀ b ∈ s.flushing, Polled s.timer.wheels b ∧ ∀ q ∈ s.timer.delayQueue, q.bucket ≠ b
  tasks : ∀ id e, s.timer.entries id = some e → e.taskEntry = id

/-- Every task has been handed over within a tick of its expiration at the earliest, and
none by the call that has parked it in an overflow wheel. -/
def InTime (tickMs : TimeEntry) (s : Ticker) : Prop :=
  ∀ h ∈ s.handedOver, h.expiration < h.now + tickMs ∧ h.parked = false

/-- The value that the overflow branch yields if the action takes it. -/
def overflowValue : TickerAction → Bool
  | .add _ overflow => overflow
  | .poll _ => true
  | .refile overflow => overflow
  | .finish => true

/-- The condition on a step: if the first wheel takes its overflow branch, this yields true. -/
def OverflowYieldsTrue (s : Ticker) (a : TimeEntry × TickerAction) : Prop :=
  ∀ x ∈ s.filedExpiration a.2, ∀ w ∈ s.timer.wheels.head?,
    w.currentTime + w.interval ≤ x → overflowValue a.2 = true

variable {tickMs : TimeEntry} {s s' : Ticker}

/-- Time passes. -/
theorem Clocked.wait (h : s.Clocked tickMs) {now : TimeEntry} (hnow : s.now ≤ now) :
    Clocked tickMs { s with now } := by
  obtain ⟨w, hw, htick, hcurrent⟩ := h.first
  exact { h with first := ⟨w, hw, htick, hcurrent.trans hnow⟩ }

/-- The links and the pointer of an entry do not matter. -/
theorem Clocked.relinked (h : s.Clocked tickMs) {id : EntryId} {e : TimerTaskEntry}
    {list : Option BucketId} {t : Timer} (hentry : s.timer.entries id = some e)
    (hrelinked : s.timer.Relinked id e list t) : Clocked tickMs { s with timer := t } := by
  obtain ⟨rings, rfl, -⟩ := hrelinked
  refine { h with tasks := fun id' e' hentry' => ?_ }
  by_cases hid : id' = id
  · subst hid
    obtain rfl : { e with list } = e' := by
      simpa using hentry'
    exact h.tasks id' e hentry
  · exact h.tasks id' e' (by simpa [hid] using hentry')

/-- A new entry does not matter. -/
theorem Clocked.withEntry (h : s.Clocked tickMs) (x : TimeEntry) :
    Clocked tickMs { s with timer := s.timer.withEntry x } := by
  refine { h with tasks := fun id e hentry => ?_ }
  by_cases hid : id = s.timer.created
  · subst hid
    rw [s.timer.withEntry_entries x] at hentry
    exact (Option.some.inj hentry) ▸ rfl
  · exact h.tasks id e (by simpa [Timer.withEntry, Timer.setEntry, hid] using hentry)

/-- A task that is handed over does not matter any more. -/
theorem Clocked.handOver (h : s.Clocked tickMs) (id : EntryId) (handedOver : List HandOver) :
    Clocked tickMs { s with timer := s.timer.handOver id, handedOver } := by
  refine { h with tasks := fun id' e' hentry' => ?_ }
  by_cases hid : id' = id
  · subst hid
    simp [Timer.handOver, Timer.setEntry] at hentry'
  · exact h.tasks id' e' (by simpa [Timer.handOver, Timer.setEntry, hid] using hentry')

/-- Filing a task keeps the invariant. -/
theorem Clocked.filed (h : s.Clocked tickMs) {id : EntryId} {e : TimerTaskEntry} {b : BucketId}
    (hentry : s.timer.entries id = some e) (f : s.timer.Filing 0 id e b) :
    Clocked tickMs { s with timer := f.result } where
  geared := f.geared h.geared
  first := by
    obtain ⟨w, hw, htick, hcurrent⟩ := h.first
    obtain ⟨buckets, hw'⟩ := f.first_wheel hw
    exact ⟨_, hw', htick, hcurrent⟩
  queued := f.queued h.geared h.queued
  nodup := f.nodup h.geared h.queued h.nodup
  polled := by
    intro b' hb'
    obtain ⟨hpolled, hnot⟩ := h.polled b' hb'
    have hne := f.bucket_ne_of_polled h.geared hpolled
    refine ⟨(hpolled.of_grows f.grows).set f.bucketAt hne _, fun q hq => ?_⟩
    rw [Timer.Filing.result, Timer.Filing.delayQueue'] at hq
    split at hq
    · rcases List.mem_cons.mp hq with rfl | hq
      · exact hne.symm
      · exact hnot q hq
    · exact hnot q hq
  tasks := by
    intro id' e' hentry'
    by_cases hid : id' = id
    · subst hid
      obtain rfl : { e with list := some b } = e' := by
        simpa [Timer.Filing.result] using hentry'
      exact h.tasks id' e hentry
    · exact h.tasks id' e' (by simpa [Timer.Filing.result, hid] using hentry')

/-- The expiration of a queued bucket is between the beginning of time and the key. -/
theorem Clocked.queued_bucket (h : s.Clocked tickMs) {q : DelayQueueEntry} {l : TimerTaskList}
    (hq : q ∈ s.timer.delayQueue) (hbucket : s.timer.bucket q.bucket = some l) :
    ∃ w, BucketAt s.timer.wheels q.bucket w l ∧ 0 ≤ l.expiration ∧
      l.expiration ≤ q.expiration := by
  obtain ⟨w, l', hbucketAt, hle, -, -, hexp⟩ := h.queued q hq
  have hsound := h.geared.sound w (List.mem_of_getElem? hbucketAt.1)
  obtain rfl : l' = l := by
    rw [Timer.bucket, hbucketAt.1] at hbucket
    exact Option.some.inj (hbucketAt.2.symm.trans hbucket)
  rw [hexp]
  refine ⟨w, hbucketAt, ?_, roundDown_le hsound.tick_pos _⟩
  exact mul_nonneg hsound.tick_pos.le
    (Int.ediv_nonneg (hsound.current_nonneg.trans hle) hsound.tick_pos.le)

/-- Polling a bucket keeps the invariant: the wheels do not run ahead of the clock. -/
theorem Clocked.poll (h : s.Clocked tickMs) {choice : ℕ} (hflushing : s.flushing = none)
    (hpoll : poll choice s = .ok s') : s'.Clocked tickMs ∧ s'.handedOver = s.handedOver := by
  rcases poll_ok hpoll with rfl | ⟨q, l, hq, hleast, hnow, hbucket, rfl⟩
  · exact ⟨h, rfl⟩
  · refine ⟨?_, rfl⟩
    obtain ⟨w, hbucketAt, hnonneg, hearly⟩ := h.queued_bucket hq hbucket
    rw [advanceWheels_eq h.geared hnonneg]
    have hnodup : ((s.timer.delayQueue.erase q).map (·.bucket)).Nodup :=
      h.nodup.sublist ((List.erase_sublist ..).map _)
    constructor
    · exact h.geared.advance _
    · obtain ⟨w₀, hw₀, htick, hcurrent⟩ := h.first
      have hsound₀ := h.geared.sound w₀ (List.mem_of_getElem? hw₀)
      refine ⟨w₀.advanced l.expiration, ?_, htick, ?_⟩
      · show (s.timer.wheels.map _)[0]? = _
        rw [List.getElem?_map, hw₀]
        rfl
      · exact max_le hcurrent
          ((roundDown_le hsound₀.tick_pos _).trans (hearly.trans hnow))
    · intro q' hq'
      have hmem : q' ∈ s.timer.delayQueue := List.mem_of_mem_erase hq'
      exact (h.queued q' hmem).advanced h.geared (hearly.trans (hleast q' hmem))
    · exact hnodup
    · rintro b hb
      obtain rfl : q.bucket = b := Option.some.inj hb
      refine ⟨(h.queued q hq).polled h.geared hbucketAt, fun q' hq' hsame => ?_⟩
      have hpair := (List.perm_cons_erase hq).map (·.bucket)
      have hcons := hpair.nodup_iff.mp h.nodup
      rw [List.map_cons, List.nodup_cons] at hcons
      exact hcons.1 (List.mem_map.mpr ⟨q', hq', hsame⟩)
    · exact h.tasks

/-- The end of `flush` keeps the invariant: the bucket is not in the queue. -/
theorem Clocked.finish (h : s.Clocked tickMs) {b : BucketId} (hflushing : s.flushing = some b)
    (hfinish : finish b s = .ok s') : s'.Clocked tickMs ∧ s'.handedOver = s.handedOver := by
  obtain ⟨l, hbucket, -, rfl⟩ := finish_ok hfinish
  refine ⟨?_, rfl⟩
  obtain ⟨⟨w, l', hbucketAt, -⟩, hnot⟩ := h.polled b hflushing
  rw [Timer.setExpiration_eq hbucketAt.1 hbucket]
  obtain rfl : l' = l := by
    rw [Timer.bucket, hbucketAt.1] at hbucket
    exact Option.some.inj (hbucketAt.2.symm.trans hbucket)
  exact {
    geared := h.geared.setBucket hbucketAt _
    first := by
      obtain ⟨w₀, hw₀, htick, hcurrent⟩ := h.first
      obtain ⟨buckets, hset⟩ := hbucketAt.getElem?_setBucket hw₀ { l' with expiration := .unset }
      exact ⟨_, hset, htick, hcurrent⟩
    queued := fun q hq => (h.queued q hq).set hbucketAt (hnot q hq) _
    nodup := h.nodup
    polled := by simp
    tasks := h.tasks }

/-- A record is in time if all its entries are. -/
theorem inTime_append {h : HandOver} {s' : Ticker} (hs : s.InTime tickMs)
    (hs' : s'.handedOver = s.handedOver ++ [h]) :
    s'.InTime tickMs ↔ h.expiration < h.now + tickMs ∧ h.parked = false := by
  rw [InTime, hs', List.forall_mem_append, List.forall_mem_singleton]
  exact and_iff_right hs

/-- Filing a task keeps the invariant, and no task fires early exactly if the overflow
branch of the first wheel yields true in case that it is taken. -/
theorem Clocked.file (h : s.Clocked tickMs) {fuel : ℕ} {overflow : Bool} {id : EntryId}
    (hfile : file fuel overflow id s = .ok s') :
    s'.Clocked tickMs ∧ ∃ e, s.timer.entries id = some e ∧ (s.InTime tickMs →
      (s'.InTime tickMs ↔ ∀ w ∈ s.timer.wheels.head?,
        w.currentTime + w.interval ≤ e.expiration → overflow = true)) := by
  obtain ⟨w, hw, htick, hcurrent⟩ := h.first
  have hsound := h.geared.sound w (List.mem_of_getElem? hw)
  have hhead : ∀ w' ∈ s.timer.wheels.head?, w' = w := fun w' hw' =>
    Option.some.inj (hw'.symm.trans ((List.head?_eq_getElem? ..).trans hw))
  obtain ⟨e, hentry, ⟨hdue, rfl⟩ | ⟨hlate, b, f, hkept | hparked⟩⟩ :=
    file_ok h.geared h.tasks hw hfile
  · refine ⟨h.handOver id _, e, hentry, fun hin => ?_⟩
    rw [inTime_append hin rfl]
    refine iff_of_true ⟨?_, rfl⟩ fun w' hw' hbeyond => ?_
    · show e.expiration < s.now + tickMs
      linarith
    · rw [hhead w' hw'] at hbeyond
      linarith [hsound.tick_le_interval]
  · obtain ⟨hstays, rfl⟩ := hkept
    refine ⟨h.filed hentry f, e, hentry, fun hin => iff_of_true hin fun w' hw' hbeyond => ?_⟩
    rw [hhead w' hw', ← not_lt, ← f.level_eq_zero_iff hw hlate] at hbeyond
    exact hstays.resolve_left hbeyond
  · obtain ⟨hlevel, hfalse, rfl⟩ := hparked
    refine ⟨(h.filed hentry f).handOver id _, e, hentry, fun hin => ?_⟩
    rw [inTime_append hin rfl]
    refine iff_of_false (fun hall => by cases hall.2) fun hall => ?_
    have hbeyond : w.currentTime + w.interval ≤ e.expiration := by
      rwa [← not_lt, ← f.level_eq_zero_iff hw hlate]
    have htrue := hall w ((List.head?_eq_getElem? ..).trans hw) hbeyond
    rw [hfalse] at htrue
    cases htrue

/-- An action keeps the invariant, and no task fires early exactly if the condition is met. -/
theorem Clocked.perform (h : s.Clocked tickMs) {fuel : ℕ} {action : TickerAction}
    (hperform : perform fuel s action = .ok s') :
    s'.Clocked tickMs ∧ ∀ now, s.InTime tickMs →
      (s'.InTime tickMs ↔ s.OverflowYieldsTrue (now, action)) := by
  have hunchanged : s'.handedOver = s.handedOver → s.InTime tickMs → s'.InTime tickMs :=
    fun hsame hin => by rw [InTime, hsame]; exact hin
  cases action with
  | add x overflow =>
    obtain ⟨-, hfile⟩ := perform_add hperform
    obtain ⟨hs', e, hentry, hiff⟩ := (h.withEntry x).file hfile
    obtain rfl : TimerTaskEntry.mk x none s.timer.created = e :=
      Option.some.inj ((s.timer.withEntry_entries x).symm.trans hentry)
    refine ⟨hs', fun now hin => (hiff hin).trans ?_⟩
    simp [OverflowYieldsTrue, filedExpiration, overflowValue]
  | poll choice =>
    obtain ⟨hflushing, hpoll⟩ := perform_poll hperform
    obtain ⟨hs', hsame⟩ := h.poll hflushing hpoll
    refine ⟨hs', fun now hin => iff_of_true (hunchanged hsame hin) ?_⟩
    simp [OverflowYieldsTrue, filedExpiration]
  | refile overflow =>
    obtain ⟨b, hflushing, hrefile⟩ := perform_refile hperform
    obtain ⟨l, head, rest, t, e, list, hbucket, hring, hentry, hrelinked, -, hfile⟩ :=
      refile_ok hrefile
    obtain ⟨hs', e', hentry', hiff⟩ := (h.relinked hentry hrelinked).file hfile
    obtain ⟨rings, rfl, -⟩ := hrelinked
    have hsame : e.expiration = e'.expiration := by
      simp only [Function.update_self] at hentry'
      exact (Option.some.inj hentry') ▸ rfl
    have hfiled : s.filedExpiration (.refile overflow) = some e.expiration := by
      simp [filedExpiration, hflushing, hbucket, hring, hentry]
    refine ⟨hs', fun now hin => (hiff hin).trans ?_⟩
    simp [OverflowYieldsTrue, hfiled, overflowValue, hsame]
  | finish =>
    obtain ⟨b, hflushing, hfinish⟩ := perform_finish hperform
    obtain ⟨hs', hsame⟩ := h.finish hflushing hfinish
    refine ⟨hs', fun now hin => iff_of_true (hunchanged hsame hin) ?_⟩
    simp [OverflowYieldsTrue, filedExpiration]

/-- A step keeps the invariant, and no task fires early exactly if the condition is met. -/
theorem Clocked.step (h : s.Clocked tickMs) {wheelSize : ℕ} {a : TimeEntry × TickerAction}
    (hstep : (machine tickMs wheelSize).step s a s') :
    s'.Clocked tickMs ∧ (s.InTime tickMs → (s'.InTime tickMs ↔ s.OverflowYieldsTrue a)) := by
  obtain ⟨fuel, hnext⟩ := hstep
  obtain ⟨hnow, hperform⟩ := next_ok hnext
  obtain ⟨hs', hiff⟩ := (h.wait hnow).perform hperform
  exact ⟨hs', hiff a.1⟩

/-- A new timer does not run ahead of the clock. -/
theorem Clocked.init {wheelSize : ℕ} (htick : 0 < tickMs) (hsize : 0 < wheelSize)
    (h : (machine tickMs wheelSize).init s) : s.Clocked tickMs ∧ s.InTime tickMs := by
  obtain ⟨startMs, hstart, rfl⟩ := h
  obtain ⟨hsound, hcurrent⟩ := TimingWheel.Sound.new htick hstart hsize 0
  refine ⟨?_, by simp [InTime, start]⟩
  exact {
    geared := ⟨by simpa [start, Timer.new] using hsound, by simp [start, Timer.new]⟩
    first := by
      refine ⟨_, rfl, rfl, ?_⟩
      rw [hcurrent]
      exact roundDown_le htick startMs
    queued := by simp [start, Timer.new]
    nodup := by simp [start, Timer.new]
    polled := by simp [start]
    tasks := by simp [start, Timer.new] }

/-- No task fires early throughout a run, and none is handed over by the call that has
parked it, exactly when the overflow branch of the first wheel yields true whenever it
is taken. -/
theorem inTime_iff_overflowYieldsTrue {wheelSize : ℕ} (htick : 0 < tickMs)
    (hsize : 2 ≤ wheelSize) {first last : Ticker} {trace : List (Ticker × TimeEntry × TickerAction)}
    (hinit : (machine tickMs wheelSize).init first)
    (h : (machine tickMs wheelSize).Run first trace last) :
    (∀ s ∈ Machine.visited trace last, s.InTime tickMs) ↔
      ∀ p ∈ trace, p.1.OverflowYieldsTrue p.2 := by
  refine h.forall_visited_iff (C := OverflowYieldsTrue)
    (I := fun s => s.Clocked tickMs ∧ s.InTime tickMs) (fun s hs => hs.2) ?_ ?_
    (Clocked.init htick (two_pos.trans_le hsize) hinit)
  · rintro s a s' ⟨hs, hin⟩ hcond hstep
    obtain ⟨hs', hiff⟩ := hs.step hstep
    exact ⟨hs', (hiff hin).mpr hcond⟩
  · rintro s a s' ⟨hs, hin⟩ hcond hstep hin'
    exact hcond (((hs.step hstep).2 hin).mp hin')

instance (s : Ticker) (a : TimeEntry × TickerAction) : Decidable (s.OverflowYieldsTrue a) := by
  unfold OverflowYieldsTrue
  infer_instance

/-- Three tasks: one due when it is added, one for the first wheel, and one for an
overflow wheel, from which it is moved to the first wheel when its bucket is polled. -/
def threeTasks : List (TimeEntry × TickerAction) :=
  [(100, .add 105 true), (100, .add 125 true), (100, .add 150 true),
    (126, .poll 0), (126, .refile true), (127, .finish),
    (151, .poll 0), (151, .refile true), (151, .finish),
    (152, .poll 0), (152, .refile true), (153, .finish)]

/-- The timer after these actions. -/
def afterThreeTasks : Ticker :=
  (threeTasks.foldlM (next 4) (start 10 4 100)).getD (start 10 4 100)

/-- The actions can be performed. -/
theorem afterThreeTasks_eq :
    threeTasks.foldlM (next 4) (start 10 4 100) = some afterThreeTasks := by
  have hsome : (threeTasks.foldlM (next 4) (start 10 4 100)).isSome = true := by decide +kernel
  exact (Option.getD_of_ne_none (Option.isSome_iff_ne_none.mp hsome) _).symm

/-- Each of the three tasks is handed over when its time has come. -/
theorem inTime_iff_overflowYieldsTrue_threeTasks :
    (∀ s ∈ Machine.visited (Machine.traceOf (next 4) (start 10 4 100) threeTasks) afterThreeTasks,
      s.InTime 10) ∧
    afterThreeTasks.handedOver =
      [⟨0, 105, 100, false⟩, ⟨1, 125, 126, false⟩, ⟨2, 150, 152, false⟩] := by
  refine ⟨?_, by decide +kernel⟩
  have hinit : (machine 10 4).init (start 10 4 100) := ⟨100, by decide, rfl⟩
  exact (inTime_iff_overflowYieldsTrue (by decide) (by decide) hinit
    (run_of_foldlM afterThreeTasks_eq)).mpr (by decide +kernel)

/-- If the overflow branch yields false, a task is parked in an overflow wheel and fires
at once. -/
theorem overflow_fires_early : ∃ s, (machine 1 2).Reachable s ∧
    s.handedOver = [⟨0, 3, 0, true⟩] ∧ ¬ s.InTime 1 := by
  have hinit : (machine 1 2).init (start 1 2 0) := ⟨0, by decide, rfl⟩
  have hstep : ∃ s, (machine 1 2).step (start 1 2 0) (0, .add 3 false) s ∧
      s.handedOver = [⟨0, 3, 0, true⟩] := ⟨_, ⟨2, rfl⟩, rfl⟩
  obtain ⟨s, hstep, hrecord⟩ := hstep
  refine ⟨s, Machine.Reachable.tail (.of_init hinit) hstep, hrecord, fun hin => ?_⟩
  have hfirst := hin ⟨0, 3, 0, true⟩ (by simp [hrecord])
  exact absurd hfirst.2 (by decide)

end Ticker

end DuoDuo.Timers
