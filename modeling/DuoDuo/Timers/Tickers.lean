import DuoDuo.Timers.Coverage

/-!
# Many tickers

`Timer::advanceClock` polls for the first time before it locks the timer, and reads the
expiration of the polled bucket when it has the lock. Meanwhile other threads add tasks, and
other tickers advance the clock. A call of `Timer::add` is one step here, so the calls of `add`
do not overlap one another, although they hold the lock shared: what happens between the steps
of two overlapping calls is the subject of `Insertion`. The bucket of a polled element may be
filed for another tick before it is flushed, and so may a bucket whose element is still in the
queue: the clock is then advanced to that tick.
-/

namespace DuoDuo.Timers

open Library

/-- The element that `poll` returns. -/
def Timer.top (t : Timer) (r : Reading) : Option DelayQueueEntry :=
  let least := Timer.leastElements t.delayQueue
  match least[r.choice % least.length]? with
  | none => none
  | some first => if TimeEntry.sub first.expiration r.now > 0 then none else some first

/-- A timer with any number of tickers. -/
structure Tickers where
  /-- The timer, the bucket that is being flushed, the clock and the record. -/
  base : Ticker
  /-- The tickers that wait for the lock, with the elements that they have polled. -/
  polled : List (ℕ × DelayQueueEntry) := []
  /-- The ticker that has the lock, with the element that it has polled last. -/
  writer : Option (ℕ × DelayQueueEntry) := none

/-- What the threads do next. -/
inductive TickersAction
  /-- `Timer::add`, on any thread, while no other thread is in it. -/
  | add (expiration : TimeEntry) (overflow : Bool)
  /-- The first `poll` of `advanceClock`, by a ticker. -/
  | poll (ticker choice : ℕ)
  /-- The ticker gets the lock, and the wheels are advanced. -/
  | lock (ticker : ℕ)
  /-- One iteration of the loop of `flush`. -/
  | refile (overflow : Bool)
  /-- The end of `flush`. -/
  | finish
  /-- The `poll` at the end of the loop, after which the lock is released if it returns nothing. -/
  | pollAgain (choice : ℕ)
  deriving DecidableEq

namespace Tickers

/-- A timer constructed at a time of day. -/
def start (tickMs : TimeEntry) (wheelSize : ℕ) (startMs : TimeEntry) : Tickers where
  base := .start tickMs wheelSize startMs

/-- A ticker is between its first `poll` and the end of `advanceClock`. -/
def advancing (s : Tickers) (ticker : ℕ) : Bool :=
  s.polled.any (·.1 = ticker) || s.writer.any (·.1 = ticker)

/-- The element is no longer in the queue. -/
def dequeue (s : Tickers) (q : DelayQueueEntry) : Tickers :=
  { s with base.timer.delayQueue := s.base.timer.delayQueue.erase q }

/-- A ticker that has the lock advances the wheels, and begins to flush. -/
def advance (s : Tickers) (ticker : ℕ) (q : DelayQueueEntry) : Option Tickers :=
  (s.base.timer.bucket q.bucket).map fun l =>
    { s with
      base.timer.wheels := Timer.advanceWheels l.expiration s.base.timer.wheels
      base.flushing := some q.bucket
      writer := some (ticker, q) }

/-- An action at the time of the last reading of the clock. -/
def perform (fuel : ℕ) (s : Tickers) : TickersAction → Option Tickers
  | .add expiration overflow =>
    if s.writer = none then
      (Ticker.perform fuel s.base (.add expiration overflow)).toOption.map ({ s with base := · })
    else none
  | .poll ticker choice =>
    if s.advancing ticker then none
    else
      match s.base.timer.top { now := s.base.now, choice } with
      | none => some s
      | some q => some { s.dequeue q with polled := (ticker, q) :: s.polled }
  | .lock ticker =>
    if s.writer = none then
      (s.polled.find? (·.1 = ticker)).bind fun p =>
        { s with polled := s.polled.erase p }.advance ticker p.2
    else none
  | .refile overflow =>
    (Ticker.perform fuel s.base (.refile overflow)).toOption.map ({ s with base := · })
  | .finish => (Ticker.perform fuel s.base .finish).toOption.map ({ s with base := · })
  | .pollAgain choice =>
    match s.writer, s.base.flushing with
    | some (ticker, _), none =>
      match s.base.timer.top { now := s.base.now, choice } with
      | none => some { s with writer := none }
      | some q => (s.dequeue q).advance ticker q
    | _, _ => none

/-- An action at a time that is not before the last reading of the clock. -/
def next (fuel : ℕ) (s : Tickers) (a : TimeEntry × TickersAction) : Option Tickers :=
  if s.base.now ≤ a.1 then perform fuel { s with base.now := a.1 } a.2 else none

/-- The machine of a timer with the given tick and wheel size. -/
def machine (tickMs : TimeEntry) (wheelSize : ℕ) : Machine Tickers (TimeEntry × TickersAction) where
  init s := ∃ startMs, 0 ≤ startMs ∧ s = start tickMs wheelSize startMs
  step s a s' := ∃ fuel, s.next fuel a = some s'

/-- The filing that an action does, as one of a single ticker. -/
def filing : TickersAction → TickerAction
  | .add expiration overflow => .add expiration overflow
  | .refile overflow => .refile overflow
  | .poll _ choice => .poll choice
  | .pollAgain choice => .poll choice
  | .lock _ => .finish
  | .finish => .finish

/-- The element whose bucket is being flushed. -/
def flushed (s : Tickers) : List DelayQueueEntry :=
  if s.base.flushing.isSome then (s.writer.map (·.2)).toList else []

/-- The elements whose buckets have not been flushed yet. -/
def waiting (s : Tickers) : List DelayQueueEntry :=
  s.flushed ++ s.polled.map (·.2) ++ s.base.timer.delayQueue

/-- The bucket of an element has the expiration of the element's tick. -/
def Stamped (ws : List TimingWheel) (q : DelayQueueEntry) : Prop :=
  ∃ w l, BucketAt ws q.bucket w l ∧ l.expiration = roundDown w.tickMs q.expiration

/-- What the tickers rely on: the buckets that wait to be flushed have the expirations of their
elements, the first wheel is not ahead of the clock, and no task has fired early. -/
structure Orderly (tickMs : TimeEntry) (s : Tickers) : Prop where
  stamped : ∀ q ∈ s.waiting, Stamped s.base.timer.wheels q
  behind : ∀ w ∈ s.base.timer.wheels.head?, w.currentTime ≤ s.base.now
  inTime : s.base.InTime tickMs

/-- The bucket in which a task is filed has the expiration of the task's tick already, or it
does not wait to be flushed. -/
def Fresh (s : Tickers) (x : TimeEntry) : Prop :=
  ∀ b ∈ place x s.base.timer.wheels 0, ∀ w ∈ s.base.timer.wheels[b.level]?,
    ∀ l ∈ w.buckets[b.index]?,
      l.expiration ≠ w.tickMs * TimeEntry.div x w.tickMs → b ∉ s.waiting.map (·.bucket)

/-- The condition on a step: a task is not filed for another tick in a bucket that waits to be
flushed, and the overflow branch of the first wheel yields true if it is taken. -/
def FilesFresh (s : Tickers) (a : TimeEntry × TickersAction) : Prop :=
  (∀ x ∈ s.base.filedExpiration (filing a.2), s.Fresh x) ∧
    s.base.OverflowYieldsTrue (a.1, filing a.2)

variable {ws : List TimingWheel} {b : BucketId} {w : TimingWheel} {l : TimerTaskList}
  {q : DelayQueueEntry}

/-- Elements keep their stamps when overflow wheels are added. -/
theorem Stamped.of_grows (h : Stamped ws q) {ws' : List TimingWheel} (hgrows : Grows ws ws') :
    Stamped ws' q := by
  obtain ⟨w, l, hbucket, hexp⟩ := h
  exact ⟨w, l, hbucket.of_grows hgrows, hexp⟩

/-- The stamp of an element does not depend on the other buckets. -/
theorem Stamped.set (h : Stamped ws q) (hbucket : BucketAt ws b w l) (hne : q.bucket ≠ b)
    (l₁ : TimerTaskList) : Stamped (setBucket ws b w l₁) q := by
  obtain ⟨w', l', hbucket', hexp⟩ := h
  obtain ⟨buckets, hset⟩ := hbucket.set_of_ne hbucket' hne l₁
  exact ⟨_, l', hset, hexp⟩

/-- The stamp of an element does not depend on the time of the wheels. -/
theorem Stamped.advanced (h : Stamped ws q) (timeMs : TimeEntry) :
    Stamped (ws.map (·.advanced timeMs)) q := by
  obtain ⟨w, l, hbucket, hexp⟩ := h
  exact ⟨_, l, hbucket.advanced timeMs, hexp⟩

/-- The expiration of the bucket of a stamped element. -/
theorem Stamped.expiration_eq (h : Stamped ws q) (hbucket : BucketAt ws q.bucket w l) :
    l.expiration = roundDown w.tickMs q.expiration := by
  obtain ⟨w', l', hbucket', hexp⟩ := h
  obtain ⟨rfl, rfl⟩ := hbucket.unique hbucket'
  exact hexp

/-- `poll` returns an element that has expired. -/
theorem top_spec {t : Timer} {r : Reading} (h : t.top r = some q) :
    q ∈ t.delayQueue ∧ q.expiration ≤ r.now := by
  rw [Timer.top] at h
  split at h
  · cases h
  · next first hfirst =>
    split at h
    · cases h
    · next hdelay =>
      obtain rfl := Option.some.inj h
      refine ⟨(List.mem_filter.mp (List.mem_of_getElem? hfirst)).1, ?_⟩
      by_contra hlater
      have hlater' : r.now < first.expiration := not_le.mp hlater
      refine hdelay ?_
      rw [TimeEntry.sub, if_neg (not_lt.mpr (sub_nonneg.mpr hlater'.le))]
      exact sub_pos.mpr hlater'

/-- What the threads know while all filings are fresh. -/
structure Inv (tickMs : TimeEntry) (s : Tickers) : Prop where
  geared : Geared s.base.timer.wheels
  first : ∃ w, s.base.timer.wheels[0]? = some w ∧ w.tickMs = tickMs ∧ w.currentTime ≤ s.base.now
  tasks : ∀ id e, s.base.timer.entries id = some e → e.taskEntry = id
  flushing : ∀ b ∈ s.base.flushing, ∃ p ∈ s.writer, p.2.bucket = b
  nodup : (s.waiting.map (·.bucket)).Nodup
  nonneg : ∀ q ∈ s.waiting, 0 ≤ q.expiration
  due : ∀ p ∈ s.polled, p.2.expiration ≤ s.base.now
  stamped : ∀ q ∈ s.waiting, Stamped s.base.timer.wheels q

variable {tickMs : TimeEntry} {s s' : Tickers}

/-- The links, the heap and the record do not matter, but for the names of the tasks. -/
theorem Inv.congr (h : s.Inv tickMs) {base : Ticker}
    (hwheels : base.timer.wheels = s.base.timer.wheels)
    (hqueue : base.timer.delayQueue = s.base.timer.delayQueue)
    (hflushing : base.flushing = s.base.flushing) (hnow : s.base.now ≤ base.now)
    (htasks : ∀ id e, base.timer.entries id = some e → e.taskEntry = id) :
    Inv tickMs { s with base } := by
  have hwaiting : { s with base }.waiting = s.waiting := by
    simp only [waiting, flushed, hqueue, hflushing]
  obtain ⟨w, hw, htick, hcurrent⟩ := h.first
  refine ⟨?_, ⟨w, ?_, htick, hcurrent.trans hnow⟩, htasks, ?_, ?_, ?_,
    fun p hp => (h.due p hp).trans hnow, ?_⟩
  · exact hwheels ▸ h.geared
  · exact hwheels ▸ hw
  · exact hflushing ▸ h.flushing
  · exact hwaiting ▸ h.nodup
  · exact hwaiting ▸ h.nonneg
  · rw [hwaiting]
    exact hwheels ▸ h.stamped

/-- Nothing is being flushed while no ticker has the lock. -/
theorem Inv.not_flushing (h : s.Inv tickMs) (hwriter : s.writer = none) :
    s.base.flushing = none := by
  refine Option.eq_none_iff_forall_not_mem.mpr fun b hb => ?_
  obtain ⟨p, hp, -⟩ := h.flushing b hb
  rw [hwriter] at hp
  cases hp

/-- When nothing is being flushed, the elements are those that wait for the lock and those in
the queue. -/
theorem waiting_of_not_flushing (h : s.base.flushing = none) :
    s.waiting = s.polled.map (·.2) ++ s.base.timer.delayQueue := by
  rw [waiting, flushed, h]
  rfl

/-- A ticker advances the wheels to the expiration of the bucket of an element that is due. -/
theorem Inv.advance (h : s.Inv tickMs) {polled : List (ℕ × DelayQueueEntry)}
    {queue : List DelayQueueEntry} {writer : Option (ℕ × DelayQueueEntry)} {ticker : ℕ}
    (hperm : (q :: (polled.map (·.2) ++ queue)).Perm s.waiting)
    (hpolled : ∀ p ∈ polled, p ∈ s.polled) (hdue : q.expiration ≤ s.base.now)
    (hadvance : Tickers.advance ⟨{ s.base with timer.delayQueue := queue }, polled, writer⟩ ticker q =
      some s') : s'.Inv tickMs ∧ s'.base.handedOver = s.base.handedOver := by
  obtain ⟨l, hbucket, rfl⟩ := Option.map_eq_some_iff.mp hadvance
  have hq : q ∈ s.waiting := hperm.subset List.mem_cons_self
  obtain ⟨w, hbucketAt⟩ := Timer.bucketAt_of_bucket hbucket
  dsimp only at hbucketAt ⊢
  have hsound := h.geared.sound w (List.mem_of_getElem? hbucketAt.1)
  have hexp := (h.stamped q hq).expiration_eq hbucketAt
  have hnonneg : 0 ≤ l.expiration := by
    rw [hexp]
    exact mul_nonneg hsound.tick_pos.le (Int.ediv_nonneg (h.nonneg q hq) hsound.tick_pos.le)
  have hnow : l.expiration ≤ s.base.now := by
    rw [hexp]
    exact (roundDown_le hsound.tick_pos _).trans hdue
  obtain ⟨w₀, hw₀, htick, hcurrent⟩ := h.first
  have hsound₀ := h.geared.sound w₀ (List.mem_of_getElem? hw₀)
  rw [advanceWheels_eq h.geared hnonneg]
  refine ⟨?_, rfl⟩
  constructor
  · exact h.geared.advance _
  · refine ⟨w₀.advanced l.expiration, ?_, htick, ?_⟩
    · show (s.base.timer.wheels.map _)[0]? = _
      rw [List.getElem?_map, hw₀]
      rfl
    · exact max_le hcurrent ((roundDown_le hsound₀.tick_pos _).trans hnow)
  · exact h.tasks
  · rintro b hb
    exact ⟨(ticker, q), rfl, Option.some.inj hb⟩
  · exact (hperm.map _).nodup_iff.mpr h.nodup
  · exact fun q' hq' => h.nonneg q' (hperm.subset hq')
  · exact fun p hp => h.due p (hpolled p hp)
  · exact fun q' hq' => (h.stamped q' (hperm.subset hq')).advanced _

/-- An element that has been taken from the queue is still one of the elements. -/
theorem perm_dequeue {queue : List DelayQueueEntry} (hq : q ∈ queue)
    (others : List DelayQueueEntry) : (q :: (others ++ queue.erase q)).Perm (others ++ queue) :=
  List.perm_middle.symm.trans ((List.perm_cons_erase hq).symm.append_left _)

/-- The first `poll` of a ticker only moves an element. -/
theorem Inv.poll (h : s.Inv tickMs) {fuel ticker choice : ℕ}
    (hpoll : perform fuel s (.poll ticker choice) = some s') :
    s'.Inv tickMs ∧ s'.base.handedOver = s.base.handedOver := by
  rw [perform] at hpoll
  split at hpoll
  · cases hpoll
  · split at hpoll
    · cases hpoll
      exact ⟨h, rfl⟩
    · next q htop =>
      cases hpoll
      obtain ⟨hq, hdue⟩ := top_spec htop
      refine ⟨?_, rfl⟩
      have hperm : (s.flushed ++ (q :: s.polled.map (·.2)) ++ s.base.timer.delayQueue.erase q).Perm
          s.waiting := by
        rw [List.append_assoc, waiting, List.append_assoc]
        exact (perm_dequeue hq _).append_left _
      have hfirst := h.first
      exact {
        geared := h.geared
        first := hfirst
        tasks := h.tasks
        flushing := h.flushing
        nodup := (hperm.map _).nodup_iff.mpr h.nodup
        nonneg := fun q' hq' => h.nonneg q' (hperm.subset hq')
        due := List.forall_mem_cons.mpr ⟨hdue, h.due⟩
        stamped := fun q' hq' => h.stamped q' (hperm.subset hq') }

/-- A ticker that gets the lock. -/
theorem Inv.lock (h : s.Inv tickMs) {fuel ticker : ℕ}
    (hlock : perform fuel s (.lock ticker) = some s') :
    s'.Inv tickMs ∧ s'.base.handedOver = s.base.handedOver := by
  rw [perform] at hlock
  split at hlock
  · next hwriter =>
    obtain ⟨p, hp, hadvance⟩ := Option.bind_eq_some_iff.mp hlock
    have hmem : p ∈ s.polled := List.mem_of_find?_eq_some hp
    have hperm : (p.2 :: ((s.polled.erase p).map (·.2) ++ s.base.timer.delayQueue)).Perm
        s.waiting := by
      rw [waiting_of_not_flushing (h.not_flushing hwriter), ← List.cons_append]
      exact ((List.perm_cons_erase hmem).symm.map (·.2)).append_right _
    exact h.advance hperm (fun _ => List.mem_of_mem_erase) (h.due p hmem) hadvance
  · cases hlock

/-- The `poll` at the end of the loop. -/
theorem Inv.pollAgain (h : s.Inv tickMs) {fuel choice : ℕ}
    (hpoll : perform fuel s (.pollAgain choice) = some s') :
    s'.Inv tickMs ∧ s'.base.handedOver = s.base.handedOver := by
  rw [perform] at hpoll
  split at hpoll
  · next ticker _ hwriter hflushing =>
    have hwaiting := waiting_of_not_flushing hflushing
    split at hpoll
    · cases hpoll
      have hwaiting' : { s with writer := none }.waiting = s.waiting := by
        rw [hwaiting]
        exact waiting_of_not_flushing hflushing
      refine ⟨{ h with flushing := ?_, nodup := hwaiting' ▸ h.nodup
                       nonneg := hwaiting' ▸ h.nonneg, stamped := hwaiting' ▸ h.stamped }, rfl⟩
      rw [hflushing]
      nofun
    · next q htop =>
      obtain ⟨hq, hdue⟩ := top_spec htop
      have hperm : (q :: (s.polled.map (·.2) ++ s.base.timer.delayQueue.erase q)).Perm
          s.waiting := by
        rw [hwaiting]
        exact perm_dequeue hq _
      exact h.advance hperm (fun _ hp => hp) hdue hpoll
  · cases hpoll

variable {id : EntryId} {e : TimerTaskEntry}

/-- The elements after a task has been filed. -/
theorem waiting_filed (f : s.base.timer.Filing 0 id e b) :
    { s with base.timer := f.result }.waiting.Perm
      (if f.slot ≠ f.bucket.expiration then ⟨e.expiration, b⟩ :: s.waiting else s.waiting) := by
  have hwaiting : { s with base.timer := f.result }.waiting =
      s.flushed ++ s.polled.map (·.2) ++ f.delayQueue' := rfl
  rw [hwaiting, Timer.Filing.delayQueue']
  split
  · exact List.perm_middle
  · exact .refl _

/-- A bucket whose expiration changes does not wait to be flushed. -/
theorem Inv.not_waiting (h : s.Inv tickMs) (f : s.base.timer.Filing 0 id e b)
    (hfresh : s.Fresh e.expiration) (hchanged : f.slot ≠ f.bucket.expiration) :
    b ∉ s.waiting.map (·.bucket) := by
  rcases f.placed_or_unset with ⟨hplaced, hw, hl⟩ | hunset
  · exact hfresh b hplaced f.wheel hw f.bucket hl (Ne.symm hchanged)
  · intro hmem
    obtain ⟨q, hq, rfl⟩ := List.mem_map.mp hmem
    have hsound := f.sound h.geared
    have hexp := ((h.stamped q hq).of_grows f.grows).expiration_eq f.bucketAt
    have hnonneg : 0 ≤ f.bucket.expiration := by
      rw [hexp]
      exact mul_nonneg hsound.tick_pos.le (Int.ediv_nonneg (h.nonneg q hq) hsound.tick_pos.le)
    rw [hunset] at hnonneg
    exact absurd hnonneg (by decide)

/-- A fresh filing keeps the invariant. -/
theorem Inv.filed (h : s.Inv tickMs) (hentry : s.base.timer.entries id = some e)
    (f : s.base.timer.Filing 0 id e b) (hfresh : s.Fresh e.expiration) :
    Inv tickMs { s with base.timer := f.result } where
  geared := f.geared h.geared
  first := by
    obtain ⟨w, hw, htick, hcurrent⟩ := h.first
    obtain ⟨buckets, hw'⟩ := f.first_wheel hw
    exact ⟨_, hw', htick, hcurrent⟩
  tasks := by
    intro id' e' hentry'
    by_cases hid : id' = id
    · subst hid
      obtain rfl : { e with list := some b } = e' := by
        simpa [Timer.Filing.result] using hentry'
      exact h.tasks id' e hentry
    · exact h.tasks id' e' (by simpa [Timer.Filing.result, hid] using hentry')
  flushing := h.flushing
  nodup := by
    rw [((waiting_filed f).map _).nodup_iff]
    split
    · next hchanged =>
      exact List.nodup_cons.mpr ⟨h.not_waiting f hfresh hchanged, h.nodup⟩
    · exact h.nodup
  nonneg := by
    intro q hq
    have hmem := (waiting_filed f).subset hq
    split at hmem
    · rcases List.mem_cons.mp hmem with rfl | hmem
      · exact f.expiration_nonneg h.geared
      · exact h.nonneg q hmem
    · exact h.nonneg q hmem
  due := h.due
  stamped := by
    intro q hq
    have hmem := (waiting_filed f).subset hq
    have hstays : ∀ q ∈ s.waiting, q.bucket ≠ b → Stamped f.wheels' q := fun q hq hne =>
      ((h.stamped q hq).of_grows f.grows).set f.bucketAt hne _
    split at hmem
    · next hchanged =>
      rcases List.mem_cons.mp hmem with rfl | hmem
      · exact ⟨_, _, f.bucketAt.set_self _, f.slot_eq h.geared⟩
      · exact hstays q hmem fun hb =>
          h.not_waiting f hfresh hchanged (hb ▸ List.mem_map_of_mem hmem)
    · next hsame =>
      by_cases hb : q.bucket = b
      · subst hb
        have hexp := ((h.stamped q hmem).of_grows f.grows).expiration_eq f.bucketAt
        exact ⟨_, _, f.bucketAt.set_self _, (not_not.mp hsame).trans hexp⟩
      · exact hstays q hmem hb

/-- A filing that is not fresh spoils the stamp of an element. -/
theorem Inv.spoiled (h : s.Inv tickMs) (f : s.base.timer.Filing 0 id e b)
    (hstale : ¬ s.Fresh e.expiration) :
    ∃ q ∈ { s with base.timer := f.result }.waiting, ¬ Stamped f.wheels' q := by
  simp only [Fresh, not_forall, not_not] at hstale
  obtain ⟨b', hplaced, w, hw, l, hl, hchanged, hmem⟩ := hstale
  obtain rfl := f.placed_eq hplaced
  obtain ⟨rfl, rfl⟩ := f.bucketAt.unique (BucketAt.of_grows ⟨hw, hl⟩ f.grows)
  obtain ⟨q, hq, hb⟩ := List.mem_map.mp hmem
  subst hb
  refine ⟨q, (waiting_filed f).symm.subset ?_, fun hstamped => hchanged ?_⟩
  · split
    · exact List.mem_cons_of_mem _ hq
    · exact hq
  · have hbefore := ((h.stamped q hq).of_grows f.grows).expiration_eq f.bucketAt
    have hafter := hstamped.expiration_eq (f.bucketAt.set_self _)
    exact hbefore.trans hafter.symm

/-- A task that is handed over does not matter any more. -/
theorem Inv.handOver (h : s.Inv tickMs) (id : EntryId) (handedOver : List HandOver) :
    Inv tickMs { s with base := { s.base with timer := s.base.timer.handOver id, handedOver } } := by
  refine h.congr rfl rfl rfl le_rfl fun id' e' hentry' => ?_
  by_cases hid : id' = id
  · subst hid
    simp [Timer.handOver, Timer.setEntry] at hentry'
  · exact h.tasks id' e' (by simpa [Timer.handOver, Timer.setEntry, hid] using hentry')

/-- Filing a task keeps the invariant exactly if it is fresh, and then no task fires early exactly
if the overflow branch of the first wheel yields true in case that it is taken. -/
theorem Inv.file (h : s.Inv tickMs) {base : Ticker} {fuel : ℕ} {overflow : Bool}
    (hfile : Ticker.file fuel overflow id s.base = .ok base) :
    ∃ e, s.base.timer.entries id = some e ∧
      (s.Fresh e.expiration → Inv tickMs { s with base } ∧ (s.base.InTime tickMs →
        (base.InTime tickMs ↔ ∀ w ∈ s.base.timer.wheels.head?,
          w.currentTime + w.interval ≤ e.expiration → overflow = true))) ∧
      (¬ s.Fresh e.expiration → ¬ Orderly tickMs { s with base }) := by
  obtain ⟨w, hw, htick, hcurrent⟩ := h.first
  have hsound := h.geared.sound w (List.mem_of_getElem? hw)
  have hhead : ∀ w' ∈ s.base.timer.wheels.head?, w' = w := fun w' hw' =>
    Option.some.inj (hw'.symm.trans ((List.head?_eq_getElem? ..).trans hw))
  obtain ⟨e, hentry, ⟨hdue, rfl⟩ | ⟨hlate, b, f, hkept | hparked⟩⟩ :=
    Ticker.file_ok h.geared h.tasks hw hfile
  · refine ⟨e, hentry, fun _ => ⟨h.handOver id _, fun hin => ?_⟩, fun hstale => ?_⟩
    · rw [Ticker.inTime_append hin rfl]
      refine iff_of_true ⟨?_, rfl⟩ fun w' hw' hbeyond => ?_
      · show e.expiration < s.base.now + tickMs
        linarith
      · rw [hhead w' hw'] at hbeyond
        linarith [hsound.tick_le_interval]
    · refine absurd (fun b hb => ?_) hstale
      rw [place_due hw hdue] at hb
      cases hb
  · obtain ⟨hstays, rfl⟩ := hkept
    refine ⟨e, hentry, fun hfresh => ⟨h.filed hentry f hfresh, fun hin => ?_⟩,
      fun hstale horderly => ?_⟩
    · refine iff_of_true hin fun w' hw' hbeyond => ?_
      rw [hhead w' hw', ← not_lt, ← f.level_eq_zero_iff hw hlate] at hbeyond
      exact hstays.resolve_left hbeyond
    · obtain ⟨q, hq, hspoiled⟩ := h.spoiled f hstale
      exact hspoiled (horderly.stamped q hq)
  · obtain ⟨hlevel, hfalse, rfl⟩ := hparked
    refine ⟨e, hentry, fun hfresh => ⟨(h.filed hentry f hfresh).handOver id _, fun hin => ?_⟩,
      fun hstale horderly => ?_⟩
    · rw [Ticker.inTime_append hin rfl]
      refine iff_of_false (fun hall => by cases hall.2) fun hall => ?_
      have hbeyond : w.currentTime + w.interval ≤ e.expiration := by
        rwa [← not_lt, ← f.level_eq_zero_iff hw hlate]
      have htrue := hall w ((List.head?_eq_getElem? ..).trans hw) hbeyond
      rw [hfalse] at htrue
      cases htrue
    · obtain ⟨q, hq, hspoiled⟩ := h.spoiled f hstale
      exact hspoiled (horderly.stamped q hq)

/-- The end of `flush` takes away the expiration of its bucket, which no other element needs. -/
theorem Inv.finish (h : s.Inv tickMs) {fuel : ℕ} {base : Ticker}
    (hfinish : Ticker.perform fuel s.base .finish = .ok base) :
    Inv tickMs { s with base } ∧ base.handedOver = s.base.handedOver := by
  obtain ⟨b, hflushing, hfinish⟩ := Ticker.perform_finish hfinish
  obtain ⟨l, hbucket, -, rfl⟩ := Ticker.finish_ok hfinish
  refine ⟨?_, rfl⟩
  obtain ⟨w, hbucketAt⟩ := Timer.bucketAt_of_bucket hbucket
  obtain ⟨p, hp, hpb⟩ := h.flushing b hflushing
  have hflushed : s.flushed = [p.2] := by
    rw [flushed, hflushing, hp]
    rfl
  have hbefore : s.waiting = p.2 :: (s.polled.map (·.2) ++ s.base.timer.delayQueue) := by
    rw [waiting, hflushed]
    rfl
  have hnodup := h.nodup
  rw [hbefore, List.map_cons, hpb, List.nodup_cons] at hnodup
  rw [Timer.setExpiration_eq hbucketAt.1 hbucket]
  have hsub : ∀ q ∈ s.polled.map (·.2) ++ s.base.timer.delayQueue, q ∈ s.waiting := by
    intro q hq
    rw [hbefore]
    exact List.mem_cons_of_mem _ hq
  exact {
    geared := h.geared.setBucket hbucketAt _
    first := by
      obtain ⟨w₀, hw₀, htick, hcurrent⟩ := h.first
      obtain ⟨buckets, hset⟩ := hbucketAt.getElem?_setBucket hw₀ { l with expiration := .unset }
      exact ⟨_, hset, htick, hcurrent⟩
    tasks := h.tasks
    flushing := nofun
    nodup := hnodup.2
    nonneg := fun q hq => h.nonneg q (hsub q hq)
    due := h.due
    stamped := fun q hq => (h.stamped q (hsub q hq)).set hbucketAt
      (fun hb => hnodup.1 (hb ▸ List.mem_map_of_mem hq)) _ }

/-- What holds while all filings are fresh. -/
theorem Inv.orderly (h : s.Inv tickMs) (hin : s.base.InTime tickMs) : s.Orderly tickMs := by
  refine ⟨h.stamped, fun w hw => ?_, hin⟩
  obtain ⟨w', hw', -, hcurrent⟩ := h.first
  rw [List.head?_eq_getElem?] at hw
  exact Option.some.inj (hw.symm.trans hw') ▸ hcurrent

/-- An action that files a task keeps the invariant and order exactly if the condition is met. -/
theorem Inv.files {s₁ : Tickers} (h : s₁.Inv tickMs) (hin : s₁.base.InTime tickMs) {fuel : ℕ}
    {overflow : Bool} {base : Ticker} {action : TickersAction} (now : TimeEntry)
    (hfile : Ticker.file fuel overflow id s₁.base = .ok base)
    (hentry : s₁.base.timer.entries id = some e)
    (hwheels : s₁.base.timer.wheels = s.base.timer.wheels) (hwaiting : s₁.waiting = s.waiting)
    (hfiled : s.base.filedExpiration (filing action) = some e.expiration)
    (hoverflow : Ticker.overflowValue (filing action) = overflow) :
    (s.FilesFresh (now, action) → Inv tickMs { s₁ with base } ∧ base.InTime tickMs) ∧
      (¬ s.FilesFresh (now, action) → ¬ Orderly tickMs { s₁ with base }) := by
  obtain ⟨e', hentry', hkeeps, hspoils⟩ := h.file hfile
  obtain rfl := Option.some.inj (hentry.symm.trans hentry')
  have hfresh : s.Fresh e.expiration ↔ s₁.Fresh e.expiration := by
    rw [Fresh, Fresh, hwheels, hwaiting]
  have hcond : s.FilesFresh (now, action) ↔ s₁.Fresh e.expiration ∧
      ∀ w ∈ s₁.base.timer.wheels.head?,
        w.currentTime + w.interval ≤ e.expiration → overflow = true := by
    rw [FilesFresh, Ticker.OverflowYieldsTrue, hfiled, hoverflow, ← hfresh, hwheels]
    simp
  rw [hcond]
  refine ⟨fun hall => ?_, fun hnot horderly => hnot ?_⟩
  · obtain ⟨hinv, hiff⟩ := hkeeps hall.1
    exact ⟨hinv, (hiff hin).mpr hall.2⟩
  · have hfresh₁ : s₁.Fresh e.expiration := by
      by_contra hstale
      exact hspoils hstale horderly
    obtain ⟨-, hiff⟩ := hkeeps hfresh₁
    exact ⟨hfresh₁, (hiff hin).mp horderly.inTime⟩

/-- An operation that returns. -/
theorem ok_of_toOption {base : Ticker} {result : Except Stuck Ticker}
    (h : result.toOption = some base) : result = .ok base := by
  cases result with
  | error stuck => cases h
  | ok t => exact congrArg Except.ok (Option.some.inj h)

/-- An action that files nothing meets the condition. -/
theorem filesFresh_of_filedExpiration {a : TimeEntry × TickersAction}
    (h : s.base.filedExpiration (filing a.2) = none) : s.FilesFresh a := by
  simp [FilesFresh, Ticker.OverflowYieldsTrue, h]

/-- An action keeps the invariant and order exactly if the condition is met. -/
theorem Inv.perform (h : s.Inv tickMs) (hin : s.base.InTime tickMs) {fuel : ℕ}
    {action : TickersAction} (hperform : perform fuel s action = some s') (now : TimeEntry) :
    (s.FilesFresh (now, action) → s'.Inv tickMs ∧ s'.base.InTime tickMs) ∧
      (¬ s.FilesFresh (now, action) → ¬ s'.Orderly tickMs) := by
  have hquiet : s.base.filedExpiration (filing action) = none → s'.Inv tickMs →
      s'.base.handedOver = s.base.handedOver →
      (s.FilesFresh (now, action) → s'.Inv tickMs ∧ s'.base.InTime tickMs) ∧
        (¬ s.FilesFresh (now, action) → ¬ s'.Orderly tickMs) := by
    intro hfiled hinv hsame
    refine ⟨fun _ => ⟨hinv, ?_⟩, fun hnot => absurd (filesFresh_of_filedExpiration hfiled) hnot⟩
    rw [Ticker.InTime, hsame]
    exact hin
  cases action with
  | add x overflow =>
    rw [Tickers.perform] at hperform
    split at hperform
    · obtain ⟨base, hbase, rfl⟩ := Option.map_eq_some_iff.mp hperform
      obtain ⟨-, hfile⟩ := Ticker.perform_add (ok_of_toOption hbase)
      have hnew : Inv tickMs { s with base.timer := s.base.timer.withEntry x } := by
        refine h.congr rfl rfl rfl le_rfl fun id e hentry => ?_
        by_cases hid : id = s.base.timer.created
        · subst hid
          rw [s.base.timer.withEntry_entries x] at hentry
          exact (Option.some.inj hentry) ▸ rfl
        · exact h.tasks id e (by simpa [Timer.withEntry, Timer.setEntry, hid] using hentry)
      exact hnew.files hin now hfile (s.base.timer.withEntry_entries x) rfl rfl rfl rfl
    · cases hperform
  | poll ticker choice =>
    obtain ⟨hinv, hsame⟩ := h.poll hperform
    exact hquiet rfl hinv hsame
  | lock ticker =>
    obtain ⟨hinv, hsame⟩ := h.lock hperform
    exact hquiet rfl hinv hsame
  | refile overflow =>
    obtain ⟨base, hbase, rfl⟩ := Option.map_eq_some_iff.mp hperform
    obtain ⟨b, hflushing, hrefile⟩ := Ticker.perform_refile (ok_of_toOption hbase)
    obtain ⟨l, head, rest, t, e, list, hbucket, hring, hentry, hrelinked, -, hfile⟩ :=
      Ticker.refile_ok hrefile
    have hfiled : s.base.filedExpiration (filing (.refile overflow)) = some e.expiration := by
      simp [filing, Ticker.filedExpiration, hflushing, hbucket, hring, hentry]
    obtain ⟨rings, rfl, -⟩ := hrelinked
    have hlinked : Inv tickMs { s with base.timer := { s.base.timer with
        rings, entries := Function.update s.base.timer.entries head (some { e with list }) } } := by
      refine h.congr rfl rfl rfl le_rfl fun id' e' hentry' => ?_
      by_cases hid : id' = head
      · subst hid
        obtain rfl : { e with list } = e' := by
          simpa using hentry'
        exact h.tasks id' e hentry
      · exact h.tasks id' e' (by simpa [hid] using hentry')
    exact hlinked.files hin now hfile (Function.update_self ..) rfl rfl hfiled rfl
  | finish =>
    obtain ⟨base, hbase, rfl⟩ := Option.map_eq_some_iff.mp hperform
    obtain ⟨hinv, hsame⟩ := h.finish (ok_of_toOption hbase)
    exact hquiet rfl hinv hsame
  | pollAgain choice =>
    obtain ⟨hinv, hsame⟩ := h.pollAgain hperform
    exact hquiet rfl hinv hsame

/-- A step keeps the invariant and order exactly if the condition is met. -/
theorem Inv.step (h : s.Inv tickMs) (hin : s.base.InTime tickMs) {wheelSize : ℕ}
    {a : TimeEntry × TickersAction} (hstep : (machine tickMs wheelSize).step s a s') :
    (s.FilesFresh a → s'.Inv tickMs ∧ s'.base.InTime tickMs) ∧
      (¬ s.FilesFresh a → ¬ s'.Orderly tickMs) := by
  obtain ⟨fuel, hnext⟩ := hstep
  rw [next] at hnext
  split at hnext
  · next hnow =>
    have hlater : Inv tickMs { s with base.now := a.1 } := h.congr rfl rfl rfl hnow h.tasks
    exact hlater.perform hin hnext a.1
  · cases hnext

/-- A new timer is in order. -/
theorem Inv.init {wheelSize : ℕ} (htick : 0 < tickMs) (hsize : 0 < wheelSize)
    (h : (machine tickMs wheelSize).init s) : s.Inv tickMs ∧ s.base.InTime tickMs := by
  obtain ⟨startMs, hstart, rfl⟩ := h
  obtain ⟨hclocked, hin⟩ := Ticker.Clocked.init htick hsize ⟨startMs, hstart, rfl⟩
  exact ⟨{
    geared := hclocked.geared
    first := hclocked.first
    tasks := hclocked.tasks
    flushing := nofun
    nodup := List.nodup_nil
    nonneg := nofun
    due := nofun
    stamped := nofun }, hin⟩

/-- With any number of tickers, and threads whose calls of `add` do not overlap, the buckets that
wait to be flushed keep the expirations of their elements, the first wheel does not run ahead of
the clock and no task fires early in every state of a run, exactly when no task is filed for
another tick in a bucket that waits to be flushed, and the overflow branch yields true whenever
it is taken. -/
theorem orderly_iff_filesFresh {wheelSize : ℕ} (htick : 0 < tickMs) (hsize : 0 < wheelSize)
    {first last : Tickers} {trace : List (Tickers × TimeEntry × TickersAction)}
    (hinit : (machine tickMs wheelSize).init first)
    (hrun : (machine tickMs wheelSize).Run first trace last) :
    (∀ t ∈ Machine.visited trace last, t.Orderly tickMs) ↔ ∀ p ∈ trace, p.1.FilesFresh p.2 := by
  refine hrun.forall_visited_iff (C := FilesFresh)
    (I := fun s => s.Inv tickMs ∧ s.base.InTime tickMs) (fun s hs => hs.1.orderly hs.2) ?_ ?_
    (Inv.init htick hsize hinit)
  · rintro s a s' ⟨hs, hin⟩ hcond hstep
    exact (hs.step hin hstep).1 hcond
  · rintro s a s' ⟨hs, hin⟩ hcond hstep
    exact (hs.step hin hstep).2 hcond

instance (s : Tickers) (a : TimeEntry × TickersAction) : Decidable (s.FilesFresh a) := by
  unfold FilesFresh Fresh
  infer_instance

/-- A list of actions with a common bound on the steps is a run. -/
theorem run_of_foldlM {wheelSize fuel : ℕ} {actions : List (TimeEntry × TickersAction)}
    (h : actions.foldlM (next fuel) s = some s') :
    (machine tickMs wheelSize).Run s (Machine.traceOf (next fuel) s actions) s' := by
  have hrun : (Machine.ofNext (fun _ => True) (next fuel)).Run s
      (Machine.traceOf (next fuel) s actions) s' := .of_foldlM h
  refine hrun.mono ?_
  intro t a t' hstep
  exact ⟨fuel, hstep⟩

/-- Two tickers, of which the first polls a bucket. A task of the same tick is filed in it
before the ticker gets the lock. -/
def twoTickers : List (TimeEntry × TickersAction) :=
  [(100, .add 105 true), (100, .add 125 true), (126, .poll 0 0), (126, .poll 1 0),
    (126, .add 128 true), (127, .lock 0), (127, .refile true), (127, .refile true),
    (127, .finish), (127, .pollAgain 0)]

/-- The timer after these actions. -/
def afterTwoTickers : Tickers :=
  (twoTickers.foldlM (next 4) (start 10 4 100)).getD (start 10 4 100)

theorem orderly_iff_filesFresh_twoTickers :
    (∀ t ∈ Machine.visited (Machine.traceOf (next 4) (start 10 4 100) twoTickers) afterTwoTickers,
      t.Orderly 10) ∧
    afterTwoTickers.base.handedOver =
      [⟨0, 105, 100, false⟩, ⟨1, 125, 127, false⟩, ⟨2, 128, 127, false⟩] := by
  refine ⟨?_, by decide +kernel⟩
  have hsome : (twoTickers.foldlM (next 4) (start 10 4 100)).isSome = true := by decide +kernel
  have hrun : twoTickers.foldlM (next 4) (start 10 4 100) = some afterTwoTickers :=
    (Option.getD_of_ne_none (Option.isSome_iff_ne_none.mp hsome) _).symm
  exact (orderly_iff_filesFresh (by decide) (by decide) ⟨100, by decide, rfl⟩
    (run_of_foldlM hrun)).mpr (by decide +kernel)

/-- One ticker, which polls a bucket of the overflow wheel. Before it gets the lock, a task that
is due already is filed in the first wheel, and the flush files another one behind it. -/
def lateTask : List (TimeEntry × TickersAction) :=
  [(80, .add 125 true), (80, .add 150 true), (125, .poll 0 0), (125, .add 115 true),
    (125, .lock 0), (125, .refile true), (125, .refile true), (125, .finish),
    (125, .pollAgain 0), (125, .refile true), (125, .refile true)]

/-- Even with one ticker a task can fire more than a tick early. -/
theorem fires_early_before_lock : ∃ t, (machine 10 4).Reachable t ∧
    ⟨1, 150, 125, false⟩ ∈ t.base.handedOver ∧ ¬ t.Orderly 10 := by
  obtain ⟨t, hrun, hearly⟩ : ∃ t, lateTask.foldlM (next 5) (start 10 4 80) = some t ∧
      ⟨1, 150, 125, false⟩ ∈ t.base.handedOver := by
    have hany : ((lateTask.foldlM (next 5) (start 10 4 80)).any
        fun t => ⟨1, 150, 125, false⟩ ∈ t.base.handedOver) = true := by decide +kernel
    cases hrun : lateTask.foldlM (next 5) (start 10 4 80) with
    | none => rw [hrun] at hany; cases hany
    | some t => rw [hrun] at hany; exact ⟨t, rfl, of_decide_eq_true hany⟩
  refine ⟨t, ?_, hearly, fun horderly => ?_⟩
  · exact (run_of_foldlM hrun).reachableWhere (.of_init ⟨80, by decide, rfl⟩) fun _ _ => trivial
  · exact absurd (horderly.inTime _ hearly).1 (by decide)

end Tickers

end DuoDuo.Timers
