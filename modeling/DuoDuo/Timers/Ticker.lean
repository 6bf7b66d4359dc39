import DuoDuo.Timers.Filing

/-!
# A timer against the clock

The operations of a timer one task at a time: a task is added, a bucket whose
element has expired is polled, and the tasks of a polled bucket are filed again one
by one. Each step reads the clock, which does not go back. The tasks handed to the
thread pool are recorded with the time.
-/

namespace DuoDuo.Timers

open Library

/-- A difference is positive exactly if the first time is later. -/
theorem TimeEntry.sub_pos_iff {l r : TimeEntry} : TimeEntry.sub l r > 0 ↔ r < l := by
  rw [TimeEntry.sub]
  split
  · next hneg =>
    refine iff_of_false (by decide) ?_
    linarith
  · next hnonneg => exact sub_pos

/-- `poll` removes an element with the least expiration, if that is not after the reading
of the clock. -/
theorem Timer.poll_some {t t' : Timer} {r : Reading} {b : BucketId}
    (h : t.poll r = some (b, t')) : ∃ q ∈ t.delayQueue,
      (∀ q' ∈ t.delayQueue, q.expiration ≤ q'.expiration) ∧ q.expiration ≤ r.now ∧
      q.bucket = b ∧ t' = { t with delayQueue := t.delayQueue.erase q } := by
  rw [Timer.poll] at h
  split at h
  · cases h
  · next q hq =>
    split at h
    · cases h
    · next hdelay =>
      obtain ⟨rfl, rfl⟩ := Prod.mk.inj (Option.some.inj h)
      obtain ⟨hmem, hleast⟩ := List.mem_filter.mp (List.mem_of_getElem? hq)
      rw [List.all_eq_true] at hleast
      refine ⟨q, hmem, fun q' hq' => by simpa using hleast q' hq', ?_, rfl, rfl⟩
      rwa [TimeEntry.sub_pos_iff, not_lt] at hdelay

/-- `poll` removes the element at a later time as well. -/
theorem Timer.poll_later {t : Timer} {r : Reading} {p : BucketId × Timer} (h : t.poll r = some p)
    {now : TimeEntry} (hnow : r.now ≤ now) : t.poll { r with now } = some p := by
  rw [Timer.poll] at h ⊢
  dsimp only at h ⊢
  split at h
  · cases h
  · next q hq =>
    split at h
    · cases h
    · next hdelay =>
      rw [TimeEntry.sub_pos_iff, not_lt] at hdelay
      rw [if_neg (by rw [TimeEntry.sub_pos_iff, not_lt]; exact hdelay.trans hnow)]
      exact h

/-- A task handed to the thread pool. -/
structure HandOver where
  id : EntryId
  /-- The expiration of its entry. -/
  expiration : TimeEntry
  /-- The time at which it was handed over. -/
  now : TimeEntry
  /-- The same call of `addTimerTaskEntry` has taken the overflow branch of the first wheel. -/
  parked : Bool
  deriving DecidableEq

/-- A timer, with the progress of `advanceClock` and a record of the tasks handed over. -/
structure Ticker where
  timer : Timer
  /-- The bucket whose tasks are being filed again. -/
  flushing : Option BucketId := none
  /-- The last reading of the clock. -/
  now : TimeEntry
  handedOver : List HandOver := []

/-- What a timer does next. -/
inductive TickerAction
  /-- `Timer::add`. The overflow branch of the first wheel yields the given value. -/
  | add (expiration : TimeEntry) (overflow : Bool)
  /-- `poll`, and `advanceClock` of the wheels if it returns a bucket. -/
  | poll (choice : ℕ)
  /-- One iteration of the loop of `flush`. -/
  | refile (overflow : Bool)
  /-- The end of `flush`. -/
  | finish
  deriving DecidableEq

namespace Ticker

/-- A timer constructed at a time of day. -/
def start (tickMs : TimeEntry) (wheelSize : ℕ) (startMs : TimeEntry) : Ticker where
  timer := .new tickMs wheelSize startMs
  now := startMs

/-- The record after a call of `addTimerTaskEntry` for an entry with the given expiration. -/
def record (s : Ticker) (id : EntryId) (expiration : TimeEntry) (t : Timer) : List HandOver :=
  if t.threadPool.length = s.timer.threadPool.length then s.handedOver
  else s.handedOver ++
    [{ id, expiration, now := s.now, parked := t.overflows ≠ s.timer.overflows }]

/-- `Timer::addTimerTaskEntry`, with the value that the overflow branch yields. -/
def file (fuel : ℕ) (overflow : Bool) (id : EntryId) (s : Ticker) : Except Stuck Ticker := do
  let e ← s.timer.entry id
  let t ← s.timer.addTimerTaskEntry (fun _ => overflow) fuel id
  return { s with timer := t, handedOver := s.record id e.expiration t }

/-- `poll`, and the beginning of the body of the loop of `advanceClock`. -/
def poll (choice : ℕ) (s : Ticker) : Except Stuck Ticker :=
  match s.timer.poll { now := s.now, choice } with
  | none => return s
  | some (b, t) => do
    let l ← t.bucketAt b
    return { s with
      timer := { t with wheels := Timer.advanceWheels l.expiration t.wheels }
      flushing := some b }

/-- One iteration of the loop of `flush`, for the list of bucket `b`. -/
def refile (fuel : ℕ) (overflow : Bool) (b : BucketId) (s : Ticker) : Except Stuck Ticker := do
  let l ← s.timer.bucketAt b
  match s.timer.rings l.root with
  | [] => throw .running
  | head :: _ =>
    let t ← s.timer.removeFrom b head
    file fuel overflow head { s with timer := t }

/-- The end of `flush`, for the list of bucket `b`. -/
def finish (b : BucketId) (s : Ticker) : Except Stuck Ticker := do
  let l ← s.timer.bucketAt b
  match s.timer.rings l.root with
  | [] => return { s with timer := (s.timer.setExpiration b .unset).1, flushing := none }
  | _ :: _ => throw .running

/-- An action at the time of the last reading of the clock. -/
def perform (fuel : ℕ) (s : Ticker) : TickerAction → Except Stuck Ticker
  | .add expiration overflow =>
    match s.flushing with
    | none => file fuel overflow s.timer.created { s with timer := s.timer.withEntry expiration }
    | some _ => throw .running
  | .poll choice =>
    match s.flushing with
    | none => poll choice s
    | some _ => throw .running
  | .refile overflow =>
    match s.flushing with
    | none => throw .running
    | some b => refile fuel overflow b s
  | .finish =>
    match s.flushing with
    | none => throw .running
    | some b => finish b s

/-- An action at a time that is not before the last reading of the clock. -/
def next (fuel : ℕ) (s : Ticker) (a : TimeEntry × TickerAction) : Option Ticker :=
  if s.now ≤ a.1 then (perform fuel { s with now := a.1 } a.2).toOption else none

/-- The expiration of the entry that an action files. -/
def filedExpiration (s : Ticker) : TickerAction → Option TimeEntry
  | .add expiration _ => some expiration
  | .refile _ => do
    let b ← s.flushing
    let l ← s.timer.bucket b
    let head ← (s.timer.rings l.root).head?
    let e ← s.timer.entries head
    return e.expiration
  | .poll _ => none
  | .finish => none

/-- The machine of a timer with the given tick and wheel size. -/
def machine (tickMs : TimeEntry) (wheelSize : ℕ) : Machine Ticker (TimeEntry × TickerAction) where
  init s := ∃ startMs, 0 ≤ startMs ∧ s = start tickMs wheelSize startMs
  step s a s' := ∃ fuel, s.next fuel a = some s'

variable {fuel : ℕ} {s s' : Ticker} {b : BucketId}

/-- A step takes place at a time that is not before the last reading of the clock. -/
theorem next_ok {a : TimeEntry × TickerAction} (h : s.next fuel a = some s') :
    s.now ≤ a.1 ∧ perform fuel { s with now := a.1 } a.2 = .ok s' := by
  rw [next] at h
  split at h
  · next hnow =>
    refine ⟨hnow, ?_⟩
    cases hperform : perform fuel { s with now := a.1 } a.2 with
    | error stuck => rw [hperform] at h; cases h
    | ok t =>
      rw [hperform] at h
      exact congrArg _ (Option.some.inj h)
  · cases h

/-- A list of actions with a common bound on the steps is a run. -/
theorem run_of_foldlM {tickMs : TimeEntry} {wheelSize : ℕ}
    {actions : List (TimeEntry × TickerAction)} (h : actions.foldlM (next fuel) s = some s') :
    (machine tickMs wheelSize).Run s (Machine.traceOf (next fuel) s actions) s' := by
  have hrun : (Machine.ofNext (fun _ => True) (next fuel)).Run s
      (Machine.traceOf (next fuel) s actions) s' := .of_foldlM h
  refine hrun.mono ?_
  intro t a t' hstep
  exact ⟨fuel, hstep⟩

/-- Tasks are added between two calls of `flush`. -/
theorem perform_add {x : TimeEntry} {overflow : Bool}
    (h : perform fuel s (.add x overflow) = .ok s') : s.flushing = none ∧
      file fuel overflow s.timer.created { s with timer := s.timer.withEntry x } = .ok s' := by
  rw [perform] at h
  split at h
  · next hflushing => exact ⟨hflushing, h⟩
  · cases h

/-- Buckets are polled between two calls of `flush`. -/
theorem perform_poll {choice : ℕ} (h : perform fuel s (.poll choice) = .ok s') :
    s.flushing = none ∧ poll choice s = .ok s' := by
  rw [perform] at h
  split at h
  · next hflushing => exact ⟨hflushing, h⟩
  · cases h

/-- Entries are filed again during a call of `flush`. -/
theorem perform_refile {overflow : Bool} (h : perform fuel s (.refile overflow) = .ok s') :
    ∃ b, s.flushing = some b ∧ refile fuel overflow b s = .ok s' := by
  rw [perform] at h
  split at h
  · cases h
  · next b hflushing => exact ⟨b, hflushing, h⟩

/-- A call of `flush` ends. -/
theorem perform_finish (h : perform fuel s .finish = .ok s') :
    ∃ b, s.flushing = some b ∧ finish b s = .ok s' := by
  rw [perform] at h
  split at h
  · cases h
  · next b hflushing => exact ⟨b, hflushing, h⟩

/-- Filing an entry. It is handed over if it is due. Otherwise it is linked into a bucket,
and it stays there unless that is a bucket of an overflow wheel and the overflow branch
yields false. -/
theorem file_ok {overflow : Bool} {id : EntryId} {w : TimingWheel}
    (hgeared : Geared s.timer.wheels)
    (htasks : ∀ id e, s.timer.entries id = some e → e.taskEntry = id)
    (hwheel : s.timer.wheels[0]? = some w) (h : file fuel overflow id s = .ok s') :
    ∃ e, s.timer.entries id = some e ∧
      ((e.expiration < w.currentTime + w.tickMs ∧
          s' = { s with
            timer := s.timer.handOver id
            handedOver := s.handedOver ++ [⟨id, e.expiration, s.now, false⟩] }) ∨
        (w.currentTime + w.tickMs ≤ e.expiration ∧ ∃ b, ∃ f : s.timer.Filing 0 id e b,
          ((b.level = 0 ∨ overflow = true) ∧ s' = { s with timer := f.result }) ∨
          (b.level ≠ 0 ∧ overflow = false ∧ s' = { s with
            timer := f.result.handOver id
            handedOver := s.handedOver ++ [⟨id, e.expiration, s.now, true⟩] }))) := by
  rw [file] at h
  cases hentry : s.timer.entries id with
  | none => simp [Timer.entry, hentry, bind, Except.bind] at h
  | some e =>
    refine ⟨e, rfl, ?_⟩
    have hcancelled : e.cancelled id = false := by
      simp [TimerTaskEntry.cancelled, htasks id e hentry]
    simp only [Timer.entry_eq hentry, bind, Except.bind] at h
    cases hadd : s.timer.addTimerTaskEntry (fun _ => overflow) fuel id with
    | error stuck => rw [hadd] at h; cases h
    | ok t =>
      rw [hadd] at h
      obtain rfl := Except.ok.inj h
      rcases Timer.addTimerTaskEntry_ok hgeared hentry hcancelled hwheel hadd with
        ⟨hdue, rfl⟩ | ⟨hlate, b, f, -, rfl⟩
      · left
        refine ⟨hdue, ?_⟩
        simp [record, Timer.handOver, Timer.setEntry]
      · right
        refine ⟨hlate, b, f, ?_⟩
        by_cases hkept : b.level = 0 ∨ overflow = true
        · left
          refine ⟨hkept, ?_⟩
          rw [if_pos hkept]
          simp [record, Timer.Filing.result]
        · right
          rw [if_neg hkept]
          rw [not_or] at hkept
          refine ⟨hkept.1, by simpa using hkept.2, ?_⟩
          simp [record, Timer.Filing.result, Timer.handOver, Timer.setEntry, hkept.1]

/-- Filing an entry is a call of `addTimerTaskEntry`. -/
theorem file_timer {overflow : Bool} {id : EntryId} (h : file fuel overflow id s = .ok s') :
    s.timer.addTimerTaskEntry (fun _ => overflow) fuel id = .ok s'.timer ∧
      s'.flushing = s.flushing := by
  rw [file] at h
  cases hentry : s.timer.entry id with
  | error stuck => simp [hentry, bind, Except.bind] at h
  | ok e =>
    cases hadd : s.timer.addTimerTaskEntry (fun _ => overflow) fuel id with
    | error stuck => simp [hentry, hadd, bind, Except.bind] at h
    | ok t =>
      simp only [hentry, hadd, bind, Except.bind] at h
      obtain rfl := Except.ok.inj h
      exact ⟨rfl, rfl⟩

/-- `poll` does nothing, or it removes an element with the least expiration, which is not
after the present time, and the wheels are advanced to the expiration of its bucket. -/
theorem poll_ok {choice : ℕ} (h : poll choice s = .ok s') :
    s' = s ∨ ∃ q l, q ∈ s.timer.delayQueue ∧
      (∀ q' ∈ s.timer.delayQueue, q.expiration ≤ q'.expiration) ∧ q.expiration ≤ s.now ∧
      s.timer.bucket q.bucket = some l ∧
      s' = { s with
        timer := { s.timer with
          delayQueue := s.timer.delayQueue.erase q
          wheels := Timer.advanceWheels l.expiration s.timer.wheels }
        flushing := some q.bucket } := by
  rw [poll] at h
  cases hpoll : s.timer.poll { now := s.now, choice } with
  | none =>
    rw [hpoll] at h
    exact .inl (Except.ok.inj h).symm
  | some p =>
    obtain ⟨b, t⟩ := p
    rw [hpoll] at h
    right
    obtain ⟨q, hmem, hleast, hnow, rfl, rfl⟩ := Timer.poll_some hpoll
    cases hbucket : s.timer.bucketAt q.bucket with
    | error stuck =>
      have hbucket' : Timer.bucketAt { s.timer with
        delayQueue := s.timer.delayQueue.erase q } q.bucket = .error stuck := hbucket
      simp [hbucket', bind, Except.bind] at h
    | ok l =>
      have hbucket' : Timer.bucketAt { s.timer with
        delayQueue := s.timer.delayQueue.erase q } q.bucket = .ok l := hbucket
      simp only [hbucket', bind, Except.bind] at h
      exact ⟨q, l, hmem, hleast, hnow, Timer.bucket_of_bucketAt hbucket, (Except.ok.inj h).symm⟩

/-- An iteration of `flush` removes the first entry from the list of the bucket, and files
it. -/
theorem refile_removeFrom {overflow : Bool} (h : refile fuel overflow b s = .ok s') :
    ∃ l head rest t, s.timer.bucket b = some l ∧ s.timer.rings l.root = head :: rest ∧
      s.timer.removeFrom b head = .ok t ∧
      file fuel overflow head { s with timer := t } = .ok s' := by
  rw [refile] at h
  cases hbucket : s.timer.bucket b with
  | none => simp [Timer.bucketAt, hbucket, bind, Except.bind] at h
  | some l =>
    simp only [Timer.bucketAt, hbucket, bind, Except.bind] at h
    cases hring : s.timer.rings l.root with
    | nil => rw [hring] at h; cases h
    | cons head rest =>
      rw [hring] at h
      dsimp only at h
      cases hremove : s.timer.removeFrom b head with
      | error stuck => rw [hremove] at h; cases h
      | ok t =>
        rw [hremove] at h
        exact ⟨l, head, rest, t, rfl, hring, hremove, h⟩

/-- An iteration of `flush` unlinks the first entry if it points to the bucket, and files it. -/
theorem refile_ok {overflow : Bool} (h : refile fuel overflow b s = .ok s') :
    ∃ l head rest t e list, s.timer.bucket b = some l ∧
      s.timer.rings l.root = head :: rest ∧ s.timer.entries head = some e ∧
      s.timer.Relinked head e list t ∧ (list = none ∨ t = s.timer) ∧
      file fuel overflow head { s with timer := t } = .ok s' := by
  obtain ⟨l, head, rest, t, hbucket, hring, hremove, hfile⟩ := refile_removeFrom h
  obtain ⟨e, hentry, ⟨-, hrelinked⟩ | ⟨-, rfl⟩⟩ := Timer.removeFrom_ok hremove
  · exact ⟨l, head, rest, t, e, none, hbucket, hring, hentry, hrelinked, .inl rfl, hfile⟩
  · exact ⟨l, head, rest, _, e, e.list, hbucket, hring, hentry, .refl hentry, .inr rfl, hfile⟩

/-- `flush` ends when nothing is linked in the list of the bucket. -/
theorem finish_ok (h : finish b s = .ok s') :
    ∃ l, s.timer.bucket b = some l ∧ s.timer.rings l.root = [] ∧
      s' = { s with timer := (s.timer.setExpiration b .unset).1, flushing := none } := by
  rw [finish] at h
  cases hbucket : s.timer.bucket b with
  | none => simp [Timer.bucketAt, hbucket, bind, Except.bind] at h
  | some l =>
    simp only [Timer.bucketAt, hbucket, bind, Except.bind] at h
    cases hring : s.timer.rings l.root with
    | cons head rest => rw [hring] at h; cases h
    | nil =>
      rw [hring] at h
      exact ⟨l, rfl, hring, (Except.ok.inj h).symm⟩

/-- A step at the time of the last reading of the clock. -/
theorem step_of_perform {tickMs : TimeEntry} {wheelSize : ℕ} {now : TimeEntry}
    {action : TickerAction} (hnow : s.now ≤ now)
    (h : perform fuel { s with now } action = .ok s') :
    (machine tickMs wheelSize).step s (now, action) s' :=
  ⟨fuel, by rw [next, if_pos hnow, h]; rfl⟩

/-- A call of `addTimerTaskEntry` files an entry. -/
theorem exists_file {undef : ℕ → Bool} {id : EntryId} {t : Timer}
    (h : s.timer.addTimerTaskEntry undef fuel id = .ok t) :
    ∃ overflow handedOver,
      file fuel overflow id s = .ok { s with timer := t, handedOver } := by
  obtain ⟨overflow, hconst⟩ := Timer.addTimerTaskEntry_const h
  cases hentry : s.timer.entry id with
  | error stuck =>
    cases fuel with
    | zero => cases hconst
    | succ fuel =>
      rw [Timer.addTimerTaskEntry, Timer.addToWheel, hentry] at hconst
      cases hconst
  | ok e =>
    refine ⟨overflow, s.record id e.expiration t, ?_⟩
    rw [file, hentry, hconst]
    rfl

/-- The loop of `flush` is a run. -/
theorem exists_run_of_flushLoop {undef : ℕ → Bool} {t : Timer} (tickMs : TimeEntry)
    (wheelSize : ℕ) (hflushing : s.flushing = some b)
    (h : Timer.flushLoop undef fuel b s.timer = .ok t) :
    ∃ trace handedOver, (machine tickMs wheelSize).Run s trace { s with timer := t, handedOver } ∧
      ∃ l, t.bucketAt b = .ok l ∧ t.rings l.root = [] := by
  induction fuel generalizing s with
  | zero => cases h
  | succ fuel ih =>
    rw [Timer.flushLoop] at h
    cases hbucket : s.timer.bucketAt b with
    | error stuck => rw [hbucket] at h; cases h
    | ok l =>
      simp only [hbucket, bind, Except.bind] at h
      cases hring : s.timer.rings l.root with
      | nil =>
        rw [hring] at h
        obtain rfl := Except.ok.inj h
        exact ⟨[], s.handedOver, .nil s, l, hbucket, hring⟩
      | cons head rest =>
        simp only [hring] at h
        cases hremove : s.timer.removeFrom b head with
        | error stuck => rw [hremove] at h; cases h
        | ok t₁ =>
          simp only [hremove] at h
          cases hadd : t₁.addTimerTaskEntry undef fuel head with
          | error stuck => rw [hadd] at h; cases h
          | ok t₂ =>
            simp only [hadd] at h
            have hadd' : { s with timer := t₁ }.timer.addTimerTaskEntry undef fuel head =
              .ok t₂ := hadd
            obtain ⟨overflow, handedOver, hfile⟩ := exists_file hadd'
            have hstep : (machine tickMs wheelSize).step s (s.now, .refile overflow)
                { s with timer := t₂, handedOver } := by
              have hrefile : refile fuel overflow b s = .ok { s with timer := t₂, handedOver } := by
                rw [refile]
                simp only [hbucket, hring, hremove, bind, Except.bind]
                exact hfile
              refine step_of_perform le_rfl (?_ : perform fuel s _ = _)
              cases s
              cases hflushing
              exact hrefile
            obtain ⟨trace, handedOver', hrun, hend⟩ :=
              @ih { s with timer := t₂, handedOver } hflushing h
            exact ⟨_, handedOver', .cons hstep hrun, hend⟩

/-- `Timer::add` is a run of one step. -/
theorem exists_run_of_add {undef : ℕ → Bool} {t : Timer} {x : TimeEntry} (tickMs : TimeEntry)
    (wheelSize : ℕ) (hflushing : s.flushing = none) (h : s.timer.add undef fuel x = .ok t) :
    ∃ trace handedOver,
      (machine tickMs wheelSize).Run s trace { s with timer := t, handedOver } := by
  rw [Timer.add_eq] at h
  have h' : { s with timer := s.timer.withEntry x }.timer.addTimerTaskEntry undef fuel
      s.timer.created = .ok t := h
  obtain ⟨overflow, handedOver, hfile⟩ := exists_file h'
  refine ⟨_, handedOver, .cons (a := (s.now, .add x overflow)) ?_ (.nil _)⟩
  refine step_of_perform le_rfl (?_ : perform fuel s _ = _)
  cases s
  cases hflushing
  exact hfile

/-- `Timer::advanceClock` is a run, if the clock does not go back from one call of `poll`
to the next. -/
theorem exists_run_of_advanceClock {undef : ℕ → Bool} {t : Timer} {readings : List Reading}
    (tickMs : TimeEntry) (wheelSize : ℕ) (hflushing : s.flushing = none)
    (hclock : (s.now :: readings.map (·.now)).IsChain (· ≤ ·))
    (h : s.timer.advanceClock undef fuel readings = .ok t) :
    ∃ trace handedOver now,
      (machine tickMs wheelSize).Run s trace { s with timer := t, handedOver, now } := by
  induction readings generalizing s with
  | nil => cases h
  | cons r readings ih =>
    rw [List.map_cons, List.isChain_cons_cons] at hclock
    rw [Timer.advanceClock] at h
    cases hpoll : s.timer.poll r with
    | none =>
      rw [hpoll] at h
      obtain rfl := Except.ok.inj h
      exact ⟨[], s.handedOver, s.now, .nil s⟩
    | some p =>
      obtain ⟨b, t₁⟩ := p
      simp only [hpoll, bind, Except.bind] at h
      cases hbucket : t₁.bucketAt b with
      | error stuck => rw [hbucket] at h; cases h
      | ok l =>
        simp only [hbucket, Timer.flush] at h
        set t₂ : Timer := { t₁ with
          wheels := Timer.advanceWheels l.expiration t₁.wheels } with ht₂
        cases hloop : Timer.flushLoop undef fuel b t₂ with
        | error stuck => rw [hloop] at h; cases h
        | ok t₃ =>
          simp only [hloop, bind, Except.bind, pure, Except.pure] at h
          let s₂ : Ticker := { s with timer := t₂, flushing := some b, now := r.now }
          have hfirst : (machine tickMs wheelSize).step s (r.now, .poll r.choice) s₂ := by
            have hpolled : poll r.choice { s with now := r.now } = .ok s₂ := by
              rw [poll, show Timer.poll _ _ = some (b, t₁) from hpoll]
              simp only [hbucket, bind, Except.bind]
              rfl
            refine step_of_perform hclock.1 (?_ : perform fuel _ _ = _)
            cases s
            cases hflushing
            exact hpolled
          obtain ⟨trace, handedOver, hrun, l', hbucket', hring⟩ :=
            exists_run_of_flushLoop tickMs wheelSize (s := s₂) rfl hloop
          let s₄ : Ticker := { s with
            timer := (t₃.setExpiration b .unset).1
            flushing := none
            now := r.now
            handedOver }
          have hlast : (machine tickMs wheelSize).step { s₂ with timer := t₃, handedOver }
              (r.now, .finish) s₄ := by
            refine step_of_perform le_rfl (?_ : perform fuel _ _ = _)
            show finish b { s₂ with timer := t₃, handedOver } = _
            rw [finish]
            simp only [hbucket', hring, bind, Except.bind]
            rfl
          obtain ⟨trace', handedOver', now', hrest⟩ := @ih s₄ rfl hclock.2 h
          have hsame : { s₄ with timer := t, handedOver := handedOver', now := now' } =
              { s with timer := t, handedOver := handedOver', now := now' } := by
            simp [s₄, hflushing]
          rw [hsame] at hrest
          exact ⟨_, handedOver', now', .cons hfirst (hrun.append (.cons hlast hrest))⟩

end Ticker

end DuoDuo.Timers
