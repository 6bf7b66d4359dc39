import DuoDuo.Timers.EarlyFiring

/-!
# How long a task waits

A task that the timer has filed is not handed to the thread pool by any operation of the
timer before a reading of the clock comes within a tick of its expiration, whatever the
other tasks do and although the buckets of a wheel share a root entry. If it lies in an
overflow wheel, this takes that the overflow branch yields true.
-/

namespace DuoDuo.Timers

open Library

namespace Timer

/-- Tasks are numbered in the order in which they are added. -/
structure Numbered (t : Timer) : Prop where
  entries_lt : ∀ id, (t.entries id).isSome → id < t.created
  handed_lt : ∀ id ∈ t.threadPool, id < t.created

/-- A timer with the given tick between two operations: its wheels and its queue are those
of a timer that does not run ahead of some clock. -/
structure Steady (tickMs : TimeEntry) (t : Timer) : Prop where
  clocked : ∃ now, Ticker.Clocked tickMs { timer := t, now }
  numbered : t.Numbered

/-- The first wheel does not take a task with this expiration for due. It is within the turn
of this wheel, or the overflow branch is sure to yield true. -/
def NotDue (undef : ℕ → Bool) (x : TimeEntry) (t : Timer) : Prop :=
  ∀ w ∈ t.wheels.head?, w.currentTime + w.tickMs ≤ x ∧
    (x < w.currentTime + w.interval ∨ ∀ k, undef k = true)

instance (undef : ℕ → Bool) [Decidable (∀ k, undef k = true)] (x : TimeEntry) (t : Timer) :
    Decidable (t.NotDue undef x) :=
  inferInstanceAs (Decidable (∀ w ∈ t.wheels.head?, w.currentTime + w.tickMs ≤ x ∧
    (x < w.currentTime + w.interval ∨ ∀ k, undef k = true)))

/-- A task that waits for its expiration: it has not been handed over, and it is not due. -/
structure Awaits (undef : ℕ → Bool) (id : EntryId) (x : TimeEntry) (t : Timer) : Prop where
  kept : id ∉ t.threadPool
  entry : ∃ e, t.entries id = some e ∧ e.expiration = x
  notDue : t.NotDue undef x

variable {undef : ℕ → Bool} {fuel : ℕ} {id id' : EntryId} {x tickMs : TimeEntry} {t t' : Timer}
  {w w' : TimingWheel} {s : Ticker}

/-- The first of the wheels. -/
theorem head?_wheels (h : t.wheels[0]? = some w) : t.wheels.head? = some w := by
  rwa [List.head?_eq_getElem?]

/-- A task waits on when the first wheel has not reached it and nothing else has changed. -/
theorem Awaits.of_first (h : t.Awaits undef id x) (hkept : id ∉ t'.threadPool)
    (hentry : ∃ e, t'.entries id = some e ∧ e.expiration = x) (hw : t.wheels[0]? = some w)
    (hw' : t'.wheels[0]? = some w') (hinterval : w'.interval = w.interval)
    (hcurrent : w.currentTime ≤ w'.currentTime)
    (hlate : w'.currentTime + w'.tickMs ≤ x) : t'.Awaits undef id x where
  kept := hkept
  entry := hentry
  notDue := by
    rw [NotDue, head?_wheels hw']
    rintro w ⟨⟩
    refine ⟨hlate, ?_⟩
    rcases (h.notDue w (head?_wheels hw)).2 with hfits | htrue
    · left
      rw [hinterval]
      linarith
    · exact .inr htrue

/-- As `Awaits.of_first`, for a first wheel of which at most the buckets have changed. -/
theorem Awaits.of_buckets (h : t.Awaits undef id x) (hkept : id ∉ t'.threadPool)
    (hentry : ∃ e, t'.entries id = some e ∧ e.expiration = x) (hw : t.wheels[0]? = some w)
    {buckets : List TimerTaskList} (hw' : t'.wheels[0]? = some { w with buckets }) :
    t'.Awaits undef id x :=
  h.of_first hkept hentry hw hw' rfl le_rfl (h.notDue w (head?_wheels hw)).1

/-- Filing a task again, or another one, leaves a task waiting. -/
theorem Awaits.addTimerTaskEntry (h : t.Awaits undef id x) (hgeared : Geared t.wheels)
    (htasks : ∀ id e, t.entries id = some e → e.taskEntry = id)
    (hw : t.wheels[0]? = some w) {e : TimerTaskEntry} (hentry : t.entries id' = some e)
    (hadd : t.addTimerTaskEntry undef fuel id' = .ok t') : t'.Awaits undef id x := by
  have hcancelled : e.cancelled id' = false := by
    simp [TimerTaskEntry.cancelled, htasks id' e hentry]
  obtain ⟨e₀, hentry₀, hx⟩ := h.entry
  obtain ⟨hlate, hsure⟩ := h.notDue w (head?_wheels hw)
  rcases addTimerTaskEntry_ok hgeared hentry hcancelled hw hadd with
    ⟨hdue, rfl⟩ | ⟨hlate', b, f, -, rfl⟩
  · have hne : id ≠ id' := by
      rintro rfl
      rw [hentry] at hentry₀
      obtain rfl := Option.some.inj hentry₀
      linarith
    refine h.of_buckets (by simp [handOver, setEntry, h.kept, hne]) ⟨e₀, ?_, hx⟩ hw hw
    simpa [handOver, setEntry, hne] using hentry₀
  · obtain ⟨buckets, hw'⟩ := f.first_wheel hw
    by_cases hid : id = id'
    · subst hid
      obtain rfl : e = e₀ := Option.some.inj (hentry.symm.trans hentry₀)
      have hkept : b.level = 0 ∨ undef (f.result.overflows - 1) = true := by
        rcases hsure with hfits | htrue
        · left
          rw [f.level_eq_zero_iff hw hlate', hx]
          exact hfits
        · exact .inr (htrue _)
      rw [if_pos hkept]
      exact h.of_buckets h.kept ⟨_, Function.update_self .., hx⟩ hw hw'
    · have hfiled : f.result.Awaits undef id x := by
        refine h.of_buckets h.kept ⟨e₀, ?_, hx⟩ hw hw'
        simpa [Filing.result, hid] using hentry₀
      split
      · exact hfiled
      · refine hfiled.of_buckets ?_ ⟨e₀, ?_, hx⟩ hw' hw'
        · simp [handOver, setEntry, hid, hfiled.kept]
        · simpa [handOver, setEntry, Filing.result, hid] using hentry₀

/-- Unlinking an entry leaves a task waiting. -/
theorem Awaits.relinked (h : t.Awaits undef id x) {e : TimerTaskEntry} {list : Option BucketId}
    (hentry : t.entries id' = some e) (hrelinked : t.Relinked id' e list t') :
    t'.Awaits undef id x := by
  obtain ⟨rings, rfl, -⟩ := hrelinked
  obtain ⟨e₀, hentry₀, hx⟩ := h.entry
  refine ⟨h.kept, ?_, h.notDue⟩
  by_cases hid : id = id'
  · subst hid
    obtain rfl : e = e₀ := Option.some.inj (hentry.symm.trans hentry₀)
    exact ⟨_, Function.update_self .., hx⟩
  · exact ⟨e₀, by simpa [hid] using hentry₀, hx⟩

/-- Entries that exist afterwards existed before, and the task that is filed may be handed
over. -/
theorem Numbered.addTimerTaskEntry (h : t.Numbered) (hgeared : Geared t.wheels)
    (htasks : ∀ id e, t.entries id = some e → e.taskEntry = id)
    (hw : t.wheels[0]? = some w) {e : TimerTaskEntry} (hentry : t.entries id' = some e)
    (hadd : t.addTimerTaskEntry undef fuel id' = .ok t') :
    t'.Numbered ∧ t'.created = t.created := by
  have hcancelled : e.cancelled id' = false := by
    simp [TimerTaskEntry.cancelled, htasks id' e hentry]
  have hlt : id' < t.created := h.entries_lt id' (by rw [hentry]; rfl)
  have hhandOver : ∀ {u : Timer}, u.Numbered → u.created = t.created →
      (u.handOver id').Numbered := by
    intro u hu hcreated
    constructor
    · intro id hid
      refine hu.entries_lt id ?_
      by_cases hne : id = id'
      · simp [handOver, setEntry, hne] at hid
      · simpa [handOver, setEntry, hne] using hid
    · intro id hid
      have hid : id ∈ u.threadPool ++ [id'] := hid
      rcases List.mem_append.mp hid with hid | hid
      · exact hu.handed_lt id hid
      · rw [List.mem_singleton.mp hid]
        show id' < u.created
        rwa [hcreated]
  rcases addTimerTaskEntry_ok hgeared hentry hcancelled hw hadd with
    ⟨-, rfl⟩ | ⟨-, b, f, -, rfl⟩
  · exact ⟨hhandOver h rfl, rfl⟩
  · have hfiled : f.result.Numbered := by
      refine ⟨fun id hid => ?_, h.handed_lt⟩
      by_cases hne : id = id'
      · rw [hne]
        exact hlt
      · exact h.entries_lt id (by simpa [Filing.result, hne] using hid)
    split
    · exact ⟨hfiled, rfl⟩
    · exact ⟨hhandOver hfiled rfl, rfl⟩

end Timer

namespace Ticker

open Timer

variable {undef : ℕ → Bool} {fuel : ℕ} {id : EntryId} {x tickMs : TimeEntry} {s : Ticker}
  {t : Timer} {b : BucketId}

/-- The record of the tasks handed over does not matter. -/
theorem Clocked.congr (h : s.Clocked tickMs) {s' : Ticker} (htimer : s'.timer = s.timer)
    (hflushing : s'.flushing = s.flushing) (hnow : s'.now = s.now) : s'.Clocked tickMs := by
  obtain ⟨timer, flushing, now, handedOver⟩ := s'
  obtain rfl := htimer
  obtain rfl := hflushing
  obtain rfl := hnow
  exact ⟨h.geared, h.first, h.queued, h.nodup, h.polled, h.tasks⟩

/-- What a call of `addTimerTaskEntry` leaves. -/
theorem Clocked.addTimerTaskEntry (h : s.Clocked tickMs) (hnumbered : s.timer.Numbered)
    (hadd : s.timer.addTimerTaskEntry undef fuel id = .ok t) :
    Clocked tickMs { s with timer := t } ∧ t.Numbered ∧ t.created = s.timer.created ∧
      ∀ id' x, s.timer.Awaits undef id' x → t.Awaits undef id' x := by
  obtain ⟨w, hw, -⟩ := h.first
  obtain ⟨overflow, handedOver, hfile⟩ := exists_file hadd
  obtain ⟨hclocked, e, hentry, -⟩ := h.file hfile
  obtain ⟨hnumbered', hcreated⟩ := hnumbered.addTimerTaskEntry h.geared h.tasks hw hentry hadd
  refine ⟨hclocked.congr rfl rfl rfl, hnumbered', hcreated, fun id' x hholds => ?_⟩
  exact hholds.addTimerTaskEntry h.geared h.tasks hw hentry hadd

/-- What the loop of `flush` leaves. -/
theorem Clocked.flushLoop (h : s.Clocked tickMs) (hnumbered : s.timer.Numbered)
    (hloop : Timer.flushLoop undef fuel b s.timer = .ok t) :
    Clocked tickMs { s with timer := t } ∧ t.Numbered ∧ t.created = s.timer.created ∧
      (∀ id' x, s.timer.Awaits undef id' x → t.Awaits undef id' x) ∧
      ∃ l, t.bucketAt b = .ok l ∧ t.rings l.root = [] := by
  induction fuel generalizing s with
  | zero => cases hloop
  | succ fuel ih =>
    rw [Timer.flushLoop] at hloop
    cases hbucket : s.timer.bucketAt b with
    | error stuck => rw [hbucket] at hloop; cases hloop
    | ok l =>
      simp only [hbucket, bind, Except.bind] at hloop
      cases hring : s.timer.rings l.root with
      | nil =>
        rw [hring] at hloop
        obtain rfl := Except.ok.inj hloop
        exact ⟨h, hnumbered, rfl, fun _ _ hholds => hholds, l, hbucket, hring⟩
      | cons head rest =>
        simp only [hring] at hloop
        cases hremove : s.timer.removeFrom b head with
        | error stuck => rw [hremove] at hloop; cases hloop
        | ok t₁ =>
          simp only [hremove] at hloop
          cases hadd : t₁.addTimerTaskEntry undef fuel head with
          | error stuck => rw [hadd] at hloop; cases hloop
          | ok t₂ =>
            simp only [hadd] at hloop
            -- the entry is unlinked or not, and then filed again
            have hremoved : Clocked tickMs { s with timer := t₁ } ∧ t₁.Numbered ∧
                t₁.created = s.timer.created ∧
                ∀ id' x, s.timer.Awaits undef id' x → t₁.Awaits undef id' x := by
              obtain ⟨e, hentry, ⟨-, hrelinked⟩ | ⟨-, rfl⟩⟩ := removeFrom_ok hremove
              · refine ⟨h.relinked hentry hrelinked, ?_, ?_, fun id' x hholds =>
                  hholds.relinked hentry hrelinked⟩
                · obtain ⟨rings, rfl, -⟩ := hrelinked
                  refine ⟨fun id' hid' => ?_, hnumbered.handed_lt⟩
                  by_cases hne : id' = head
                  · rw [hne]
                    exact hnumbered.entries_lt head (by rw [hentry]; rfl)
                  · exact hnumbered.entries_lt id' (by simpa [hne] using hid')
                · obtain ⟨rings, rfl, -⟩ := hrelinked
                  rfl
              · exact ⟨h, hnumbered, rfl, fun _ _ hholds => hholds⟩
            obtain ⟨hclocked₁, hnumbered₁, hcreated₁, hholds₁⟩ := hremoved
            obtain ⟨hclocked₂, hnumbered₂, hcreated₂, hholds₂⟩ :=
              hclocked₁.addTimerTaskEntry hnumbered₁ hadd
            obtain ⟨hclocked₃, hnumbered₃, hcreated₃, hholds₃, hend⟩ :=
              ih hclocked₂ hnumbered₂ hloop
            exact ⟨hclocked₃, hnumbered₃, hcreated₃.trans (hcreated₂.trans hcreated₁),
              fun id' x hholds => hholds₃ id' x (hholds₂ id' x (hholds₁ id' x hholds)), hend⟩

/-- What `poll` leaves, and the beginning of the body of the loop of `advanceClock`: a task
waits on that is not due within a tick of the reading. -/
theorem Clocked.polled_some (h : s.Clocked tickMs) (undef : ℕ → Bool)
    (hflushing : s.flushing = none) {r : Reading} {l : TimerTaskList} (hnow : r.now ≤ s.now)
    (hpoll : s.timer.poll r = some (b, t)) (hbucket : t.bucketAt b = .ok l) :
    Clocked tickMs { s with
      timer := { t with wheels := advanceWheels l.expiration t.wheels }, flushing := some b } ∧
    t.entries = s.timer.entries ∧ t.threadPool = s.timer.threadPool ∧
      t.created = s.timer.created ∧ ∀ id x, r.now + tickMs ≤ x → s.timer.Awaits undef id x →
        Timer.Awaits undef id x { t with wheels := advanceWheels l.expiration t.wheels } := by
  have hlater : s.timer.poll { now := s.now, choice := r.choice } = some (b, t) :=
    poll_later hpoll hnow
  have hpolled : Ticker.poll r.choice s = .ok { s with
      timer := { t with wheels := advanceWheels l.expiration t.wheels }, flushing := some b } := by
    rw [Ticker.poll, hlater]
    simp only [hbucket, bind, Except.bind]
    rfl
  obtain ⟨w, hw, htick, -⟩ := h.first
  obtain ⟨q, hq, -, hq', rfl, rfl⟩ := poll_some hpoll
  obtain ⟨w', hbucketAt, hnonneg, hearly⟩ := h.queued_bucket hq (bucket_of_bucketAt hbucket)
  refine ⟨(h.poll hflushing hpolled).1, rfl, rfl, rfl, fun id x hx hholds => ?_⟩
  have hsound := h.geared.sound w (List.mem_of_getElem? hw)
  have hwheels : advanceWheels l.expiration s.timer.wheels =
      s.timer.wheels.map (·.advanced l.expiration) := advanceWheels_eq h.geared hnonneg
  have hw' : (advanceWheels l.expiration s.timer.wheels)[0]? =
      some (w.advanced l.expiration) := by
    rw [hwheels, List.getElem?_map, hw]
    rfl
  refine hholds.of_first hholds.kept hholds.entry hw hw' rfl (le_max_left _ _) ?_
  show max w.currentTime (roundDown w.tickMs l.expiration) + w.tickMs ≤ x
  have hlate := (hholds.notDue w (head?_wheels hw)).1
  have hround := roundDown_le hsound.tick_pos l.expiration
  rcases max_cases w.currentTime (roundDown w.tickMs l.expiration) with ⟨heq, -⟩ | ⟨heq, -⟩
  · rw [heq]
    exact hlate
  · rw [heq, htick]
    rw [htick] at hround
    linarith

/-- The end of `flush` leaves all tasks waiting. -/
theorem Clocked.setExpiration (h : s.Clocked tickMs) (undef : ℕ → Bool)
    (hflushing : s.flushing = some b) {l : TimerTaskList} (hbucket : s.timer.bucketAt b = .ok l)
    (hring : s.timer.rings l.root = []) :
    Clocked tickMs { s with timer := (s.timer.setExpiration b .unset).1, flushing := none } ∧
      ∀ id x, s.timer.Awaits undef id x → (s.timer.setExpiration b .unset).1.Awaits undef id x := by
  have hfinish : Ticker.finish b s = .ok { s with
      timer := (s.timer.setExpiration b .unset).1, flushing := none } := by
    rw [Ticker.finish]
    simp only [hbucket, hring, bind, Except.bind]
    rfl
  obtain ⟨w, hw, -⟩ := h.first
  refine ⟨(h.finish hflushing hfinish).1, fun id x hholds => ?_⟩
  obtain ⟨wb, hbucketAt⟩ := bucketAt_of_bucket (bucket_of_bucketAt hbucket)
  obtain ⟨buckets, hw'⟩ := hbucketAt.getElem?_setBucket hw { l with expiration := .unset }
  rw [setExpiration_eq hbucketAt.1 (bucket_of_bucketAt hbucket)]
  exact hholds.of_buckets hholds.kept hholds.entry hw hw'

end Ticker

namespace Timer

variable {undef : ℕ → Bool} {fuel : ℕ} {x tickMs : TimeEntry} {t t' : Timer}

/-- `advanceClock` leaves a timer steady, and a task waits on if no reading of the clock is
within a tick of its expiration. -/
theorem Steady.advanceClock (h : t.Steady tickMs) {readings : List Reading}
    (hadvance : t.advanceClock undef fuel readings = .ok t') :
    t'.Steady tickMs ∧ t'.created = t.created ∧ ∀ id x,
      (∀ r ∈ readings, r.now + tickMs ≤ x) → t.Awaits undef id x → t'.Awaits undef id x := by
  induction readings generalizing t with
  | nil => cases hadvance
  | cons r readings ih =>
    rw [Timer.advanceClock] at hadvance
    cases hpoll : t.poll r with
    | none =>
      rw [hpoll] at hadvance
      obtain rfl := Except.ok.inj hadvance
      exact ⟨h, rfl, fun _ _ _ hholds => hholds⟩
    | some p =>
      obtain ⟨b, t₁⟩ := p
      simp only [hpoll, bind, Except.bind] at hadvance
      cases hbucket : t₁.bucketAt b with
      | error stuck => rw [hbucket] at hadvance; cases hadvance
      | ok l =>
        simp only [hbucket, Timer.flush] at hadvance
        cases hloop : flushLoop undef fuel b { t₁ with
            wheels := advanceWheels l.expiration t₁.wheels } with
        | error stuck => rw [hloop] at hadvance; cases hadvance
        | ok t₃ =>
          simp only [hloop, bind, Except.bind, pure, Except.pure] at hadvance
          obtain ⟨now, hclocked⟩ := h.clocked
          -- the clock of the invariant need not be the one that was read
          obtain ⟨hclocked₂, hentries, hhanded, hcreated₂, hholds₂⟩ :=
            (hclocked.wait (le_max_left now r.now)).polled_some undef rfl
              (le_max_right now r.now) hpoll hbucket
          have hnumbered₂ : Numbered { t₁ with
              wheels := advanceWheels l.expiration t₁.wheels } := by
            constructor
            · show ∀ id, (t₁.entries id).isSome → id < t₁.created
              rw [hentries, hcreated₂]
              exact h.numbered.entries_lt
            · show ∀ id ∈ t₁.threadPool, id < t₁.created
              rw [hhanded, hcreated₂]
              exact h.numbered.handed_lt
          obtain ⟨hclocked₃, hnumbered₃, hcreated₃, hholds₃, l', hbucket₃, hring₃⟩ :=
            hclocked₂.flushLoop hnumbered₂ hloop
          obtain ⟨hclocked₄, hholds₄⟩ :=
            hclocked₃.setExpiration undef rfl hbucket₃ hring₃
          have hcreated₄ : (t₃.setExpiration b .unset).1.created = t.created :=
            (setExpiration_created ..).trans (hcreated₃.trans hcreated₂)
          have hnumbered₄ : (t₃.setExpiration b .unset).1.Numbered := by
            obtain ⟨hentries₄, hhanded₄⟩ := setExpiration_entries t₃ b .unset
            constructor
            · rw [hentries₄, setExpiration_created]
              exact hnumbered₃.entries_lt
            · rw [hhanded₄, setExpiration_created]
              exact hnumbered₃.handed_lt
          obtain ⟨hsteady, hcreated, hholds⟩ := ih ⟨⟨_, hclocked₄⟩, hnumbered₄⟩ hadvance
          refine ⟨hsteady, hcreated.trans hcreated₄, fun id x hreadings hwaits => ?_⟩
          rw [List.forall_mem_cons] at hreadings
          exact hholds id x hreadings.2
            (hholds₄ id x (hholds₃ id x (hholds₂ id x hreadings.1 hwaits)))

/-- `add` leaves a timer steady and all tasks waiting, and the new task waits as well if it is
not due. -/
theorem Steady.add (h : t.Steady tickMs) (hadd : t.add undef fuel x = .ok t') :
    t'.Steady tickMs ∧ t'.created = t.created + 1 ∧
      (∀ id y, t.Awaits undef id y → t'.Awaits undef id y) ∧
      (t.NotDue undef x → t'.Awaits undef t.created x) := by
  rw [add_eq] at hadd
  obtain ⟨now, hclocked⟩ := h.clocked
  have hnumbered : (t.withEntry x).Numbered := by
    constructor
    · intro id hid
      by_cases hnew : id = t.created
      · rw [hnew]
        exact Nat.lt_succ_self _
      · refine (h.numbered.entries_lt id ?_).trans (Nat.lt_succ_self _)
        simpa [withEntry, setEntry, hnew] using hid
    · intro id hid
      exact (h.numbered.handed_lt id hid).trans (Nat.lt_succ_self _)
  obtain ⟨hclocked', hnumbered', hcreated, hholds⟩ :=
    (hclocked.withEntry x).addTimerTaskEntry hnumbered hadd
  refine ⟨⟨⟨now, hclocked'⟩, hnumbered'⟩, hcreated, fun id y hwaits => ?_, fun hlate => ?_⟩
  · obtain ⟨e, hentry, hy⟩ := hwaits.entry
    have hlt := h.numbered.entries_lt id (by rw [hentry]; rfl)
    refine hholds id y ⟨hwaits.kept, ⟨e, ?_, hy⟩, hwaits.notDue⟩
    simpa [withEntry, setEntry, hlt.ne] using hentry
  · refine hholds t.created x ⟨fun hmem => ?_, ⟨_, t.withEntry_entries x, rfl⟩, hlate⟩
    exact lt_irrefl _ (h.numbered.handed_lt t.created hmem)

/-- A new timer is steady. -/
theorem Steady.new {wheelSize : ℕ} {startMs : TimeEntry} (htick : 0 < tickMs)
    (hsize : 0 < wheelSize) (hstart : 0 ≤ startMs) :
    (Timer.new tickMs wheelSize startMs).Steady tickMs where
  clocked := ⟨startMs, (Ticker.Clocked.init htick hsize ⟨startMs, hstart, rfl⟩).1⟩
  numbered := by
    refine ⟨fun id hid => ?_, fun id hid => ?_⟩
    · cases hid
    · cases hid

end Timer

end DuoDuo.Timers
