import DuoDuo.Net.Connector
import DuoDuo.Timers.ThreadPool
import DuoDuo.Timers.Waiting

/-!
# The thread of a delayed retry

A connector with retries on its loop, together with the timer that all loops share and the
thread pool of this timer. `EventLoop::runAfter` adds `startInLoop` to the timer, which
hands it to the pool when it is due, and a worker of the pool calls it. The tasks of the
pool are the tickers, numbered first, and behind them the functions of the timer's
entries. The thread of the loop is none of the workers. A task that the timer has handed
over may be pushed later, after other steps.
-/

namespace DuoDuo.Net

open Library Timers

namespace DelayedRetry

/-- The threads on which `startInLoop` may be executed. -/
inductive Thread
  | loop
  | worker (w : ℕ)
  deriving DecidableEq, Repr

/-- The steps of the loop, the timer and the pool. -/
inductive Action
  /-- The loop thread, or another thread that calls `start`, does something to the
  connector, at a time of day. -/
  | loop (e : Connector.Event) (now : TimeEntry)
  /-- Another task is added to the timer. -/
  | add (expiration : TimeEntry)
  /-- A worker that executes a ticker advances the clock. -/
  | advanceClock (w : ℕ) (readings : List Reading)
  /-- `addTask`, with the next function that the timer has handed over. -/
  | addTask (wake : Option ℕ)
  /-- A step of a worker. If it calls `startInLoop`, `::connect` gives `errno`. -/
  | work (w : ℕ) (errno : ConnectErrno)
  /-- A spurious wakeup of a worker. -/
  | wakeUp (w : ℕ)
  /-- A step of the thread that stops the pool. -/
  | stop

end DelayedRetry

open DelayedRetry in
/-- A connector, the timer and the pool, with what connects them. -/
structure DelayedRetry where
  connector : Connector
  timer : Timer
  pool : ThreadPool
  /-- How many of the functions that the timer has handed over have been pushed. -/
  pushed : ℕ := 0
  /-- The entries of the timer whose function is the connector's `startInLoop`. -/
  retries : List EntryId := []
  /-- The threads on which `startInLoop` has been executed, in order. -/
  executions : List Thread := []

namespace DelayedRetry

/-- The step of the loop executes `startInLoop`. -/
def startsInLoop (c : Connector) : Connector.Event → Bool
  | .start _ => true
  | .runFunctor _ => c.functors.head? = some .startInLoop
  | _ => false

/-- The step of the loop is one that concerns the connector directly. -/
def onLoop : Connector.Event → Bool
  | .runDelayed _ _ _ => false
  | _ => true

/-- The delay for which a step of the connector has called `runAfter`, in milliseconds. -/
def delay (before after : Connector) : Option ℕ := after.delays[before.delays.length]?

/-- `EventLoop::runAfter`, and `Timer::addByDelay`, if there is a delay. -/
def runAfter (undef : ℕ → Bool) (fuel : ℕ) (now : TimeEntry) (timer : Timer) :
    Option ℕ → Option Timer
  | none => some timer
  | some delay => (timer.add undef fuel (now + (delay * 1000 : ℕ))).toOption

/-- A worker is about to call the connector's `startInLoop`. -/
def CallsRetry (tickers : ℕ) (s : DelayedRetry) (w : ℕ) : Prop :=
  ∃ id ∈ s.retries, s.pool.worker w = .running (tickers + id)

instance (tickers : ℕ) (s : DelayedRetry) (w : ℕ) : Decidable (CallsRetry tickers s w) :=
  inferInstanceAs (Decidable (∃ id ∈ s.retries, s.pool.worker w = .running (tickers + id)))

/-- A worker executes a ticker. -/
def Ticks (tickers : ℕ) (s : DelayedRetry) (w : ℕ) : Prop :=
  ∃ task < tickers, s.pool.worker w = .running task

instance (tickers : ℕ) (s : DelayedRetry) (w : ℕ) : Decidable (Ticks tickers s w) :=
  inferInstanceAs (Decidable (∃ task < tickers, s.pool.worker w = .running task))

/-- The loop or a worker executes the connector's `startInLoop`. -/
def startInLoop (s : DelayedRetry) (thread : Thread) (errno : ConnectErrno) : DelayedRetry :=
  { s with
    connector := s.connector.startInLoop (thread = .loop) errno
    executions := s.executions ++ [thread] }

/-- The effect of a step of the connector, which may have called `runAfter`. -/
def afterLoop (s : DelayedRetry) (e : Connector.Event) (c : Connector) (timer : Timer) :
    DelayedRetry :=
  { s with
    connector := c
    timer := timer
    retries := s.retries ++ ((delay s.connector c).map fun _ => s.timer.created).toList
    executions := if startsInLoop s.connector e then s.executions ++ [.loop] else s.executions }

/-- One step, with `n` workers. No step comes after a failed assertion. -/
def next (undef : ℕ → Bool) (n tickers fuel : ℕ) (s : DelayedRetry) (a : Action) :
    Option DelayedRetry :=
  if s.connector.aborted then none
  else
    match a with
    | .loop e now =>
      if onLoop e then
        (s.connector.next e).bind fun c =>
          (runAfter undef fuel now s.timer (delay s.connector c)).map (s.afterLoop e c)
      else none
    | .add expiration =>
      (s.timer.add undef fuel expiration).toOption.map fun timer => { s with timer }
    | .advanceClock w readings =>
      if w < n ∧ s.Ticks tickers w then
        (s.timer.advanceClock undef fuel readings).toOption.map fun timer => { s with timer }
      else none
    | .addTask wake =>
      s.timer.threadPool[s.pushed]?.bind fun id =>
        (s.pool.addTask n (tickers + id) wake).map fun pool =>
          { s with pool, pushed := s.pushed + 1 }
    | .work w errno =>
      (s.pool.next n (.work w)).map fun pool =>
        if s.CallsRetry tickers w then { s with pool }.startInLoop (.worker w) errno
        else { s with pool }
    | .wakeUp w => (s.pool.next n (.wakeUp w)).map fun pool => { s with pool }
    | .stop => (s.pool.stop n).map fun pool => { s with pool }

/-- A connector with retries, a new timer, and a pool of which the tickers are the first
tasks. -/
def machine (undef : ℕ → Bool) (n tickers : ℕ) : Machine DelayedRetry Action where
  init s := ∃ timer, (Timer.machine undef).init timer ∧
    s = {
      connector := { retry_ := true }
      timer := timer
      pool := { tasks := List.range tickers, accepted := List.range tickers } }
  step s a t := ∃ fuel, next undef n tickers fuel s a = some t

/-- Every execution of `startInLoop` was on the thread of the loop. -/
def OnLoop (s : DelayedRetry) : Prop := ∀ thread ∈ s.executions, thread = .loop

instance (s : DelayedRetry) : Decidable s.OnLoop :=
  inferInstanceAs (Decidable (∀ thread ∈ s.executions, thread = .loop))

/-- No worker calls the connector's `startInLoop` in this step. -/
def LeavesRetry (tickers : ℕ) (s : DelayedRetry) : Action → Prop
  | .work w _ => ¬ CallsRetry tickers s w
  | _ => True

instance (tickers : ℕ) (s : DelayedRetry) (a : Action) : Decidable (LeavesRetry tickers s a) := by
  cases a with
  | work w => exact inferInstanceAs (Decidable (¬ CallsRetry tickers s w))
  | loop | add | advanceClock | addTask | wakeUp | stop => exact .isTrue trivial

variable {undef : ℕ → Bool} {n tickers fuel : ℕ} {s t : DelayedRetry} {a : Action}

/-- A step adds at most its own thread to the executions: the loop's, or that of a worker
that calls a retry. -/
theorem next_executions (hstep : next undef n tickers fuel s a = some t) :
    t.executions = s.executions ∨ t.executions = s.executions ++ [.loop] ∨
      ∃ w errno, a = .work w errno ∧ s.CallsRetry tickers w ∧
        t.executions = s.executions ++ [.worker w] := by
  unfold next at hstep
  split_ifs at hstep
  cases a with
  | loop e now =>
    dsimp only at hstep
    split_ifs at hstep
    obtain ⟨c, -, hstep⟩ := Option.bind_eq_some_iff.mp hstep
    obtain ⟨timer, -, rfl⟩ := Option.map_eq_some_iff.mp hstep
    dsimp only [afterLoop]
    split_ifs
    · exact .inr (.inl rfl)
    · exact .inl rfl
  | add expiration =>
    obtain ⟨timer, -, rfl⟩ := Option.map_eq_some_iff.mp hstep
    exact .inl rfl
  | advanceClock w readings =>
    dsimp only at hstep
    split_ifs at hstep
    obtain ⟨timer, -, rfl⟩ := Option.map_eq_some_iff.mp hstep
    exact .inl rfl
  | addTask wake =>
    obtain ⟨id, -, hstep⟩ := Option.bind_eq_some_iff.mp hstep
    obtain ⟨pool, -, rfl⟩ := Option.map_eq_some_iff.mp hstep
    exact .inl rfl
  | work w errno =>
    obtain ⟨pool, -, rfl⟩ := Option.map_eq_some_iff.mp hstep
    split_ifs with hcalls
    · exact .inr (.inr ⟨w, errno, rfl, hcalls, rfl⟩)
    · exact .inl rfl
  | wakeUp w =>
    obtain ⟨pool, -, rfl⟩ := Option.map_eq_some_iff.mp hstep
    exact .inl rfl
  | stop =>
    obtain ⟨pool, -, rfl⟩ := Option.map_eq_some_iff.mp hstep
    exact .inl rfl

/-- Without a call by a worker, the executions remain on the loop. -/
theorem OnLoop.next (h : s.OnLoop) (hleaves : s.LeavesRetry tickers a)
    (hstep : DelayedRetry.next undef n tickers fuel s a = some t) : t.OnLoop := by
  rcases next_executions hstep with heq | heq | ⟨w, errno, rfl, hcalls, -⟩
  · rw [OnLoop, heq]
    exact h
  · intro thread hmem
    rw [heq] at hmem
    rcases List.mem_append.mp hmem with hmem | hmem
    · exact h thread hmem
    · exact List.mem_singleton.mp hmem
  · exact absurd hcalls hleaves

/-- As long as the pool has not been stopped, no retry comes due: one that is added is filed
in the timer, and no reading of the clock is within a tick of the expiration of one that
waits there. -/
def KeepsRetries (undef : ℕ → Bool) (s : DelayedRetry) : Action → Prop
  | .loop e now => s.pool.isStarted = true → ∀ c ∈ s.connector.next e,
      ∀ d ∈ delay s.connector c, s.timer.NotDue undef (now + (d * 1000 : ℕ))
  | .advanceClock _ readings => s.pool.isStarted = true → ∀ id ∈ s.retries,
      ∀ e ∈ s.timer.entries id, ∀ w ∈ s.timer.wheels.head?, ∀ r ∈ readings,
        r.now + w.tickMs ≤ e.expiration
  | .add _ | .addTask _ | .work _ _ | .wakeUp _ | .stop => True

instance (undef : ℕ → Bool) [Decidable (∀ k, undef k = true)] (s : DelayedRetry) (a : Action) :
    Decidable (s.KeepsRetries undef a) :=
  match a with
  | .loop e now => inferInstanceAs (Decidable (s.pool.isStarted = true →
      ∀ c ∈ s.connector.next e, ∀ d ∈ delay s.connector c,
        s.timer.NotDue undef (now + (d * 1000 : ℕ))))
  | .advanceClock _ readings => inferInstanceAs (Decidable (s.pool.isStarted = true →
      ∀ id ∈ s.retries, ∀ e ∈ s.timer.entries id, ∀ w ∈ s.timer.wheels.head?,
        ∀ r ∈ readings, r.now + w.tickMs ≤ e.expiration))
  | .add _ | .addTask _ | .work _ _ | .wakeUp _ | .stop => .isTrue trivial

/-- The invariant, for a timer with the given tick: the retries are tasks of the timer which
the pool has not accepted, and until the pool is stopped they wait in the timer. -/
structure Waits (undef : ℕ → Bool) (n tickers : ℕ) (tickMs : TimeEntry) (s : DelayedRetry) :
    Prop where
  steady : s.timer.Steady tickMs
  pool : ThreadPool.Inv n s.pool
  accepted_lt : ∀ task ∈ s.pool.accepted, task < tickers + s.timer.created
  retries_lt : ∀ id ∈ s.retries, id < s.timer.created
  not_accepted : ∀ id ∈ s.retries, tickers + id ∉ s.pool.accepted
  waits : s.pool.isStarted = true → ∀ id ∈ s.retries, ∃ x, s.timer.Awaits undef id x

variable {tickMs : TimeEntry} {timer : Timer} {pool : ThreadPool}

/-- The tick of the first wheel is that of the timer. -/
theorem Waits.exists_first (h : s.Waits undef n tickers tickMs) :
    ∃ w ∈ s.timer.wheels.head?, w.tickMs = tickMs := by
  obtain ⟨now, hclocked⟩ := h.steady.clocked
  obtain ⟨w, hw, htick, -⟩ := hclocked.first
  exact ⟨w, Timer.head?_wheels hw, htick⟩

/-- An operation of the timer that adds no retry. -/
theorem Waits.withTimer (h : s.Waits undef n tickers tickMs) (hsteady : timer.Steady tickMs)
    (hcreated : s.timer.created ≤ timer.created)
    (hholds : s.pool.isStarted = true → ∀ id ∈ s.retries, ∀ x, s.timer.Awaits undef id x →
      timer.Awaits undef id x) : Waits undef n tickers tickMs { s with timer } where
  steady := hsteady
  pool := h.pool
  accepted_lt := fun task htask => (h.accepted_lt task htask).trans_le (by simpa using hcreated)
  retries_lt := fun id hid => (h.retries_lt id hid).trans_le hcreated
  not_accepted := h.not_accepted
  waits := by
    intro hstarted id hid
    obtain ⟨x, hx⟩ := h.waits hstarted id hid
    exact ⟨x, hholds hstarted id hid x hx⟩

/-- A step of the pool other than `addTask`. -/
theorem Waits.withPool (h : s.Waits undef n tickers tickMs) {b : ThreadPool.Action}
    (hnext : s.pool.next n b = some pool) (hne : ∀ task wake, b ≠ .addTask task wake) :
    Waits undef n tickers tickMs { s with pool } := by
  obtain ⟨haccepted, hstarted⟩ := ThreadPool.next_frame hnext hne
  refine ⟨h.steady, h.pool.next hnext, ?_, h.retries_lt, ?_, fun hrun => h.waits (hstarted hrun)⟩
  · show ∀ task ∈ pool.accepted, _
    rw [haccepted]
    exact h.accepted_lt
  · show ∀ id ∈ s.retries, tickers + id ∉ pool.accepted
    rw [haccepted]
    exact h.not_accepted

/-- `addTask` of the next function that the timer has handed over, which is no retry. -/
theorem Waits.addTask (h : s.Waits undef n tickers tickMs) {id pushed : ℕ} {wake : Option ℕ}
    (hid : id ∈ s.timer.threadPool) (hadd : s.pool.addTask n (tickers + id) wake = some pool) :
    Waits undef n tickers tickMs { s with pool, pushed } := by
  obtain ⟨hstarted, hcases⟩ := ThreadPool.addTask_frame hadd
  refine ⟨h.steady, h.pool.addTask hadd, ?_, h.retries_lt, ?_,
    fun hrun => h.waits (hstarted ▸ hrun)⟩
  · intro task htask
    have htask : task ∈ pool.accepted := htask
    rcases hcases with ⟨-, haccepted⟩ | ⟨-, haccepted⟩
    · rw [haccepted] at htask
      rcases List.mem_append.mp htask with htask | htask
      · exact h.accepted_lt task htask
      · rw [List.mem_singleton.mp htask]
        exact Nat.add_lt_add_left (h.steady.numbered.handed_lt id hid) tickers
    · rw [haccepted] at htask
      exact h.accepted_lt task htask
  · intro id' hid' htask
    have htask : tickers + id' ∈ pool.accepted := htask
    rcases hcases with ⟨hrun, haccepted⟩ | ⟨-, haccepted⟩
    · rw [haccepted] at htask
      rcases List.mem_append.mp htask with htask | htask
      · exact h.not_accepted id' hid' htask
      · obtain ⟨x, hx⟩ := h.waits hrun id' hid'
        obtain rfl : id' = id := by simpa using htask
        exact hx.kept hid
    · rw [haccepted] at htask
      exact h.not_accepted id' hid' htask

/-- An operation that has succeeded. -/
theorem eq_ok_of_toOption {ε α : Type*} {r : Except ε α} {x : α} (h : r.toOption = some x) :
    r = .ok x := by
  cases r with
  | error e => cases h
  | ok y => exact congrArg Except.ok (Option.some.inj h)

/-- A new retry, which is filed in the timer if the pool has not been stopped. -/
theorem Waits.runAfter (h : s.Waits undef n tickers tickMs) {now : TimeEntry} {ms : Option ℕ}
    (hc : s.pool.isStarted = true → ∀ d ∈ ms, s.timer.NotDue undef (now + (d * 1000 : ℕ)))
    (hrun : DelayedRetry.runAfter undef fuel now s.timer ms = some timer) :
    Waits undef n tickers tickMs { s with
      timer, retries := s.retries ++ (ms.map fun _ => s.timer.created).toList } := by
  cases ms with
  | none =>
    obtain rfl := Option.some.inj hrun
    have hsame : s.retries ++ ((none : Option ℕ).map fun _ => s.timer.created).toList =
        s.retries := List.append_nil _
    rw [hsame]
    exact h
  | some d =>
    have hadd : s.timer.add undef fuel (now + (d * 1000 : ℕ)) = .ok timer :=
      eq_ok_of_toOption hrun
    obtain ⟨hsteady, hcreated, hholds, hnew⟩ := h.steady.add hadd
    have hold : Waits undef n tickers tickMs { s with timer } :=
      h.withTimer hsteady (by omega) fun _ id _ x hx => hholds id x hx
    have hfresh : ∀ id ∈ s.retries ++ [s.timer.created], id ∈ s.retries ∨ id = s.timer.created := by
      simp
    refine ⟨hold.steady, hold.pool, hold.accepted_lt, fun id hid => ?_, fun id hid => ?_,
      fun hstarted id hid => ?_⟩
    · rcases hfresh id hid with hid | rfl
      · exact hold.retries_lt id hid
      · show s.timer.created < timer.created
        omega
    · rcases hfresh id hid with hid | rfl
      · exact hold.not_accepted id hid
      · intro hmem
        exact lt_irrefl _ (h.accepted_lt _ hmem)
    · rcases hfresh id hid with hid | rfl
      · exact hold.waits hstarted id hid
      · exact ⟨_, hnew (hc hstarted d rfl)⟩

/-- A worker calls no retry. -/
theorem Waits.not_callsRetry (h : s.Waits undef n tickers tickMs) {w : ℕ} (hw : w < n) :
    ¬ s.CallsRetry tickers w := by
  rintro ⟨id, hid, hrunning⟩
  exact h.not_accepted id hid (h.pool.mem_accepted hw hrunning)

/-- A worker that goes on is one of the pool's. -/
theorem lt_of_work {w : ℕ} (hnext : s.pool.next n (.work w) = some pool) : w < n := by
  by_contra hw
  rw [ThreadPool.next, if_neg hw] at hnext
  cases hnext

/-- The pool when its first tasks are the tickers. -/
theorem inv_pool (n tickers : ℕ) :
    ThreadPool.Inv n { tasks := List.range tickers, accepted := List.range tickers } where
  tasks := by simp [ThreadPool.Worker.held]
  stopped := nofun
  testingEmpty := nofun
  exited := nofun
  joining := nofun
  returned := nofun

/-- Every step that meets the condition keeps the invariant, and no worker calls a retry. -/
theorem Waits.next (h : s.Waits undef n tickers tickMs) (hc : s.KeepsRetries undef a)
    (hstep : DelayedRetry.next undef n tickers fuel s a = some t) :
    t.Waits undef n tickers tickMs ∧ s.LeavesRetry tickers a := by
  unfold DelayedRetry.next at hstep
  split_ifs at hstep
  cases a with
  | loop e now =>
    dsimp only at hstep
    split_ifs at hstep
    obtain ⟨c, hnext, hstep⟩ := Option.bind_eq_some_iff.mp hstep
    obtain ⟨timer, hrun, rfl⟩ := Option.map_eq_some_iff.mp hstep
    have hwaits := h.runAfter (fun hstarted => hc hstarted c hnext) hrun
    exact ⟨⟨hwaits.steady, hwaits.pool, hwaits.accepted_lt, hwaits.retries_lt,
      hwaits.not_accepted, hwaits.waits⟩, trivial⟩
  | add expiration =>
    obtain ⟨timer, hadd, rfl⟩ := Option.map_eq_some_iff.mp hstep
    obtain ⟨hsteady, hcreated, hholds, -⟩ := h.steady.add (eq_ok_of_toOption hadd)
    exact ⟨h.withTimer hsteady (by omega) fun _ id _ x hx => hholds id x hx, trivial⟩
  | advanceClock w readings =>
    dsimp only at hstep
    split_ifs at hstep
    obtain ⟨timer, hadvance, rfl⟩ := Option.map_eq_some_iff.mp hstep
    obtain ⟨hsteady, hcreated, hholds⟩ := h.steady.advanceClock (eq_ok_of_toOption hadvance)
    refine ⟨h.withTimer hsteady hcreated.ge fun hstarted id hid x hx => ?_, trivial⟩
    obtain ⟨w', hw', rfl⟩ := h.exists_first
    obtain ⟨e, hentry, rfl⟩ := hx.entry
    exact hholds id _ (hc hstarted id hid e hentry w' hw') hx
  | addTask wake =>
    obtain ⟨id, hid, hstep⟩ := Option.bind_eq_some_iff.mp hstep
    obtain ⟨pool, hadd, rfl⟩ := Option.map_eq_some_iff.mp hstep
    exact ⟨h.addTask (List.mem_of_getElem? hid) hadd, trivial⟩
  | work w errno =>
    obtain ⟨pool, hnext, rfl⟩ := Option.map_eq_some_iff.mp hstep
    have hnot := h.not_callsRetry (lt_of_work hnext)
    rw [if_neg hnot]
    exact ⟨h.withPool hnext nofun, hnot⟩
  | wakeUp w =>
    obtain ⟨pool, hnext, rfl⟩ := Option.map_eq_some_iff.mp hstep
    exact ⟨h.withPool hnext nofun, trivial⟩
  | stop =>
    obtain ⟨pool, hnext, rfl⟩ := Option.map_eq_some_iff.mp hstep
    exact ⟨h.withPool (b := .stop) hnext nofun, trivial⟩

/-- The parameters with which an event loop creates the timer, at a time of day. -/
def defaultTimer (startMs : TimeEntry) : Timer := Timer.new 200000 20 startMs

/-- A connector on a loop whose timer has been created at a time of day. -/
def fresh (startMs : TimeEntry) : DelayedRetry where
  connector := { retry_ := true }
  timer := defaultTimer startMs
  pool := { tasks := List.range 2, accepted := List.range 2 }

/-- A new connector is an initial state. -/
theorem fresh_init {startMs : TimeEntry} (h : 0 ≤ startMs) :
    (machine undef 4 2).init (fresh startMs) :=
  ⟨defaultTimer startMs, ⟨200000, 20, startMs, by decide, by decide, h, rfl⟩, rfl⟩

/-- Steps that can be performed in order, with the same fuel, are a run. -/
theorem run_of_foldlM {actions : List Action}
    (hrun : actions.foldlM (next undef n tickers fuel) s = some t) :
    (machine undef n tickers).Run s
      (Machine.traceOf (next undef n tickers fuel) s actions) t := by
  have hfuel : (Machine.ofNext (fun _ => True) (next undef n tickers fuel)).Run s
      (Machine.traceOf (next undef n tickers fuel) s actions) t := .of_foldlM hrun
  exact hfuel.mono (N := machine undef n tickers) fun _ _ _ hstep => ⟨fuel, hstep⟩

/-- The first attempt fails after some time, and the retry waits in the timer. Another task is
due at once, and a worker executes it. The pool is stopped before the retry is due, so that
it is handed over and not accepted. -/
def waiting : List Action :=
  [.loop (.start .EINPROGRESS) 1000000, .loop (.poll POLLERR) 1300000,
    .loop (.callback 111 false) 1300000, .add 1150000, .work 0 .success, .work 0 .success,
    .advanceClock 0 [{ now := 1500000 }], .addTask none, .work 1 .success, .work 1 .success,
    .work 2 .success, .work 2 .success, .work 2 .success, .stop,
    .advanceClock 0 [{ now := 2000000 }, { now := 2000000 }], .addTask none]

/-- The state after `waiting`. -/
def afterWaiting : DelayedRetry :=
  (waiting.foldlM (next (fun _ => true) 4 2 10) (fresh 1000000)).getD (fresh 1000000)

/-- The steps of `waiting` can be performed. -/
theorem afterWaiting_eq :
    waiting.foldlM (next (fun _ => true) 4 2 10) (fresh 1000000) = some afterWaiting := by
  have hsome : (waiting.foldlM (next (fun _ => true) 4 2 10) (fresh 1000000)).isSome = true := by
    decide +kernel
  exact (Option.getD_of_ne_none (Option.isSome_iff_ne_none.mp hsome) _).symm

instance sureToYieldTrue : Decidable (∀ k : ℕ, (fun _ => true) k = true) := .isTrue fun _ => rfl

/-- The first attempt is refused, a ticker hands the retry over 600 milliseconds later, and
a worker of the pool calls it. -/
def retried : List Action :=
  [.loop (.start .ECONNREFUSED) 1000000, .work 0 .success, .work 0 .success,
    .advanceClock 0 [{ now := 1600000 }, { now := 1600000 }], .addTask none,
    .work 1 .success, .work 1 .success, .work 2 .success, .work 2 .success, .work 2 .success]

/-- The state after `retried`. -/
def afterRetried : DelayedRetry :=
  (retried.foldlM (next (fun _ => true) 4 2 10) (fresh 1000000)).getD (fresh 1000000)

/-- The steps of `retried` can be performed. -/
theorem afterRetried_eq :
    retried.foldlM (next (fun _ => true) 4 2 10) (fresh 1000000) = some afterRetried := by
  have hsome : (retried.foldlM (next (fun _ => true) 4 2 10) (fresh 1000000)).isSome = true := by
    decide +kernel
  exact (Option.getD_of_ne_none (Option.isSome_iff_ne_none.mp hsome) _).symm

end DelayedRetry

end DuoDuo.Net
