import DuoDuo.Library.GapQueue
import DuoDuo.Library.Machine
import Mathlib

/-!
# Waking up a blocked event loop

`EventLoop::queueInLoop` enqueues a functor and then decides whether to write to
the wakeup descriptor. The steps below are those of the calls to `queueInLoop`
and `quit`, of `EventLoop::loop`, `handleRead` and `doPendingFuncs`; the calls of
other threads interleave with the loop thread at every point. The functor queue
is a queue with gaps, announced by the exchange and published by the link. The
flag `callingPendingFuncs_` starts with an arbitrary value, since the constructor
does not set it.
-/

namespace DuoDuo.Net

open Library

/-- A thread that calls into the loop. -/
inductive Caller (Thread : Type*)
  | loopThread
  | other (t : Thread)
  deriving DecidableEq

/-- The position of a thread inside `queueInLoop` or `quit`. -/
inductive CallPoint
  /-- The thread is in neither. -/
  | idle
  /-- `funcs_.enqueue` has executed its exchange and not yet its link. -/
  | enqueuing
  /-- `funcs_.enqueue` has returned, and `wakeup` has still to be decided. -/
  | enqueued
  /-- `quit` has set `quit_` and is about to call `wakeup`. -/
  | quitting
  deriving DecidableEq

/-- The position of the loop thread in `EventLoop::loop`. -/
inductive LoopPhase
  /-- The thread is not inside `loop`. -/
  | outside
  /-- The test of `quit_`. -/
  | top
  /-- Blocked in `poller_->poll`. -/
  | polling
  /-- Dispatching channels; the wakeup channel may still be among them. -/
  | handling (wakeupActive : Bool)
  /-- The outer test of `doPendingFuncs`. -/
  | checking
  /-- The inner `dequeue` of `doPendingFuncs`. -/
  | draining
  /-- A functor is running. -/
  | running
  /-- The last functor is destroyed, which may run code of the user. -/
  | destroying
  deriving DecidableEq

/-- The user's code may run on the loop thread. -/
def LoopPhase.userRuns : LoopPhase → Bool
  | .outside | .handling _ | .running | .destroying => true
  | .top | .polling | .checking | .draining => false

/-- A functor given to `queueInLoop`. -/
abbrev FuncId := ℕ

/-- The part of `EventLoop` that decides about wakeups, and the threads that call it. -/
structure WakeLoop (Thread : Type*) where
  /-- Where the loop thread is. -/
  phase : LoopPhase := .outside
  /-- `callingPendingFuncs_`. -/
  callingPendingFuncs : Bool
  /-- `quit_`. -/
  quit : Bool := false
  /-- The counter of `wakeupFd_`. -/
  wakeupFd : ℕ := 0
  /-- `funcs_`. -/
  funcs : GapQueue (Caller Thread) FuncId := {}
  /-- The calls in progress. -/
  callers : Caller Thread → CallPoint := fun _ => .idle

/-- The steps of the loop and of the threads that call it. -/
inductive WakeStep (Thread : Type*)
  /-- `queueInLoop`, up to the exchange of `funcs_.enqueue`. -/
  | exchange (c : Caller Thread) (f : FuncId)
  /-- The link store of `funcs_.enqueue`. -/
  | link (c : Caller Thread)
  /-- `quit_ = true` in `quit`. -/
  | quit (c : Caller Thread)
  /-- The end of `queueInLoop` or `quit`, with its call of `wakeup`, if any. -/
  | wakeup (c : Caller Thread)
  /-- `loop` is called. -/
  | loop
  /-- The test of `quit_`. -/
  | testQuit
  /-- `poll` returns, with or without the wakeup channel. -/
  | pollReturns (wakeupActive : Bool)
  /-- `handleRead` of the wakeup channel. -/
  | handleRead
  /-- `doPendingFuncs` begins. -/
  | doPendingFuncs
  /-- `funcs_.empty()`. -/
  | testEmpty
  /-- `funcs_.dequeue(func)`. -/
  | dequeue
  /-- The functor returns. -/
  | functorReturns
  /-- The last functor has been destroyed. -/
  | destroyed

namespace WakeLoop

variable {Thread : Type*}

/-- The largest value of an eventfd counter. -/
def eventfdMax : ℕ := 2 ^ 64 - 2

/-- `EventLoop::wakeup`: a write to the eventfd, which fails when the counter is full. -/
def wakeup (l : WakeLoop Thread) : WakeLoop Thread :=
  { l with wakeupFd := if l.wakeupFd < eventfdMax then l.wakeupFd + 1 else l.wakeupFd }

/-- Move the call of `c` on. -/
def setCaller [DecidableEq Thread] (l : WakeLoop Thread) (c : Caller Thread) (point : CallPoint) : WakeLoop Thread :=
  { l with callers := Function.update l.callers c point }

/-- The thread `c` may execute code of the user now. -/
def mayCall (l : WakeLoop Thread) : Caller Thread → Bool
  | .loopThread => l.phase.userRuns
  | .other _ => true

/-- The test at the end of `queueInLoop`. -/
def needsWakeup (l : WakeLoop Thread) : Caller Thread → Bool
  | .loopThread => !l.callingPendingFuncs
  | .other _ => true

/-- The wakeup descriptor is readable. -/
def readable (l : WakeLoop Thread) : Bool := 0 < l.wakeupFd

/-- A step that only the loop thread makes, outside the calls of the user. -/
def loopNext (l : WakeLoop Thread) : WakeStep Thread → Option (WakeLoop Thread)
  | .loop => if l.phase = .outside then some { l with phase := .top, quit := false } else none
  | .testQuit =>
    if l.phase = .top then some { l with phase := if l.quit then .outside else .polling } else none
  | .pollReturns wakeupActive =>
    if l.phase = .polling ∧ (wakeupActive → l.readable) then
      some { l with phase := .handling wakeupActive }
    else none
  | .handleRead =>
    if l.phase = .handling true then some { l with phase := .handling false, wakeupFd := 0 }
    else none
  | .doPendingFuncs =>
    if l.phase = .handling false then
      some { l with phase := .checking, callingPendingFuncs := true }
    else none
  | .testEmpty =>
    if l.phase = .checking then
      if l.funcs.empty then some { l with phase := .top, callingPendingFuncs := false }
      else some { l with phase := .draining }
    else none
  | .dequeue =>
    if l.phase = .draining then
      match l.funcs.take with
      | some (_, funcs) => some { l with phase := .running, funcs }
      | none => some { l with phase := .destroying }
    else none
  | .functorReturns => if l.phase = .running then some { l with phase := .draining } else none
  | .destroyed => if l.phase = .destroying then some { l with phase := .checking } else none
  | _ => none

/-- `quit_ = true` in `quit`, which calls `wakeup` only on other threads. -/
def startQuit [DecidableEq Thread] (l : WakeLoop Thread) : Caller Thread → WakeLoop Thread
  | .loopThread => { l with quit := true }
  | .other t => { l.setCaller (.other t) .quitting with quit := true }

/-- The transitions of the loop and of its callers. -/
def next [DecidableEq Thread] (l : WakeLoop Thread) : WakeStep Thread → Option (WakeLoop Thread)
  | .exchange c f =>
    if l.callers c = .idle ∧ l.mayCall c then
      some { l.setCaller c .enqueuing with funcs := l.funcs.announce c f }
    else none
  | .link c =>
    if l.callers c = .enqueuing then
      some { l.setCaller c .enqueued with funcs := l.funcs.publish c }
    else none
  | .quit c =>
    if l.callers c = .idle ∧ l.mayCall c then some (l.startQuit c) else none
  | .wakeup c =>
    match l.callers c with
    | .enqueued => some ((if l.needsWakeup c then l.wakeup else l).setCaller c .idle)
    | .quitting => some (l.wakeup.setCaller c .idle)
    | _ => none
  | e => if l.callers .loopThread = .idle then l.loopNext e else none

/-- The loop after its constructor, whose flag has the value `flag`. -/
def constructed (flag : Bool) : WakeLoop Thread := { callingPendingFuncs := flag }

/-- The machine of the loop whose flag starts as `flag`. -/
def machine (Thread : Type*) [DecidableEq Thread] (flag : Bool) :
    Machine (WakeLoop Thread) (WakeStep Thread) :=
  Machine.ofNext (fun l => l = constructed flag) next

/-- While the loop is blocked and no call is between its enqueue and its wakeup,
the descriptor is readable or the functor queue shows nothing. If, moreover, no
enqueue is half done, the queue is empty. -/
def NoLostWakeup (l : WakeLoop Thread) : Prop :=
  l.phase = .polling → (∀ c, l.callers c ≠ .enqueued) →
    l.readable = true ∨
      (l.funcs.empty = true ∧ ((∀ c, l.callers c ≠ .enqueuing) → l.funcs.entries = []))

/-- The condition on a step: a `queueInLoop` of the loop thread outside `loop` finds
the flag clear. -/
def FlagClear (l : WakeLoop Thread) : WakeStep Thread → Prop
  | .wakeup .loopThread => l.phase = .outside → l.callingPendingFuncs = false
  | _ => True

/-- The phases in which nobody is going to look at the queue before the loop blocks. -/
def unattended : LoopPhase → Bool
  | .outside | .top | .polling => true
  | _ => false

/-- What holds between the steps when the loop thread never misreads the flag. -/
structure Attended (l : WakeLoop Thread) : Prop where
  /-- A functor that the loop has not seen comes with a wakeup, made or to be made. -/
  pending : unattended l.phase = true →
    l.readable = true ∨ l.funcs.empty = true ∨ ∃ c, l.callers c = .enqueued
  /-- The loop thread is inside a call only where the user's code runs. -/
  resting : l.phase.userRuns = false → l.callers .loopThread = .idle
  /-- A gap belongs to a call that is half done. -/
  gaps : ∀ e ∈ l.funcs.entries, ∀ c, e.2 = some c → l.callers c = .enqueuing

@[simp] theorem readable_wakeup (l : WakeLoop Thread) : l.wakeup.readable = true := by
  unfold wakeup readable
  by_cases h : l.wakeupFd < eventfdMax
  · simp [h]
  · simp only [h, if_false, decide_eq_true_eq]
    unfold eventfdMax at h
    omega

/-- The loop that has just been constructed is attended. -/
theorem Attended.constructed (flag : Bool) : (constructed flag : WakeLoop Thread).Attended where
  pending := fun _ => .inr (.inl rfl)
  resting := fun _ => rfl
  gaps := by simp [WakeLoop.constructed]

/-- A loop thread that is inside a call runs the user's code. -/
theorem Attended.userRuns {l : WakeLoop Thread} (h : l.Attended)
    (hcall : l.callers .loopThread ≠ .idle) : l.phase.userRuns = true := by
  cases hruns : l.phase.userRuns with
  | true => rfl
  | false => exact absurd (h.resting hruns) hcall

/-- A thread that is inside a call may call. -/
theorem Attended.mayCall {l : WakeLoop Thread} (h : l.Attended) {c : Caller Thread}
    (hc : l.callers c ≠ .idle) : l.mayCall c = true := by
  cases c with
  | loopThread => exact h.userRuns hc
  | other t => rfl

/-- A step of the loop itself keeps the loop attended. -/
theorem Attended.loopNext {l l' : WakeLoop Thread} (h : l.Attended) {e : WakeStep Thread}
    (hidle : l.callers .loopThread = .idle) (hnext : l.loopNext e = some l') : l'.Attended := by
  cases e with
  | exchange | link | quit | wakeup => cases hnext
  | loop | testQuit =>
    rw [WakeLoop.loopNext, Option.ite_none_right_eq_some, Option.some.injEq] at hnext
    obtain ⟨hphase, rfl⟩ := hnext
    exact ⟨fun _ => h.pending (by rw [hphase]; rfl), fun _ => hidle, h.gaps⟩
  | pollReturns | handleRead | doPendingFuncs | functorReturns | destroyed =>
    rw [WakeLoop.loopNext, Option.ite_none_right_eq_some, Option.some.injEq] at hnext
    obtain ⟨-, rfl⟩ := hnext
    exact ⟨fun hphase => (by cases hphase), fun _ => hidle, h.gaps⟩
  | testEmpty =>
    rw [WakeLoop.loopNext, Option.ite_none_right_eq_some] at hnext
    obtain ⟨-, hnext⟩ := hnext
    split at hnext
    · next hempty =>
      obtain rfl := Option.some.inj hnext
      exact ⟨fun _ => .inr (.inl hempty), fun _ => hidle, h.gaps⟩
    · obtain rfl := Option.some.inj hnext
      exact ⟨fun hphase => (by cases hphase), fun _ => hidle, h.gaps⟩
  | dequeue =>
    rw [WakeLoop.loopNext, Option.ite_none_right_eq_some] at hnext
    obtain ⟨-, hnext⟩ := hnext
    split at hnext
    · next f funcs htake =>
      obtain rfl := Option.some.inj hnext
      obtain ⟨rest, hentries, rfl⟩ := GapQueue.take_eq_some htake
      exact ⟨fun hphase => (by cases hphase), fun _ => hidle,
        fun e he => h.gaps e (by rw [hentries]; exact List.mem_cons_of_mem _ he)⟩
    · obtain rfl := Option.some.inj hnext
      exact ⟨fun hphase => (by cases hphase), fun _ => hidle, h.gaps⟩

/-- An attended loop has lost no wakeup. -/
theorem Attended.noLostWakeup {l : WakeLoop Thread} (h : l.Attended) : l.NoLostWakeup := by
  intro hphase hcalls
  rcases h.pending (by rw [hphase]; rfl) with hread | hempty | ⟨c, hc⟩
  · exact .inl hread
  · refine .inr ⟨hempty, fun hlinks => GapQueue.entries_eq_nil hempty fun e he => ?_⟩
    cases howner : e.2 with
    | none => rfl
    | some c => exact absurd (h.gaps e he c howner) (hlinks c)
  · exact absurd hc (hcalls c)

/-- A loop whose flag has a meaning: set only inside `doPendingFuncs`. -/
def FlagAccurate (l : WakeLoop Thread) : Prop :=
  unattended l.phase = true ∨ (∃ b, l.phase = .handling b) → l.callingPendingFuncs = false

/-- An accurate flag is not misread. -/
theorem FlagAccurate.flagClear {l : WakeLoop Thread} (h : l.FlagAccurate) (e : WakeStep Thread) :
    l.FlagClear e := by
  cases e with
  | wakeup c =>
    cases c with
    | loopThread => exact fun hphase => h (.inl (by rw [hphase]; rfl))
    | other t => exact trivial
  | _ => exact trivial

variable [DecidableEq Thread]

/-- Moving on a call of a thread that may call keeps the loop thread's calls in place. -/
theorem Attended.resting_setCaller {l : WakeLoop Thread} (h : l.Attended) {c : Caller Thread}
    (hc : l.mayCall c = true) (point : CallPoint) (hphase : l.phase.userRuns = false) :
    (l.setCaller c point).callers .loopThread = .idle := by
  cases c with
  | loopThread =>
    have hruns : l.phase.userRuns = true := hc
    rw [hphase] at hruns
    cases hruns
  | other t => simpa [setCaller] using h.resting hphase

/-- The exchange of `enqueue` puts a gap at the end of the queue. -/
theorem Attended.exchange {l : WakeLoop Thread} (h : l.Attended) {c : Caller Thread}
    (f : FuncId) (hidle : l.callers c = .idle) (hc : l.mayCall c = true) :
    ({ l.setCaller c .enqueuing with funcs := l.funcs.announce c f } : WakeLoop Thread).Attended
    where
  pending := by
    intro hphase
    rcases h.pending hphase with hread | hempty | ⟨d, hd⟩
    · exact .inl hread
    · exact .inr (.inl (GapQueue.empty_announce hempty c f))
    · have hdc : d ≠ c := by
        rintro rfl
        rw [hidle] at hd
        cases hd
      exact .inr (.inr ⟨d, by simpa [setCaller, hdc] using hd⟩)
  resting := fun hphase => h.resting_setCaller hc _ hphase
  gaps := by
    intro e he d hd
    rcases List.mem_append.mp he with he | he
    · have hgap := h.gaps e he d hd
      by_cases hdc : d = c
      · simp [setCaller, hdc]
      · simpa [setCaller, hdc] using hgap
    · obtain rfl := List.mem_singleton.mp he
      obtain rfl := Option.some.inj hd
      simp [setCaller]

/-- The link of `enqueue` leaves its caller responsible for the wakeup. -/
theorem Attended.link {l : WakeLoop Thread} (h : l.Attended) {c : Caller Thread}
    (hc : l.callers c = .enqueuing) :
    ({ l.setCaller c .enqueued with funcs := l.funcs.publish c } : WakeLoop Thread).Attended
    where
  pending := fun _ => .inr (.inr ⟨c, by simp [setCaller]⟩)
  resting := fun hphase => h.resting_setCaller (h.mayCall (by simp [hc])) _ hphase
  gaps := by
    intro e he d hd
    obtain ⟨hdc, he'⟩ := GapQueue.owner_of_publish he hd
    simpa [setCaller, hdc] using h.gaps e he' d hd

/-- A call that ends leaves no gap of its own. -/
theorem Attended.gaps_setCaller {l : WakeLoop Thread} (h : l.Attended) {c : Caller Thread}
    (hc : l.callers c ≠ .enqueuing) (point : CallPoint) :
    ∀ e ∈ l.funcs.entries, ∀ d, e.2 = some d →
      (l.setCaller c point).callers d = .enqueuing := by
  intro e he d hd
  have hgap := h.gaps e he d hd
  have hdc : d ≠ c := by
    rintro rfl
    exact hc hgap
  simpa [setCaller, hdc] using hgap

/-- A call that ends with a wakeup leaves the descriptor readable. -/
theorem Attended.wakeup {l : WakeLoop Thread} (h : l.Attended) {c : Caller Thread}
    (hidle : l.callers c ≠ .idle) (hc : l.callers c ≠ .enqueuing) :
    (l.wakeup.setCaller c .idle).Attended where
  pending := fun _ => .inl (readable_wakeup l)
  resting := fun hphase => h.resting_setCaller (h.mayCall hidle) _ hphase
  gaps := h.gaps_setCaller hc _

/-- A call of the loop thread that ends without a wakeup is harmless where the loop
is going to look at the queue. -/
theorem Attended.noWakeup {l : WakeLoop Thread} (h : l.Attended) {c : Caller Thread}
    (hidle : l.callers c ≠ .idle) (hc : l.callers c ≠ .enqueuing)
    (hphase : unattended l.phase = false) : (l.setCaller c .idle).Attended where
  pending := by
    intro hun
    have hun' : unattended l.phase = true := hun
    rw [hphase] at hun'
    cases hun'
  resting := fun hruns => h.resting_setCaller (h.mayCall hidle) _ hruns
  gaps := h.gaps_setCaller hc _

/-- The end of a call keeps the loop attended, if the flag is not misread. -/
theorem Attended.endCall {l l' : WakeLoop Thread} (h : l.Attended) {c : Caller Thread}
    (hflag : l.FlagClear (.wakeup c)) (hnext : l.next (.wakeup c) = some l') : l'.Attended := by
  simp only [WakeLoop.next] at hnext
  split at hnext
  · next hc =>
    obtain rfl := Option.some.inj hnext
    cases hneeds : l.needsWakeup c with
    | true => exact h.wakeup (by simp [hc]) (by simp [hc])
    | false =>
      -- only the loop thread skips the wakeup, and only with the flag set
      refine h.noWakeup (by simp [hc]) (by simp [hc]) ?_
      cases c with
      | other t => cases hneeds
      | loopThread =>
        have hruns := h.userRuns (by simp [hc])
        have hset : l.callingPendingFuncs = true := by simpa [needsWakeup] using hneeds
        cases hphase : l.phase with
        | outside => simp [hflag hphase] at hset
        | top | polling => simp [hphase, LoopPhase.userRuns] at hruns
        | handling | checking | draining | running | destroying => rfl
  · next hc =>
    obtain rfl := Option.some.inj hnext
    exact h.wakeup (by simp [hc]) (by simp [hc])
  · cases hnext

/-- Every step that does not misread the flag keeps the loop attended. -/
theorem Attended.next {l l' : WakeLoop Thread} (h : l.Attended) {e : WakeStep Thread}
    (hflag : l.FlagClear e) (hnext : l.next e = some l') : l'.Attended := by
  cases e with
  | exchange c f =>
    rw [WakeLoop.next, Option.ite_none_right_eq_some, Option.some.injEq] at hnext
    obtain ⟨⟨hidle, hc⟩, rfl⟩ := hnext
    exact h.exchange f hidle hc
  | link c =>
    rw [WakeLoop.next, Option.ite_none_right_eq_some, Option.some.injEq] at hnext
    obtain ⟨hc, rfl⟩ := hnext
    exact h.link hc
  | quit c =>
    rw [WakeLoop.next, Option.ite_none_right_eq_some, Option.some.injEq] at hnext
    obtain ⟨⟨hidle, hc⟩, rfl⟩ := hnext
    cases c with
    | loopThread => exact ⟨h.pending, h.resting, h.gaps⟩
    | other t =>
      refine ⟨fun hphase => ?_, fun hphase => h.resting_setCaller hc .quitting hphase,
        h.gaps_setCaller (by simp [hidle]) .quitting⟩
      refine (h.pending hphase).imp_right (Or.imp_right ?_)
      rintro ⟨d, hd⟩
      have hdt : d ≠ .other t := by
        rintro rfl
        rw [hidle] at hd
        cases hd
      exact ⟨d, by simpa [startQuit, setCaller, hdt] using hd⟩
  | wakeup c => exact h.endCall hflag hnext
  | loop | testQuit | pollReturns | handleRead | doPendingFuncs | testEmpty | dequeue
  | functorReturns | destroyed =>
    simp only [WakeLoop.next, Option.ite_none_right_eq_some] at hnext
    exact h.loopNext hnext.1 hnext.2

/-- The flag stays accurate. -/
theorem FlagAccurate.next {l l' : WakeLoop Thread} (h : l.FlagAccurate) {e : WakeStep Thread}
    (hnext : l.next e = some l') : l'.FlagAccurate := by
  cases e with
  | exchange c f | link c =>
    rw [WakeLoop.next, Option.ite_none_right_eq_some, Option.some.injEq] at hnext
    obtain ⟨-, rfl⟩ := hnext
    exact h
  | quit c =>
    rw [WakeLoop.next, Option.ite_none_right_eq_some, Option.some.injEq] at hnext
    obtain ⟨-, rfl⟩ := hnext
    cases c <;> exact h
  | wakeup c =>
    simp only [WakeLoop.next] at hnext
    split at hnext
    · obtain rfl := Option.some.inj hnext
      cases l.needsWakeup c <;> exact h
    · exact Option.some.inj hnext ▸ h
    · cases hnext
  | loop | testQuit | pollReturns | handleRead =>
    simp only [WakeLoop.next, WakeLoop.loopNext, Option.ite_none_right_eq_some,
      Option.some.injEq] at hnext
    obtain ⟨-, hphase, rfl⟩ := hnext
    exact fun _ => h (by simp [hphase, unattended])
  | doPendingFuncs | functorReturns | destroyed =>
    simp only [WakeLoop.next, WakeLoop.loopNext, Option.ite_none_right_eq_some,
      Option.some.injEq] at hnext
    obtain ⟨-, -, rfl⟩ := hnext
    exact fun hphase => by simp [unattended] at hphase
  | testEmpty =>
    simp only [WakeLoop.next, WakeLoop.loopNext, Option.ite_none_right_eq_some] at hnext
    obtain ⟨-, -, hnext⟩ := hnext
    split at hnext
    · obtain rfl := Option.some.inj hnext
      exact fun _ => rfl
    · obtain rfl := Option.some.inj hnext
      exact fun hphase => by simp [unattended] at hphase
  | dequeue =>
    simp only [WakeLoop.next, WakeLoop.loopNext, Option.ite_none_right_eq_some] at hnext
    obtain ⟨-, -, hnext⟩ := hnext
    split at hnext
    · obtain rfl := Option.some.inj hnext
      exact fun hphase => by simp [unattended] at hphase
    · obtain rfl := Option.some.inj hnext
      exact fun hphase => by simp [unattended] at hphase

/-- The loop thread queues a functor, enters the loop and blocks. -/
def queueThenLoop : List (WakeStep Thread) :=
  [.exchange .loopThread 0, .link .loopThread, .wakeup .loopThread, .loop, .testQuit]

/-- The loop after `queueThenLoop`. -/
def afterQueueThenLoop (flag : Bool) : WakeLoop Thread :=
  (queueThenLoop.foldlM next (constructed flag)).getD (constructed flag)

theorem afterQueueThenLoop_reachable (flag : Bool) :
    (machine Thread flag).Reachable (afterQueueThenLoop flag) := by
  have hrun : queueThenLoop.foldlM next (constructed flag : WakeLoop Thread) =
      some (afterQueueThenLoop flag) := by cases flag <;> rfl
  exact .of_foldlM (.of_init rfl) hrun

/-- With the flag set from the start, a functor queued before `loop` waits in a
blocked loop whose descriptor is not readable. -/
theorem afterQueueThenLoop_not (Thread : Type*) [DecidableEq Thread] :
    ¬ (afterQueueThenLoop true : WakeLoop Thread).NoLostWakeup := by
  intro h
  have hcalls : ∀ c, (afterQueueThenLoop true : WakeLoop Thread).callers c ≠ .enqueued := by
    intro c
    cases c <;> simp [afterQueueThenLoop, queueThenLoop, next, loopNext, constructed, setCaller,
      mayCall, LoopPhase.userRuns, needsWakeup]
  rcases h rfl hcalls with hread | ⟨hempty, -⟩
  · cases hread
  · cases hempty

/-- In every run whose calls on the loop thread do not misread the flag, no wakeup
is lost. In particular none is ever lost if the flag starts clear; if it starts
set, one can be lost. -/
theorem noLostWakeup_iff (Thread : Type*) [DecidableEq Thread] (flag : Bool) :
    (∀ trace last, (machine Thread flag).Run (constructed flag) trace last →
      (∀ p ∈ trace, p.1.FlagClear p.2) → ∀ l ∈ Machine.visited trace last, l.NoLostWakeup) ∧
    ((∀ l, (machine Thread flag).Reachable l → l.NoLostWakeup) ↔ flag = false) := by
  refine ⟨fun trace last hrun hcond l hl => ?_, fun hall => ?_, ?_⟩
  · have hattended : l.Attended := hrun.forall_visited (C := FlagClear) (I := Attended)
      (fun s e t hs hc hstep => hs.next hc hstep) (.constructed flag) hcond l hl
    exact hattended.noLostWakeup
  · cases flag with
    | false => rfl
    | true =>
      exact absurd (hall _ (afterQueueThenLoop_reachable true)) (afterQueueThenLoop_not Thread)
  · rintro rfl l hl
    have hinv : l.Attended ∧ l.FlagAccurate := by
      refine hl.invariant (I := fun l => l.Attended ∧ l.FlagAccurate) ?_ ?_
      · rintro s rfl
        exact ⟨.constructed false, fun _ => rfl⟩
      · rintro s e t ⟨hattended, haccurate⟩ hstep
        exact ⟨hattended.next (haccurate.flagClear e) hstep, haccurate.next hstep⟩
    exact hinv.1.noLostWakeup

instance (l : WakeLoop Thread) (e : WakeStep Thread) : Decidable (l.FlagClear e) :=
  match e with
  | .wakeup .loopThread => inferInstanceAs (Decidable (_ → _))
  | .wakeup (.other _) | .exchange _ _ | .link _ | .quit _ | .loop | .testQuit | .pollReturns _
  | .handleRead | .doPendingFuncs | .testEmpty | .dequeue | .functorReturns | .destroyed =>
    inferInstanceAs (Decidable True)

/-- Another thread queues a functor and wakes the loop, although the flag started set. -/
def queueElsewhere : List (WakeStep ℕ) :=
  [.loop, .testQuit, .exchange (.other 1) 0, .link (.other 1), .wakeup (.other 1)]

theorem noLostWakeup_iff_queueElsewhere :
    ∃ last, queueElsewhere.foldlM next (constructed true) = some last ∧ last.phase = .polling ∧
      last.NoLostWakeup := by
  obtain ⟨last, hlast⟩ : ∃ last, queueElsewhere.foldlM next (constructed true) = some last :=
    ⟨_, rfl⟩
  have hphase : (queueElsewhere.foldlM next (constructed true)).map WakeLoop.phase =
      some .polling := rfl
  refine ⟨last, hlast, by simpa [hlast] using hphase, ?_⟩
  exact (noLostWakeup_iff ℕ true).1 _ _ (.of_foldlM hlast) (by decide) _
    (by simp [Machine.visited])

/-- A functor that the loop thread queues before `loop` can be left waiting. -/
theorem noLostWakeup_lost : ∃ l, (machine ℕ true).Reachable l ∧ ¬ l.NoLostWakeup :=
  ⟨_, afterQueueThenLoop_reachable true, afterQueueThenLoop_not ℕ⟩

end WakeLoop

end DuoDuo.Net
