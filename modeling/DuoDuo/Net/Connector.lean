import DuoDuo.Net.EventLoop
import Mathlib.Data.List.Perm.Basic
import Mathlib.Data.List.Range

/-!
# The connector

The attempts of one `Connector`, from `start` through `connect` to the callbacks of the
channel, the deferred release of the channel and the delayed retries. The results of
`::connect`, `SO_ERROR` and the self-connect test are arbitrary, and so is the thread on
which the timer calls a delayed retry. A descriptor is named by the number of descriptors
created before it. The user's code may call `start` at any time, which includes the calls
of `errorCallback_` and `newConnectionCallback_`; apart from this these callbacks do not
concern the connector.
-/

namespace DuoDuo.Net

open Library

/-- `savedErrno`, after `::connect`. -/
inductive ConnectErrno
  | success
  | EINPROGRESS
  | EINTR
  | EISCONN
  | EAGAIN
  | EADDRINUSE
  | EADDRNOTAVAIL
  | ECONNREFUSED
  | ENETUNREACH
  | EACCES
  | EPERM
  | EAFNOSUPPORT
  | EALREADY
  | EBADF
  | EFAULT
  | ENOTSOCK
  | other (code : ℕ)
  deriving DecidableEq, Repr

/-- The branches of the switch in `Connector::connect`. -/
inductive ConnectBranch
  | connecting
  | retry
  | close
  deriving DecidableEq, Repr

/-- The branch that the switch takes. -/
def ConnectErrno.branch : ConnectErrno → ConnectBranch
  | .success | .EINPROGRESS | .EINTR | .EISCONN => .connecting
  | .EAGAIN | .EADDRINUSE | .EADDRNOTAVAIL | .ECONNREFUSED | .ENETUNREACH => .retry
  | .EACCES | .EPERM | .EAFNOSUPPORT | .EALREADY | .EBADF | .EFAULT | .ENOTSOCK => .close
  | .other _ => .close

namespace Connector

/-- `Connector::Status`. -/
inductive Status
  | Disconnected
  | Connecting
  | Connected
  deriving DecidableEq, Repr

/-- The functors of a connector in the queue of its loop. -/
inductive Functor
  | resetChannel
  | startInLoop
  deriving DecidableEq, Repr

/-- What has become of the latest attempt. -/
inductive Attempt
  | none
  | pending
  | failed
  | succeeded
  deriving DecidableEq, Repr

/-- The status that goes with an attempt. -/
def Attempt.status : Attempt → Status
  | .none | .failed => .Disconnected
  | .pending => .Connecting
  | .succeeded => .Connected

/-- `kMaxRetryDelayMs`. -/
def kMaxRetryDelayMs : ℕ := 30 * 1000

/-- `kInitRetryDelayMs`. -/
def kInitRetryDelayMs : ℕ := 500

/-- The calls that concern a connector. -/
inductive Event
  /-- The loop thread calls `start`; `::connect` gives `errno`. -/
  | start (errno : ConnectErrno)
  /-- Another thread calls `start`. -/
  | startElsewhere
  /-- The loop runs the oldest functor. -/
  | runFunctor (errno : ConnectErrno)
  /-- The timer has a delayed retry called, on the loop thread or on another one. -/
  | runDelayed (i : ℕ) (inLoop : Bool) (errno : ConnectErrno)
  /-- The poller returns the channel with a mask. -/
  | poll (revents : ℕ)
  /-- The channel makes its next callback, given `SO_ERROR` and the self-connect test. -/
  | callback (err : ℕ) (selfConnect : Bool)

end Connector

open Connector in
/-- A connector with the parts of the loop, the poller and the timer that concern it. -/
structure Connector where
  retry_ : Bool
  connect_ : Bool := false
  status : Status := .Disconnected
  /-- The descriptor of the channel in `channelPtr_`. -/
  channelPtr : Option ℕ := none
  retryInterval : ℕ := kInitRetryDelayMs
  /-- The poller holds the channel. -/
  registered : Bool := false
  /-- The callbacks that the current `handleEvent` of the channel has still to make. -/
  todo : List EventCallback := []
  /-- The functors of this connector in the queue of the loop, oldest first. -/
  functors : List Functor := []
  /-- The delays of the retries that the timer holds. -/
  delays : List ℕ := []
  /-- How many descriptors `connect` has created. -/
  created : ℕ := 0
  /-- The descriptors handed to `newConnectionCallback_`. -/
  handed : List ℕ := []
  /-- The descriptors closed. -/
  closed : List ℕ := []
  attempt : Attempt := .none
  /-- An assertion has failed, and the process has ended. -/
  aborted : Bool := false

namespace Connector

/-- `::close`. -/
def close (s : Connector) (sockfd : ℕ) : Connector := { s with closed := sockfd :: s.closed }

/-- `Connector::retry`. Every caller tests `retry_` first. -/
def retry (s : Connector) (sockfd : ℕ) : Connector :=
  let s := { s.close sockfd with status := .Disconnected }
  if s.connect_ then
    { s with
      delays := s.delays ++ [s.retryInterval]
      retryInterval :=
        if s.retryInterval * 2 > kMaxRetryDelayMs then kMaxRetryDelayMs
        else s.retryInterval * 2 }
  else s

/-- `Connector::connecting`. -/
def connecting (s : Connector) (sockfd : ℕ) : Connector :=
  if s.channelPtr.isSome then { s with status := .Connecting, aborted := true }
  else
    { s with
      status := .Connecting
      channelPtr := some sockfd
      registered := true
      attempt := .pending }

/-- `Connector::connect`. -/
def connect (s : Connector) (errno : ConnectErrno) : Connector :=
  let sockfd := s.created
  let s := { s with created := sockfd + 1 }
  match errno.branch with
  | .connecting => s.connecting sockfd
  | .retry =>
    if s.retry_ then { s.retry sockfd with attempt := .failed }
    else { s with attempt := .failed }
  | .close => { s.close sockfd with attempt := .failed }

/-- `Connector::startInLoop`. -/
def startInLoop (s : Connector) (inLoop : Bool) (errno : ConnectErrno) : Connector :=
  if !inLoop || s.status ≠ .Disconnected then { s with aborted := true }
  else if s.connect_ then s.connect errno
  else s

/-- `Connector::removeAndResetChannel`, without its result, the descriptor of the channel. -/
def removeAndResetChannel (s : Connector) : Connector :=
  { s with registered := false, functors := s.functors ++ [.resetChannel] }

/-- The treatment of a failed attempt in `handleWrite` and `handleError`. -/
def retryOrClose (s : Connector) (sockfd : ℕ) : Connector :=
  if s.retry_ then { s.retry sockfd with attempt := .failed }
  else { s.close sockfd with attempt := .failed }

/-- `Connector::handleWrite`. -/
def handleWrite (s : Connector) (err : ℕ) (selfConnect : Bool) : Connector :=
  if s.status = .Connecting then
    match s.channelPtr with
    | some sockfd =>
      let s := s.removeAndResetChannel
      if err ≠ 0 then s.retryOrClose sockfd
      else if selfConnect then s.retryOrClose sockfd
      else
        let s := { s with status := .Connected, attempt := .succeeded }
        if s.connect_ then { s with handed := sockfd :: s.handed } else s.close sockfd
    -- a null channel is dereferenced
    | none => { s with aborted := true }
  else if s.status = .Disconnected then s
  else { s with aborted := true }

/-- `Connector::handleError`. -/
def handleError (s : Connector) : Connector :=
  if s.status = .Connecting then
    match s.channelPtr with
    | some sockfd =>
      ({ s with status := .Disconnected }.removeAndResetChannel).retryOrClose sockfd
    -- a null channel is dereferenced
    | none => { s with aborted := true }
  else s

/-- One callback of the channel, whose read callback is not set. -/
def runCallback (s : Connector) (err : ℕ) (selfConnect : Bool) : EventCallback → Connector
  | .closeCallback | .errorCallback => s.handleError
  | .readCallback => s
  | .writeCallback => s.handleWrite err selfConnect

/-- One step. The functors run when the dispatch of the channel is over. -/
def next (s : Connector) (e : Event) : Option Connector :=
  if s.aborted then none
  else
    match e with
    | .start errno => some ({ s with connect_ := true }.startInLoop true errno)
    | .startElsewhere =>
      some { s with connect_ := true, functors := s.functors ++ [.startInLoop] }
    | .runFunctor errno =>
      match s.todo, s.functors with
      | [], .resetChannel :: rest => some { s with functors := rest, channelPtr := none }
      | [], .startInLoop :: rest => some ({ s with functors := rest }.startInLoop true errno)
      | _, _ => none
    | .runDelayed i inLoop errno =>
      if i < s.delays.length then
        some ({ s with delays := s.delays.eraseIdx i }.startInLoop inLoop errno)
      else none
    | .poll revents =>
      if s.registered ∧ s.todo = [] then some { s with todo := handleEventWithGuard revents }
      else none
    | .callback err selfConnect =>
      match s.todo with
      | cb :: rest => some ({ s with todo := rest }.runCallback err selfConnect cb)
      | [] => none

/-- The machine of a connector, created with or without retries. -/
def machine : Machine Connector Event := Machine.ofNext (fun s => ∃ r, s = { retry_ := r }) next

/-- The descriptor that the registered channel uses. -/
def pending (s : Connector) : Option ℕ := if s.registered then s.channelPtr else none

/-- Every use of a descriptor. -/
def uses (s : Connector) : List ℕ := s.pending.toList ++ (s.handed ++ s.closed)

/-- No assertion has failed. Every descriptor is used by the pending channel, handed over
or closed, exactly once. The status is `Connecting` exactly while a channel is registered,
and `Disconnected` after a failed attempt. -/
def Disciplined (s : Connector) : Prop :=
  s.aborted = false ∧ (∀ sockfd < s.created, s.uses.count sockfd = 1) ∧
    (s.status = .Connecting ↔ s.registered = true) ∧
    (s.attempt = .failed → s.status = .Disconnected)

/-- `startInLoop` runs on the loop thread, when no attempt is pending or has succeeded.
`::connect` starts an attempt only when the previous channel has been released, and
fails for one of the reasons to retry only with `retry_`. -/
def StartsAfresh (s : Connector) (inLoop : Bool) (errno : ConnectErrno) : Prop :=
  inLoop = true ∧ s.attempt ≠ .pending ∧ s.attempt ≠ .succeeded ∧
    (errno.branch = .connecting → s.channelPtr = none) ∧
    (errno.branch = .retry → s.retry_ = true)

/-- A step that executes `startInLoop` starts afresh, and a pending attempt fails in
`handleWrite` only with `retry_`. -/
def AttemptsAfresh (s : Connector) : Event → Prop
  | .start errno => s.StartsAfresh true errno
  | .startElsewhere => True
  | .runFunctor errno => s.functors.head? = some .startInLoop → s.StartsAfresh true errno
  | .runDelayed _ inLoop errno => s.StartsAfresh inLoop errno
  | .poll _ => True
  | .callback err selfConnect =>
    s.todo.head? = some .writeCallback → s.attempt = .pending →
      err ≠ 0 ∨ selfConnect = true → s.retry_ = true

instance (s : Connector) (inLoop : Bool) (errno : ConnectErrno) :
    Decidable (s.StartsAfresh inLoop errno) :=
  inferInstanceAs (Decidable (_ ∧ _))

instance (s : Connector) (e : Event) : Decidable (s.AttemptsAfresh e) :=
  match e with
  | .start errno => inferInstanceAs (Decidable (s.StartsAfresh true errno))
  | .startElsewhere => .isTrue trivial
  | .runFunctor errno =>
    inferInstanceAs (Decidable (_ → s.StartsAfresh true errno))
  | .runDelayed _ inLoop errno => inferInstanceAs (Decidable (s.StartsAfresh inLoop errno))
  | .poll _ => .isTrue trivial
  | .callback _ _ => inferInstanceAs (Decidable (_ → _ → _ → _))

/-- The invariant of the runs all of whose steps satisfy `AttemptsAfresh`. -/
structure Inv (s : Connector) : Prop where
  running : s.aborted = false
  once : s.uses.Perm (List.range s.created)
  status_eq : s.status = s.attempt.status
  registered_iff : s.registered = true ↔ s.attempt = .pending
  channel_some : s.registered = true → s.channelPtr.isSome
  release : s.functors.count .resetChannel =
    if s.registered = false ∧ s.channelPtr.isSome then 1 else 0
  wanted : s.connect_ = false →
    s.attempt = .none ∧ Functor.startInLoop ∉ s.functors ∧ s.delays = []
  write_once : s.todo.count .writeCallback ≤ 1
  write_open : s.attempt = .succeeded → EventCallback.writeCallback ∉ s.todo

/-- The invariant implies the property. -/
theorem Inv.disciplined {s : Connector} (h : s.Inv) : s.Disciplined := by
  refine ⟨h.running, ?_, ?_, ?_⟩
  · intro sockfd hlt
    rw [h.once.count_eq, List.nodup_range.count, if_pos (List.mem_range.mpr hlt)]
  · rw [h.registered_iff, h.status_eq]
    cases s.attempt <;> simp [Attempt.status]
  · intro hfailed
    rw [h.status_eq, hfailed, Attempt.status]

/-- A new connector. -/
theorem Inv.of_init (r : Bool) : Inv { retry_ := r } where
  running := rfl
  once := .nil
  status_eq := rfl
  registered_iff := by simp
  channel_some := nofun
  release := rfl
  wanted _ := ⟨rfl, List.not_mem_nil, rfl⟩
  write_once := by simp
  write_open := nofun

/-- The callbacks for a mask include at most one of the write callback. -/
theorem count_writeCallback_le (revents : ℕ) :
    (handleEventWithGuard revents).count .writeCallback ≤ 1 := by
  unfold handleEventWithGuard
  split_ifs <;> decide

/-- Without a registered channel, no descriptor is pending. -/
theorem pending_of_not_registered {s : Connector} (h : s.registered = false) :
    s.pending = none := by
  simp [pending, h]

/-- The status is `Disconnected` unless an attempt is pending or has succeeded. -/
theorem Inv.status_disconnected {s : Connector} (h : s.Inv) (hpending : s.attempt ≠ .pending)
    (hsucceeded : s.attempt ≠ .succeeded) : s.status = .Disconnected := by
  rw [h.status_eq]
  cases hattempt : s.attempt with
  | none | failed => rfl
  | pending => exact absurd hattempt hpending
  | succeeded => exact absurd hattempt hsucceeded

/-- No channel is registered unless an attempt is pending. -/
theorem Inv.not_registered {s : Connector} (h : s.Inv) (hpending : s.attempt ≠ .pending) :
    s.registered = false := by
  rw [← Bool.not_eq_true, h.registered_iff]
  exact hpending

/-- `retry` closes the descriptor and leaves the status `Disconnected`. -/
theorem retry_eq (s : Connector) (sockfd : ℕ) :
    ∃ delays retryInterval, s.retry sockfd =
      { s with
        status := .Disconnected, closed := sockfd :: s.closed, delays, retryInterval } := by
  by_cases hconnect : s.connect_
  · exact ⟨_, _, if_pos hconnect⟩
  · exact ⟨_, _, if_neg hconnect⟩

/-- With the status `Disconnected`, or with retries, a failed attempt ends with its
descriptor closed and the status `Disconnected`. -/
theorem retryOrClose_eq (s : Connector) (sockfd : ℕ)
    (h : s.status = .Disconnected ∨ s.retry_ = true) :
    ∃ delays retryInterval, s.retryOrClose sockfd =
      { s with
        status := .Disconnected, closed := sockfd :: s.closed, attempt := .failed, delays,
        retryInterval } := by
  unfold retryOrClose
  split_ifs with hretry
  · obtain ⟨delays, retryInterval, heq⟩ := s.retry_eq sockfd
    exact ⟨delays, retryInterval, by rw [heq]⟩
  · have hstatus : s.status = .Disconnected := h.resolve_right hretry
    exact ⟨s.delays, s.retryInterval, by rw [← hstatus]; rfl⟩

/-- After a failed attempt whose descriptor has been closed, the invariant holds again. -/
theorem Inv.of_failed {s t : Connector} (h : s.Inv) (hconnect : s.connect_ = true)
    (hrunning : t.aborted = false)
    (honce : (t.handed ++ t.closed).Perm (List.range t.created))
    (hstatus : t.status = .Disconnected) (hregistered : t.registered = false)
    (hattempt : t.attempt = .failed)
    (hrelease : t.functors.count .resetChannel = if t.channelPtr.isSome then 1 else 0)
    (hconnect' : t.connect_ = s.connect_)
    (htodo : t.todo = s.todo) : t.Inv where
  running := hrunning
  once := by simpa [uses, pending_of_not_registered hregistered] using honce
  status_eq := by rw [hstatus, hattempt]; rfl
  registered_iff := by simp [hregistered, hattempt]
  channel_some := by simp [hregistered]
  release := by simpa [hregistered] using hrelease
  wanted := by simp [hconnect', hconnect]
  write_once := htodo ▸ h.write_once
  write_open := by simp [hattempt]

/-- One more descriptor has been created and put to a use. -/
theorem perm_range_succ {l : List ℕ} {n : ℕ} (h : l.Perm (List.range n)) :
    (n :: l).Perm (List.range (n + 1)) := by
  rw [List.range_succ]
  exact (h.cons n).trans (List.perm_append_singleton n _).symm

/-- Without a registered channel, the descriptors have been handed over or closed. -/
theorem Inv.handed_closed {s : Connector} (h : s.Inv) (hregistered : s.registered = false) :
    (s.handed ++ s.closed).Perm (List.range s.created) := by
  simpa [uses, pending_of_not_registered hregistered] using h.once

/-- `startInLoop` keeps the invariant if it starts afresh. -/
theorem Inv.startInLoop {s : Connector} (h : s.Inv) (hconnect : s.connect_ = true)
    {inLoop : Bool} {errno : ConnectErrno} (hfresh : s.StartsAfresh inLoop errno) :
    (s.startInLoop inLoop errno).Inv := by
  obtain ⟨rfl, hpending, hsucceeded, hreleased, hretry⟩ := hfresh
  have hstatus := h.status_disconnected hpending hsucceeded
  have hregistered := h.not_registered hpending
  have hused := h.handed_closed hregistered
  have hclosed : (s.handed ++ s.created :: s.closed).Perm (List.range (s.created + 1)) :=
    List.perm_middle.trans (perm_range_succ hused)
  have hrelease : s.functors.count .resetChannel = if s.channelPtr.isSome then 1 else 0 := by
    simpa [hregistered] using h.release
  rw [Connector.startInLoop, if_neg (by simp [hstatus]), if_pos hconnect, Connector.connect]
  cases hbranch : errno.branch with
  | connecting =>
    have hnone := hreleased hbranch
    simp only [Connector.connecting, hnone, Option.isSome_none, Bool.false_eq_true, if_false]
    exact {
      running := h.running
      once := by simpa [uses, pending] using perm_range_succ hused
      status_eq := rfl
      registered_iff := by simp
      channel_some := by simp
      release := by simpa [hnone] using h.release
      wanted := by simp [hconnect]
      write_once := h.write_once
      write_open := nofun }
  | retry =>
    dsimp only
    rw [if_pos (hretry hbranch)]
    obtain ⟨delays, retryInterval, heq⟩ :=
      retry_eq { s with created := s.created + 1 } s.created
    rw [heq]
    exact h.of_failed hconnect h.running hclosed rfl hregistered rfl hrelease rfl rfl
  | close =>
    exact h.of_failed hconnect h.running hclosed hstatus hregistered rfl hrelease rfl rfl

/-- `startInLoop` that does not start afresh fails an assertion or loses a descriptor. -/
theorem Inv.startInLoop_broken {s : Connector} (h : s.Inv) (hconnect : s.connect_ = true)
    {inLoop : Bool} {errno : ConnectErrno} (hstale : ¬ s.StartsAfresh inLoop errno) :
    ¬ (s.startInLoop inLoop errno).Disciplined := by
  rw [Connector.startInLoop]
  split_ifs with habort
  · exact fun hd => Bool.noConfusion hd.1
  obtain ⟨rfl, hstatus⟩ : inLoop = true ∧ s.status = .Disconnected := by simpa using habort
  have hpending : s.attempt ≠ .pending := by
    intro hattempt
    simp [h.status_eq, hattempt, Attempt.status] at hstatus
  have hsucceeded : s.attempt ≠ .succeeded := by
    intro hattempt
    simp [h.status_eq, hattempt, Attempt.status] at hstatus
  have hregistered := h.not_registered hpending
  rw [Connector.connect]
  cases hbranch : errno.branch with
  | connecting =>
    have hsome : s.channelPtr.isSome := by
      by_contra hnone
      exact hstale ⟨rfl, hpending, hsucceeded, fun _ => by simpa using hnone, by simp [hbranch]⟩
    simp only [Connector.connecting, hsome, if_true]
    exact fun hd => Bool.noConfusion hd.1
  | retry =>
    have hretry : s.retry_ = false := by
      by_contra hretry
      exact hstale ⟨rfl, hpending, hsucceeded, by simp [hbranch], fun _ => by simpa using hretry⟩
    -- the new descriptor is not closed
    dsimp only
    rw [if_neg (by simp [hretry])]
    rintro ⟨-, honce, -⟩
    have hlost := honce s.created (Nat.lt_succ_self _)
    have hunused : s.created ∉ s.handed ++ s.closed := by
      rw [(h.handed_closed hregistered).mem_iff]
      simp
    rw [uses, pending_of_not_registered (by exact hregistered)] at hlost
    exact absurd hlost (by simp [List.count_eq_zero_of_not_mem hunused])
  | close =>
    exact absurd ⟨rfl, hpending, hsucceeded, by simp [hbranch], by simp [hbranch]⟩ hstale

/-- While an attempt is pending, its channel is registered and holds its descriptor. -/
theorem Inv.pending_eq {s : Connector} (h : s.Inv) (hpending : s.attempt = .pending) :
    ∃ sockfd, s.channelPtr = some sockfd ∧
      (sockfd :: (s.handed ++ s.closed)).Perm (List.range s.created) := by
  have hregistered := h.registered_iff.mpr hpending
  obtain ⟨sockfd, hsome⟩ := Option.isSome_iff_exists.mp (h.channel_some hregistered)
  exact ⟨sockfd, hsome, by simpa [uses, pending, hregistered, hsome] using h.once⟩

/-- While an attempt is pending, no release of a channel is queued. -/
theorem Inv.release_of_pending {s : Connector} (h : s.Inv) (hpending : s.attempt = .pending) :
    s.functors.count .resetChannel = 0 := by
  simpa [h.registered_iff.mpr hpending] using h.release

/-- The status is `Connecting` exactly while an attempt is pending. -/
theorem Inv.connecting_iff {s : Connector} (h : s.Inv) :
    s.status = .Connecting ↔ s.attempt = .pending := by
  rw [h.status_eq]
  cases s.attempt <;> simp [Attempt.status]

/-- A pending attempt follows a call of `start`. -/
theorem Inv.wanted_of_pending {s : Connector} (h : s.Inv) (hpending : s.attempt = .pending) :
    s.connect_ = true := by
  by_contra hconnect
  have hnone := (h.wanted (by simpa using hconnect)).1
  simp [hpending] at hnone

/-- The failure of a pending attempt keeps the invariant if it leaves the status
`Disconnected`. -/
theorem Inv.retryOrClose {s t : Connector} (h : s.Inv) (hpending : s.attempt = .pending)
    {sockfd : ℕ} (hchannel : s.channelPtr = some sockfd)
    (ht : t = { s with
      status := t.status, registered := false, functors := s.functors ++ [.resetChannel] })
    (hstatus : t.status = .Disconnected ∨ t.retry_ = true) : (t.retryOrClose sockfd).Inv := by
  have hconnect := h.wanted_of_pending hpending
  obtain ⟨sockfd', hchannel', hused⟩ := h.pending_eq hpending
  obtain rfl : sockfd' = sockfd := Option.some.inj (hchannel'.symm.trans hchannel)
  have hclosed : (s.handed ++ sockfd' :: s.closed).Perm (List.range s.created) :=
    List.perm_middle.trans hused
  have hrelease : (s.functors ++ [Functor.resetChannel]).count Functor.resetChannel =
      if s.channelPtr.isSome then 1 else 0 := by
    simpa [hchannel] using h.release_of_pending hpending
  obtain ⟨delays, retryInterval, heq⟩ := retryOrClose_eq t sockfd' hstatus
  rw [heq, ht]
  exact h.of_failed hconnect h.running hclosed rfl rfl rfl hrelease rfl rfl

/-- `handleError` keeps the invariant. -/
theorem Inv.handleError {s : Connector} (h : s.Inv) : s.handleError.Inv := by
  rw [Connector.handleError]
  split_ifs with hstatus
  · have hpending := h.connecting_iff.mp hstatus
    obtain ⟨sockfd, hchannel, -⟩ := h.pending_eq hpending
    rw [hchannel]
    exact h.retryOrClose hpending hchannel (by simp [removeAndResetChannel, hchannel]) (.inl rfl)
  · exact h

/-- `handleWrite`, with no further write callback to come, keeps the invariant if a failed
attempt is retried. -/
theorem Inv.handleWrite {s : Connector} (h : s.Inv) {err : ℕ} {selfConnect : Bool}
    (hopen : s.attempt ≠ .succeeded) (htodo : EventCallback.writeCallback ∉ s.todo)
    (hretry : s.attempt = .pending → err ≠ 0 ∨ selfConnect = true → s.retry_ = true) :
    (s.handleWrite err selfConnect).Inv := by
  rw [Connector.handleWrite]
  by_cases hstatus : s.status = .Connecting
  · have hpending := h.connecting_iff.mp hstatus
    have hconnect := h.wanted_of_pending hpending
    obtain ⟨sockfd, hchannel, hused⟩ := h.pending_eq hpending
    rw [if_pos hstatus, hchannel]
    dsimp only
    split_ifs with herr hself hwanted
    · exact h.retryOrClose hpending hchannel rfl (.inr (hretry hpending (.inl herr)))
    · exact h.retryOrClose hpending hchannel rfl (.inr (hretry hpending (.inr hself)))
    · exact {
        running := h.running
        once := hused
        status_eq := rfl
        registered_iff := by simp [removeAndResetChannel]
        channel_some := by simp [removeAndResetChannel]
        release := by simpa [removeAndResetChannel, hchannel] using h.release_of_pending hpending
        wanted := by simp [removeAndResetChannel, hconnect]
        write_once := h.write_once
        write_open := fun _ => htodo }
    · exact absurd hconnect hwanted
  · have hdisconnected := h.status_disconnected (mt h.connecting_iff.mpr hstatus) hopen
    rw [if_neg hstatus, if_pos hdisconnected]
    exact h

/-- A pending attempt that fails in `handleWrite` without retries leaves the status
`Connecting`, with no channel registered. -/
theorem Inv.handleWrite_broken {s : Connector} (h : s.Inv) {err : ℕ} {selfConnect : Bool}
    (hpending : s.attempt = .pending) (hfails : err ≠ 0 ∨ selfConnect = true)
    (hretry : s.retry_ = false) : ¬ (s.handleWrite err selfConnect).Disciplined := by
  have hstatus := h.connecting_iff.mpr hpending
  obtain ⟨sockfd, hchannel, -⟩ := h.pending_eq hpending
  have hstuck : s.handleWrite err selfConnect =
      { s.removeAndResetChannel.close sockfd with attempt := .failed } := by
    rw [Connector.handleWrite, if_pos hstatus, hchannel]
    dsimp only
    split_ifs with herr hself
    · exact if_neg (by simp [removeAndResetChannel, hretry])
    · exact if_neg (by simp [removeAndResetChannel, hretry])
    · exact absurd hfails (by simp [herr, hself])
    · exact absurd hfails (by simp [herr, hself])
  rw [hstuck]
  rintro ⟨-, -, hconnecting, -⟩
  exact Bool.noConfusion (hconnecting.mp hstatus)

/-- The invariant does not depend on the order of the functors and the retries. -/
theorem Inv.of_scheduled {s : Connector} (h : s.Inv) {c : Bool} {k : List EventCallback}
    {q : List Functor} {d : List ℕ}
    (hwanted : c = false → s.attempt = .none ∧ Functor.startInLoop ∉ q ∧ d = [])
    (hrelease : q.count .resetChannel = s.functors.count .resetChannel)
    (htodo : k.Sublist s.todo) :
    Inv { s with connect_ := c, todo := k, functors := q, delays := d } where
  running := h.running
  once := h.once
  status_eq := h.status_eq
  registered_iff := h.registered_iff
  channel_some := h.channel_some
  release := hrelease.trans h.release
  wanted := hwanted
  write_once := (htodo.count_le _).trans h.write_once
  write_open hsucceeded hmem := h.write_open hsucceeded (htodo.subset hmem)

/-- A queued or delayed `startInLoop` follows a call of `start`. -/
theorem Inv.wanted_of_scheduled {s : Connector} (h : s.Inv)
    (hscheduled : Functor.startInLoop ∈ s.functors ∨ s.delays ≠ []) : s.connect_ = true := by
  by_contra hconnect
  obtain ⟨-, hfunctors, hdelays⟩ := h.wanted (by simpa using hconnect)
  exact hscheduled.elim hfunctors (absurd hdelays)

/-- A queued `startInLoop` leaves the queue. -/
theorem Inv.popFunctor {s : Connector} (h : s.Inv) {rest : List Functor}
    (hfunctors : s.functors = .startInLoop :: rest) :
    s.connect_ = true ∧ Inv { s with functors := rest } := by
  have hconnect := h.wanted_of_scheduled (.inl (by simp [hfunctors]))
  exact ⟨hconnect, h.of_scheduled (c := s.connect_) (d := s.delays) (by simp [hconnect])
    (by simp [hfunctors]) (.refl _)⟩

/-- A delayed `startInLoop` leaves the timer. -/
theorem Inv.popDelay {s : Connector} (h : s.Inv) {i : ℕ} (hlt : i < s.delays.length) :
    s.connect_ = true ∧ Inv { s with delays := s.delays.eraseIdx i } := by
  have hconnect := h.wanted_of_scheduled (.inr (List.ne_nil_of_length_pos (by omega)))
  exact ⟨hconnect, h.of_scheduled (c := s.connect_) (by simp [hconnect]) rfl (.refl _)⟩

/-- The release of the channel keeps the invariant. -/
theorem Inv.resetChannel {s : Connector} (h : s.Inv) {rest : List Functor}
    (hfunctors : s.functors = .resetChannel :: rest) :
    Inv { s with functors := rest, channelPtr := none } := by
  have hrelease := h.release
  rw [hfunctors, List.count_cons_self] at hrelease
  split_ifs at hrelease with hreleased
  · exact {
      running := h.running
      once := by simpa [uses, pending, hreleased.1] using h.once
      status_eq := h.status_eq
      registered_iff := h.registered_iff
      channel_some := by simp [hreleased.1]
      release := by simpa using hrelease
      wanted := by simpa [hfunctors] using h.wanted
      write_once := h.write_once
      write_open := h.write_open }

/-- A step that satisfies `AttemptsAfresh` keeps the invariant. -/
theorem Inv.next {s t : Connector} {e : Event} (h : s.Inv) (hok : s.AttemptsAfresh e)
    (hstep : Connector.next s e = some t) : t.Inv := by
  rw [Connector.next.eq_def, if_neg (by simp [h.running])] at hstep
  cases e with
  | start errno =>
    obtain rfl := Option.some.inj hstep
    exact (h.of_scheduled (c := true) nofun rfl (.refl _)).startInLoop rfl hok
  | startElsewhere =>
    obtain rfl := Option.some.inj hstep
    exact h.of_scheduled nofun (by simp) (.refl _)
  | runFunctor errno =>
    dsimp only at hstep
    split at hstep
    next rest htodo hfunctors =>
      obtain rfl := Option.some.inj hstep
      exact h.resetChannel hfunctors
    next rest htodo hfunctors =>
      obtain rfl := Option.some.inj hstep
      obtain ⟨hconnect, hrest⟩ := h.popFunctor hfunctors
      exact hrest.startInLoop hconnect (hok (by simp [hfunctors]))
    next => cases hstep
  | runDelayed i inLoop errno =>
    dsimp only at hstep
    split_ifs at hstep with hlt
    obtain rfl := Option.some.inj hstep
    obtain ⟨hconnect, hrest⟩ := h.popDelay hlt
    exact hrest.startInLoop hconnect hok
  | poll revents =>
    dsimp only at hstep
    split_ifs at hstep with hpoll
    obtain rfl := Option.some.inj hstep
    have hpending := h.registered_iff.mp hpoll.1
    exact { h with
      write_once := count_writeCallback_le revents
      write_open := by simp [hpending] }
  | callback err selfConnect =>
    dsimp only at hstep
    split at hstep
    next cb rest htodo =>
      obtain rfl := Option.some.inj hstep
      have hrest := h.of_scheduled (k := rest) h.wanted rfl (by simp [htodo])
      cases cb with
      | closeCallback | errorCallback => exact hrest.handleError
      | readCallback => exact hrest
      | writeCallback =>
        have honce := h.write_once
        have hopen := h.write_open
        rw [htodo] at honce hopen
        refine hrest.handleWrite (by simpa using hopen) ?_ (hok (by simp [htodo]))
        simpa [List.count_eq_zero] using honce
    next => cases hstep

/-- A step that violates `AttemptsAfresh` breaks the discipline. -/
theorem Inv.next_broken {s t : Connector} {e : Event} (h : s.Inv) (hbad : ¬ s.AttemptsAfresh e)
    (hstep : Connector.next s e = some t) : ¬ t.Disciplined := by
  rw [Connector.next.eq_def, if_neg (by simp [h.running])] at hstep
  cases e with
  | start errno =>
    obtain rfl := Option.some.inj hstep
    exact (h.of_scheduled (c := true) nofun rfl (.refl _)).startInLoop_broken rfl hbad
  | startElsewhere => exact absurd trivial hbad
  | runFunctor errno =>
    dsimp only at hstep
    split at hstep
    next rest htodo hfunctors =>
      exact absurd (fun hhead => by simp [hfunctors] at hhead) hbad
    next rest htodo hfunctors =>
      obtain rfl := Option.some.inj hstep
      obtain ⟨hconnect, hrest⟩ := h.popFunctor hfunctors
      exact hrest.startInLoop_broken hconnect fun hfresh => hbad fun _ => hfresh
    next => cases hstep
  | runDelayed i inLoop errno =>
    dsimp only at hstep
    split_ifs at hstep with hlt
    obtain rfl := Option.some.inj hstep
    obtain ⟨hconnect, hrest⟩ := h.popDelay hlt
    exact hrest.startInLoop_broken hconnect hbad
  | poll revents => exact absurd trivial hbad
  | callback err selfConnect =>
    dsimp only at hstep
    split at hstep
    next cb rest htodo =>
      obtain rfl := Option.some.inj hstep
      have hrest := h.of_scheduled (k := rest) h.wanted rfl (by simp [htodo])
      obtain ⟨hhead, hpending, hfails, hretry⟩ : s.todo.head? = some .writeCallback ∧
          s.attempt = .pending ∧ (err ≠ 0 ∨ selfConnect = true) ∧ ¬ s.retry_ = true := by
        simpa only [AttemptsAfresh, Classical.not_imp] using hbad
      obtain rfl : cb = .writeCallback := by simpa [htodo] using hhead
      exact hrest.handleWrite_broken hpending hfails (by simpa using hretry)
    next => cases hstep

/-- A connector keeps the discipline throughout a run exactly when no `startInLoop` of the
run is stale and no failure goes without the retry that it needs. -/
theorem disciplined_iff_attemptsAfresh {s t : Connector} {trace : List (Connector × Event)}
    (hinit : machine.init s) (hrun : machine.Run s trace t) :
    (∀ u ∈ Machine.visited trace t, u.Disciplined) ↔
      ∀ p ∈ trace, p.1.AttemptsAfresh p.2 := by
  obtain ⟨r, rfl⟩ := hinit
  exact hrun.forall_visited_iff (C := AttemptsAfresh) (I := Inv) (fun _ h => h.disciplined)
    (fun _ _ _ h hok hstep => h.next hok hstep)
    (fun _ _ _ h hbad hstep => h.next_broken hbad hstep) (.of_init r)

/-- The first attempt is refused, and another one, started before the retry is due,
completes. -/
def restarted : List Event :=
  [.start .ECONNREFUSED, .start .EINPROGRESS, .poll POLLOUT, .callback 0 false,
    .runFunctor .success]

/-- The connector after the attempts of `restarted`. -/
def afterRestarted : Connector :=
  (restarted.foldlM next { retry_ := true }).getD { retry_ := true }

/-- The attempts of `restarted` can be made. -/
theorem afterRestarted_eq :
    restarted.foldlM next { retry_ := true } = some afterRestarted := by
  have hsome : (restarted.foldlM next { retry_ := true }).isSome = true := by decide +kernel
  exact (Option.getD_of_ne_none (Option.isSome_iff_ne_none.mp hsome) _).symm

/-- The attempts of `restarted` keep the discipline. -/
theorem disciplined_iff_attemptsAfresh_restarted :
    afterRestarted.handed = [1] ∧ afterRestarted.closed = [0] ∧
      ∀ u ∈ Machine.visited (Machine.traceOf next { retry_ := true } restarted) afterRestarted,
        u.Disciplined :=
  ⟨by decide +kernel, by decide +kernel,
    (disciplined_iff_attemptsAfresh ⟨true, rfl⟩ (.of_foldlM afterRestarted_eq)).mpr
      (by decide +kernel)⟩

/-- A connector without retries, after a refused `::connect`. -/
def refused : Connector := { retry_ := false, connect_ := true, created := 1, attempt := .failed }

/-- A connector without retries does not close the descriptor of a refused `::connect`. -/
theorem refused_not_disciplined : machine.Reachable refused ∧ ¬ refused.Disciplined := by
  have hinit : machine.Reachable { retry_ := false } := .of_init ⟨false, rfl⟩
  have hrun : [Event.start .ECONNREFUSED].foldlM next { retry_ := false } = some refused := rfl
  refine ⟨hinit.of_foldlM hrun, ?_⟩
  rintro ⟨-, honce, -⟩
  exact absurd (honce 0 Nat.zero_lt_one) (by decide)

/-- A connector without retries, after an attempt that failed with an `SO_ERROR`. -/
def stuck : Connector :=
  { retry_ := false, connect_ := true, status := .Connecting, channelPtr := some 0
    functors := [.resetChannel], created := 1, closed := [0], attempt := .failed }

/-- A connector without retries stays `Connecting` after an attempt that failed with an
`SO_ERROR`. -/
theorem stuck_not_disciplined : machine.Reachable stuck ∧ ¬ stuck.Disciplined := by
  have hinit : machine.Reachable { retry_ := false } := .of_init ⟨false, rfl⟩
  have hrun : [Event.start .EINPROGRESS, .poll POLLOUT, .callback 111 false].foldlM next
      { retry_ := false } = some stuck := rfl
  refine ⟨hinit.of_foldlM hrun, ?_⟩
  rintro ⟨-, -, hconnecting, -⟩
  exact absurd (hconnecting.mp rfl) (by decide)

end Connector

end DuoDuo.Net
