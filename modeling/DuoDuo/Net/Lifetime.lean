import DuoDuo.Net.CloseOnce

/-!
# How long a connection lives

A `TcpConnection` is destroyed with the last `shared_ptr` to it. `connSet_` holds one, and
so do the functors of `connectEstablished`, `shutdown` and `forceClose`, the queued
callbacks, the erasing functors, `handleClose` while it runs and `handleEvent` while it
dispatches. The functor of `send` holds the bare `this`, and a batch of the poller holds
the bare channel. A loop keeps the functor that it has run until it takes the next one
from its queue.
-/

namespace DuoDuo.Net

open Library

/-- The functor holds a `shared_ptr` to the connection. -/
def ConnFunc.shares : ConnFunc → Bool
  | .sendInLoop _ => false
  | _ => true

/-- A connection with the pointers to it. -/
structure Lifetime where
  life : Lifecycle
  /-- The pointers that the user's code keeps, and `newPtr` of `newConnection`. -/
  users : ℕ := 1
  /-- `handleEvent` is on the stack, with its `guard`. -/
  guarded : Bool := false
  /-- The variable `func` of `doPendingFuncs` holds a functor with a pointer. -/
  func : Bool := false
  /-- The same, in the server's loop, for an erasing functor. -/
  eraser : Bool := false
  /-- For every callback in the queue, how many functors are in front of it. -/
  ahead : List ℕ := []

/-- The steps of the connection, of its queued callbacks and of the pointers. -/
inductive LifetimeEvent
  | life (e : LifeEvent)
  /-- `handleEvent` returns. -/
  | endHandleEvent
  /-- The loop runs a queued callback. -/
  | runQueued
  /-- The loop takes a functor that does not concern the connection, or leaves the block. -/
  | dropFunc
  /-- The same, in the server's loop. -/
  | dropEraser
  /-- The user's code copies a pointer. -/
  | acquire
  /-- It drops one. -/
  | release

namespace Lifetime

/-- The number of pointers to the connection. -/
def refs (s : Lifetime) : ℕ :=
  s.life.inSet.toNat + s.life.pendingErase + s.eraser.toNat + s.life.funcs.countP (·.shares) +
    s.func.toNat + s.ahead.length + s.guarded.toNat + s.life.closing + s.users

/-- The user's code has a pointer on the loop thread: its own, or one that is passed to it. -/
def given (s : Lifetime) : Bool := 0 < s.users || s.guarded || 0 < s.life.closing || s.func

/-- The callbacks that a step of the connection queues. -/
def queued (l : Lifecycle) : LifeEvent → List QueuedFunc
  | .callback _ answer =>
    match l.todo with
    | .writeCallback :: _ => (l.conn.handleWrite answer).queued
    | _ => []
  | .runFunc answer =>
    match l.funcs with
    | .sendInLoop data :: _ => (l.conn.sendInLoop data answer).queued
    | _ => []
  | .send data answer =>
    if l.conn.state = .kConnected then (l.conn.sendInLoop data answer).queued else []
  | _ => []

/-- Whether a step of the connection may be taken, as far as the pointers are concerned. -/
def allows (s : Lifetime) : LifeEvent → Bool
  | .poll _ | .handleEvent => !s.guarded && !s.func
  | .runFunc _ => !s.guarded && !s.func && !s.ahead.contains 0
  | .runErase => !s.eraser
  | .send _ _ | .shutdown | .forceClose => s.given
  | .queueSend _ | .queueShutdown | .queueForceClose => 0 < s.users
  | .callback _ _ | .closeCallback => true

/-- The pointers after a step of the connection. -/
def withLife (s : Lifetime) (e : LifeEvent) (l : Lifecycle) : Lifetime :=
  let kept : Lifetime := match e with
    | .handleEvent => { s with guarded := true }
    | .runFunc _ => { s with
        func := s.life.funcs.head?.any (·.shares), ahead := s.ahead.map (· - 1) }
    | .runErase => { s with eraser := true }
    | _ => s
  { kept with
    life := l
    ahead := kept.ahead ++ (queued s.life e).map fun _ => l.funcs.length }

/-- One step. -/
def next (s : Lifetime) : LifetimeEvent → Option Lifetime
  | .life e => if s.allows e then (s.life.next e).map (s.withLife e) else none
  | .endHandleEvent =>
    if s.guarded && s.life.idle then some { s with guarded := false } else none
  | .runQueued =>
    match s.ahead with
    | 0 :: ahead =>
      if !s.guarded && !s.func && s.life.idle && s.life.unvisited.isNone then
        some { s with ahead, func := true }
      else none
    | _ => none
  | .dropFunc => if s.func && s.life.idle then some { s with func := false } else none
  | .dropEraser => if s.eraser then some { s with eraser := false } else none
  | .acquire => if s.given then some { s with users := s.users + 1 } else none
  | .release => if 0 < s.users then some { s with users := s.users - 1 } else none

/-- A connection that `newConnection` has just put into `connSet_`. The server sets
`writeCompleteCallback_`. -/
def newConnection (fd : ℕ) (sameLoop hasHighWaterMark : Bool) : Lifetime where
  life :=
    { conn := { channel := { fd }, hasWriteComplete := true, hasHighWaterMark }, sameLoop }

/-- The machine of one connection and of the pointers to it. -/
def machine : Machine Lifetime LifetimeEvent :=
  Machine.ofNext (fun s => ∃ fd sameLoop hasHighWaterMark,
    s = newConnection fd sameLoop hasHighWaterMark) next

/-- Once the last pointer is gone, the connection is disconnected, and no step is left that
could touch it. -/
def EndsWell (s : Lifetime) : Prop :=
  s.refs = 0 → s.life.conn.state = .kDisconnected ∧ ∀ e, s.next e = none

/-- The condition on a step: it does not drop the last pointer while the `send` of another
thread is queued, whose functor holds none, or while the batch has still to reach the
channel. -/
def OutlivesUses (s : Lifetime) (e : LifetimeEvent) : Prop :=
  ∀ t ∈ s.next e, t.refs = 0 →
    t.life.unvisited = none ∧ ∀ f ∈ t.life.funcs, f.shares = true

end Lifetime

namespace Lifecycle

/-- The server has the connection, and nobody closes it. -/
structure InServer (l : Lifecycle) : Prop where
  inSet : l.inSet = true
  pendingErase : l.pendingErase = 0
  closing : l.closing = 0

/-- What holds in every state, also when a channel is closed that has left the poller. -/
structure Anchored (l : Lifecycle) : Prop where
  connecting : l.conn.state = .kConnecting → l.InServer ∧ l.registered = false ∧
    l.unvisited = none ∧ l.todo = [] ∧
    ∃ rest, l.funcs = .connectEstablished :: rest ∧ .connectEstablished ∉ rest
  established : l.conn.state ≠ .kConnecting → .connectEstablished ∉ l.funcs
  opened : l.conn.isOpen = true → l.InServer
  /-- Only `handleClose` stands between the end of a connection and its removal. -/
  closed : l.conn.state = .kDisconnected → l.registered = true → 0 < l.closing

variable {l l' : Lifecycle}

/-- What the server does not have, or somebody closes, is disconnected. -/
theorem Anchored.disconnected (h : l.Anchored) (hnot : ¬l.InServer) :
    l.conn.state = .kDisconnected := by
  rcases state_cases l.conn with hstate | hopen | hstate
  · exact absurd (h.connecting hstate).1 hnot
  · exact absurd (h.opened hopen) hnot
  · exact hstate

/-- A connection that is disconnected after a step. -/
theorem Anchored.of_disconnected (hstate : l.conn.state = .kDisconnected)
    (hfuncs : .connectEstablished ∉ l.funcs) (hclosed : l.registered = true → 0 < l.closing) :
    l.Anchored := by
  refine ⟨fun hs => ?_, fun _ => hfuncs, fun ho => ?_, fun _ => hclosed⟩
  · rw [hstate] at hs
    cases hs
  · rw [isOpen_iff, hstate] at ho
    rcases ho with ho | ho <;> cases ho

/-- A change of the output side, of the batch or of the callbacks. -/
theorem Anchored.congr (h : l.Anchored) (hstate : l'.conn.state = l.conn.state)
    (hbatch : l.conn.state ≠ .kConnecting ∨ (l'.unvisited = none ∧ l'.todo = []))
    (hinSet : l'.inSet = l.inSet) (hpending : l'.pendingErase = l.pendingErase)
    (hclosing : l'.closing = l.closing) (hregistered : l'.registered = l.registered)
    (hfuncs : l'.funcs = l.funcs) : l'.Anchored := by
  have hserver : l.InServer → l'.InServer := fun hin =>
    ⟨hinSet.trans hin.inSet, hpending.trans hin.pendingErase, hclosing.trans hin.closing⟩
  refine ⟨fun hs => ?_, fun hs => ?_, fun ho => ?_, fun hs hr => ?_⟩
  · rw [hstate] at hs
    obtain ⟨hin, hr, -, -, rest, hrest, hnot⟩ := h.connecting hs
    obtain ⟨hunvisited, htodo⟩ := hbatch.resolve_left fun hne => hne hs
    exact ⟨hserver hin, hregistered.trans hr, hunvisited, htodo, rest, hfuncs.trans hrest, hnot⟩
  · rw [hfuncs]
    exact h.established (hstate ▸ hs)
  · rw [isOpen_iff, hstate] at ho
    exact hserver (h.opened (isOpen_iff.mpr ho))
  · rw [hclosing]
    exact h.closed (hstate ▸ hs) (hregistered ▸ hr)

/-- After `connectEstablished` the oldest functor may leave the queue. -/
theorem Anchored.pop (h : l.Anchored) {f : ConnFunc} {rest : List ConnFunc}
    (hfuncs : l.funcs = f :: rest) (hstate : l.conn.state ≠ .kConnecting) :
    ({ l with funcs := rest } : Lifecycle).Anchored := by
  have hnot := h.established hstate
  rw [hfuncs, List.mem_cons, not_or] at hnot
  exact ⟨fun hs => absurd hs hstate, fun _ => hnot.2,
    fun ho => ⟨(h.opened ho).inSet, (h.opened ho).pendingErase, (h.opened ho).closing⟩, h.closed⟩

/-- A functor of another thread goes to the end of the queue. -/
theorem Anchored.queue (h : l.Anchored) {f : ConnFunc} (hf : f ≠ .connectEstablished) :
    ({ l with funcs := l.funcs ++ [f] } : Lifecycle).Anchored := by
  refine ⟨fun hs => ?_, fun hs => ?_,
    fun ho => ⟨(h.opened ho).inSet, (h.opened ho).pendingErase, (h.opened ho).closing⟩, h.closed⟩
  · obtain ⟨hin, hr, hu, ht, rest, hfuncs, hrest⟩ := h.connecting hs
    refine ⟨⟨hin.inSet, hin.pendingErase, hin.closing⟩, hr, hu, ht, rest ++ [f], ?_, ?_⟩
    · show l.funcs ++ [f] = _
      rw [hfuncs, List.cons_append]
    · rw [List.mem_append, List.mem_singleton]
      exact not_or.mpr ⟨hrest, hf.symm⟩
  · show _ ∉ l.funcs ++ [f]
    rw [List.mem_append, List.mem_singleton]
    exact not_or.mpr ⟨h.established hs, hf.symm⟩

/-- `handleClose` of a connection that is not connecting. -/
theorem Anchored.handleClose (h : l.Anchored) (hstate : l.conn.state ≠ .kConnecting) :
    l.handleClose.Anchored :=
  .of_disconnected rfl (h.established hstate) fun _ => Nat.succ_pos _

/-- `forceClose`, of any connection. -/
theorem Anchored.forceClose (h : l.Anchored) : l.forceClose.Anchored := by
  unfold Lifecycle.forceClose
  split
  · next hopen =>
    have hne : l.conn.state ≠ .kConnecting := by
      intro hs
      rw [isOpen_iff, hs] at hopen
      rcases hopen with ho | ho <;> cases ho
    exact .of_disconnected rfl (h.established hne) fun _ => Nat.succ_pos _
  · exact h

/-- `shutdown`, of any connection. -/
theorem Anchored.shutdown (h : l.Anchored) : l.shutdown.Anchored := by
  have hstate : l.shutdown.conn.state =
      if l.conn.state = .kConnected then .kDisconnecting else l.conn.state :=
    l.conn.shutdown_state
  by_cases hconnected : l.conn.state = .kConnected
  · rw [if_pos hconnected] at hstate
    have hin := h.opened (isOpen_iff.mpr (.inl hconnected))
    refine ⟨fun hs => ?_, fun _ => h.established (by rw [hconnected]; nofun),
      fun _ => ⟨hin.inSet, hin.pendingErase, hin.closing⟩, fun hs => ?_⟩
    · rw [hstate] at hs
      cases hs
    · rw [hstate] at hs
      cases hs
  · have hsame : l.shutdown = l := by
      unfold Lifecycle.shutdown TcpConnection.shutdown
      rw [if_neg hconnected]
    rw [hsame]
    exact h

/-- `closeCallback_`, which takes the connection out of the poller. -/
theorem Anchored.closeCallback (h : l.Anchored) (hclosing : 0 < l.closing) :
    ({ l with
      closing := l.closing - 1
      closeCallbacks := l.closeCallbacks + 1 } : Lifecycle).connectionClosed.Anchored := by
  have hstate : l.conn.state = .kDisconnected := h.disconnected fun hin => by
    rw [hin.closing] at hclosing
    cases hclosing
  have hfuncs := h.established (by rw [hstate]; nofun)
  set l₁ : Lifecycle := { l with
    closing := l.closing - 1
    closeCallbacks := l.closeCallbacks + 1 }
  have hclosed : l₁.connectionClosed.conn.state = .kDisconnected := connectionClosed_state hstate
  have hsame : l₁.connectionClosed.funcs = l.funcs ∧ l₁.connectionClosed.registered = false := by
    unfold connectionClosed
    split <;> exact ⟨rfl, rfl⟩
  refine .of_disconnected hclosed ?_ fun hr => ?_
  · rw [hsame.1]
    exact hfuncs
  · rw [hsame.2] at hr
    cases hr

/-- The erasing functor. -/
theorem Anchored.runErase (h : l.Anchored) (hpending : 0 < l.pendingErase) :
    ({ l with pendingErase := l.pendingErase - 1 } : Lifecycle).erase.Anchored := by
  have hstate : l.conn.state = .kDisconnected := h.disconnected fun hin => by
    rw [hin.pendingErase] at hpending
    cases hpending
  exact .of_disconnected hstate (h.established (by rw [hstate]; nofun)) (h.closed hstate)

/-- One callback of the channel. -/
theorem Anchored.callback (h : l.Anchored) {cb : EventCallback} {rest : List EventCallback}
    (htodo : l.todo = cb :: rest) (readable : ℤ) (answer : WriteResult) :
    (({ l with todo := rest, inMessage := false } : Lifecycle).runCallback readable answer
      cb).Anchored := by
  have hne : l.conn.state ≠ .kConnecting := by
    intro hs
    rw [(h.connecting hs).2.2.2.1] at htodo
    cases htodo
  have hpopped : ({ l with todo := rest, inMessage := false } : Lifecycle).Anchored :=
    h.congr rfl (.inl hne) rfl rfl rfl rfl rfl
  cases cb with
  | closeCallback => exact hpopped.handleClose hne
  | errorCallback => exact hpopped
  | readCallback =>
    unfold runCallback
    dsimp only
    split
    · exact hpopped.handleClose hne
    · exact h.congr rfl (.inl hne) rfl rfl rfl rfl rfl
  | writeCallback =>
    exact h.congr (l.conn.handleWrite_state answer) (.inl hne) rfl rfl rfl rfl rfl

/-- The oldest functor. -/
theorem Anchored.runFunc (h : l.Anchored) {f : ConnFunc} {rest : List ConnFunc}
    (hfuncs : l.funcs = f :: rest) (answer : WriteResult) :
    (({ l with funcs := rest } : Lifecycle).runConnFunc answer f).Anchored := by
  by_cases hstate : l.conn.state = .kConnecting
  · obtain ⟨hin, -, -, -, rest', hfuncs', hrest'⟩ := h.connecting hstate
    rw [hfuncs, List.cons.injEq] at hfuncs'
    obtain ⟨rfl, rfl⟩ := hfuncs'
    exact ⟨nofun, fun _ => hrest', fun _ => ⟨hin.inSet, hin.pendingErase, hin.closing⟩, nofun⟩
  · have hpopped := h.pop hfuncs hstate
    cases f with
    | connectEstablished =>
      have hnot := h.established hstate
      rw [hfuncs] at hnot
      exact absurd List.mem_cons_self hnot
    | sendInLoop data =>
      exact hpopped.congr (l.conn.sendInLoop_state data answer) (.inl hstate) rfl rfl rfl rfl rfl
    | shutdown => exact hpopped.shutdown
    | forceClose => exact hpopped.forceClose

/-- Every step of a connection, also of one that is closed twice. -/
theorem Anchored.step (h : l.Anchored) {e : LifeEvent} (hstep : l.step e = some l') :
    l'.Anchored := by
  cases e with
  | poll revents =>
    rw [Lifecycle.step, Option.ite_none_right_eq_some, Option.some.injEq] at hstep
    obtain ⟨hguard, rfl⟩ := hstep
    rw [Bool.and_eq_true] at hguard
    refine h.congr rfl (.inl fun hs => ?_) rfl rfl rfl rfl rfl
    rw [(h.connecting hs).2.1] at hguard
    cases hguard.2
  | handleEvent =>
    simp only [Lifecycle.step] at hstep
    split at hstep
    · next revents hunvisited =>
      rw [Option.ite_none_right_eq_some, Option.some.injEq] at hstep
      obtain ⟨-, rfl⟩ := hstep
      refine h.congr rfl (.inl fun hs => ?_) rfl rfl rfl rfl rfl
      rw [(h.connecting hs).2.2.1] at hunvisited
      cases hunvisited
    · cases hstep
  | callback readable answer =>
    simp only [Lifecycle.step] at hstep
    split at hstep
    · next cb rest htodo =>
      rw [Option.ite_none_right_eq_some, Option.some.injEq] at hstep
      obtain ⟨-, rfl⟩ := hstep
      exact h.callback htodo readable answer
    · cases hstep
  | closeCallback =>
    rw [Lifecycle.step, Option.ite_none_right_eq_some, Option.some.injEq] at hstep
    obtain ⟨hclosing, rfl⟩ := hstep
    exact h.closeCallback hclosing
  | runFunc answer =>
    simp only [Lifecycle.step] at hstep
    split at hstep
    · next f rest hfuncs =>
      rw [Option.ite_none_right_eq_some, Option.some.injEq] at hstep
      obtain ⟨-, rfl⟩ := hstep
      exact h.runFunc hfuncs answer
    · cases hstep
  | runErase =>
    rw [Lifecycle.step, Option.ite_none_right_eq_some, Option.some.injEq] at hstep
    obtain ⟨hpending, rfl⟩ := hstep
    exact h.runErase hpending
  | send data answer =>
    rw [Lifecycle.step, Option.ite_none_right_eq_some, Option.some.injEq] at hstep
    obtain ⟨-, rfl⟩ := hstep
    unfold Lifecycle.send
    split
    · next hconnected =>
      exact h.congr (l.conn.sendInLoop_state data answer) (.inl (by rw [hconnected]; rintro ⟨⟩))
        rfl rfl rfl rfl rfl
    · exact h
  | shutdown =>
    rw [Lifecycle.step, Option.ite_none_right_eq_some, Option.some.injEq] at hstep
    obtain ⟨-, rfl⟩ := hstep
    exact h.shutdown
  | forceClose =>
    rw [Lifecycle.step, Option.ite_none_right_eq_some, Option.some.injEq] at hstep
    obtain ⟨-, rfl⟩ := hstep
    exact h.forceClose
  | queueSend data =>
    obtain rfl := Option.some.inj hstep
    split
    · exact h.queue (by rintro ⟨⟩)
    · exact h
  | queueShutdown =>
    obtain rfl := Option.some.inj hstep
    exact h.queue (by rintro ⟨⟩)
  | queueForceClose =>
    obtain rfl := Option.some.inj hstep
    exact h.queue (by rintro ⟨⟩)

/-- Callbacks are left only after `handleEvent`. -/
theorem step_todo {e : LifeEvent} (hstep : l.step e = some l') (htodo : l.todo = [])
    (hne : e ≠ .handleEvent) : l'.todo = [] := by
  cases e with
  | handleEvent => exact absurd rfl hne
  | callback readable answer =>
    rw [Lifecycle.step, htodo] at hstep
    cases hstep
  | runFunc answer =>
    simp only [Lifecycle.step] at hstep
    split at hstep
    · next f rest _ =>
      rw [Option.ite_none_right_eq_some, Option.some.injEq] at hstep
      obtain ⟨-, rfl⟩ := hstep
      cases f with
      | forceClose =>
        unfold runConnFunc Lifecycle.forceClose
        dsimp only
        split <;> exact htodo
      | connectEstablished | sendInLoop | shutdown => exact htodo
    · cases hstep
  | closeCallback =>
    rw [Lifecycle.step, Option.ite_none_right_eq_some, Option.some.injEq] at hstep
    obtain ⟨-, rfl⟩ := hstep
    unfold connectionClosed
    split <;> exact htodo
  | forceClose =>
    rw [Lifecycle.step, Option.ite_none_right_eq_some, Option.some.injEq] at hstep
    obtain ⟨-, rfl⟩ := hstep
    unfold Lifecycle.forceClose
    split <;> exact htodo
  | send data answer =>
    rw [Lifecycle.step, Option.ite_none_right_eq_some, Option.some.injEq] at hstep
    obtain ⟨-, rfl⟩ := hstep
    unfold Lifecycle.send
    split <;> exact htodo
  | poll | runErase | shutdown =>
    rw [Lifecycle.step, Option.ite_none_right_eq_some, Option.some.injEq] at hstep
    obtain ⟨-, rfl⟩ := hstep
    exact htodo
  | queueSend data =>
    obtain rfl := Option.some.inj hstep
    split <;> exact htodo
  | queueShutdown | queueForceClose =>
    obtain rfl := Option.some.inj hstep
    exact htodo

/-- Every transition of a connection. -/
theorem Anchored.next (h : l.Anchored) {e : LifeEvent} (hnext : l.next e = some l') :
    l'.Anchored ∧ (l.todo = [] → e ≠ .handleEvent → l'.todo = []) := by
  obtain ⟨l₁, hstep, rfl⟩ := Option.map_eq_some_iff.mp hnext
  have h₁ := h.step hstep
  refine ⟨h₁.congr rfl ?_ rfl rfl rfl rfl rfl,
    fun htodo hne => show l₁.todo = [] from step_todo hstep htodo hne⟩
  by_cases hs : l₁.conn.state = .kConnecting
  · exact .inr ⟨(h₁.connecting hs).2.2.1, (h₁.connecting hs).2.2.2.1⟩
  · exact .inl hs

end Lifecycle

namespace Lifetime

/-- What holds in every state. -/
structure Inv (s : Lifetime) : Prop where
  anchored : s.life.Anchored
  /-- Callbacks are made under the guard of `handleEvent`. -/
  todo : s.guarded = false → s.life.todo = []

/-- No pointer is left. -/
structure Unheld (s : Lifetime) : Prop where
  inSet : s.life.inSet = false
  pendingErase : s.life.pendingErase = 0
  eraser : s.eraser = false
  funcs : ∀ f ∈ s.life.funcs, f.shares = false
  func : s.func = false
  ahead : s.ahead = []
  guarded : s.guarded = false
  closing : s.life.closing = 0
  users : s.users = 0

variable {s t : Lifetime}

/-- The pointers are counted one by one. -/
theorem unheld_of_refs (h : s.refs = 0) : s.Unheld := by
  have hbool : ∀ {b : Bool}, b.toNat = 0 → b = false := by
    intro b hb
    cases b with
    | false => rfl
    | true => cases hb
  unfold refs at h
  refine ⟨hbool (by omega), by omega, hbool (by omega), ?_, hbool (by omega), ?_,
    hbool (by omega), by omega, by omega⟩
  · intro f hf
    have hcount : s.life.funcs.countP (·.shares) = 0 := by omega
    exact Bool.eq_false_iff.mpr (List.countP_eq_zero.mp hcount f hf)
  · exact List.eq_nil_of_length_eq_zero (by omega)

/-- Without pointers the connection is disconnected, and it has left the poller. -/
theorem Inv.gone (h : s.Inv) (hu : s.Unheld) :
    s.life.conn.state = .kDisconnected ∧ s.life.registered = false := by
  have hstate : s.life.conn.state = .kDisconnected := h.anchored.disconnected fun hin => by
    have hset := hin.inSet
    rw [hu.inSet] at hset
    cases hset
  refine ⟨hstate, Bool.eq_false_iff.mpr fun hregistered => ?_⟩
  have hclosing := h.anchored.closed hstate hregistered
  rw [hu.closing] at hclosing
  cases hclosing

/-- The bare pointers that outlive the connection decide whether it ends well. -/
theorem Inv.endsWell_iff (h : s.Inv) (hrefs : s.refs = 0) :
    s.EndsWell ↔ s.life.unvisited = none ∧ ∀ f ∈ s.life.funcs, f.shares = true := by
  have hu := unheld_of_refs hrefs
  have hidle : s.life.idle = true := by
    rw [Lifecycle.idle, h.todo hu.guarded, hu.closing]
    rfl
  constructor
  · intro hends
    obtain ⟨-, hnone⟩ := hends hrefs
    have hunvisited : s.life.unvisited = none := by
      by_contra hne
      obtain ⟨revents, hsome⟩ := Option.ne_none_iff_exists'.mp hne
      have hstep := hnone (.life .handleEvent)
      rw [next, allows, hu.guarded, hu.func] at hstep
      simp [Lifecycle.next, Lifecycle.step, hsome, hidle] at hstep
    refine ⟨hunvisited, fun f hmem => ?_⟩
    have hstep := hnone (.life (.runFunc (.count 0)))
    rw [next, allows, hu.guarded, hu.func, hu.ahead] at hstep
    cases hfuncs : s.life.funcs with
    | nil =>
      rw [hfuncs] at hmem
      cases hmem
    | cons f rest =>
      simp [Lifecycle.next, Lifecycle.step, hfuncs, hidle, hunvisited] at hstep
  · rintro ⟨hunvisited, hshare⟩ -
    obtain ⟨hstate, hregistered⟩ := h.gone hu
    have hfuncs : s.life.funcs = [] := by
      refine List.eq_nil_iff_forall_not_mem.mpr fun f hmem => ?_
      have hbare := hu.funcs f hmem
      rw [hshare f hmem] at hbare
      cases hbare
    have hgiven : s.given = false := by
      rw [given, hu.users, hu.guarded, hu.closing, hu.func]
      rfl
    refine ⟨hstate, fun e => ?_⟩
    cases e with
    | life e =>
      cases e with
      | poll revents => simp [next, Lifecycle.next, Lifecycle.step, hregistered]
      | handleEvent => simp [next, Lifecycle.next, Lifecycle.step, hunvisited]
      | callback readable answer =>
        simp [next, Lifecycle.next, Lifecycle.step, h.todo hu.guarded]
      | closeCallback => simp [next, Lifecycle.next, Lifecycle.step, hu.closing]
      | runFunc answer => simp [next, Lifecycle.next, Lifecycle.step, hfuncs]
      | runErase => simp [next, Lifecycle.next, Lifecycle.step, hu.pendingErase]
      | send | shutdown | forceClose => simp [next, allows, hgiven]
      | queueSend | queueShutdown | queueForceClose => simp [next, allows, hu.users]
    | endHandleEvent => simp [next, hu.guarded]
    | runQueued => simp [next, hu.ahead]
    | dropFunc => simp [next, hu.func]
    | dropEraser => simp [next, hu.eraser]
    | acquire => simp [next, hgiven]
    | release => simp [next, hu.users]

/-- Every step keeps the invariant. -/
theorem Inv.next (h : s.Inv) {e : LifetimeEvent} (hstep : s.next e = some t) : t.Inv := by
  cases e with
  | life e =>
    unfold Lifetime.next at hstep
    dsimp only at hstep
    split_ifs at hstep
    obtain ⟨l, hl, rfl⟩ := Option.map_eq_some_iff.mp hstep
    obtain ⟨hanchored, htodo⟩ := h.anchored.next hl
    refine ⟨hanchored, fun hguarded => ?_⟩
    cases e with
    | handleEvent => cases hguarded
    | _ => exact htodo (h.todo hguarded) nofun
  | endHandleEvent =>
    unfold Lifetime.next at hstep
    rw [Option.ite_none_right_eq_some, Option.some.injEq] at hstep
    obtain ⟨hguard, rfl⟩ := hstep
    refine ⟨h.anchored, fun _ => ?_⟩
    rw [Bool.and_eq_true, Lifecycle.idle, Bool.and_eq_true, List.isEmpty_iff] at hguard
    exact hguard.2.1
  | runQueued =>
    unfold Lifetime.next at hstep
    dsimp only at hstep
    split at hstep
    · rw [Option.ite_none_right_eq_some, Option.some.injEq] at hstep
      obtain ⟨-, rfl⟩ := hstep
      exact ⟨h.anchored, h.todo⟩
    · cases hstep
  | dropFunc | dropEraser | acquire | release =>
    unfold Lifetime.next at hstep
    rw [Option.ite_none_right_eq_some, Option.some.injEq] at hstep
    obtain ⟨-, rfl⟩ := hstep
    exact ⟨h.anchored, h.todo⟩

/-- A connection that has just been put into the set. -/
theorem Inv.newConnection (fd : ℕ) (sameLoop hasHighWaterMark : Bool) :
    (newConnection fd sameLoop hasHighWaterMark).Inv where
  anchored := ⟨fun _ => ⟨⟨rfl, rfl, rfl⟩, rfl, rfl, rfl, [], rfl, nofun⟩, fun h => absurd rfl h,
    nofun, nofun⟩
  todo := fun _ => rfl

/-- In every run, a connection ends well in every state exactly when no step drops the last
pointer to it while the functor of a `send`, or the batch of the poller, still names it. -/
theorem endsWell_iff_outlivesUses {fd : ℕ} {sameLoop hasHighWaterMark : Bool}
    {trace : List (Lifetime × LifetimeEvent)} {last : Lifetime}
    (h : machine.Run (newConnection fd sameLoop hasHighWaterMark) trace last) :
    (∀ s ∈ Machine.visited trace last, s.EndsWell) ↔ ∀ p ∈ trace, p.1.OutlivesUses p.2 := by
  refine h.forall_visited_iff (I := fun s => s.Inv ∧ s.EndsWell) (C := OutlivesUses)
    (fun _ hs => hs.2) ?_ ?_ ?_
  · intro s e t hs hc hstep
    have ht := hs.1.next hstep
    exact ⟨ht, fun hrefs => (ht.endsWell_iff hrefs).mpr (hc t hstep hrefs) hrefs⟩
  · intro s e t hs hbad hstep hends
    refine hbad fun t' hstep' hrefs => ?_
    obtain rfl : t = t' := Option.some.inj (hstep.symm.trans hstep')
    exact ((hs.1.next hstep).endsWell_iff hrefs).mp hends
  · refine ⟨.newConnection fd sameLoop hasHighWaterMark, fun hrefs => ?_⟩
    have hset := (unheld_of_refs hrefs).inSet
    cases hset

instance (s : Lifetime) (e : LifetimeEvent) : Decidable (s.OutlivesUses e) := by
  unfold OutlivesUses
  infer_instance

/-- The peer closes. The user's code has no pointer, and the server's loop erases the
connection while `handleEvent` still holds its guard. -/
def erasedUnderGuard : List LifetimeEvent :=
  [.life (.runFunc (.count 0)), .dropFunc, .release, .life (.poll (POLLIN ||| POLLRDHUP)),
    .life .handleEvent, .life (.callback 0 (.count 0)), .life .closeCallback, .life .runErase,
    .dropEraser, .endHandleEvent]

/-- In `erasedUnderGuard` the connection ends well, and it does end. -/
theorem endsWell_iff_outlivesUses_erasedUnderGuard :
    ∃ last, erasedUnderGuard.foldlM next (newConnection 7 false false) = some last ∧
      last.refs = 0 ∧ ∀ s ∈ Machine.visited
        (Machine.traceOf next (newConnection 7 false false) erasedUnderGuard) last, s.EndsWell := by
  have hrefs : (erasedUnderGuard.foldlM next (newConnection 7 false false)).map refs = some 0 := by
    decide
  obtain ⟨last, hlast, hrefs⟩ := Option.map_eq_some_iff.mp hrefs
  exact ⟨last, hlast, hrefs, (endsWell_iff_outlivesUses (.of_foldlM hlast)).mpr (by decide)⟩

/-- Another thread calls `send` and drops its pointer. The peer closes before the functor
has run. -/
def sendThenClose : List LifetimeEvent :=
  [.life (.runFunc (.count 0)), .dropFunc, .life (.poll (POLLIN ||| POLLRDHUP)),
    .life (.queueSend [1]), .release, .life .handleEvent, .life (.callback 0 (.count 0)),
    .life .closeCallback, .endHandleEvent]

/-- In `sendThenClose` the functor of the `send` outlives the connection. -/
theorem not_endsWell_sendThenClose : ∃ s, machine.Reachable s ∧ s.refs = 0 ∧ ¬s.EndsWell := by
  have hfields : (sendThenClose.foldlM next (newConnection 7 true false)).map
      (fun s => (s.refs, s.life.funcs)) = some (0, [.sendInLoop [1]]) := by decide
  obtain ⟨s, hs, hfields⟩ := Option.map_eq_some_iff.mp hfields
  rw [Prod.mk.injEq] at hfields
  obtain ⟨hrefs, hfuncs⟩ := hfields
  have hreachable : machine.Reachable s := .of_foldlM (.of_init ⟨7, true, false, rfl⟩) hs
  have hinv : s.Inv := hreachable.invariant
    (fun _ ⟨fd, sameLoop, mark, hinit⟩ => hinit ▸ .newConnection fd sameLoop mark)
    fun _ _ _ h hstep => h.next hstep
  refine ⟨s, hreachable, hrefs, fun hends => ?_⟩
  have hshare := ((hinv.endsWell_iff hrefs).mp hends).2 (.sendInLoop [1])
    (by rw [hfuncs]; exact List.mem_cons_self)
  cases hshare

end Lifetime

end DuoDuo.Net
