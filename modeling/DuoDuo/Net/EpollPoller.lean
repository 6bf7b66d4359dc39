import DuoDuo.Net.TcpConnection
import DuoDuo.Library.Machine
import Mathlib.Logic.Function.Basic

/-!
# The poller and its channels

`EpollPoller` keeps the interest list of an epoll instance in step with the masks of
the channels. The index of a channel tells it whether to add, modify or delete; an
update of a channel that is not added always adds, also when the mask is empty. A step
that breaks an assertion has no result.
-/

namespace DuoDuo.Net

open Library

/-- `Channel::disableReading`, which masks with the complement of the read events. -/
def Channel.disableReading (ch : Channel) : Channel :=
  { ch with events := ch.events.ldiff kReadEvent }

/-- `Channel::updateEvents`, up to the call of `update`. -/
def Channel.updateEvents (ch : Channel) (events : ℕ) : Channel := { ch with events }

/-- `kNew`, `kAdded` and `kDeleted`, the values of `index_`. -/
inductive PollerIndex
  | new
  | added
  | deleted
  deriving DecidableEq, Repr

/-- A channel, with the index that the poller gives it. -/
structure PolledChannel extends Channel where
  index : PollerIndex := .new
  deriving DecidableEq, Repr

/-- The entry of a channel in `channels_`. -/
def PolledChannel.channelsEntry (ch : PolledChannel) (c : ℕ) : Option ℕ :=
  if ch.index = .new then none else some c

/-- The entry of a channel in the interest list. -/
def PolledChannel.interestEntry (ch : PolledChannel) (c : ℕ) : Option (ℕ × ℕ) :=
  if ch.index = .added then some (ch.events, c) else none

/-- The operations of `epoll_ctl`. -/
inductive EpollOperation
  | add
  | mod
  | del
  deriving DecidableEq, Repr

/-- An interest list: the mask and the data pointer of each descriptor. -/
abbrev InterestList := ℕ → Option (ℕ × ℕ)

/-- `epoll_ctl`, which fails without an effect where the operation does not apply. -/
def epollCtl (operation : EpollOperation) (fd : ℕ) (event : ℕ × ℕ) (list : InterestList) :
    InterestList :=
  match operation, list fd with
  | .add, none => Function.update list fd (some event)
  | .mod, some _ => Function.update list fd (some event)
  | .del, some _ => Function.update list fd none
  | _, _ => list

/-- The channels by their pointers, the map `channels_`, and the interest list of the
kernel. -/
structure EpollPoller where
  chan : ℕ → PolledChannel
  channels : ℕ → Option ℕ := fun _ => none
  interest : InterestList := fun _ => none

namespace EpollPoller

/-- A channel changes. -/
def setChan (p : EpollPoller) (c : ℕ) (ch : PolledChannel) : EpollPoller :=
  { p with chan := Function.update p.chan c ch }

/-- `setIndex`. -/
def setIndex (p : EpollPoller) (c : ℕ) (index : PollerIndex) : EpollPoller :=
  p.setChan c { p.chan c with index }

/-- `update`. -/
def update (p : EpollPoller) (operation : EpollOperation) (c : ℕ) : EpollPoller :=
  { p with interest := epollCtl operation (p.chan c).fd ((p.chan c).events, c) p.interest }

/-- `updateChannel`. -/
def updateChannel (p : EpollPoller) (c : ℕ) : Option EpollPoller :=
  let fd := (p.chan c).fd
  match (p.chan c).index with
  | .new =>
    if p.channels fd = none then
      let p := { p with channels := Function.update p.channels fd (some c) }
      some ((p.setIndex c .added).update .add c)
    else none
  | .deleted =>
    if p.channels fd = some c then some ((p.setIndex c .added).update .add c) else none
  | .added =>
    if p.channels fd = some c then
      if (p.chan c).isNoneEvent then some ((p.update .del c).setIndex c .deleted)
      else some (p.update .mod c)
    else none

/-- `removeChannel`. -/
def removeChannel (p : EpollPoller) (c : ℕ) : Option EpollPoller :=
  let fd := (p.chan c).fd
  if p.channels fd = some c ∧ (p.chan c).isNoneEvent then
    let p := { p with channels := Function.update p.channels fd none }
    match (p.chan c).index with
    | .new => none
    | .added => some ((p.update .del c).setIndex c .new)
    | .deleted => some (p.setIndex c .new)
  else none

/-- What an owner does with a channel. -/
inductive Op
  | enableReading
  | disableReading
  | enableWriting
  | disableWriting
  | disableAll
  | updateEvents (events : ℕ)
  | remove
  deriving DecidableEq, Repr

/-- The channel after an operation changed its mask, before it is passed to the poller. -/
def Op.apply (ch : Channel) : Op → Channel
  | enableReading => ch.enableReading
  | disableReading => ch.disableReading
  | enableWriting => ch.enableWriting
  | disableWriting => ch.disableWriting
  | disableAll => ch.disableAll
  | updateEvents events => ch.updateEvents events
  | remove => ch

/-- An operation on a channel; `remove` asserts that no event is enabled. -/
def next (p : EpollPoller) (a : ℕ × Op) : Option EpollPoller :=
  match a.2 with
  | .remove => if (p.chan a.1).events = kNoneEvent then p.removeChannel a.1 else none
  | op =>
    (p.setChan a.1 { p.chan a.1 with toChannel := op.apply (p.chan a.1).toChannel }).updateChannel
      a.1

/-- `remove` is only called on a channel that the poller knows and that has no event
enabled. -/
def Allowed (p : EpollPoller) (a : ℕ × Op) : Prop :=
  a.2 = .remove → p.channels (p.chan a.1).fd = some a.1 ∧ (p.chan a.1).events = kNoneEvent

/-- The machine of a poller and of its channels, which are new and have distinct
descriptors. -/
def machine : Machine EpollPoller (ℕ × Op) where
  init p := (∀ c, (p.chan c).events = kNoneEvent ∧ (p.chan c).index = .new) ∧
    Function.Injective (fun c => (p.chan c).fd) ∧ p.channels = (fun _ => none) ∧
    p.interest = fun _ => none
  step p a q := p.Allowed a ∧ p.next a = some q

/-- A map by descriptors holds the entries of the channels, and no others. -/
def Keyed {β : Type} (fd : ℕ → ℕ) (entry f : ℕ → Option β) : Prop :=
  ∀ d b, f d = some b ↔ ∃ c, fd c = d ∧ entry c = some b

/-- What holds in every run. -/
structure Inv (p : EpollPoller) : Prop where
  distinct : Function.Injective fun c => (p.chan c).fd
  channels : Keyed (fun c => (p.chan c).fd) (fun c => (p.chan c).channelsEntry c) p.channels
  interest : Keyed (fun c => (p.chan c).fd) (fun c => (p.chan c).interestEntry c) p.interest

/-- An added channel has an event enabled, and no other has. -/
def Tight (p : EpollPoller) : Prop :=
  ∀ c, (p.chan c).index = .added ↔ (p.chan c).events ≠ kNoneEvent

/-- The poller mirrors the channels: a descriptor is in the interest list exactly when its
channel has an event enabled, its mask is that of the channel, `channels_` has exactly
the channels whose index is not `kNew`, and no assertion fails at the next operation. -/
structure Mirrors (p : EpollPoller) : Prop where
  interested_iff : ∀ c, (p.interest (p.chan c).fd).isSome ↔ (p.chan c).events ≠ kNoneEvent
  mask_eq : ∀ fd mask c, p.interest fd = some (mask, c) →
    fd = (p.chan c).fd ∧ mask = (p.chan c).events
  channels_iff : ∀ fd c, p.channels fd = some c ↔
    (p.chan c).fd = fd ∧ (p.chan c).index ≠ .new
  asserts : ∀ a, p.Allowed a → (p.next a).isSome

section Keyed

variable {β : Type} {fd : ℕ → ℕ} {entry f : ℕ → Option β}

theorem Keyed.apply (h : Keyed fd entry f) (hfd : Function.Injective fd) (c : ℕ) :
    f (fd c) = entry c := by
  rcases hentry : entry c with _ | b
  · rcases hf : f (fd c) with _ | b
    · rfl
    · obtain ⟨c', heq, hsome⟩ := (h _ _).mp hf
      obtain rfl := hfd heq
      rw [hentry] at hsome
      cases hsome
  · exact (h _ _).mpr ⟨c, rfl, hentry⟩

/-- The entry of one channel changes. -/
theorem Keyed.update (h : Keyed fd entry f) (hfd : Function.Injective fd) (c : ℕ) (e : Option β) :
    Keyed fd (Function.update entry c e) (Function.update f (fd c) e) := by
  intro d b
  by_cases hd : d = fd c
  · rw [hd, Function.update_self]
    constructor
    · intro he
      exact ⟨c, rfl, by rw [Function.update_self, he]⟩
    · rintro ⟨c', heq, he⟩
      obtain rfl := hfd heq
      rwa [Function.update_self] at he
  · rw [Function.update_of_ne hd, h d b]
    have hother : ∀ c', fd c' = d → Function.update entry c e c' = entry c' := by
      rintro c' rfl
      exact Function.update_of_ne (fun heq => hd (congrArg fd heq)) _ _
    constructor
    · rintro ⟨c', heq, he⟩
      exact ⟨c', heq, (hother c' heq).trans he⟩
    · rintro ⟨c', heq, he⟩
      exact ⟨c', heq, (hother c' heq).symm.trans he⟩

end Keyed

variable {p q : EpollPoller} {c : ℕ} {k : PolledChannel}

/-- The rule of all operations on one channel: its entries follow its new index. -/
theorem Inv.change (h : Inv p) (hfd : k.fd = (p.chan c).fd)
    (hchan : q.chan = Function.update p.chan c k)
    (hchannels : q.channels = Function.update p.channels k.fd (k.channelsEntry c))
    (hinterest : q.interest = Function.update p.interest k.fd (k.interestEntry c)) : Inv q := by
  have hsame : (fun c' => (q.chan c').fd) = fun c' => (p.chan c').fd := by
    funext c'
    rw [hchan]
    by_cases hc : c' = c
    · rw [hc, Function.update_self, hfd]
    · rw [Function.update_of_ne hc]
  have hentry : ∀ {β : Type} (entry : PolledChannel → ℕ → Option β),
      (fun c' => entry (q.chan c') c') =
        Function.update (fun c' => entry (p.chan c') c') c (entry k c) := by
    intro β entry
    funext c'
    rw [hchan]
    by_cases hc : c' = c
    · rw [hc, Function.update_self, Function.update_self]
    · rw [Function.update_of_ne hc, Function.update_of_ne hc]
  refine ⟨?_, ?_, ?_⟩
  · rw [hsame]
    exact h.distinct
  · rw [hsame, hentry, hchannels, hfd]
    exact h.channels.update h.distinct c _
  · rw [hsame, hentry, hinterest, hfd]
    exact h.interest.update h.distinct c _

/-- The index that an update gives a channel with a mask. -/
def updatedIndex (events : ℕ) : PollerIndex → PollerIndex
  | .added => if events = kNoneEvent then .deleted else .added
  | _ => .added

/-- An update of a channel whose mask was changed succeeds, and its index follows the
mask and the old index. -/
theorem Inv.updateChannel (h : Inv p) (hfd : k.fd = (p.chan c).fd)
    (hindex : k.index = (p.chan c).index) :
    ∃ q, (p.setChan c k).updateChannel c = some q ∧ Inv q ∧
      q.chan = Function.update p.chan c { k with index := updatedIndex k.events k.index } := by
  have hchannels := h.channels.apply h.distinct c
  have hinterest := h.interest.apply h.distinct c
  rw [PolledChannel.channelsEntry, ← hfd, ← hindex] at hchannels
  rw [PolledChannel.interestEntry, ← hfd, ← hindex] at hinterest
  have hself : (p.setChan c k).chan c = k := Function.update_self _ _ _
  have hsame : (p.setChan c k).channels = p.channels := rfl
  rw [EpollPoller.updateChannel]
  simp only [hself, hsame]
  cases hidx : k.index with
  | new =>
    rw [hidx, if_pos rfl] at hchannels
    rw [hidx, if_neg (by decide)] at hinterest
    rw [if_pos hchannels]
    refine ⟨_, rfl, h.change (c := c) (k := { k with index := .added }) hfd ?_ ?_ ?_, ?_⟩
    · simp [update, setIndex, setChan]
    · simp [update, setIndex, setChan, PolledChannel.channelsEntry]
    · simp [update, setIndex, setChan, epollCtl, hinterest, PolledChannel.interestEntry]
    · simp [update, setIndex, setChan, updatedIndex]
  | deleted =>
    rw [hidx, if_neg (by decide)] at hchannels hinterest
    rw [if_pos hchannels]
    refine ⟨_, rfl, h.change (c := c) (k := { k with index := .added }) hfd ?_ ?_ ?_, ?_⟩
    · simp [update, setIndex, setChan]
    · simp [update, setIndex, setChan, PolledChannel.channelsEntry, ← hchannels]
    · simp [update, setIndex, setChan, epollCtl, hinterest, PolledChannel.interestEntry]
    · simp [update, setIndex, setChan, updatedIndex]
  | added =>
    rw [hidx, if_neg (by decide)] at hchannels
    rw [hidx, if_pos rfl] at hinterest
    dsimp only
    rw [if_pos hchannels]
    by_cases hnone : k.events = kNoneEvent
    · rw [if_pos (by simp [Channel.isNoneEvent, hnone])]
      refine ⟨_, rfl, h.change (c := c) (k := { k with index := .deleted }) hfd ?_ ?_ ?_, ?_⟩
      · simp [update, setIndex, setChan]
      · simp [update, setIndex, setChan, PolledChannel.channelsEntry, ← hchannels]
      · simp [update, setIndex, setChan, epollCtl, hinterest, PolledChannel.interestEntry]
      · simp [update, setIndex, setChan, updatedIndex, hnone]
    · rw [if_neg (by simp [Channel.isNoneEvent, hnone])]
      refine ⟨_, rfl, h.change (c := c) (k := k) hfd ?_ ?_ ?_, ?_⟩
      · simp [update, setChan]
      · simp [update, setChan, PolledChannel.channelsEntry, ← hchannels, hidx]
      · simp [update, setChan, epollCtl, hinterest, PolledChannel.interestEntry, hidx]
      · simp [update, setChan, updatedIndex, hnone, ← hidx]

/-- A removal of a channel that the poller knows succeeds, and makes the channel new. -/
theorem Inv.removeChannel (h : Inv p) (hknown : p.channels (p.chan c).fd = some c)
    (hnone : (p.chan c).events = kNoneEvent) :
    ∃ q, p.removeChannel c = some q ∧ Inv q ∧
      q.chan = Function.update p.chan c { p.chan c with index := .new } := by
  have hchannels := h.channels.apply h.distinct c
  have hinterest := h.interest.apply h.distinct c
  rw [PolledChannel.channelsEntry, hknown] at hchannels
  rw [PolledChannel.interestEntry] at hinterest
  rw [EpollPoller.removeChannel]
  dsimp only
  rw [if_pos ⟨hknown, by simp [Channel.isNoneEvent, hnone]⟩]
  cases hidx : (p.chan c).index with
  | new =>
    rw [hidx, if_pos rfl] at hchannels
    cases hchannels
  | added =>
    rw [hidx, if_pos rfl] at hinterest
    refine ⟨_, rfl, h.change (c := c) (k := { p.chan c with index := .new }) rfl ?_ ?_ ?_, ?_⟩
    · simp [update, setIndex, setChan]
    · simp [update, setIndex, setChan, PolledChannel.channelsEntry]
    · simp [update, setIndex, setChan, epollCtl, hinterest, PolledChannel.interestEntry]
    · simp [update, setIndex, setChan]
  | deleted =>
    rw [hidx, if_neg (by decide)] at hinterest
    refine ⟨_, rfl, h.change (c := c) (k := { p.chan c with index := .new }) rfl ?_ ?_ ?_, ?_⟩
    · simp [setIndex, setChan]
    · simp [setIndex, setChan, PolledChannel.channelsEntry]
    · simp [setIndex, setChan, PolledChannel.interestEntry, ← hinterest]
    · simp [setIndex, setChan]

/-- The channel after an operation. -/
def Op.result (ch : PolledChannel) : Op → PolledChannel
  | .remove => { ch with index := .new }
  | op => { toChannel := op.apply ch.toChannel
            index := updatedIndex (op.apply ch.toChannel).events ch.index }

/-- No assertion fails in an operation that is allowed. -/
theorem Inv.next (h : Inv p) {a : ℕ × Op} (hallowed : p.Allowed a) :
    ∃ q, p.next a = some q ∧ Inv q ∧
      q.chan = Function.update p.chan a.1 (a.2.result (p.chan a.1)) := by
  obtain ⟨c, op⟩ := a
  by_cases hop : op = .remove
  · subst hop
    obtain ⟨hknown, hnone⟩ := hallowed rfl
    obtain ⟨q, hq, hinv, hchan⟩ := h.removeChannel hknown hnone
    exact ⟨q, (if_pos hnone).trans hq, hinv, hchan⟩
  · obtain ⟨q, hq, hinv, hchan⟩ := h.updateChannel
      (k := { p.chan c with toChannel := op.apply (p.chan c).toChannel })
      (by cases op <;> rfl) rfl
    refine ⟨q, ?_, hinv, ?_⟩
    · cases op with
      | remove => exact absurd rfl hop
      | _ => exact hq
    · cases op with
      | remove => exact absurd rfl hop
      | _ => exact hchan

/-- When the index of every channel agrees with its mask, the poller mirrors the channels. -/
theorem Inv.mirrors (h : Inv p) (htight : p.Tight) : Mirrors p where
  interested_iff := by
    intro c
    have hentry := h.interest.apply h.distinct c
    rw [hentry, ← htight c, PolledChannel.interestEntry]
    split <;> simp_all
  mask_eq := by
    intro fd mask c hentry
    obtain ⟨c', hfd, hentry⟩ := (h.interest _ _).mp hentry
    dsimp only [PolledChannel.interestEntry] at hentry
    split_ifs at hentry
    cases hentry
    exact ⟨hfd.symm, rfl⟩
  channels_iff := by
    intro fd c
    rw [h.channels fd c]
    constructor
    · rintro ⟨c', hfd, hentry⟩
      dsimp only [PolledChannel.channelsEntry] at hentry
      split_ifs at hentry with hnew
      cases hentry
      exact ⟨hfd, hnew⟩
    · rintro ⟨hfd, hnew⟩
      exact ⟨c, hfd, if_neg hnew⟩
  asserts := by
    intro a hallowed
    obtain ⟨q, hq, -⟩ := h.next hallowed
    rw [hq]
    rfl

/-- Only a channel that is added is updated with an empty mask. -/
def DisablesAdded (p : EpollPoller) (a : ℕ × Op) : Prop :=
  a.2 ≠ .remove → (a.2.apply (p.chan a.1).toChannel).events = kNoneEvent →
    (p.chan a.1).index = .added

/-- The index that follows an update agrees with the mask, exactly under the condition. -/
theorem result_tight_iff {ch : PolledChannel} {op : Op} (hop : op ≠ .remove) :
    ((op.result ch).index = .added ↔ (op.result ch).events ≠ kNoneEvent) ↔
      ((op.apply ch.toChannel).events = kNoneEvent → ch.index = .added) := by
  have hresult : op.result ch = { toChannel := op.apply ch.toChannel
                                  index := updatedIndex (op.apply ch.toChannel).events ch.index } := by
    cases op with
    | remove => exact absurd rfl hop
    | _ => rfl
  rw [hresult]
  cases hindex : ch.index with
  | added =>
    dsimp only [updatedIndex]
    split <;> simp_all
  | new =>
    simp [updatedIndex]
  | deleted =>
    simp [updatedIndex]

/-- Every step that meets the condition keeps the indices in agreement with the masks. -/
theorem Tight.next (h : p.Tight) (hinv : Inv p) {a : ℕ × Op} (hallowed : p.Allowed a)
    (hc : p.DisablesAdded a) (hstep : p.next a = some q) : q.Tight := by
  obtain ⟨q', hq', -, hchan⟩ := hinv.next hallowed
  rw [hstep] at hq'
  cases hq'
  intro c
  rw [hchan]
  by_cases hne : c = a.1
  · rw [hne, Function.update_self]
    by_cases hop : a.2 = .remove
    · rw [hop]
      have hnone := (hallowed hop).2
      simp [Op.result, hnone]
    · exact (result_tight_iff hop).mpr (hc hop)
  · rw [Function.update_of_ne hne]
    exact h c

/-- A step that does not meet the condition adds a channel without an event. -/
theorem not_mirrors_of_violation (hinv : Inv p) {a : ℕ × Op} (hallowed : p.Allowed a)
    (hbad : ¬p.DisablesAdded a) (hstep : p.next a = some q) : ¬Mirrors q := by
  intro hmirrors
  obtain ⟨q', hq', hinv', hchan⟩ := hinv.next hallowed
  rw [hstep] at hq'
  cases hq'
  simp only [DisablesAdded, Classical.not_imp] at hbad
  obtain ⟨hop, hbad⟩ := hbad
  have hself : q.chan a.1 = a.2.result (p.chan a.1) := by rw [hchan, Function.update_self]
  have hentry := hinv'.interest.apply hinv'.distinct a.1
  have hiff := hmirrors.interested_iff a.1
  rw [hentry, PolledChannel.interestEntry, hself] at hiff
  have htight : (a.2.result (p.chan a.1)).index = .added ↔
      (a.2.result (p.chan a.1)).events ≠ kNoneEvent := by
    rw [← hiff]
    split <;> simp_all
  have hcond := (result_tight_iff hop).mp htight
  exact hbad.2 (hcond hbad.1)

/-- In a run of operations on new channels with distinct descriptors, the poller mirrors
the channels after each operation exactly when only channels that are added are updated
with an empty mask. -/
theorem mirrors_iff_disablesAdded {p q : EpollPoller} {trace : List (EpollPoller × (ℕ × Op))}
    (hinit : machine.init p) (hrun : machine.Run p trace q) :
    (∀ r ∈ Machine.visited trace q, Mirrors r) ↔ ∀ step ∈ trace, step.1.DisablesAdded step.2 := by
  refine hrun.forall_visited_iff (I := fun r => Inv r ∧ r.Tight) (C := DisablesAdded)
    (fun r h => h.1.mirrors h.2) ?_ ?_ ?_
  · rintro r a r' ⟨hinv, htight⟩ hc ⟨hallowed, hstep⟩
    obtain ⟨r'', hr'', hinv', -⟩ := hinv.next hallowed
    rw [hstep] at hr''
    cases hr''
    exact ⟨hinv', htight.next hinv hallowed hc hstep⟩
  · rintro r a r' ⟨hinv, -⟩ hbad ⟨hallowed, hstep⟩
    exact not_mirrors_of_violation hinv hallowed hbad hstep
  · obtain ⟨hnew, hdistinct, hchannels, hinterest⟩ := hinit
    refine ⟨⟨hdistinct, ?_, ?_⟩, fun c => ?_⟩
    · intro d b
      simp [hchannels, PolledChannel.channelsEntry, hnew]
    · intro d b
      simp [hinterest, PolledChannel.interestEntry, hnew]
    · simp [hnew]

/-- Channels that are new; the descriptor of each is its number. -/
def newChannels : EpollPoller where
  chan c := { fd := c }

theorem machine_init_newChannels : machine.init newChannels :=
  ⟨fun _ => ⟨rfl, rfl⟩, fun _ _ h => h, rfl, rfl⟩

/-- An operation on one of the new channels. -/
theorem run_newChannels {o : Op} {q : EpollPoller} (hop : o ≠ .remove)
    (hstep : newChannels.next (7, o) = some q) :
    machine.Run newChannels [(newChannels, (7, o))] q :=
  .cons ⟨fun h => absurd h hop, hstep⟩ (.nil _)

/-- Reading is enabled on a new channel. -/
theorem mirrors_iff_disablesAdded_reading :
    ∃ q, machine.Run newChannels [(newChannels, (7, .enableReading))] q ∧
      q.interest 7 = some (3, 7) ∧ Mirrors q := by
  have hrun := run_newChannels (o := .enableReading) (by decide) rfl
  refine ⟨_, hrun, by decide, ?_⟩
  refine (mirrors_iff_disablesAdded machine_init_newChannels hrun).mpr ?_ _
    (by simp [Machine.visited])
  rw [List.forall_mem_singleton]
  intro _ hnone
  exact absurd hnone (by decide)

/-- Reading is disabled on a new channel, whose descriptor is added to the interest list
although no event is enabled. -/
theorem disableReading_not_mirrors :
    ∃ q, machine.Run newChannels [(newChannels, (7, .disableReading))] q ∧
      q.interest 7 = some (0, 7) ∧ (q.chan 7).events = kNoneEvent ∧ ¬Mirrors q := by
  have hrun := run_newChannels (o := .disableReading) (by decide) rfl
  refine ⟨_, hrun, by decide +kernel, by decide +kernel, fun hmirrors => ?_⟩
  have hiff := hmirrors.interested_iff 7
  exact absurd hiff (by decide +kernel)

end EpollPoller

end DuoDuo.Net
