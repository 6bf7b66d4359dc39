import DuoDuo.Library.SpinLock
import DuoDuo.Timers.TimingWheel

/-!
# The delay queue under its spin lock

`offer` and `poll` hold the spin lock of the queue while they look at the priority queue
step by step. The vector of the priority queue has an element with the least expiration in
front; where its other elements stand after a `push` or a `pop` is left open, and is an
input of the step. A timer sees a queue whose operations are atomic.
-/

namespace DuoDuo.Timers

open Library

namespace DelayQueue

/-- The calls. -/
inductive Call
  | offer (e : BucketId) (expiration : TimeEntry)
  | poll
  deriving DecidableEq

/-- What they return. -/
inductive Answer
  | offered
  | polled (first : Option DelayQueueEntry)
  deriving DecidableEq

/-- Where a call is under the lock. -/
inductive Local
  /-- `q.push`. -/
  | pushing (e : DelayQueueEntry)
  /-- `q.empty`. -/
  | testing
  /-- `q.top`. -/
  | topping
  /-- `getDelay`. -/
  | delaying (first : DelayQueueEntry)
  /-- `q.pop`. -/
  | popping (first : DelayQueueEntry)
  deriving DecidableEq

/-- The time of day, and the order in which `push` or `pop` leaves the vector. -/
structure Input where
  now : TimeEntry := 0
  order : List DelayQueueEntry := []

/-- The front of the vector has the least expiration. -/
def IsHeap : List DelayQueueEntry → Prop
  | [] => True
  | first :: rest => ∀ e ∈ rest, first.expiration ≤ e.expiration

instance (q : List DelayQueueEntry) : Decidable (IsHeap q) := by
  cases q <;> unfold IsHeap <;> infer_instance

/-- The vector after a `push` or a `pop`, which leaves these elements. -/
def rearrange (i : Input) (q : List DelayQueueEntry) (r : Answer) :
    Option (List DelayQueueEntry × (Local ⊕ Answer)) :=
  if i.order.Perm q ∧ IsHeap i.order then some (i.order, .inr r) else none

/-- A step of a call. `pop` of an empty vector is undefined. -/
def step (i : Input) (l : Local) (q : List DelayQueueEntry) :
    Option (List DelayQueueEntry × (Local ⊕ Answer)) :=
  match l, q with
  | .pushing e, q => rearrange i (e :: q) .offered
  | .testing, q => some (q, if q = [] then .inr (.polled none) else .inl .topping)
  | .topping, first :: rest => some (first :: rest, .inl (.delaying first))
  | .topping, [] => none
  | .delaying first, q =>
    some (q, if TimeEntry.sub first.expiration i.now > 0 then .inr (.polled none)
      else .inl (.popping first))
  | .popping first, _ :: rest => rearrange i rest (.polled (some first))
  | .popping _, [] => none

/-- `offer` and `poll`, which the lock guards. -/
def sections : Sections (List DelayQueueEntry) Input Call Local Answer where
  enter
    | .offer bucket expiration => .pushing { expiration, bucket }
    | .poll => .testing
  step := step

/-- The machine of threads that share a queue, empty at first. -/
def machine (T : Type) [DecidableEq T] :
    Machine (SpinLocked T (List DelayQueueEntry) Call Local Answer) (SpinAction T Input Call) :=
  SpinLocked.machine sections []

/-- A timer after the calls of `log` on its queue, one after another, with their answers. -/
inductive Calls (t : Timer) : List (Call × Answer) → Timer → Prop
  | nil : Calls t [] t
  | offer {log : List (Call × Answer)} {t' : Timer} {b : BucketId} {x : TimeEntry} :
    Calls t log t' → Calls t (log ++ [(.offer b x, .offered)]) (t'.offer b x)
  | pollNone {log : List (Call × Answer)} {t' : Timer} {r : Reading} :
    Calls t log t' → t'.poll r = none → Calls t (log ++ [(.poll, .polled none)]) t'
  | pollSome {log : List (Call × Answer)} {t' t'' : Timer} {r : Reading} {e : DelayQueueEntry} :
    Calls t log t' → t'.poll r = some (e.bucket, t'') →
      t''.delayQueue = t'.delayQueue.erase e →
      Calls t (log ++ [(.poll, .polled (some e))]) t''

variable {q q' : List DelayQueueEntry} {r : Answer}

/-- What the end of a `push` or a `pop` leaves. -/
theorem rearrange_eq_some {i : Input} {p : List DelayQueueEntry × (Local ⊕ Answer)}
    (h : rearrange i q r = some p) :
    p.2 = .inr r ∧ p.1.Perm q ∧ IsHeap p.1 := by
  unfold rearrange at h
  split at h
  · next horder =>
    cases h
    exact ⟨rfl, horder.1, horder.2⟩
  · cases h

/-- A section of `offer` adds the element. -/
theorem performs_offer {b : BucketId} {x : TimeEntry}
    (h : sections.Performs (.offer b x) q r q') :
    r = .offered ∧ q'.Perm ({ expiration := x, bucket := b } :: q) ∧ IsHeap q' := by
  obtain ⟨p, hgoes, i, hend⟩ := h
  -- the first step is the last
  have hfirst : p = (Local.pushing { expiration := x, bucket := b }, q) := by
    rcases Relation.ReflTransGen.cases_head hgoes with heq | ⟨p', ⟨j, hstep⟩, -⟩
    · exact heq.symm
    · have hstep := (rearrange_eq_some hstep).1
      cases hstep
  rw [hfirst] at hend
  obtain ⟨hr, hperm, hheap⟩ := rearrange_eq_some hend
  exact ⟨Sum.inr.inj hr, hperm, hheap⟩

/-- Where a section of `poll` can be that has begun with the vector `q`. -/
def Polling (q : List DelayQueueEntry) (p : Local × List DelayQueueEntry) : Prop :=
  p.2 = q ∧ match p.1 with
    | .testing => True
    | .topping => q ≠ []
    | .delaying first => q.head? = some first
    | .popping first => q.head? = some first ∧ ∃ now, ¬TimeEntry.sub first.expiration now > 0
    | .pushing _ => False

/-- A section of `poll` leaves the vector alone until its end. -/
theorem polling_of_goes {p : Local × List DelayQueueEntry}
    (h : Relation.ReflTransGen sections.Goes (sections.enter .poll, q) p) : Polling q p := by
  induction h with
  | refl => exact ⟨rfl, trivial⟩
  | @tail p p' _ hgoes ih =>
    obtain ⟨i, hstep⟩ := hgoes
    obtain ⟨l, q₁⟩ := p
    obtain ⟨l', q₂⟩ := p'
    obtain ⟨hq, hl⟩ := ih
    obtain rfl : q₁ = q := hq
    have hstep : step i l q₁ = some (q₂, .inl l') := hstep
    cases l with
    | testing =>
      simp only [step, Option.some.injEq, Prod.mk.injEq] at hstep
      obtain ⟨rfl, hl'⟩ := hstep
      split at hl'
      · cases hl'
      · next hne =>
        cases hl'
        exact ⟨rfl, hne⟩
    | topping =>
      cases q₁ with
      | nil => cases hstep
      | cons first rest =>
        cases hstep
        exact ⟨rfl, rfl⟩
    | delaying first =>
      simp only [step, Option.some.injEq, Prod.mk.injEq] at hstep
      obtain ⟨rfl, hl'⟩ := hstep
      split at hl'
      · cases hl'
      · next hdue =>
        cases hl'
        exact ⟨rfl, hl, i.now, hdue⟩
    | popping first =>
      cases q₁ with
      | nil => cases hstep
      | cons _ rest =>
        have hanswer := (rearrange_eq_some hstep).1
        cases hanswer
    | pushing e => exact hl.elim

/-- A section of `poll` returns the front of the vector if it is due, and then takes it out. -/
theorem performs_poll (h : sections.Performs .poll q r q') :
    (r = .polled none ∧ q' = q ∧
      ∀ first ∈ q.head?, ∃ now, TimeEntry.sub first.expiration now > 0) ∨
    ∃ first rest now, q = first :: rest ∧ ¬TimeEntry.sub first.expiration now > 0 ∧
      r = .polled (some first) ∧ q'.Perm rest ∧ IsHeap q' := by
  obtain ⟨⟨l, q₁⟩, hgoes, i, hend⟩ := h
  obtain ⟨hq, hl⟩ := polling_of_goes hgoes
  obtain rfl : q₁ = q := hq
  have hend : step i l q₁ = some (q', .inr r) := hend
  cases l with
  | testing =>
    simp only [step, Option.some.injEq, Prod.mk.injEq] at hend
    obtain ⟨rfl, hr⟩ := hend
    split at hr
    · next hnil =>
      cases hr
      refine .inl ⟨rfl, rfl, fun first hfirst => ?_⟩
      rw [hnil] at hfirst
      cases hfirst
    · cases hr
  | topping =>
    cases q₁ with
    | nil => cases hend
    | cons first rest => cases hend
  | delaying first =>
    simp only [step, Option.some.injEq, Prod.mk.injEq] at hend
    obtain ⟨rfl, hr⟩ := hend
    split at hr
    · next hlater =>
      cases hr
      refine .inl ⟨rfl, rfl, fun first' hfirst' => ⟨i.now, ?_⟩⟩
      obtain rfl : first = first' := Option.some.inj (Eq.trans (Eq.symm hl) hfirst')
      exact hlater
    · cases hr
  | popping first =>
    obtain ⟨hhead, now, hdue⟩ := hl
    cases q₁ with
    | nil => cases hend
    | cons first' rest =>
      cases hhead
      obtain ⟨hr, hperm, hheap⟩ := rearrange_eq_some hend
      exact .inr ⟨_, rest, now, rfl, hdue, Sum.inr.inj hr, hperm, hheap⟩
  | pushing e => exact hl.elim

/-- Any element with the least expiration may be the one that `poll` looks at. -/
theorem exists_choice {t : Timer} {first : DelayQueueEntry} (hmem : first ∈ t.delayQueue)
    (hleast : ∀ e ∈ t.delayQueue, first.expiration ≤ e.expiration) :
    ∃ choice, ∀ now, t.poll { now, choice } =
      if TimeEntry.sub first.expiration now > 0 then none
      else some (first.bucket, { t with delayQueue := t.delayQueue.erase first }) := by
  have hfirst : first ∈ Timer.leastElements t.delayQueue := by
    refine List.mem_filter.mpr ⟨hmem, List.all_eq_true.mpr fun e he => ?_⟩
    exact decide_eq_true (hleast e he)
  obtain ⟨choice, hlt, hget⟩ := List.mem_iff_getElem.mp hfirst
  refine ⟨choice, fun now => ?_⟩
  have hlook : (Timer.leastElements t.delayQueue)[choice %
      (Timer.leastElements t.delayQueue).length]? = some first := by
    rw [Nat.mod_eq_of_lt hlt, List.getElem?_eq_getElem hlt, hget]
  rw [Timer.poll]
  simp only [hlook]

/-- The front of a vector has the least expiration of all elements. -/
theorem IsHeap.le {first : DelayQueueEntry} {rest : List DelayQueueEntry}
    (h : IsHeap (first :: rest)) : ∀ e ∈ first :: rest, first.expiration ≤ e.expiration := by
  intro e he
  rcases List.mem_cons.mp he with rfl | hrest
  · exact le_rfl
  · exact h e hrest

/-- Sections that run one after another are calls of the timer's operations. -/
theorem calls_of_sequence {t : Timer} (ht : t.delayQueue = []) {log : List (Call × Answer)}
    (h : sections.Sequence [] log q) :
    ∃ t', Calls t log t' ∧ q.Perm t'.delayQueue ∧ IsHeap q := by
  induction h with
  | nil => exact ⟨t, .nil, by rw [ht], trivial⟩
  | @snoc log q q' c r _ hperforms ih =>
    obtain ⟨t', hcalls, hperm, hheap⟩ := ih
    cases c with
    | offer b x =>
      obtain ⟨rfl, hperm', hheap'⟩ := performs_offer hperforms
      exact ⟨_, hcalls.offer, hperm'.trans (hperm.cons _), hheap'⟩
    | poll =>
      rcases performs_poll hperforms with ⟨rfl, rfl, hlater⟩ |
        ⟨first, rest, now, rfl, hdue, rfl, hperm', hheap'⟩
      · cases q' with
        | nil =>
          have hnil : t'.delayQueue = [] := hperm.nil_eq.symm
          have hnone : t'.poll { now := 0 } = none := by
            rw [Timer.poll, hnil]
            rfl
          exact ⟨t', hcalls.pollNone hnone, hperm, trivial⟩
        | cons first rest =>
          obtain ⟨now, hlate⟩ := hlater first rfl
          obtain ⟨choice, hpoll⟩ := exists_choice (hperm.mem_iff.mp List.mem_cons_self)
            fun e he => hheap.le e (hperm.mem_iff.mpr he)
          have hnone := hpoll now
          rw [if_pos hlate] at hnone
          exact ⟨t', hcalls.pollNone hnone, hperm, hheap⟩
      · obtain ⟨choice, hpoll⟩ := exists_choice (hperm.mem_iff.mp List.mem_cons_self)
          fun e he => hheap.le e (hperm.mem_iff.mpr he)
        have hsome := hpoll now
        rw [if_neg hdue] at hsome
        refine ⟨_, hcalls.pollSome hsome rfl, hperm'.trans ?_, hheap'⟩
        have herase := hperm.erase first
        rwa [List.erase_cons_head] at herase

/-- The elements that the calls have put into the queue. -/
def offered (log : List (Call × Answer)) : List DelayQueueEntry :=
  log.filterMap fun p => match p.1 with
    | .offer bucket expiration => some { expiration, bucket }
    | .poll => none

/-- The elements that the calls have taken out of it. -/
def taken (log : List (Call × Answer)) : List DelayQueueEntry :=
  log.filterMap fun p => match p.2 with
    | .polled first => first
    | .offered => none

/-- `poll` takes an element out of the queue, or it returns nothing. -/
theorem poll_mem {t t' : Timer} {i : Reading} {b : BucketId} {e : DelayQueueEntry}
    (h : t.poll i = some (b, t')) (herase : t'.delayQueue = t.delayQueue.erase e) :
    e ∈ t.delayQueue := by
  unfold Timer.poll at h
  dsimp only at h
  split at h
  · cases h
  · next first hfirst =>
    split at h
    · cases h
    · cases h
      by_contra hnot
      have hmem : first ∈ t.delayQueue :=
        List.mem_of_mem_filter (List.mem_of_getElem? hfirst)
      have herase : t.delayQueue.erase first = t.delayQueue.erase e := herase
      rw [List.erase_of_not_mem hnot] at herase
      have hlen := congrArg List.length herase
      rw [List.length_erase_of_mem hmem] at hlen
      have hpos := List.length_pos_of_mem hmem
      omega

/-- Nothing is lost, and nothing is returned twice. -/
theorem Calls.perm {t t' : Timer} {log : List (Call × Answer)} (h : Calls t log t') :
    (taken log ++ t'.delayQueue).Perm (offered log ++ t.delayQueue) := by
  induction h with
  | nil => exact .refl _
  | @offer log t' b x _ ih =>
    have hoffered : offered (log ++ [(.offer b x, .offered)]) =
        offered log ++ [{ expiration := x, bucket := b }] := List.filterMap_append
    have htaken : taken (log ++ [(.offer b x, .offered)]) = taken log ++ [] :=
      List.filterMap_append
    rw [hoffered, htaken, List.append_nil, List.append_assoc]
    exact (List.perm_middle.trans (ih.cons _)).trans List.perm_middle.symm
  | @pollNone log t' i _ hpoll ih =>
    have hoffered : offered (log ++ [(.poll, .polled none)]) = offered log ++ [] :=
      List.filterMap_append
    have htaken : taken (log ++ [(.poll, .polled none)]) = taken log ++ [] :=
      List.filterMap_append
    rw [hoffered, htaken, List.append_nil, List.append_nil]
    exact ih
  | @pollSome log t' t'' i e _ hpoll herase ih =>
    have hoffered : offered (log ++ [(.poll, .polled (some e))]) = offered log ++ [] :=
      List.filterMap_append
    have htaken : taken (log ++ [(.poll, .polled (some e))]) = taken log ++ [e] :=
      List.filterMap_append
    rw [hoffered, htaken, List.append_nil, List.append_assoc, herase]
    exact ((List.perm_cons_erase (poll_mem hpoll herase)).symm.append_left _).trans ih

/-- Whatever the threads that share the queue have done, one of them at most is in a section,
and their calls have had the answers of calls of `Timer::offer` and `Timer::poll` one after
another, in the order in which they went through the lock. Between two sections, the vector
holds the elements that were offered and not returned, each as often. -/
theorem calls_of_reachable {T : Type} [DecidableEq T] {t : Timer} (ht : t.delayQueue = [])
    {s : SpinLocked T (List DelayQueueEntry) Call Local Answer} (hs : (machine T).Reachable s) :
    (∀ u v, (s.point u).holds → (s.point v).holds → u = v) ∧
      ∃ t', Calls t s.log t' ∧ ((∀ u, ¬(s.point u).holds) →
        s.shared.Perm t'.delayQueue ∧ (taken s.log ++ s.shared).Perm (offered s.log)) := by
  refine ⟨fun u v hu hv => SpinLocked.eq_of_holds hs hv hu, ?_⟩
  obtain ⟨q, hsequence, hidle⟩ := SpinLocked.exists_sequence hs
  obtain ⟨t', hcalls, hperm, -⟩ := calls_of_sequence ht hsequence
  refine ⟨t', hcalls, fun hnone => ?_⟩
  rw [hidle hnone]
  refine ⟨hperm, (hperm.append_left _).trans ?_⟩
  have hall := hcalls.perm
  rwa [ht, List.append_nil] at hall

/-- One thread offers a bucket, and the other one polls it when the lock is free. -/
def offerThenPoll : List (SpinAction ℕ Input Call) :=
  [.call 0 (.offer ⟨0, 3⟩ 50), .call 1 .poll, .lock 0, .lock 1,
    .work 0 { order := [⟨50, ⟨0, 3⟩⟩] }, .unlock 0, .lock 1, .work 1 {}, .work 1 {},
    .work 1 { now := 60 }, .work 1 {}, .unlock 1]

/-- In `offerThenPoll` the second thread gets the bucket. -/
theorem calls_of_reachable_offerThenPoll : ∃ s, (machine ℕ).Reachable s ∧
    s.log = [(.offer ⟨0, 3⟩ 50, .offered), (.poll, .polled (some ⟨50, ⟨0, 3⟩⟩))] ∧
    ∃ t', Calls (.new 10 4 0) s.log t' := by
  have hlog : (offerThenPoll.foldlM (SpinLocked.next sections) { shared := [] }).map
      SpinLocked.log =
        some [(.offer ⟨0, 3⟩ 50, .offered), (.poll, .polled (some ⟨50, ⟨0, 3⟩⟩))] := by decide
  obtain ⟨s, hs, hlog⟩ := Option.map_eq_some_iff.mp hlog
  have hreachable : (machine ℕ).Reachable s := .of_foldlM (.of_init rfl) hs
  obtain ⟨-, t', hcalls, -⟩ := calls_of_reachable (t := .new 10 4 0) rfl hreachable
  exact ⟨s, hreachable, hlog, t', hcalls⟩

end DelayQueue

end DuoDuo.Timers
