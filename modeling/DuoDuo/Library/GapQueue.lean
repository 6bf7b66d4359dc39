import Mathlib.Data.List.Basic
import Mathlib.Tactic.Common

/-!
# Queues whose entries are announced before they are published

A writer first announces an item, which fixes its place in the queue, and
publishes it later. The reader takes the oldest item once it is published; an
item that is not yet published hides everything behind it. The queue remembers
what has been announced and taken. Writers and items are arbitrary.
-/

namespace DuoDuo.Library

/-- A queue with gaps. An entry carries the writer that has still to publish it. -/
structure GapQueue (P α : Type*) where
  /-- The items in the queue, oldest first. -/
  entries : List (α × Option P) := []
  /-- All announcements, in order. -/
  announced : List (P × α) := []
  /-- The items taken by the reader, in order. -/
  taken : List α := []

namespace GapQueue

variable {P α : Type*}

/-- The writer `p` announces `x`. -/
def announce (q : GapQueue P α) (p : P) (x : α) : GapQueue P α :=
  { q with entries := q.entries ++ [(x, some p)], announced := q.announced ++ [(p, x)] }

/-- An entry after the writer `p` has published its item. -/
def publishEntry [DecidableEq P] (p : P) (e : α × Option P) : α × Option P :=
  if e.2 = some p then (e.1, none) else e

/-- The writer `p` publishes what it announced. -/
def publish [DecidableEq P] (q : GapQueue P α) (p : P) : GapQueue P α :=
  { q with entries := q.entries.map (publishEntry p) }

/-- The item that the reader can see. -/
def front? (q : GapQueue P α) : Option α :=
  match q.entries with
  | (x, none) :: _ => some x
  | _ => none

/-- The reader sees nothing. -/
def empty (q : GapQueue P α) : Bool := q.front?.isNone

/-- The reader takes the item that it sees. -/
def take (q : GapQueue P α) : Option (α × GapQueue P α) :=
  match q.entries with
  | (x, none) :: rest => some (x, { q with entries := rest, taken := q.taken ++ [x] })
  | _ => none

/-- The steps of the writers and the reader. -/
inductive Step [DecidableEq P] (q : GapQueue P α) : GapQueue P α → Prop
  | announce (p : P) (x : α) : Step q (q.announce p x)
  | publish (p : P) : Step q (q.publish p)
  | take {x : α} {q' : GapQueue P α} : q.take = some (x, q') → Step q q'

/-- Every announced item has been taken or is still in the queue, in the order of
the announcements. -/
def Conserved (q : GapQueue P α) : Prop :=
  q.announced.map Prod.snd = q.taken ++ q.entries.map Prod.fst

theorem take_eq_some {q q' : GapQueue P α} {x : α} (h : q.take = some (x, q')) :
    ∃ rest, q.entries = (x, none) :: rest ∧
      q' = { q with entries := rest, taken := q.taken ++ [x] } := by
  unfold take at h
  split at h
  · next y rest hentries =>
    simp only [Option.some.injEq, Prod.mk.injEq] at h
    obtain ⟨rfl, rfl⟩ := h
    exact ⟨rest, hentries, rfl⟩
  · cases h

@[simp] theorem publishEntry_fst [DecidableEq P] (p : P) (e : α × Option P) :
    (publishEntry p e).1 = e.1 := by
  unfold publishEntry
  split <;> rfl

@[simp] theorem publish_items [DecidableEq P] (q : GapQueue P α) (p : P) :
    (q.publish p).entries.map Prod.fst = q.entries.map Prod.fst := by
  simp [publish, Function.comp_def]

/-- An empty queue has lost nothing. -/
theorem Conserved.init : ({} : GapQueue P α).Conserved := rfl

/-- Every step conserves the items. -/
theorem Conserved.step [DecidableEq P] {q q' : GapQueue P α} (h : q.Conserved)
    (hstep : Step q q') : q'.Conserved := by
  cases hstep with
  | announce p x =>
    have hannounced : q.announced.map Prod.snd = q.taken ++ q.entries.map Prod.fst := h
    simp [Conserved, announce, hannounced]
  | publish p =>
    have hitems := publish_items q p
    exact h.trans (by rw [hitems]; rfl)
  | take htake =>
    obtain ⟨rest, hentries, rfl⟩ := take_eq_some htake
    have hannounced : q.announced.map Prod.snd = q.taken ++ q.entries.map Prod.fst := h
    simp [Conserved, hannounced, hentries]

/-- The items taken are a prefix of those announced. -/
theorem Conserved.taken_isPrefix {q : GapQueue P α} (h : q.Conserved) :
    q.taken <+: q.announced.map Prod.snd :=
  ⟨_, h.symm⟩

/-- A queue without gaps in which the reader sees nothing has no entries. -/
theorem entries_eq_nil {q : GapQueue P α} (hempty : q.empty = true)
    (hgap : ∀ e ∈ q.entries, e.2 = none) : q.entries = [] := by
  unfold empty front? at hempty
  split at hempty
  · cases hempty
  · next hfront =>
    cases hq : q.entries with
    | nil => rfl
    | cons e rest =>
      obtain ⟨x, owner⟩ := e
      have howner : owner = none := hgap (x, owner) (by simp [hq])
      exact absurd (howner ▸ hq) (hfront x rest)

/-- A queue without gaps in which the reader sees nothing has been emptied. -/
theorem Conserved.taken_eq {q : GapQueue P α} (h : q.Conserved) (hempty : q.empty = true)
    (hgap : ∀ e ∈ q.entries, e.2 = none) : q.taken = q.announced.map Prod.snd := by
  have hannounced : q.announced.map Prod.snd = q.taken ++ q.entries.map Prod.fst := h
  simp [hannounced, entries_eq_nil hempty hgap]

/-- An announcement shows the reader nothing. -/
theorem empty_announce {q : GapQueue P α} (h : q.empty = true) (p : P) (x : α) :
    (q.announce p x).empty = true := by
  unfold empty front? at h
  split at h
  · cases h
  · next hfront =>
    cases hq : q.entries with
    | nil => simp [empty, front?, announce, hq]
    | cons e rest =>
      obtain ⟨y, owner⟩ := e
      cases owner with
      | none => exact absurd hq (hfront y rest)
      | some r => simp [empty, front?, announce, hq]

/-- The entries that a publication leaves unpublished had their owner before. -/
theorem owner_of_publish [DecidableEq P] {q : GapQueue P α} {p r : P} {e : α × Option P}
    (he : e ∈ (q.publish p).entries) (hr : e.2 = some r) : r ≠ p ∧ e ∈ q.entries := by
  obtain ⟨d, hd, rfl⟩ := List.mem_map.mp he
  unfold publishEntry at hr ⊢
  split at hr
  · cases hr
  · next hne =>
    rw [if_neg hne]
    exact ⟨fun hrp => hne (hrp ▸ hr), hd⟩

end GapQueue

end DuoDuo.Library
