import Mathlib.Data.List.Nodup
import Mathlib.Logic.Function.Basic
import Mathlib.Tactic.Common

/-!
# Intrusive doubly linked lists

The nodes carry the links, so that one pair of link maps serves many lists. A list is
given by its first node, whose backward link is null. Linking a node in front and
unlinking one change one list and leave the lists that share no node with it as they are.
-/

namespace DuoDuo.Library

variable {α : Type*}

/-- The links of the nodes. -/
structure Links (α : Type*) where
  next : α → Option α
  prev : α → Option α

namespace Links

/-- The nodes from `head` on, at most `n` of them. -/
def walk (s : Links α) : ℕ → Option α → List α
  | 0, _ => []
  | _, none => []
  | n + 1, some x => x :: s.walk n (s.next x)

/-- The nodes of `l` are linked in both directions, from `head` on, after the node `p`. -/
def Chain (s : Links α) : Option α → Option α → List α → Prop
  | _, head, [] => head = none
  | p, head, x :: l => head = some x ∧ s.prev x = p ∧ s.Chain (some x) (s.next x) l

/-- The list that begins with `head` holds the nodes of `l` in order. -/
def Holds (s : Links α) (head : Option α) (l : List α) : Prop :=
  s.Chain none head l ∧ l.Nodup

variable {s s' : Links α} {p head : Option α} {x : α} {l : List α}

/-- A chain depends on the links of its own nodes only. -/
theorem Chain.congr (h : s.Chain p head l) (hlinks : ∀ y ∈ l, s'.next y = s.next y ∧
    s'.prev y = s.prev y) : s'.Chain p head l := by
  induction l generalizing p head with
  | nil => exact h
  | cons x l ih =>
    obtain ⟨rfl, hprev, hrest⟩ := h
    obtain ⟨hx, hl⟩ := List.forall_mem_cons.mp hlinks
    refine ⟨rfl, hx.2.trans hprev, ?_⟩
    rw [hx.1]
    exact ih hrest hl

/-- The walk along a chain finds its nodes. -/
theorem Chain.walk_eq (h : s.Chain p head l) {n : ℕ} (hn : l.length ≤ n) :
    s.walk n head = l := by
  induction l generalizing p head n with
  | nil =>
    obtain rfl : head = none := h
    cases n <;> rfl
  | cons x l ih =>
    obtain ⟨rfl, _, hrest⟩ := h
    obtain ⟨m, rfl⟩ : ∃ m, n = m + 1 := ⟨n - 1, by rw [List.length_cons] at hn; omega⟩
    rw [walk, ih hrest (by rw [List.length_cons] at hn; omega)]

/-- The head of a chain is its first node. -/
theorem Chain.head_eq (h : s.Chain p head l) : head = l.head? := by
  cases l with
  | nil => exact h
  | cons x l => exact h.1

theorem holds_nil (s : Links α) : s.Holds none [] := ⟨rfl, List.nodup_nil⟩

variable [DecidableEq α]

/-- The forward link of a node is set. -/
def setNext (s : Links α) (x : α) (y : Option α) : Links α :=
  { s with next := Function.update s.next x y }

/-- The backward link of a node is set. -/
def setPrev (s : Links α) (x : α) (y : Option α) : Links α :=
  { s with prev := Function.update s.prev x y }

/-- The node `x` is linked in front of the list that begins with `head`. -/
def pushFront (s : Links α) (head : Option α) (x : α) : Links α :=
  match head with
  | none => (s.setPrev x none).setNext x none
  | some h => ((s.setPrev x none).setNext x (some h)).setPrev h (some x)

/-- The node `x` is unlinked from the list that begins with `head`. The links of `x`
itself stay as they are. -/
def unlink (s : Links α) (head : Option α) (x : α) : Option (Option α × Links α) :=
  if head = some x then
    match s.next x with
    | none => some (none, s)
    | some h => some (some h, s.setPrev h none)
  else do
    let p ← s.prev x
    match s.next x with
    | none => some (head, s.setNext p none)
    | some n => some (head, (s.setNext p (some n)).setPrev n (some p))

/-- The links of other nodes do not change when a node is linked in front. -/
theorem pushFront_of_ne {y : α} (hx : y ≠ x) (hhead : head ≠ some y) :
    (s.pushFront head x).next y = s.next y ∧ (s.pushFront head x).prev y = s.prev y := by
  cases head with
  | none => exact ⟨Function.update_of_ne hx _ _, Function.update_of_ne hx _ _⟩
  | some h =>
    have hne : y ≠ h := fun heq => hhead (heq ▸ rfl)
    exact ⟨Function.update_of_ne hx _ _,
      (Function.update_of_ne hne _ _).trans (Function.update_of_ne hx _ _)⟩

/-- A list that does not hold the nodes in question stays as it is. -/
theorem Holds.pushFront_other (h : s.Holds head l) {head' : Option α} (hx : x ∉ l)
    (hhead : ∀ y ∈ l, head' ≠ some y) : (s.pushFront head' x).Holds head l := by
  refine ⟨h.1.congr fun y hy => ?_, h.2⟩
  exact pushFront_of_ne (fun heq => hx (heq ▸ hy)) (hhead y hy)

/-- Linking a node in front. -/
theorem Holds.pushFront (h : s.Holds head l) (hx : x ∉ l) :
    (s.pushFront head x).Holds (some x) (x :: l) := by
  obtain ⟨hchain, hnodup⟩ := h
  refine ⟨?_, List.nodup_cons.mpr ⟨hx, hnodup⟩⟩
  cases l with
  | nil =>
    obtain rfl : head = none := hchain
    exact ⟨rfl, Function.update_self _ _ _, Function.update_self _ _ _⟩
  | cons y l =>
    obtain ⟨rfl, _, hrest⟩ := hchain
    have hy : x ≠ y := List.ne_of_not_mem_cons hx
    have hl : x ∉ l := List.not_mem_of_not_mem_cons hx
    rw [List.nodup_cons] at hnodup
    refine ⟨rfl, ?_, ?_, ?_, ?_⟩
    · exact (Function.update_of_ne hy _ _).trans (Function.update_self _ _ _)
    · exact Function.update_self _ _ _
    · exact Function.update_self _ _ _
    · have hnext : (s.pushFront (some y) x).next y = s.next y :=
        Function.update_of_ne (Ne.symm hy) _ _
      rw [hnext]
      refine hrest.congr fun z hz => pushFront_of_ne (fun heq => hl (heq ▸ hz)) ?_
      rintro ⟨⟩
      exact hnodup.1 hz

/-- Unlinking a node that is not the first of a chain. -/
theorem Chain.unlink (h : s.Chain p head l) (hnodup : l.Nodup) (hx : x ∈ l)
    (hne : head ≠ some x) (hp : ∀ q, p = some q → q ∉ l) :
    ∃ s', s.unlink head x = some (head, s') ∧ s'.Chain p head (l.erase x) ∧
      ∀ y ∉ l, s'.next y = s.next y ∧ s'.prev y = s.prev y := by
  induction l generalizing p head with
  | nil => cases hx
  | cons y l ih =>
    obtain ⟨rfl, hprev, hrest⟩ := h
    have hyx : y ≠ x := fun heq => hne (heq ▸ rfl)
    rw [List.nodup_cons] at hnodup
    have hxl : x ∈ l := (List.mem_cons.mp hx).resolve_left (Ne.symm hyx)
    have herase : (y :: l).erase x = y :: l.erase x := List.erase_cons_tail (by simpa using hyx)
    rw [herase]
    cases l with
    | nil => cases hxl
    | cons z l =>
      obtain ⟨hnext, hprevz, hrestz⟩ := hrest
      by_cases hzx : z = x
      · -- The node after the first one goes: the first one is linked to the third.
        subst hzx
        rw [List.erase_cons_head]
        obtain ⟨hyl, hnodupz⟩ := hnodup
        rw [List.nodup_cons] at hnodupz
        cases l with
        | nil =>
          have hend : s.next z = none := hrestz
          refine ⟨s.setNext y none, ?_, ⟨rfl, hprev, Function.update_self _ _ _⟩, fun w hw => ?_⟩
          · rw [Links.unlink, if_neg (by simpa using hyx), hprevz, Option.bind_eq_bind,
              Option.bind_some, hend]
          · exact ⟨Function.update_of_ne (List.ne_of_not_mem_cons hw) _ _, rfl⟩
        | cons w l =>
          obtain ⟨hnextz, hprevw, hrestw⟩ := hrestz
          have hyw : w ≠ y := fun heq => hyl (heq ▸ by simp)
          rw [List.nodup_cons] at hnodupz
          refine ⟨(s.setNext y (some w)).setPrev w (some y), ?_, ⟨rfl, ?_, ?_⟩, fun v hv => ?_⟩
          · rw [Links.unlink, if_neg (by simpa using hyx), hprevz, Option.bind_eq_bind,
              Option.bind_some, hnextz]
          · exact (Function.update_of_ne (Ne.symm hyw) _ _).trans hprev
          · have hy : ((s.setNext y (some w)).setPrev w (some y)).next y = some w :=
              Function.update_self _ _ _
            rw [hy]
            refine ⟨rfl, Function.update_self _ _ _, ?_⟩
            have hw : ((s.setNext y (some w)).setPrev w (some y)).next w = s.next w :=
              Function.update_of_ne hyw _ _
            rw [hw]
            refine hrestw.congr fun v hv => ⟨Function.update_of_ne ?_ _ _,
              Function.update_of_ne ?_ _ _⟩
            · rintro rfl
              exact hyl (by simp [hv])
            · rintro rfl
              exact hnodupz.2.1 hv
          · simp only [List.mem_cons, not_or] at hv
            exact ⟨Function.update_of_ne hv.1 _ _, Function.update_of_ne hv.2.2.1 _ _⟩
      · -- The node lies further on.
        have hxl' : x ∈ l := (List.mem_cons.mp hxl).resolve_left (Ne.symm hzx)
        obtain ⟨s', hunlink, hchain, hframe⟩ := ih (p := some y) ⟨hnext, hprevz, hrestz⟩ hnodup.2
          hxl (by rw [hnext]; simpa using hzx) (by rintro q ⟨⟩; exact hnodup.1)
        have hsame : s.unlink (some y) x = some (some y, s') := by
          rw [Links.unlink, if_neg (by rw [hnext]; simpa using hzx)] at hunlink
          rw [Links.unlink, if_neg (by simpa using hyx)]
          obtain ⟨q, hq, hunlink⟩ := Option.bind_eq_some_iff.mp hunlink
          rw [hq, Option.bind_eq_bind, Option.bind_some]
          cases hnx : s.next x with
          | none =>
            rw [hnx] at hunlink
            cases hunlink
            rfl
          | some n =>
            rw [hnx] at hunlink
            cases hunlink
            rfl
        obtain ⟨hy₁, hy₂⟩ := hframe y hnodup.1
        refine ⟨s', hsame, ⟨rfl, hy₂.trans hprev, hy₁ ▸ hchain⟩, fun w hw => ?_⟩
        exact hframe w (List.not_mem_of_not_mem_cons hw)

/-- Unlinking a node of a list takes it out of that list, and changes the links of no
node outside of the list. -/
theorem Holds.unlink (h : s.Holds head l) (hx : x ∈ l) :
    ∃ head' s', s.unlink head x = some (head', s') ∧ s'.Holds head' (l.erase x) ∧
      ∀ y ∉ l, s'.next y = s.next y ∧ s'.prev y = s.prev y := by
  obtain ⟨hchain, hnodup⟩ := h
  by_cases hne : head = some x
  · subst hne
    cases l with
    | nil => cases hx
    | cons y l =>
      obtain ⟨heq, _, hrest⟩ := hchain
      cases heq
      rw [List.nodup_cons] at hnodup
      rw [List.erase_cons_head]
      cases l with
      | nil =>
        have hend : s.next x = none := hrest
        exact ⟨none, s, by rw [Links.unlink, if_pos rfl, hend], holds_nil s,
          fun _ _ => ⟨rfl, rfl⟩⟩
      | cons z l =>
        obtain ⟨hnext, _, hrestz⟩ := hrest
        have hnodupz := List.nodup_cons.mp hnodup.2
        refine ⟨some z, s.setPrev z none, by rw [Links.unlink, if_pos rfl, hnext], ⟨⟨rfl,
          Function.update_self _ _ _, hrestz.congr fun y hy => ⟨rfl, Function.update_of_ne ?_ _ _⟩⟩,
          hnodup.2⟩, fun y hy => ⟨rfl, Function.update_of_ne ?_ _ _⟩⟩
        · rintro rfl
          exact hnodupz.1 hy
        · rintro rfl
          exact hy (by simp)
  · obtain ⟨s', hunlink, hchain', hframe⟩ := hchain.unlink hnodup hx hne (by rintro q ⟨⟩)
    exact ⟨head, s', hunlink, ⟨hchain', hnodup.erase x⟩, hframe⟩

/-- The lists that begin with the heads hold the nodes of `lists`, and share none. -/
structure HoldsAll {ι : Type*} (s : Links α) (head : ι → Option α) (lists : ι → List α) :
    Prop where
  holds : ∀ i, s.Holds (head i) (lists i)
  disjoint : ∀ {i j x}, x ∈ lists i → x ∈ lists j → i = j

section HoldsAll

variable {ι : Type*} [DecidableEq ι] {heads : ι → Option α} {lists : ι → List α} {i : ι}

/-- Unlinking a node of one of several lists. -/
theorem HoldsAll.unlink (h : s.HoldsAll heads lists) (hx : x ∈ lists i) :
    ∃ head' s', s.unlink (heads i) x = some (head', s') ∧
      s'.HoldsAll (Function.update heads i head')
        (Function.update lists i ((lists i).erase x)) := by
  obtain ⟨head', s', hunlink, hholds, hframe⟩ := (h.holds i).unlink hx
  have hsub : ∀ {j y}, y ∈ Function.update lists i ((lists i).erase x) j → y ∈ lists j := by
    intro j y hy
    by_cases hj : j = i
    · rw [hj, Function.update_self] at hy
      exact hj ▸ List.mem_of_mem_erase hy
    · rwa [Function.update_of_ne hj] at hy
  refine ⟨head', s', hunlink, fun j => ?_, fun hy hy' => h.disjoint (hsub hy) (hsub hy')⟩
  by_cases hj : j = i
  · rw [hj, Function.update_self, Function.update_self]
    exact hholds
  · rw [Function.update_of_ne hj, Function.update_of_ne hj]
    refine ⟨(h.holds j).1.congr fun y hy => hframe y fun hy' => hj (h.disjoint hy hy'),
      (h.holds j).2⟩

/-- Linking a node that is on none of several lists in front of one. -/
theorem HoldsAll.pushFront (h : s.HoldsAll heads lists) (hx : ∀ j, x ∉ lists j) :
    (s.pushFront (heads i) x).HoldsAll (Function.update heads i (some x))
      (Function.update lists i (x :: lists i)) := by
  have hcases : ∀ {j y}, y ∈ Function.update lists i (x :: lists i) j →
      (j = i ∧ y = x) ∨ y ∈ lists j := by
    intro j y hy
    by_cases hj : j = i
    · rw [hj, Function.update_self, List.mem_cons] at hy
      exact hy.imp (⟨hj, ·⟩) (hj ▸ ·)
    · rw [Function.update_of_ne hj] at hy
      exact Or.inr hy
  refine ⟨fun j => ?_, fun {j j' y} hy hy' => ?_⟩
  · by_cases hj : j = i
    · rw [hj, Function.update_self, Function.update_self]
      exact (h.holds i).pushFront (hx i)
    · rw [Function.update_of_ne hj, Function.update_of_ne hj]
      refine (h.holds j).pushFront_other (hx j) fun y hy hhead => hj (h.disjoint hy ?_)
      rw [(h.holds i).1.head_eq] at hhead
      exact List.mem_of_head? hhead
  · rcases hcases hy with ⟨rfl, rfl⟩ | hold
    · rcases hcases hy' with ⟨rfl, _⟩ | hold'
      · rfl
      · exact absurd hold' (hx j')
    · rcases hcases hy' with ⟨_, rfl⟩ | hold'
      · exact absurd hold (hx j)
      · exact h.disjoint hold hold'

end HoldsAll

end Links

end DuoDuo.Library
