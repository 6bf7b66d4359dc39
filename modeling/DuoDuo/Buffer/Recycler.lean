import DuoDuo.Library.Machine
import Mathlib.Logic.Function.Basic
import Mathlib.Data.List.Nodup

/-!
# The recycler of buffer objects

A `PoolByteBuf` that is deallocated goes to the stack of the thread that deallocates it, and
`newInstance` takes it from there. `deallocate` does nothing if `m_handle` is negative, which
it is until the object is used again. A `Buffer` is the owner of its object, but the compiler
also lets it be copied and assigned, and a `Buffer` that is made without a size has none.
Objects are numbered in the order of their creation, and a lease is one use of an object,
from `newInstance` to the first `deallocate`.
-/

namespace DuoDuo.Buffer

open Library

/-- The objects, the stacks of the threads, and the variables of type `Buffer`. -/
structure Recycler where
  /-- The number of objects made by `newObject`. -/
  created : ℕ := 0
  /-- `m_handle` of each object, which its constructor sets to 0. -/
  handle : ℕ → ℤ := fun _ => 0
  /-- `tStack` of each thread, the top first. -/
  stack : ℕ → List ℕ := fun _ => []
  /-- The object of each lease. -/
  given : List ℕ := []
  /-- The leases that the destructor of a `Buffer` has ended. -/
  ended : ℕ → Bool := fun _ => false
  /-- The variables of type `Buffer`, each with its lease, or with the null pointer. -/
  buffers : List (Option ℕ) := []

/-- The steps of the threads. -/
inductive RecyclerAction
  /-- `Buffer()`, whose `m_internalByteBuf` is null. -/
  | constructNull
  /-- `Buffer(int)`. The allocation yields a handle. -/
  | construct (t : ℕ) (handle : ℤ)
  /-- The same, but the allocation throws. -/
  | fail (t : ℕ)
  /-- The copy constructor of `Buffer`. -/
  | copy (i : ℕ)
  /-- The copy assignment of `Buffer`, to the variable `i`. -/
  | assign (i j : ℕ)
  /-- `Buffer::swap`. -/
  | swap (i j : ℕ)
  /-- The destructor of `Buffer`. -/
  | destroy (t i : ℕ)
  deriving DecidableEq

namespace Recycler

/-- `Recycler::get`. -/
def get (s : Recycler) (t : ℕ) : ℕ × Recycler :=
  match s.stack t with
  | [] => (s.created, { s with created := s.created + 1 })
  | o :: rest => (o, { s with stack := Function.update s.stack t rest })

/-- `PoolByteBuf::init`. -/
def init (s : Recycler) (o : ℕ) (handle : ℤ) : Recycler :=
  { s with
    handle := Function.update s.handle o handle
    given := s.given ++ [o]
    buffers := s.buffers ++ [some s.given.length] }

/-- `PoolByteBuf::deallocate`, ending in `recycle`. -/
def deallocate (s : Recycler) (t o : ℕ) : Recycler :=
  if 0 ≤ s.handle o then
    { s with
      handle := Function.update s.handle o (-1)
      stack := Function.update s.stack t (o :: s.stack t) }
  else s

/-- One step. The destructor calls `deallocate` unless the pointer is null. -/
def next (s : Recycler) : RecyclerAction → Option Recycler
  | .constructNull => some { s with buffers := s.buffers ++ [none] }
  | .construct t handle =>
    if 0 ≤ handle then some ((s.get t).2.init (s.get t).1 handle) else none
  | .fail t => some (s.get t).2
  | .copy i => s.buffers[i]?.map fun p => { s with buffers := s.buffers ++ [p] }
  | .assign i j => s.buffers[j]?.map fun p => { s with buffers := s.buffers.set i p }
  | .swap i j => do
    let p ← s.buffers[i]?
    let p' ← s.buffers[j]?
    return { s with buffers := (s.buffers.set i p').set j p }
  | .destroy t i => do
    let p ← s.buffers[i]?
    match p with
    | none => return { s with buffers := s.buffers.eraseIdx i }
    | some l =>
      let o ← s.given[l]?
      return { s.deallocate t o with
        buffers := s.buffers.eraseIdx i
        ended := Function.update s.ended l true }

/-- The machine of the threads, before any buffer. -/
def machine : Machine Recycler RecyclerAction := Machine.ofNext (· = {}) next

/-- A lease that no destructor has ended. -/
def Open (s : Recycler) (l o : ℕ) : Prop := s.given[l]? = some o ∧ s.ended l = false

/-- An open lease has its object for itself: the object is in use, in no stack, and not
leased to anybody else. -/
def Exclusive (s : Recycler) : Prop :=
  ∀ l o, s.Open l o → 0 ≤ s.handle o ∧ (∀ t, o ∉ s.stack t) ∧ ∀ l', s.Open l' o → l' = l

/-- The condition on a step: a `Buffer` whose lease has ended, through one of its copies, is
destroyed only while its object is not in use. -/
def BeforeReuse (s : Recycler) : RecyclerAction → Prop
  | .destroy _ i =>
    ∀ l ∈ (s.buffers[i]?).join, s.ended l = true → ∀ o ∈ s.given[l]?, s.handle o < 0
  | _ => True

instance (s : Recycler) (a : RecyclerAction) : Decidable (s.BeforeReuse a) := by
  cases a <;> unfold BeforeReuse <;> infer_instance

/-- What holds while every open lease is exclusive. -/
structure Inv (s : Recycler) : Prop where
  exclusive : s.Exclusive
  given : ∀ o ∈ s.given, o < s.created
  stacked : ∀ t, ∀ o ∈ s.stack t, o < s.created ∧ s.handle o < 0
  nodup : ∀ t, (s.stack t).Nodup
  disjoint : ∀ t u o, o ∈ s.stack t → o ∈ s.stack u → t = u
  /-- An object in use is leased. -/
  leased : ∀ o ∈ s.given, 0 ≤ s.handle o → ∃ l, s.Open l o
  ended : ∀ l, s.ended l = true → l < s.given.length

variable {s s' : Recycler} {t o l : ℕ}

/-- A lease is open or ended, of an object that was given. -/
theorem Open.mem (h : s.Open l o) : o ∈ s.given := List.mem_of_getElem? h.1

/-- A change of the variables alone. -/
theorem Inv.withBuffers (h : s.Inv) (buffers : List (Option ℕ)) : Inv { s with buffers } :=
  ⟨h.exclusive, h.given, h.stacked, h.nodup, h.disjoint, h.leased, h.ended⟩

/-- `get` yields an object that nobody uses, and that is in no stack any more. -/
theorem Inv.get (h : s.Inv) (t : ℕ) :
    (s.get t).2.Inv ∧ (s.get t).1 < (s.get t).2.created ∧ (∀ l, ¬s.Open l (s.get t).1) ∧
      ∀ u, (s.get t).1 ∉ (s.get t).2.stack u := by
  unfold Recycler.get
  cases hstack : s.stack t with
  | nil =>
    have hinv : Inv { s with created := s.created + 1 } :=
      ⟨h.exclusive, fun o ho => (h.given o ho).trans (Nat.lt_succ_self _),
        fun u o ho => ⟨(h.stacked u o ho).1.trans (Nat.lt_succ_self _), (h.stacked u o ho).2⟩,
        h.nodup, h.disjoint, h.leased, h.ended⟩
    exact ⟨hinv, Nat.lt_succ_self _, fun l hl => (h.given _ hl.mem).false,
      fun u hu => (h.stacked u _ hu).1.false⟩
  | cons o rest =>
    have htop : o ∈ s.stack t := by
      rw [hstack]
      exact List.mem_cons_self
    have hnodup := h.nodup t
    rw [hstack, List.nodup_cons] at hnodup
    have hsub : ∀ u x, x ∈ Function.update s.stack t rest u → x ∈ s.stack u := by
      intro u x hx
      by_cases hu : u = t
      · rw [hu, Function.update_self] at hx
        rw [hu, hstack]
        exact List.mem_cons_of_mem _ hx
      · rwa [Function.update_of_ne hu] at hx
    refine ⟨⟨fun l x hl => ?_, h.given, fun u x hx => h.stacked u x (hsub u x hx), fun u => ?_,
      fun u v x hu hv => h.disjoint u v x (hsub u x hu) (hsub v x hv), h.leased, h.ended⟩,
      (h.stacked t o htop).1, fun l hl => (h.exclusive l o hl).2.1 t htop, fun u hu => ?_⟩
    · obtain ⟨hhandle, hnot, honly⟩ := h.exclusive l x hl
      exact ⟨hhandle, fun u hu => hnot u (hsub u x hu), honly⟩
    · show (Function.update s.stack t rest u).Nodup
      by_cases hu : u = t
      · rw [hu, Function.update_self]
        exact hnodup.2
      · rw [Function.update_of_ne hu]
        exact h.nodup u
    · have hu : o ∈ Function.update s.stack t rest u := hu
      by_cases hne : u = t
      · rw [hne, Function.update_self] at hu
        exact hnodup.1 hu
      · exact hne (h.disjoint u t o (hsub u o hu) htop)

/-- An object that nobody uses gets a lease. -/
theorem Inv.init (h : s.Inv) {handle : ℤ} (hhandle : 0 ≤ handle) (ho : o < s.created)
    (hopen : ∀ l, ¬s.Open l o) (hstack : ∀ u, o ∉ s.stack u) : (s.init o handle).Inv := by
  have hnew : s.ended s.given.length = false :=
    Bool.eq_false_iff.mpr fun hended => (h.ended _ hended).false
  -- the leases are those before, and the new one
  have hlease : ∀ l x, (s.init o handle).Open l x → s.Open l x ∨ (l = s.given.length ∧ x = o) := by
    rintro l x ⟨hgiven, hended⟩
    have hgiven : (s.given ++ [o])[l]? = some x := hgiven
    by_cases hl : l < s.given.length
    · rw [List.getElem?_append_left hl] at hgiven
      exact .inl ⟨hgiven, hended⟩
    · rw [List.getElem?_append_right (not_lt.mp hl)] at hgiven
      rw [List.getElem?_singleton, Option.ite_none_right_eq_some, Option.some.injEq] at hgiven
      exact .inr ⟨by omega, hgiven.2.symm⟩
  refine ⟨fun l x hl => ?_, fun x hx => ?_, fun u x hx => ?_, h.nodup, h.disjoint,
    fun x hx hlive => ?_, fun l hended => ?_⟩
  · rcases hlease l x hl with hold | ⟨rfl, rfl⟩
    · have hne : x ≠ o := by
        rintro rfl
        exact hopen l hold
      obtain ⟨hlive, hnot, honly⟩ := h.exclusive l x hold
      refine ⟨?_, hnot, fun l' hl' => ?_⟩
      · show 0 ≤ Function.update s.handle o handle x
        rwa [Function.update_of_ne hne]
      · rcases hlease l' x hl' with hold' | ⟨-, rfl⟩
        · exact honly l' hold'
        · exact absurd rfl hne
    · refine ⟨?_, hstack, fun l' hl' => ?_⟩
      · show 0 ≤ Function.update s.handle x handle x
        rwa [Function.update_self]
      · rcases hlease l' x hl' with hold' | ⟨rfl, -⟩
        · exact absurd hold' (hopen l')
        · rfl
  · rcases List.mem_append.mp hx with hold | hnew'
    · exact h.given x hold
    · rw [List.mem_singleton.mp hnew']
      exact ho
  · have hne : x ≠ o := by
      rintro rfl
      exact hstack u hx
    refine ⟨(h.stacked u x hx).1, ?_⟩
    show Function.update s.handle o handle x < 0
    rw [Function.update_of_ne hne]
    exact (h.stacked u x hx).2
  · by_cases hne : x = o
    · refine ⟨s.given.length, ?_, hnew⟩
      show (s.given ++ [o])[s.given.length]? = some x
      rw [List.getElem?_concat_length, hne]
    · have hold : x ∈ s.given := by
        rcases List.mem_append.mp hx with hold | hnew'
        · exact hold
        · exact absurd (List.mem_singleton.mp hnew') hne
      have hlive : 0 ≤ Function.update s.handle o handle x := hlive
      rw [Function.update_of_ne hne] at hlive
      obtain ⟨l, hgiven, hended⟩ := h.leased x hold hlive
      refine ⟨l, ?_, hended⟩
      show (s.given ++ [o])[l]? = some x
      rw [List.getElem?_append_left (List.getElem?_eq_some_iff.mp hgiven).1]
      exact hgiven
  · show l < (s.given ++ [o]).length
    rw [List.length_append]
    exact (h.ended l hended).trans (Nat.lt_succ_self _)

/-- The end of a lease, by the first destructor. -/
theorem Inv.endLease (h : s.Inv) (hl : s.Open l o) :
    Inv { s.deallocate t o with ended := Function.update s.ended l true } := by
  obtain ⟨hlive, hnot, honly⟩ := h.exclusive l o hl
  rw [deallocate, if_pos hlive]
  have hother : ∀ l' x, s.given[l']? = some x → Function.update s.ended l true l' = false →
      s.Open l' x ∧ x ≠ o := by
    intro l' x hgiven hended
    have hne : l' ≠ l := by
      rintro rfl
      rw [Function.update_self] at hended
      cases hended
    rw [Function.update_of_ne hne] at hended
    refine ⟨⟨hgiven, hended⟩, ?_⟩
    rintro rfl
    exact hne (honly l' ⟨hgiven, hended⟩)
  have hstack : ∀ u x, x ∈ Function.update s.stack t (o :: s.stack t) u →
      x ∈ s.stack u ∨ (u = t ∧ x = o) := by
    intro u x hx
    by_cases hu : u = t
    · rw [hu, Function.update_self] at hx
      rcases List.mem_cons.mp hx with rfl | hx
      · exact .inr ⟨hu, rfl⟩
      · exact .inl (hu ▸ hx)
    · rw [Function.update_of_ne hu] at hx
      exact .inl hx
  refine ⟨fun l' x hl' => ?_, h.given, fun u x hx => ?_, fun u => ?_, fun u v x hu hv => ?_,
    fun x hx hlive' => ?_, fun l' hended => ?_⟩
  · obtain ⟨hold, hne⟩ := hother l' x hl'.1 hl'.2
    obtain ⟨hlive', hnot', honly'⟩ := h.exclusive l' x hold
    refine ⟨?_, fun u hu => ?_, fun l'' hl'' => ?_⟩
    · show 0 ≤ Function.update s.handle o (-1) x
      rwa [Function.update_of_ne hne]
    · rcases hstack u x hu with hu | ⟨-, rfl⟩
      · exact hnot' u hu
      · exact hne rfl
    · exact honly' l'' (hother l'' x hl''.1 hl''.2).1
  · have hhandle : x ≠ o → Function.update s.handle o (-1) x = s.handle x := fun hne =>
      Function.update_of_ne hne _ _
    rcases hstack u x hx with hold | ⟨-, rfl⟩
    · have hne : x ≠ o := by
        rintro rfl
        exact hnot u hold
      refine ⟨(h.stacked u x hold).1, ?_⟩
      show Function.update s.handle o (-1) x < 0
      rw [hhandle hne]
      exact (h.stacked u x hold).2
    · refine ⟨h.given x hl.mem, ?_⟩
      show Function.update s.handle x (-1) x < 0
      rw [Function.update_self]
      decide
  · show (Function.update s.stack t (o :: s.stack t) u).Nodup
    by_cases hu : u = t
    · rw [hu, Function.update_self]
      exact List.nodup_cons.mpr ⟨hnot t, h.nodup t⟩
    · rw [Function.update_of_ne hu]
      exact h.nodup u
  · rcases hstack u x hu with hu' | ⟨rfl, rfl⟩
    · rcases hstack v x hv with hv' | ⟨-, rfl⟩
      · exact h.disjoint u v x hu' hv'
      · exact absurd hu' (hnot u)
    · rcases hstack v x hv with hv' | ⟨rfl, -⟩
      · exact absurd hv' (hnot v)
      · rfl
  · have hne : x ≠ o := by
      rintro rfl
      have hlive' : 0 ≤ Function.update s.handle x (-1) x := hlive'
      rw [Function.update_self] at hlive'
      exact absurd hlive' (by decide)
    have hlive' : 0 ≤ Function.update s.handle o (-1) x := hlive'
    rw [Function.update_of_ne hne] at hlive'
    obtain ⟨l', hgiven, hended⟩ := h.leased x hx hlive'
    refine ⟨l', hgiven, ?_⟩
    show Function.update s.ended l true l' = false
    rw [Function.update_of_ne, hended]
    rintro rfl
    exact hne (Option.some.inj (hgiven.symm.trans hl.1))
  · have hended : Function.update s.ended l true l' = true := hended
    by_cases hne : l' = l
    · rw [hne]
      exact (List.getElem?_eq_some_iff.mp hl.1).1
    · rw [Function.update_of_ne hne] at hended
      exact h.ended l' hended

/-- Every step that meets the condition keeps the invariant. -/
theorem Inv.next (h : s.Inv) {a : RecyclerAction} (hc : s.BeforeReuse a)
    (hstep : s.next a = some s') : s'.Inv := by
  cases a with
  | construct t handle =>
    rw [Recycler.next, Option.ite_none_right_eq_some, Option.some.injEq] at hstep
    obtain ⟨hhandle, rfl⟩ := hstep
    obtain ⟨hinv, hcreated, hopen, hstack⟩ := h.get t
    refine hinv.init hhandle hcreated (fun l hl => hopen l ?_) hstack
    have hsame : (s.get t).2.given = s.given ∧ (s.get t).2.ended = s.ended := by
      unfold Recycler.get
      split <;> exact ⟨rfl, rfl⟩
    rwa [Open, hsame.1, hsame.2] at hl
  | fail t =>
    obtain rfl := Option.some.inj hstep
    exact (h.get t).1
  | constructNull =>
    obtain rfl := Option.some.inj hstep
    exact h.withBuffers _
  | copy i =>
    obtain ⟨p, -, rfl⟩ := Option.map_eq_some_iff.mp hstep
    exact h.withBuffers _
  | assign i j =>
    obtain ⟨p, -, rfl⟩ := Option.map_eq_some_iff.mp hstep
    exact h.withBuffers _
  | swap i j =>
    simp only [Recycler.next, Option.bind_eq_bind, Option.bind_eq_some_iff] at hstep
    obtain ⟨p, -, p', -, hstep⟩ := hstep
    cases hstep
    exact h.withBuffers _
  | destroy t i =>
    simp only [Recycler.next, Option.bind_eq_bind] at hstep
    obtain ⟨p, hp, hstep⟩ := Option.bind_eq_some_iff.mp hstep
    cases p with
    | none =>
      cases hstep
      exact h.withBuffers _
    | some l =>
      obtain ⟨o, ho, hstep⟩ := Option.bind_eq_some_iff.mp hstep
      cases hstep
      cases hended : s.ended l with
      | false => exact (h.endLease (t := t) ⟨ho, hended⟩).withBuffers _
      | true =>
        -- the object is not in use, and `deallocate` does nothing
        have hdead := hc l (Option.join_eq_some_iff.mpr hp) hended o ho
        have hsame : Function.update s.ended l true = s.ended := by
          rw [← hended]
          exact Function.update_eq_self l s.ended
        rw [deallocate, if_neg (not_le.mpr hdead), hsame]
        exact h.withBuffers _

/-- A lease ends that is open, when the destructor of a stale copy finds the object in use. -/
theorem Inv.not_exclusive (h : s.Inv) {a : RecyclerAction} (hbad : ¬s.BeforeReuse a)
    (hstep : s.next a = some s') : ¬s'.Exclusive := by
  cases a with
  | destroy t i =>
    simp only [BeforeReuse, not_forall, not_lt] at hbad
    obtain ⟨l, hl, hended, o, ho, hlive⟩ := hbad
    have hgiven : s.given[l]? = some o := ho
    simp only [Recycler.next, Option.join_eq_some_iff.mp hl, hgiven, Option.bind_eq_bind,
      Option.bind_some] at hstep
    cases hstep
    obtain ⟨l', hgiven', hopen'⟩ := h.leased o (List.mem_of_getElem? hgiven) hlive
    have hne : l' ≠ l := by
      rintro rfl
      rw [hended] at hopen'
      cases hopen'
    rw [deallocate, if_pos hlive]
    intro hexclusive
    have hstill : Function.update s.ended l true l' = false := by
      rw [Function.update_of_ne hne, hopen']
    have hlive' : 0 ≤ Function.update s.handle o (-1) o :=
      (hexclusive l' o ⟨hgiven', hstill⟩).1
    rw [Function.update_self] at hlive'
    exact absurd hlive' (by decide)
  | constructNull | construct | fail | copy | assign | swap => exact absurd trivial hbad

/-- A copy is destroyed right after the buffer that it was made of, and another one when the
next lease of their object, of another thread, has passed to a new `Buffer` and ended. -/
def copiedTwice : List RecyclerAction :=
  [.construct 0 5, .copy 0, .copy 0, .destroy 1 0, .destroy 1 0, .construct 1 7, .constructNull,
    .swap 1 2, .destroy 1 1, .destroy 1 1, .destroy 0 0, .construct 1 3]

/-- The copy is destroyed after another `Buffer` has got the object. -/
def copiedTooLong : List RecyclerAction :=
  [.construct 0 5, .copy 0, .destroy 0 0, .construct 0 7, .destroy 0 0]

/-- In `copiedTooLong` the second `Buffer` loses its object to a stack while it is using it. -/
theorem copiedTooLong_not_exclusive : ∃ s, machine.Reachable s ∧ ¬s.Exclusive := by
  have hfields : (copiedTooLong.foldlM next {}).map
      (fun s => (s.given[1]?, s.ended 1, s.handle 0)) = some (some 0, false, -1) := by decide
  obtain ⟨s, hs, hfields⟩ := Option.map_eq_some_iff.mp hfields
  rw [Prod.mk.injEq, Prod.mk.injEq] at hfields
  obtain ⟨hgiven, hended, hhandle⟩ := hfields
  refine ⟨s, .of_foldlM (.of_init rfl) hs, fun hexclusive => ?_⟩
  have hlive := (hexclusive 1 0 ⟨hgiven, hended⟩).1
  rw [hhandle] at hlive
  exact absurd hlive (by decide)

end Recycler

end DuoDuo.Buffer
