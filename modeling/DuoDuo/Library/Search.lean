import Mathlib.Data.List.Infix
import Mathlib.Tactic.Common

/-!
# Searching a sequence for a delimiter

`search` is the first position at which a pattern occurs. A delimiter of two
distinct elements cannot begin inside a text that is free of it and end outside
the text, so a delimited text is found exactly, and no proper prefix of it is
mistaken for a complete one.
-/

namespace DuoDuo.Library

variable {α : Type*}

/-- The first position at which `pattern` occurs in the list, as `std::search` finds it. -/
def search [DecidableEq α] (pattern : List α) : List α → Option ℕ
  | [] => if pattern = [] then some 0 else none
  | a :: l => if pattern <+: a :: l then some 0 else (search pattern l).map (· + 1)

/-- Nothing is found exactly when the pattern does not occur. -/
theorem search_eq_none_iff [DecidableEq α] {pattern l : List α} :
    search pattern l = none ↔ ¬ pattern <:+: l := by
  induction l with
  | nil => simp [search]
  | cons a l ih =>
    rw [search, List.infix_cons_iff]
    split
    · next h => simp [h]
    · next h => simp [h, ih]

/-- A delimiter of two distinct elements is found right behind a text that is free of it. -/
theorem search_append_delimiter [DecidableEq α] {c d : α} (hcd : c ≠ d) {l : List α}
    (hl : ¬ [c, d] <:+: l) (r : List α) : search [c, d] (l ++ c :: d :: r) = some l.length := by
  induction l with
  | nil => simp [search]
  | cons a l ih =>
    rw [List.infix_cons_iff, not_or] at hl
    have hprefix : ¬ [c, d] <+: a :: (l ++ c :: d :: r) := by
      cases l with
      | nil => simp [hcd.symm]
      | cons b l => simpa using hl.1
    rw [List.cons_append, search, if_neg hprefix, ih hl.2]
    rfl

/-- What is found lies within the list. -/
theorem search_add_length_le [DecidableEq α] {pattern l : List α} {k : ℕ}
    (h : search pattern l = some k) : k + pattern.length ≤ l.length := by
  induction l generalizing k with
  | nil =>
    rw [search, Option.ite_none_right_eq_some, Option.some.injEq] at h
    simp [h.1, ← h.2]
  | cons a l ih =>
    rw [search] at h
    split at h
    · next hp =>
      obtain rfl := Option.some.inj h
      simpa using hp.length_le
    · obtain ⟨j, hj, rfl⟩ := Option.map_eq_some_iff.mp h
      have hle := ih hj
      rw [List.length_cons]
      omega

/-- What is found is found at the same position when more follows. -/
theorem search_append [DecidableEq α] {pattern l : List α} {k : ℕ}
    (h : search pattern l = some k) (r : List α) : search pattern (l ++ r) = some k := by
  induction l generalizing k with
  | nil =>
    rw [search, Option.ite_none_right_eq_some, Option.some.injEq] at h
    obtain ⟨rfl, rfl⟩ := h
    cases r <;> simp [search]
  | cons a l ih =>
    have hlen := search_add_length_le h
    rw [search] at h
    rw [List.cons_append, search]
    split at h
    · next hp =>
      rw [if_pos (by simpa using hp.trans (List.prefix_append (a :: l) r)), h]
    · next hp =>
      obtain ⟨j, hj, rfl⟩ := Option.map_eq_some_iff.mp h
      have hnot : ¬ pattern <+: a :: (l ++ r) := by
        intro hlong
        have hshort : a :: l <+: a :: (l ++ r) := List.prefix_append (a :: l) r
        exact hp (List.prefix_of_prefix_length_le hlong hshort (by omega))
      rw [if_neg hnot, ih hj]
      rfl

/-- What precedes the first occurrence, the occurrence, and what follows it. -/
theorem split_of_search [DecidableEq α] {pattern l : List α} {k : ℕ}
    (h : search pattern l = some k) :
    l = l.take k ++ pattern ++ l.drop (k + pattern.length) := by
  induction l generalizing k with
  | nil =>
    rw [search, Option.ite_none_right_eq_some] at h
    simp [h.1]
  | cons a l ih =>
    rw [search] at h
    split at h
    · next hp =>
      obtain rfl := Option.some.inj h
      obtain ⟨r, hr⟩ := hp
      simp [← hr]
    · obtain ⟨j, hj, rfl⟩ := Option.map_eq_some_iff.mp h
      rw [List.take_succ_cons, show j + 1 + pattern.length = j + pattern.length + 1 by omega,
        List.drop_succ_cons, List.cons_append, List.cons_append, ← ih hj]

/-- What precedes the first occurrence is free of the pattern. -/
theorem not_infix_take_of_search [DecidableEq α] {pattern l : List α} {k : ℕ}
    (hpattern : pattern ≠ []) (h : search pattern l = some k) : ¬ pattern <:+: l.take k := by
  intro hinfix
  obtain ⟨j, hj⟩ : ∃ j, search pattern (l.take k) = some j :=
    Option.ne_none_iff_exists'.mp fun hnone => search_eq_none_iff.mp hnone hinfix
  have hfirst : search pattern l = some j := by
    rw [← List.take_append_drop k l]
    exact search_append hj _
  obtain rfl : j = k := Option.some.inj (hfirst.symm.trans h)
  have hle := search_add_length_le hj
  rw [List.length_take] at hle
  have hpos := List.length_pos_iff.mpr hpattern
  omega

/-- A proper prefix of a delimited text is free of the delimiter. -/
theorem not_infix_of_prefix_delimiter {c d : α} (hcd : c ≠ d) {l q r : List α}
    (hl : ¬ [c, d] <:+: l) (hq : q <+: l ++ c :: d :: r) (hlen : q.length < l.length + 2) :
    ¬ [c, d] <:+: q := by
  induction l generalizing q with
  | nil =>
    intro hinfix
    have hle := hinfix.length_le
    simp at hle hlen
    omega
  | cons a l ih =>
    rw [List.infix_cons_iff, not_or] at hl
    cases q with
    | nil => simp
    | cons b q =>
      rw [List.cons_append, List.cons_prefix_cons] at hq
      obtain ⟨rfl, hq⟩ := hq
      rw [List.infix_cons_iff, not_or]
      refine ⟨?_, ih hl.2 hq (by simpa using hlen)⟩
      intro hprefix
      have htail := List.cons_prefix_cons.mp hprefix
      cases l with
      | nil =>
        have hd : [d] <+: c :: d :: r := htail.2.trans hq
        simp [hcd.symm] at hd
      | cons x l =>
        have hd : [d] <+: x :: (l ++ c :: d :: r) := htail.2.trans hq
        apply hl.1
        simp only [List.cons_prefix_cons, List.nil_prefix, and_true] at hd ⊢
        exact ⟨htail.1, hd⟩

/-- A delimiter does not reach across an element that is foreign to it. -/
theorem delimiter_infix_append_cons {c d x : α} (hc : x ≠ c) (hd : x ≠ d) {l r : List α} :
    [c, d] <:+: l ++ x :: r ↔ [c, d] <:+: l ∨ [c, d] <:+: r := by
  induction l with
  | nil => simp [List.infix_cons_iff, hc.symm]
  | cons a l ih =>
    have hprefix : [c, d] <+: a :: (l ++ x :: r) ↔ [c, d] <+: a :: l := by
      cases l with
      | nil => simp [hd.symm]
      | cons b l => simp
    rw [List.cons_append, List.infix_cons_iff, List.infix_cons_iff, hprefix, ih, or_assoc]

end DuoDuo.Library
