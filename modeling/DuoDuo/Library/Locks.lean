import Mathlib.Logic.Function.Basic
import Mathlib.Tactic.Common

/-!
# Threads and the locks that they hold

Every point of a program lies under a set of locks. That each thread holds the locks
of its point is preserved when a thread acquires a lock, releases one, or goes on
without; and two threads are never at points that share a lock. Points, locks and
threads are arbitrary.
-/

namespace DuoDuo.Library

variable {L T P : Type*}

/-- Every thread owns the locks that its point needs. -/
def Held (needs : P → L → Prop) (owner : L → Option T) (point : T → P) : Prop :=
  ∀ t l, needs (point t) l → owner l = some t

namespace Held

variable {needs : P → L → Prop} {owner : L → Option T} {point : T → P}

/-- At points without locks, nothing is held. -/
theorem of_idle (h : ∀ t l, ¬needs (point t) l) : Held needs owner point :=
  fun t l hneeds => absurd hneeds (h t l)

/-- No two threads are at points that need the same lock. -/
theorem eq_of_needs (h : Held needs owner point) {t u : T} {l : L} (ht : needs (point t) l)
    (hu : needs (point u) l) : t = u :=
  Option.some.inj ((h t l ht).symm.trans (h u l hu))

variable [DecidableEq T] {t : T} {p : P}

/-- A thread goes on to a point that needs no other locks. -/
theorem move (h : Held needs owner point) (hp : ∀ l, needs p l → needs (point t) l) :
    Held needs owner (Function.update point t p) := by
  intro u l hneeds
  by_cases hu : u = t
  · subst hu
    rw [Function.update_self] at hneeds
    exact h u l (hp l hneeds)
  · rw [Function.update_of_ne hu] at hneeds
    exact h u l hneeds

variable [DecidableEq L] {l : L}

/-- A thread acquires a lock that nobody owns. -/
theorem acquire (h : Held needs owner point) (hfree : owner l = none)
    (hp : ∀ l', l' ≠ l → needs p l' → needs (point t) l') :
    Held needs (Function.update owner l (some t)) (Function.update point t p) := by
  intro u l' hneeds
  by_cases hu : u = t
  · subst hu
    rw [Function.update_self] at hneeds
    by_cases hl : l' = l
    · rw [hl, Function.update_self]
    · rw [Function.update_of_ne hl]
      exact h u l' (hp l' hl hneeds)
  · rw [Function.update_of_ne hu] at hneeds
    have hown := h u l' hneeds
    have hl : l' ≠ l := by
      rintro rfl
      rw [hfree] at hown
      cases hown
    rw [Function.update_of_ne hl]
    exact hown

/-- A thread releases a lock of its point. -/
theorem release (h : Held needs owner point) (hheld : needs (point t) l)
    (hp : ∀ l', needs p l' → l' ≠ l ∧ needs (point t) l') :
    Held needs (Function.update owner l none) (Function.update point t p) := by
  intro u l' hneeds
  by_cases hu : u = t
  · subst hu
    rw [Function.update_self] at hneeds
    obtain ⟨hl, hneeds⟩ := hp l' hneeds
    rw [Function.update_of_ne hl]
    exact h u l' hneeds
  · rw [Function.update_of_ne hu] at hneeds
    have hl : l' ≠ l := by
      rintro rfl
      exact hu (h.eq_of_needs hneeds hheld)
    rw [Function.update_of_ne hl]
    exact h u l' hneeds

end Held

end DuoDuo.Library
