import Mathlib.Data.List.Basic
import Mathlib.Tactic.Common

/-!
# Memory made of blocks

A memory maps a block and a position in it to a value. Reading a range gives a
list, and writing or copying a range changes nothing outside it. Blocks and values
are arbitrary.
-/

namespace DuoDuo.Library

/-- A memory over blocks `B` and values `α`. -/
abbrev BlockMemory (B α : Type*) := B × ℕ → α

namespace BlockMemory

variable {B α : Type*} [DecidableEq B]

/-- The `n` values from the address `a` on. -/
def read (mem : BlockMemory B α) (a : B × ℕ) (n : ℕ) : List α :=
  (List.range n).map fun i => mem (a.1, a.2 + i)

/-- Write a list of values from the address `a` on. -/
def write (mem : BlockMemory B α) (a : B × ℕ) (data : List α) : BlockMemory B α := fun x =>
  if x.1 = a.1 ∧ a.2 ≤ x.2 then data.getD (x.2 - a.2) (mem x) else mem x

/-- Copy `n` values from `src` to `dst`. -/
def copy (mem : BlockMemory B α) (src dst : B × ℕ) (n : ℕ) : BlockMemory B α := fun x =>
  if x.1 = dst.1 ∧ dst.2 ≤ x.2 ∧ x.2 < dst.2 + n then mem (src.1, src.2 + (x.2 - dst.2))
  else mem x

section Read

omit [DecidableEq B]

variable (mem : BlockMemory B α) (a : B × ℕ)

@[simp] theorem length_read (n : ℕ) : (read mem a n).length = n := by
  simp [read]

@[simp] theorem read_zero : read mem a 0 = [] := rfl

/-- Reading a range is reading its two parts. -/
theorem read_add (m n : ℕ) : read mem a (m + n) = read mem a m ++ read mem (a.1, a.2 + m) n := by
  simp only [read, List.range_add, List.map_append, List.map_map]
  congr 1
  apply List.map_congr_left
  intro i _
  simp [Nat.add_assoc]

/-- The first values of a range. -/
theorem take_read {m n : ℕ} (h : m ≤ n) : (read mem a n).take m = read mem a m := by
  obtain ⟨k, rfl⟩ := Nat.exists_eq_add_of_le h
  rw [read_add, List.take_append_of_le_length (by simp), List.take_of_length_le (by simp)]

/-- The last values of a range. -/
theorem drop_read {m n : ℕ} (h : m ≤ n) :
    (read mem a n).drop m = read mem (a.1, a.2 + m) (n - m) := by
  obtain ⟨k, rfl⟩ := Nat.exists_eq_add_of_le h
  rw [read_add, List.drop_left' (by simp), Nat.add_sub_cancel_left]

/-- Memories that agree on a range give the same values there. -/
theorem read_congr {mem' : BlockMemory B α} {n : ℕ}
    (h : ∀ i < n, mem' (a.1, a.2 + i) = mem (a.1, a.2 + i)) : read mem' a n = read mem a n :=
  List.map_congr_left fun i hi => h i (List.mem_range.mp hi)

/-- Ranges with the same values have parts with the same values. -/
theorem read_part {mem' : BlockMemory B α} {a' : B × ℕ} {n : ℕ}
    (h : read mem a n = read mem' a' n) {i m : ℕ} (hi : i + m ≤ n) :
    read mem (a.1, a.2 + i) m = read mem' (a'.1, a'.2 + i) m := by
  have hpart := congrArg (fun l => (l.drop i).take m) h
  simpa only [drop_read _ _ (show i ≤ n by omega), take_read _ _ (show m ≤ n - i by omega)]
    using hpart

end Read

variable (mem : BlockMemory B α)

/-- What has been written is read back. -/
theorem read_write_self (a : B × ℕ) (data : List α) :
    read (write mem a data) a data.length = data := by
  apply List.ext_getElem (by simp)
  intro i hi hdata
  simp [read, write, List.getD_eq_getElem?_getD, List.getElem?_eq_getElem hdata]

/-- A write leaves the values before it in its block. -/
theorem read_write_before {a b : B × ℕ} {n : ℕ} (h : b.2 + n ≤ a.2) (data : List α) :
    read (write mem a data) b n = read mem b n := by
  apply read_congr
  intro i hi
  have hnot : ¬ a.2 ≤ b.2 + i := by omega
  simp [write, hnot]

/-- A write changes nothing outside its range. -/
theorem write_outside {a x : B × ℕ} {data : List α}
    (h : ¬ (x.1 = a.1 ∧ a.2 ≤ x.2 ∧ x.2 < a.2 + data.length)) : write mem a data x = mem x := by
  rw [write]
  split
  · next hbehind =>
    have hend : data.length ≤ x.2 - a.2 := by
      by_contra hlt
      exact h ⟨hbehind.1, hbehind.2, by omega⟩
    rw [List.getD_eq_getElem?_getD, List.getElem?_eq_none hend, Option.getD_none]
  · rfl

/-- The last value of a write shows at one place only. -/
theorem write_concat_of_ne {a x : B × ℕ} {data : List α} (h : x ≠ (a.1, a.2 + data.length))
    (v w : α) : write mem a (data ++ [v]) x = write mem a (data ++ [w]) x := by
  rw [write, write]
  split
  · next hbehind =>
    have hplace : x.2 - a.2 ≠ data.length := by
      intro hlast
      exact h (Prod.ext hbehind.1 (show x.2 = a.2 + data.length by omega))
    rw [List.getD_eq_getElem?_getD, List.getD_eq_getElem?_getD]
    rcases Nat.lt_or_gt_of_ne hplace with hlt | hgt
    · rw [List.getElem?_append_left hlt, List.getElem?_append_left hlt]
    · have hend : ∀ u : α, (data ++ [u]).length ≤ x.2 - a.2 := by
        intro u
        rw [List.length_append, List.length_singleton]
        exact hgt
      rw [List.getElem?_eq_none (hend v), List.getElem?_eq_none (hend w)]
  · rfl

/-- A copy changes nothing outside its destination. -/
theorem copy_outside {src dst x : B × ℕ} {n : ℕ}
    (h : ¬ (x.1 = dst.1 ∧ dst.2 ≤ x.2 ∧ x.2 < dst.2 + n)) : copy mem src dst n x = mem x :=
  if_neg h

/-- What has been copied is read at the destination. -/
theorem read_copy {src dst : B × ℕ} {n i m : ℕ} (h : i + m ≤ n) :
    read (copy mem src dst n) (dst.1, dst.2 + i) m = read mem (src.1, src.2 + i) m := by
  apply List.map_congr_left
  intro j hj
  have hlt := List.mem_range.mp hj
  have hin : dst.2 ≤ dst.2 + i + j ∧ dst.2 + i + j < dst.2 + n := by omega
  have hsrc : src.2 + (dst.2 + i + j - dst.2) = src.2 + i + j := by omega
  simp only [copy, true_and, if_pos hin, hsrc]

end BlockMemory

end DuoDuo.Library
