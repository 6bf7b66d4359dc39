import DuoDuo.Buffer.LongAddr

/-!
# The sum of the striped adder

No addition to a `LongAddr` is lost as long as no compare-exchange changes what is not a
cell, the slots of new arrays that are not assigned are null, and a thread that doubles
the table copies all cells of it.
-/

namespace DuoDuo.Buffer

open Library

namespace LongAddr

/-- The thread has set `m_cellBusy`. -/
def Point.Locks : Point → Prop
  | .createCells | .createSize | .createSlot _ | .createStore _ | .createUnlock _
  | .doubleCheck | .doubleNew | .doubleCopy _ | .doublePublish | .doubleClear _
  | .doubleDelete | .doubleSize | .doubleUnlock
  | .initCheck | .initNew | .initSize | .initStore | .initPublish | .initUnlock _ => True
  | _ => False

/-- The thread has changed one of `m_cells` and `nCells`, or stored a cell in an array that
is not in `m_cells` yet. -/
def Point.Publishing : Point → Prop
  | .doubleClear _ | .doubleDelete | .doubleSize | .initPublish => True
  | _ => False

/-- The value has not been added yet. -/
def Point.pending : Point → Bool
  | .idle | .createUnlock true | .initPublish | .initUnlock true => false
  | _ => true

/-- What the thread still has to add. -/
def Thread.pending (th : Thread) : BitVec 64 := if th.point.pending then th.val else 0

/-- The slots hold every cell once, and nothing else. -/
def Filled (m : Tables) (l : List Slot) : Prop := l.reduceOption.Perm (List.range m.numCells)

/-- The array in `m_cells` has `nCells` slots, and holds every cell once. -/
structure Tables.Placed (m : Tables) : Prop where
  absent : m.cells = none → m.numCells = 0
  filled : ∀ p, m.cells = some p → ∃ l, m.arrays p = some l ∧ l.length = m.nCells ∧ Filled m l

/-- All cells of the table of the thread are among its first `n` slots. -/
def Complete (m : Tables) (th : Thread) (p : ℕ) (l : List Slot) : Prop :=
  th.as = some p ∧ m.cells = some p ∧ m.arrays p = some l ∧ th.n ≤ l.length ∧
    ∀ slot ∈ l.drop th.n, slot = none

/-- The new array has twice the size, and holds every cell once. -/
def Doubled (m : Tables) (th : Thread) : Prop :=
  th.as ≠ some th.rs ∧
    ∃ l, m.arrays th.rs = some l ∧ l.length = 2 * th.n ∧ Filled m l

/-- The new array of two slots holds no cell outside of the slot of the thread. -/
def Fresh (m : Tables) (th : Thread) : Prop :=
  ∃ l, m.arrays th.rs = some l ∧ l.length = 2 ∧
    ∀ i c, l[i]? = some (some c) → i = slotOf th.chosenIdx 2

/-- What a thread knows at its point. -/
def Owns (m : Tables) (th : Thread) : Prop :=
  match th.point with
  | .loopSize => m.cells ≠ none
  | .loopSlot | .createTest | .createRetest | .createLock | .loopLoad | .loopCas | .contended
  | .doubleTest | .doubleLock | .doubleCheck => 0 < th.n
  | .initTest | .initRetest | .initLock | .initCheck => th.as = none
  | .createSlot k => k = m.nCells ∧ 0 < k
  | .createStore j => ∃ p l, m.cells = some p ∧ m.arrays p = some l ∧ l[j]? = some none
  | .doubleNew => 0 < th.n ∧ ∃ p l, Complete m th p l
  | .doubleCopy i => 0 < th.n ∧ ∃ p l l', Complete m th p l ∧ p ≠ th.rs ∧
      m.arrays th.rs = some l' ∧ l'.length = 2 * th.n ∧ i ≤ th.n ∧ l'.take i = l.take i ∧
      ∀ slot ∈ l'.drop th.n, slot = none
  | .doublePublish => 0 < th.n ∧ m.cells ≠ none ∧ Doubled m th
  | .doubleClear _ | .doubleDelete | .doubleSize => 0 < th.n ∧ m.cells = some th.rs ∧ Doubled m th
  | .initNew => m.cells = none
  | .initSize => m.cells = none ∧ Fresh m th
  | .initStore => m.cells = none ∧ m.nCells = 2 ∧ Fresh m th
  | .initPublish => m.cells = none ∧ m.nCells = 2 ∧
      ∃ l, m.arrays th.rs = some l ∧ l.length = 2 ∧ Filled m l
  | _ => True

/-- A thread without `m_cellBusy` knows nothing that another thread can change. -/
theorem Owns.mono {m m' : Tables} {th : Thread} (h : Owns m th) (hlocks : ¬th.point.Locks)
    (hcells : m.cells ≠ none → m'.cells ≠ none) : Owns m' th := by
  obtain ⟨point, val, chosenIdx, wasUncontended, extend, as, n, a, v, rs⟩ := th
  cases point with
  | loopSize => exact hcells h
  | loopSlot | createTest | createRetest | createLock | loopLoad | loopCas | contended
  | doubleTest | doubleLock | initTest | initRetest | initLock => exact h
  | idle | addTest | addLoadBase | addCasBase | addRetest | addSize | addCells | addSlot
  | addLoad | addCas | enter | loopCells | loopLoadBase | loopCasBase => exact trivial
  | _ => exact absurd trivial hlocks

/-- Between the two changes of the table, the thread has set `m_cellBusy`. -/
theorem Point.Publishing.locks {p : Point} (h : p.Publishing) : p.Locks := by
  cases p with
  | doubleClear | doubleDelete | doubleSize | initPublish => exact trivial
  | _ => exact h.elim

/-- The array in `m_cells` stays as it is. -/
theorem Tables.Placed.frame {m m' : Tables} (h : m.Placed) (hcells : m'.cells = m.cells)
    (hnCells : m'.nCells = m.nCells) (hnum : m'.numCells = m.numCells)
    (harrays : ∀ p, m.cells = some p → m'.arrays p = m.arrays p) : m'.Placed where
  absent := by rw [hcells, hnum]; exact h.absent
  filled := by
    intro p hp
    rw [hcells] at hp
    obtain ⟨l, hl, hlength, hfilled⟩ := h.filled p hp
    refine ⟨l, (harrays p hp).trans hl, hlength.trans hnCells.symm, ?_⟩
    rw [Filled, hnum]
    exact hfilled

section Slots

variable {α : Type} {l l' : List (Option α)} {i n : ℕ} {x : α}

/-- Slots without a name do not count. -/
theorem reduceOption_of_drop (h : ∀ slot ∈ l.drop n, slot = none) :
    l.reduceOption = (l.take n).reduceOption := by
  have hrest : (l.drop n).reduceOption = [] := by
    rw [List.reduceOption_eq_nil_iff]
    exact ⟨(l.drop n).length, List.eq_replicate_of_mem h⟩
  calc l.reduceOption = (l.take n ++ l.drop n).reduceOption := by rw [List.take_append_drop]
    _ = (l.take n).reduceOption := by rw [List.reduceOption_append, hrest, List.append_nil]

/-- A name for a slot that has none. -/
theorem reduceOption_set_perm (h : l[i]? = some none) :
    (l.set i (some x)).reduceOption.Perm (x :: l.reduceOption) := by
  obtain ⟨hi, hnone⟩ := List.getElem?_eq_some_iff.mp h
  have hsplit : l.reduceOption = (l.take i).reduceOption ++ (l.drop (i + 1)).reduceOption := by
    conv_lhs => rw [← List.take_append_drop i l, List.drop_eq_getElem_cons hi, hnone]
    rw [List.reduceOption_append, List.reduceOption_cons_of_none]
  rw [List.set_eq_take_append_cons_drop, if_pos hi, List.reduceOption_append,
    List.reduceOption_cons_of_some, hsplit]
  exact List.perm_middle

/-- One more slot is copied. -/
theorem take_set_succ {slot : Option α} (hi : i < l'.length) (h : l'.take i = l.take i)
    (hslot : l[i]? = some slot) : (l'.set i slot).take (i + 1) = l.take (i + 1) := by
  obtain ⟨hil, rfl⟩ := List.getElem?_eq_some_iff.mp hslot
  rw [← List.take_append_getElem (by simpa using hi), List.getElem_set_self,
    List.take_set_of_le le_rfl, h, List.take_append_getElem hil]

end Slots

section Quiescent

variable {T : Type} [Fintype T] {s : LongAddr T}

/-- What the base, the cells and the threads hold. -/
def total (s : LongAddr T) : BitVec 64 :=
  s.base + ∑ c ∈ Finset.range s.tables.numCells, s.value c + ∑ t, (s.thread t).pending

/-- The invariant. -/
structure Inv (s : LongAddr T) : Prop where
  conserved : s.passed.sum = s.total
  held : Held (fun (th : Thread) (_ : Unit) => th.point.Locks) (fun _ => s.cellBusy) s.thread
  placed : (∀ t, ¬(s.thread t).point.Publishing) → s.tables.Placed
  sized : s.tables.cells ≠ none → 0 < s.tables.nCells
  owns : ∀ t, Owns s.tables (s.thread t)

/-- When no addition is in progress, nothing is missing. -/
theorem Inv.exact (h : Inv s) : s.Exact := by
  intro hidle
  have hpending : ∑ t, (s.thread t).pending = 0 := by
    refine Finset.sum_eq_zero fun t _ => ?_
    rw [Thread.pending, hidle t]
    rfl
  have hplaced := h.placed fun t => by rw [hidle t]; exact not_false
  have hcells : ((s.tables.table.take s.tables.nCells).reduceOption.map s.value).sum =
      ∑ c ∈ Finset.range s.tables.numCells, s.value c := by
    cases hcell : s.tables.cells with
    | none =>
      rw [Tables.table, hcell, hplaced.absent hcell]
      simp
    | some p =>
      obtain ⟨l, hl, hlength, hfilled⟩ := hplaced.filled p hcell
      rw [Tables.table, hcell, Option.bind_some, hl, Option.getD_some, ← hlength, List.take_length]
      exact (hfilled.map s.value).sum_eq
  rw [sum, hcells, h.conserved, total, hpending, add_zero]

end Quiescent

variable {T : Type} [Fintype T] [DecidableEq T] {s s' : LongAddr T} {t : T} {th : Thread}
  {p : Point}

/-- A thread that goes on exchanges what it still has to add. -/
theorem total_goTo (hthread : s'.thread = Function.update s.thread t th)
    (hpending : th.pending = (s.thread t).pending) (hbase : s'.base = s.base)
    (hvalue : s'.value = s.value) (hnum : s'.tables.numCells = s.tables.numCells) :
    s'.total = s.total := by
  rw [total, total, hthread, hbase, hvalue, hnum, sum_update_same Thread.pending hpending]

/-- A thread goes on, and leaves the table as it is. -/
theorem Inv.move (h : Inv s) (hthread : s'.thread = Function.update s.thread t th)
    (htables : s'.tables = s.tables) (hp : (s.thread t).point = p)
    (hpublishing : p.Publishing → th.point.Publishing) (hconserved : s'.passed.sum = s'.total)
    (hheld : Held (fun (th : Thread) (_ : Unit) => th.point.Locks) (fun _ => s'.cellBusy) s'.thread)
    (howns : Owns s.tables th) : Inv s' where
  conserved := hconserved
  held := hheld
  placed := by
    intro hnone
    rw [htables]
    refine h.placed fun u hu => hnone u ?_
    rw [hthread]
    by_cases hut : u = t
    · rw [hut, Function.update_self]
      rw [hut, hp] at hu
      exact hpublishing hu
    · rw [Function.update_of_ne hut]
      exact hu
  sized := by
    rw [htables]
    exact h.sized
  owns := by
    intro u
    rw [htables, hthread]
    by_cases hut : u = t
    · rw [hut, Function.update_self]
      exact howns
    · rw [Function.update_of_ne hut]
      exact h.owns u

/-- A thread goes on, and changes no more than `m_cellBusy`. -/
theorem Inv.goTo (h : Inv s) {b : Option T} (hp : (s.thread t).point = p)
    (hpending : th.pending = (s.thread t).pending)
    (hpublishing : p.Publishing → th.point.Publishing)
    (hheld : Held (fun (th : Thread) (_ : Unit) => th.point.Locks) (fun _ => b)
      (Function.update s.thread t th)) (howns : Owns s.tables th) :
    Inv ({ s with cellBusy := b }.goTo t th) := by
  have hthread : ({ s with cellBusy := b }.goTo t th).thread = Function.update s.thread t th := rfl
  exact h.move hthread rfl hp hpublishing
    (h.conserved.trans (total_goTo hthread hpending rfl rfl rfl).symm) hheld howns

/-- A thread that adds nothing goes on with what it has to add. -/
theorem Thread.pending_congr {th th' : Thread} (hp : th'.point = p)
    (hpoint : th.point.pending = p.pending) (hval : th.val = th'.val) :
    th.pending = th'.pending := by
  rw [Thread.pending, Thread.pending, hpoint, hp, hval]

/-- A thread loads or compares. -/
theorem Inv.onward (h : Inv s) (hp : (s.thread t).point = p) (hval : th.val = (s.thread t).val)
    (hpoint : th.point.pending = p.pending) (hlocks : th.point.Locks → p.Locks)
    (hpublishing : p.Publishing → th.point.Publishing) (howns : Owns s.tables th) :
    Inv (s.goTo t th) :=
  h.goTo (b := s.cellBusy) hp (Thread.pending_congr hp hpoint hval) hpublishing
    (h.held.move fun _ hneeds => hp ▸ hlocks hneeds) howns

/-- A thread sets `m_cellBusy`. -/
theorem Inv.acquire (h : Inv s) (hp : (s.thread t).point = p) (hfree : s.cellBusy = none)
    (hval : th.val = (s.thread t).val) (hpoint : th.point.pending = p.pending)
    (hpublishing : p.Publishing → th.point.Publishing) (howns : Owns s.tables th) :
    Inv ({ s with cellBusy := some t }.goTo t th) := by
  refine h.goTo hp (Thread.pending_congr hp hpoint hval) hpublishing ?_ howns
  have hheld := h.held.acquire (t := t) (p := th) (l := ()) hfree fun l' hl => absurd rfl hl
  have howner : Function.update (fun _ : Unit => s.cellBusy) () (some t) = fun _ => some t := by
    funext l
    exact Function.update_self _ _ _
  rwa [howner] at hheld

/-- A thread resets `m_cellBusy`. -/
theorem Inv.release (h : Inv s) (hp : (s.thread t).point = p) (hheld : p.Locks)
    (hval : th.val = (s.thread t).val) (hpoint : th.point.pending = p.pending)
    (hlocks : ¬th.point.Locks) (hpublishing : p.Publishing → th.point.Publishing)
    (howns : Owns s.tables th) : Inv ({ s with cellBusy := none }.goTo t th) := by
  refine h.goTo hp (Thread.pending_congr hp hpoint hval) hpublishing ?_ howns
  have hheld := h.held.release (t := t) (p := th) (l := ()) (hp ▸ hheld)
    fun _ hneeds => absurd hneeds hlocks
  have howner : Function.update (fun _ : Unit => s.cellBusy) () none = fun _ => none := by
    funext l
    exact Function.update_self _ _ _
  rwa [howner] at hheld

omit [DecidableEq T] in
/-- While a thread has set `m_cellBusy`, no other thread has. -/
theorem Inv.alone (h : Inv s) (hlocks : (s.thread t).point.Locks) {u : T} (hu : u ≠ t) :
    ¬(s.thread u).point.Locks :=
  fun hother => hu (h.held.eq_of_needs (l := ()) hother hlocks)

/-- What a thread finds that has set `m_cellBusy`, outside of the two changes of the table. -/
theorem Inv.placed_of_locks (h : Inv s) (hp : (s.thread t).point = p) (hlocks : p.Locks)
    (hpublishing : ¬p.Publishing) : s.tables.Placed := by
  refine h.placed fun u hu => ?_
  by_cases hut : u = t
  · exact hpublishing (by rwa [hut, hp] at hu)
  · exact h.alone (hp ▸ hlocks) hut hu.locks

/-- A thread that has set `m_cellBusy` changes the arrays. -/
theorem Inv.change (h : Inv s) (hthread : s'.thread = Function.update s.thread t th)
    (hp : (s.thread t).point = p) (hlocks : p.Locks) (hbusy : s'.cellBusy = s.cellBusy)
    (hconserved : s'.passed.sum = s'.total)
    (hcells : s.tables.cells ≠ none → s'.tables.cells ≠ none)
    (hsized : s'.tables.cells ≠ none → 0 < s'.tables.nCells)
    (hplaced : ¬th.point.Publishing → s'.tables.Placed) (howns : Owns s'.tables th) : Inv s' where
  conserved := hconserved
  held := by
    rw [hbusy, hthread]
    exact h.held.move fun _ _ => hp ▸ hlocks
  placed := by
    intro hnone
    have hself := hnone t
    rw [hthread, Function.update_self] at hself
    exact hplaced hself
  sized := hsized
  owns := by
    intro u
    rw [hthread]
    by_cases hut : u = t
    · rw [hut, Function.update_self]
      exact howns
    · rw [Function.update_of_ne hut]
      exact (h.owns u).mono (h.alone (hp ▸ hlocks) hut) hcells

/-- A thread that has set `m_cellBusy` changes the arrays, and adds nothing. -/
theorem Inv.changeTables (h : Inv s) {m : Tables} (hp : (s.thread t).point = p) (hlocks : p.Locks)
    (hval : th.val = (s.thread t).val) (hpoint : th.point.pending = p.pending)
    (hnum : m.numCells = s.tables.numCells) (hcells : s.tables.cells ≠ none → m.cells ≠ none)
    (hsized : m.cells ≠ none → 0 < m.nCells) (hplaced : ¬th.point.Publishing → m.Placed)
    (howns : Owns m th) : Inv ({ s with tables := m }.goTo t th) := by
  have hthread : ({ s with tables := m }.goTo t th).thread = Function.update s.thread t th := rfl
  have hpending := Thread.pending_congr hp hpoint hval
  exact h.change hthread hp hlocks rfl
    (h.conserved.trans (total_goTo hthread hpending rfl rfl hnum).symm) hcells hsized hplaced howns

/-- A thread adds its value to the base or to a cell. -/
theorem total_added (hthread : s'.thread = Function.update s.thread t th)
    (hzero : th.pending = 0)
    (hsum : s'.base + ∑ c ∈ Finset.range s'.tables.numCells, s'.value c =
      s.base + ∑ c ∈ Finset.range s.tables.numCells, s.value c + (s.thread t).pending) :
    s'.total = s.total := by
  have hrest := sum_update_add (Finset.mem_univ t) Thread.pending s.thread th
  rw [hzero, add_zero] at hrest
  rw [total, total, hsum, hthread, add_assoc, add_comm (s.thread t).pending, hrest]

/-- A thread adds its value, and `add` returns. -/
theorem Inv.added (h : Inv s) (hthread : s'.thread = Function.update s.thread t th)
    (hpassed : s'.passed = s.passed) (hbusy : s'.cellBusy = s.cellBusy)
    (htables : s'.tables = s.tables) (hp : (s.thread t).point = p) (hpublishing : ¬p.Publishing)
    (hidle : th.point = .idle)
    (hsum : s'.base + ∑ c ∈ Finset.range s'.tables.numCells, s'.value c =
      s.base + ∑ c ∈ Finset.range s.tables.numCells, s.value c + (s.thread t).pending) :
    Inv s' := by
  have hzero : th.pending = 0 := by
    rw [Thread.pending, hidle]
    rfl
  have hconserved : s'.passed.sum = s'.total := by
    rw [hpassed, h.conserved, total_added hthread hzero hsum]
  refine h.move hthread htables hp (fun hpub => absurd hpub hpublishing) hconserved ?_ ?_
  · rw [hbusy, hthread]
    refine h.held.move fun _ hneeds => ?_
    rw [hidle] at hneeds
    exact hneeds.elim
  · rw [Owns, hidle]
    exact trivial

/-- `casBase` adds the value. -/
theorem Inv.addBase (h : Inv s) (hp : (s.thread t).point = p) (hpublishing : ¬p.Publishing)
    (hpending : p.pending = true) (hbase : s.base = (s.thread t).v) (hidle : th.point = .idle) :
    Inv ({ s with base := (s.thread t).v + (s.thread t).val }.goTo t th) := by
  refine h.added rfl rfl rfl rfl hp hpublishing hidle ?_
  dsimp only [LongAddr.goTo]
  rw [Thread.pending, hp, hpending, if_pos rfl, hbase, add_right_comm]

/-- `casCellValue` adds the value to a cell. -/
theorem Inv.addCell (h : Inv s) (hp : (s.thread t).point = p) (hpublishing : ¬p.Publishing)
    (hpending : p.pending = true) (hvalue : s.value (s.thread t).a = (s.thread t).v)
    (hcell : (s.thread t).a < s.tables.numCells) (hidle : th.point = .idle) :
    Inv ({ s with
      value := Function.update s.value (s.thread t).a ((s.thread t).v + (s.thread t).val) }.goTo
        t th) := by
  refine h.added rfl rfl rfl rfl hp hpublishing hidle ?_
  dsimp only [LongAddr.goTo]
  have hsum := sum_update_add (Finset.mem_range.mpr hcell) id s.value
    ((s.thread t).v + (s.thread t).val)
  simp only [id_eq, hvalue] at hsum
  rw [add_comm (s.thread t).v, ← add_assoc] at hsum
  rw [Thread.pending, hp, hpending, if_pos rfl, add_assoc, add_comm (s.thread t).v,
    add_right_cancel hsum]

/-- A thread stores a new cell with its value. -/
theorem total_storeCell {address i : ℕ} (hp : (s.thread t).point = p) (hpending : p.pending = true)
    (hzero : th.pending = 0) :
    ((s.storeCell address i (s.thread t).val).goTo t th).total = s.total := by
  have hthread : ((s.storeCell address i (s.thread t).val).goTo t th).thread =
    Function.update s.thread t th := rfl
  refine total_added hthread hzero ?_
  dsimp only [LongAddr.goTo, storeCell]
  rw [Finset.sum_range_succ, Function.update_self, Thread.pending, hp, hpending, if_pos rfl,
    ← add_assoc]
  congr 2
  refine Finset.sum_congr rfl fun c hc => ?_
  rw [Function.update_of_ne (Finset.mem_range.mp hc).ne]

/-- The slots with a new cell. -/
theorem Filled.set {m : Tables} {l : List Slot} {j : ℕ} (h : Filled m l)
    (hslot : l[j]? = some none) :
    (l.set j (some m.numCells)).reduceOption.Perm (List.range (m.numCells + 1)) := by
  rw [List.range_succ]
  have hset : (l.set j (some m.numCells)).reduceOption.Perm (m.numCells :: l.reduceOption) :=
    reduceOption_set_perm hslot
  exact hset.trans ((h.cons _).trans (List.perm_append_singleton _ _).symm)

/-- The array in `m_cells`, where a thread doubles the table. -/
theorem Inv.filled_of_complete (h : Inv s) (hp : (s.thread t).point = p) (hlocks : p.Locks)
    (hpublishing : ¬p.Publishing) {q : ℕ} {l : List Slot}
    (hcomplete : Complete s.tables (s.thread t) q l) : Filled s.tables l := by
  obtain ⟨-, hcells, harray, -⟩ := hcomplete
  obtain ⟨l', harray', -, hfilled⟩ := (h.placed_of_locks hp hlocks hpublishing).filled q hcells
  rw [harray] at harray'
  exact Option.some.inj harray' ▸ hfilled

/-- A slot of the table is null. -/
theorem Inv.nullSlot (h : Inv s) {m address : ℕ} (hp : (s.thread t).point = .createSlot m)
    (hcells : s.tables.cells = some address) {memory : Slot}
    (hslot : s.tables.slot address (slotOf (s.thread t).chosenIdx m) memory = none) :
    Owns s.tables { s.thread t with point := .createStore (slotOf (s.thread t).chosenIdx m) } := by
  have howns := h.owns t
  rw [Owns, hp] at howns
  obtain ⟨rfl, hn⟩ := howns
  obtain ⟨l, hl, hlength, -⟩ := (h.placed_of_locks hp trivial not_false).filled address hcells
  have hlt : slotOf (s.thread t).chosenIdx s.tables.nCells < l.length :=
    (slotOf_lt hn).trans_eq hlength.symm
  have hget := List.getElem?_eq_getElem hlt
  rw [Tables.slot_eq hl hget] at hslot
  exact ⟨address, l, hcells, hl, hslot ▸ hget⟩

/-- A new cell in a null slot. -/
theorem Inv.createStore (h : Inv s) {j address : ℕ} (hp : (s.thread t).point = .createStore j)
    (hcells : s.tables.cells = some address) :
    Inv ((s.storeCell address j (s.thread t).val).goTo t
      { s.thread t with point := .createUnlock true }) := by
  have howns := h.owns t
  rw [Owns, hp] at howns
  obtain ⟨q, l, hq, harray, hslot⟩ := howns
  obtain rfl : q = address := Option.some.inj (hq.symm.trans hcells)
  obtain ⟨l', harray', hlength, hfilled⟩ :=
    (h.placed_of_locks hp trivial not_false).filled q hcells
  obtain rfl : l = l' := Option.some.inj (harray.symm.trans harray')
  refine h.change rfl hp trivial rfl ?_ id h.sized (fun _ => ⟨?_, ?_⟩) trivial
  · exact h.conserved.trans (total_storeCell hp rfl rfl).symm
  · intro hnone
    exact absurd (hcells.symm.trans hnone) (Option.some_ne_none q)
  · intro q' hq'
    obtain rfl : q = q' := Option.some.inj (hcells.symm.trans hq')
    refine ⟨_, Tables.arrays_setSlot_self harray, ?_, hfilled.set hslot⟩
    rw [List.length_set]
    exact hlength

/-- A new array of twice the size. -/
theorem Inv.doubleNew (h : Inv s) (hp : (s.thread t).point = .doubleNew) {address : ℕ}
    (hfree : s.tables.arrays address = none) {contents : ℕ → Slot}
    (hcontents : ∀ i < 2 * (s.thread t).n, (s.thread t).n ≤ i → contents i = none) :
    Inv ({ s with tables := s.tables.newArray address (2 * (s.thread t).n) contents }.goTo t
      { s.thread t with rs := address, point := .doubleCopy 0 }) := by
  have howns := h.owns t
  rw [Owns, hp] at howns
  obtain ⟨hn, q, l, has, hcells, harray, hle, hdrop⟩ := howns
  have hne : q ≠ address := by
    rintro rfl
    rw [hfree] at harray
    cases harray
  refine h.changeTables hp trivial rfl rfl rfl id h.sized (fun _ => ?_) ?_
  · refine (h.placed_of_locks hp trivial not_false).frame rfl rfl rfl fun q' hq' => ?_
    obtain rfl : q = q' := Option.some.inj (hcells.symm.trans hq')
    exact Tables.arrays_newArray_of_ne hne
  · refine ⟨hn, q, l, _, ⟨has, hcells, ?_, hle, hdrop⟩, hne, Tables.arrays_newArray_self, ?_,
      Nat.zero_le _, rfl, ?_⟩
    · exact (Tables.arrays_newArray_of_ne hne).trans harray
    · rw [List.length_map, List.length_range]
    · intro slot hslot
      dsimp only at hslot
      rw [← List.map_drop, List.mem_map] at hslot
      obtain ⟨i, hi, rfl⟩ := hslot
      rw [List.range_eq_range', List.drop_range', List.mem_range'_1] at hi
      exact hcontents i (by omega) (by omega)

/-- One more slot is copied to the new array. -/
theorem Inv.doubleCopy (h : Inv s) {i address : ℕ} (hp : (s.thread t).point = .doubleCopy i)
    (has : (s.thread t).as = some address) (hi : i < (s.thread t).n) (memory : Slot) :
    Inv ({ s with
      tables := s.tables.setSlot (s.thread t).rs i (s.tables.slot address i memory) }.goTo t
        { s.thread t with point := .doubleCopy (i + 1) }) := by
  have howns := h.owns t
  rw [Owns, hp] at howns
  obtain ⟨hn, q, l, l', hcomplete, hne, hnew, hlength, -, htake, hnull⟩ := howns
  obtain ⟨has', hcells, harray, hle, hdrop⟩ := hcomplete
  obtain rfl : q = address := Option.some.inj (has'.symm.trans has)
  have hil : l[i]? = some l[i] := List.getElem?_eq_getElem (hi.trans_le hle)
  refine h.changeTables hp trivial rfl rfl rfl id h.sized (fun _ => ?_) ?_
  · refine (h.placed_of_locks hp trivial not_false).frame rfl rfl rfl fun q' hq' => ?_
    obtain rfl : q = q' := Option.some.inj (hcells.symm.trans hq')
    exact Tables.arrays_setSlot_of_ne hne
  · refine ⟨hn, q, l, _, ⟨has', hcells, ?_, hle, hdrop⟩, hne, Tables.arrays_setSlot_self hnew, ?_,
      hi, ?_, ?_⟩
    · exact (Tables.arrays_setSlot_of_ne hne).trans harray
    · rw [List.length_set]
      exact hlength
    · rw [Tables.slot_eq harray hil]
      exact take_set_succ (by omega) htake hil
    · rw [List.drop_set_of_lt hi]
      exact hnull

/-- All slots are copied. -/
theorem Inv.copied (h : Inv s) {i : ℕ} (hp : (s.thread t).point = .doubleCopy i)
    (hi : ¬i < (s.thread t).n) :
    Inv (s.goTo t { s.thread t with point := .doublePublish }) := by
  have howns := h.owns t
  rw [Owns, hp] at howns
  obtain ⟨hn, q, l, l', hcomplete, hne, hnew, hlength, hle, htake, hnull⟩ := howns
  obtain rfl : i = (s.thread t).n := le_antisymm hle (not_lt.mp hi)
  have hfilled := h.filled_of_complete hp trivial not_false hcomplete
  obtain ⟨has, hcells, -, -, hdrop⟩ := hcomplete
  refine h.onward hp rfl rfl id nofun ⟨hn, ?_, ?_, l', hnew, hlength, ?_⟩
  · rw [hcells]
    exact Option.some_ne_none q
  · intro heq
    exact hne (Option.some.inj (has.symm.trans heq))
  · rw [Filled, reduceOption_of_drop hnull, htake, ← reduceOption_of_drop hdrop]
    exact hfilled

/-- The new array is stored in `m_cells`. -/
theorem Inv.doublePublish (h : Inv s) (hp : (s.thread t).point = .doublePublish) :
    Inv ({ s with tables := { s.tables with cells := some (s.thread t).rs } }.goTo t
      { s.thread t with point := .doubleClear 0 }) := by
  have howns := h.owns t
  rw [Owns, hp] at howns
  obtain ⟨hn, hcells, hdoubled⟩ := howns
  exact h.changeTables hp trivial rfl rfl rfl (fun _ => Option.some_ne_none _)
    (fun _ => h.sized hcells) (absurd trivial) ⟨hn, rfl, hdoubled⟩

/-- The old array is changed, or deleted. -/
theorem Inv.freeCells (h : Inv s) (hp : (s.thread t).point = p) (hlocks : p.Locks)
    {q : Point} (hlocks' : q.Publishing) (hval : q.pending = p.pending) {m : Tables}
    (hcells : m.cells = s.tables.cells) (hnCells : m.nCells = s.tables.nCells)
    (hnum : m.numCells = s.tables.numCells)
    (howns : Owns m { s.thread t with point := q }) :
    Inv ({ s with tables := m }.goTo t { s.thread t with point := q }) := by
  refine h.changeTables hp hlocks rfl hval hnum (fun hne => ?_) (fun hne => ?_) (absurd hlocks')
    howns
  · exact hcells ▸ hne
  · exact hnCells ▸ h.sized (hcells ▸ hne)

/-- The new array keeps its slots. -/
theorem Doubled.frame {m m' : Tables} {th : Thread} (h : Doubled m th)
    (hnum : m'.numCells = m.numCells) (harray : m'.arrays th.rs = m.arrays th.rs) :
    Doubled m' th := by
  obtain ⟨hne, l, hl, hlength, hfilled⟩ := h
  refine ⟨hne, l, harray.trans hl, hlength, ?_⟩
  rw [Filled, hnum]
  exact hfilled

/-- The new array is another one than the old. -/
theorem Doubled.ne {m : Tables} {th : Thread} (h : Doubled m th) {address : ℕ}
    (has : th.as = some address) : th.rs ≠ address := by
  rintro rfl
  exact h.1 has

/-- The size of the new array is stored in `nCells`. -/
theorem Inv.doubleSize (h : Inv s) (hp : (s.thread t).point = .doubleSize) :
    Inv ({ s with tables := { s.tables with nCells := 2 * (s.thread t).n } }.goTo t
      { s.thread t with point := .doubleUnlock }) := by
  have howns := h.owns t
  rw [Owns, hp] at howns
  obtain ⟨hn, hcells, -, l, hl, hlength, hfilled⟩ := howns
  refine h.changeTables hp trivial rfl rfl rfl id (fun _ => Nat.mul_pos Nat.two_pos hn)
    (fun _ => ⟨fun hnone => ?_, fun q hq => ?_⟩) trivial
  · exact absurd (hcells.symm.trans hnone) (Option.some_ne_none _)
  · obtain rfl : (s.thread t).rs = q := Option.some.inj (hcells.symm.trans hq)
    exact ⟨l, hl, hlength, hfilled⟩

/-- The first array. -/
theorem Inv.initNew (h : Inv s) (hp : (s.thread t).point = .initNew) {address : ℕ}
    {contents : ℕ → Slot}
    (hcontents : ∀ i < 2, i ≠ slotOf (s.thread t).chosenIdx 2 → contents i = none) :
    Inv ({ s with tables := s.tables.newArray address 2 contents }.goTo t
      { s.thread t with rs := address, point := .initSize }) := by
  have hcells := h.owns t
  rw [Owns, hp] at hcells
  refine h.changeTables hp trivial rfl rfl rfl id h.sized (fun _ => ?_)
    ⟨hcells, _, Tables.arrays_newArray_self, ?_, fun i c hi => ?_⟩
  · refine (h.placed_of_locks hp trivial not_false).frame rfl rfl rfl fun q hq => ?_
    exact absurd (hcells.symm.trans hq) (Option.some_ne_none q).symm
  · rw [List.length_map, List.length_range]
  · rw [List.getElem?_map, Option.map_eq_some_iff] at hi
    obtain ⟨k, hk, hc⟩ := hi
    obtain ⟨hlt, rfl⟩ := List.getElem?_eq_some_iff.mp hk
    rw [List.getElem_range] at hc
    by_contra hne
    rw [hcontents i (by simpa using hlt) hne] at hc
    cases hc

/-- The size of the first array. -/
theorem Inv.initSize (h : Inv s) (hp : (s.thread t).point = .initSize) :
    Inv ({ s with tables := { s.tables with nCells := 2 } }.goTo t
      { s.thread t with point := .initStore }) := by
  have howns := h.owns t
  rw [Owns, hp] at howns
  obtain ⟨hcells, hfresh⟩ := howns
  have hplaced := h.placed_of_locks hp trivial not_false
  exact h.changeTables hp trivial rfl rfl rfl id (fun _ => Nat.two_pos)
    (fun _ => ⟨hplaced.absent, fun q hq => absurd (hcells.symm.trans hq) nofun⟩)
    ⟨hcells, rfl, hfresh⟩

/-- The first cell. -/
theorem Inv.initStore (h : Inv s) (hp : (s.thread t).point = .initStore) :
    Inv ((s.storeCell (s.thread t).rs (slotOf (s.thread t).chosenIdx 2) (s.thread t).val).goTo t
      { s.thread t with
        chosenIdx := BitVec.ofNat 32 (slotOf (s.thread t).chosenIdx 2), point := .initPublish }) := by
  have howns := h.owns t
  rw [Owns, hp] at howns
  obtain ⟨hcells, hnCells, l, hl, hlength, hfresh⟩ := howns
  have hnum := (h.placed_of_locks hp trivial not_false).absent hcells
  have hslot : slotOf (s.thread t).chosenIdx 2 < l.length := hlength.symm ▸ slotOf_lt Nat.two_pos
  -- whatever the slot has held, it is assigned now
  have hempty : Filled s.tables (l.set (slotOf (s.thread t).chosenIdx 2) none) := by
    have hnull : (l.set (slotOf (s.thread t).chosenIdx 2) none).reduceOption = [] := by
      rw [List.eq_nil_iff_forall_not_mem]
      intro c hc
      rw [List.reduceOption_mem_iff, List.mem_iff_getElem?] at hc
      obtain ⟨i, hi⟩ := hc
      rw [List.getElem?_set] at hi
      split_ifs at hi with heq
      · cases hi
      · exact heq (hfresh i c hi).symm
    rw [Filled, hnull, hnum]
    exact .nil
  have hfilled := hempty.set (List.getElem?_set_self hslot)
  rw [List.set_set] at hfilled
  refine h.change rfl hp trivial rfl ?_ id h.sized (absurd trivial)
    ⟨hcells, hnCells, _, Tables.arrays_setSlot_self hl, ?_, hfilled⟩
  · exact h.conserved.trans (total_storeCell hp rfl rfl).symm
  · rw [List.length_set]
    exact hlength

/-- The first array is stored in `m_cells`. -/
theorem Inv.initPublish (h : Inv s) (hp : (s.thread t).point = .initPublish) :
    Inv ({ s with tables := { s.tables with cells := some (s.thread t).rs } }.goTo t
      { s.thread t with point := .initUnlock true }) := by
  have howns := h.owns t
  rw [Owns, hp] at howns
  obtain ⟨-, hnCells, l, hl, hlength, hfilled⟩ := howns
  refine h.changeTables hp trivial rfl rfl rfl (fun _ => Option.some_ne_none _)
    (fun _ => hnCells.symm ▸ Nat.two_pos) (fun _ => ⟨nofun, fun q hq => ?_⟩) trivial
  obtain rfl : (s.thread t).rs = q := Option.some.inj hq
  exact ⟨l, hl, hlength.trans hnCells.symm, hfilled⟩

/-- What a compare-exchange changes is a cell, the slots of a new array that are not assigned
are null, and a thread that doubles the table copies all of its cells. -/
def Orderly (s : LongAddr T) : Action T → Prop
  | .call _ _ _ => True
  | .work t o =>
    ((s.thread t).point = .addCas ∨ (s.thread t).point = .loopCas → o.ok = true →
      s.value (s.thread t).a = (s.thread t).v → (s.thread t).a < s.tables.numCells) ∧
    ((s.thread t).point = .doubleCheck → s.tables.cells = (s.thread t).as →
      (s.thread t).n ≤ s.tables.table.length ∧
        ∀ slot ∈ s.tables.table.drop (s.thread t).n, slot = none) ∧
    ((s.thread t).point = .doubleNew →
      ∀ i < 2 * (s.thread t).n, (s.thread t).n ≤ i → o.contents i = none) ∧
    ((s.thread t).point = .initNew →
      ∀ i < 2, i ≠ slotOf (s.thread t).chosenIdx 2 → o.contents i = none)

instance (s : LongAddr T) (a : Action T) : Decidable (Orderly s a) :=
  match a with
  | .call _ _ _ => .isTrue trivial
  | .work _ _ => inferInstanceAs (Decidable (_ ∧ _ ∧ _ ∧ _))

/-- A thread finds the table that it is about to double. -/
theorem Inv.complete (h : Inv s) (hp : (s.thread t).point = .doubleCheck)
    (hsame : s.tables.cells = (s.thread t).as) (hle : (s.thread t).n ≤ s.tables.table.length)
    (hdrop : ∀ slot ∈ s.tables.table.drop (s.thread t).n, slot = none) :
    Owns s.tables { s.thread t with point := .doubleNew } := by
  have hn := h.owns t
  rw [Owns, hp] at hn
  rw [Tables.table] at hle hdrop
  cases hcells : s.tables.cells with
  | none =>
    rw [hcells] at hle
    exact absurd hn (not_lt.mpr hle)
  | some q =>
    have hplaced := h.placed_of_locks hp trivial not_false
    obtain ⟨l, hl, -, -⟩ := hplaced.filled q hcells
    rw [hcells, Option.bind_some, hl] at hle hdrop
    exact ⟨hn, q, l, hsame.symm.trans hcells, hcells, hl, hle, hdrop⟩

/-- Every step of a thread that meets the condition keeps the invariant. -/
theorem Inv.work (h : Inv s) {ncpus : ℕ} {o : Oracle} (hc : Orderly s (.work t o))
    (hstep : s.work ncpus t o = some s') : Inv s' := by
  obtain ⟨hcas, hcheck, hdouble, hinit⟩ := hc
  unfold LongAddr.work at hstep
  have howns := h.owns t
  cases hp : (s.thread t).point with
  | idle =>
    simp only [hp] at hstep
    cases hstep
  | addTest =>
    simp only [hp] at hstep
    split_ifs at hstep <;> cases hstep <;> exact h.onward hp rfl rfl nofun nofun trivial
  | addLoadBase =>
    simp only [hp] at hstep
    cases hstep
    exact h.onward hp rfl rfl nofun nofun trivial
  | addCasBase =>
    simp only [hp, casBase] at hstep
    by_cases hok : o.ok = true ∧ s.base = (s.thread t).v
    · simp only [if_pos hok, if_true] at hstep
      cases hstep
      exact h.addBase hp not_false rfl hok.2 rfl
    · simp only [if_neg hok, Bool.false_eq_true, if_false] at hstep
      cases hstep
      exact h.onward hp rfl rfl nofun nofun trivial
  | addRetest =>
    simp only [hp] at hstep
    split_ifs at hstep <;> cases hstep <;> exact h.onward hp rfl rfl nofun nofun trivial
  | addSize =>
    simp only [hp] at hstep
    split_ifs at hstep <;> cases hstep <;> exact h.onward hp rfl rfl nofun nofun trivial
  | addCells =>
    simp only [hp] at hstep
    cases hstep
    exact h.onward hp rfl rfl nofun nofun trivial
  | addSlot =>
    simp only [hp] at hstep
    obtain ⟨address, -, hstep⟩ := Option.bind_eq_some_iff.mp hstep
    split at hstep <;> cases hstep <;> exact h.onward hp rfl rfl nofun nofun trivial
  | addLoad =>
    simp only [hp] at hstep
    cases hstep
    exact h.onward hp rfl rfl nofun nofun trivial
  | addCas =>
    simp only [hp, casCellValue] at hstep
    by_cases hok : o.ok = true ∧ s.value (s.thread t).a = (s.thread t).v
    · simp only [if_pos hok, if_true] at hstep
      cases hstep
      exact h.addCell hp not_false rfl hok.2 (hcas (Or.inl hp) hok.1 hok.2) rfl
    · simp only [if_neg hok, Bool.false_eq_true, if_false] at hstep
      cases hstep
      exact h.onward hp rfl rfl nofun nofun trivial
  | enter =>
    simp only [hp] at hstep
    cases hstep
    exact h.onward hp rfl rfl nofun nofun trivial
  | loopCells =>
    simp only [hp] at hstep
    split_ifs at hstep with hcells
    · cases hstep
      exact h.onward hp rfl rfl nofun nofun hcells
    · cases hstep
      exact h.onward hp rfl rfl nofun nofun hcells
  | loopSize =>
    simp only [hp] at hstep
    rw [Owns, hp] at howns
    split_ifs at hstep with hn
    · cases hstep
      exact h.onward hp rfl rfl nofun nofun hn
    · exact absurd (h.sized howns) hn
  | loopSlot =>
    simp only [hp] at hstep
    rw [Owns, hp] at howns
    obtain ⟨address, -, hstep⟩ := Option.bind_eq_some_iff.mp hstep
    split at hstep
    · cases hstep
      exact h.onward hp rfl rfl nofun nofun howns
    · split_ifs at hstep
      · cases hstep
        exact h.onward hp rfl rfl nofun nofun howns
      · cases hstep
        exact h.onward hp rfl rfl nofun nofun trivial
  | createTest =>
    simp only [hp] at hstep
    rw [Owns, hp] at howns
    split_ifs at hstep
    · cases hstep
      exact h.onward hp rfl rfl nofun nofun howns
    · cases hstep
      exact h.onward hp rfl rfl nofun nofun trivial
  | createRetest =>
    simp only [hp] at hstep
    rw [Owns, hp] at howns
    split_ifs at hstep
    · cases hstep
      exact h.onward hp rfl rfl nofun nofun howns
    · cases hstep
      exact h.onward hp rfl rfl nofun nofun trivial
  | createLock =>
    simp only [hp, casCellBusy] at hstep
    by_cases hok : o.ok = true ∧ s.cellBusy = none
    · simp only [if_pos hok, if_true] at hstep
      cases hstep
      exact h.acquire hp hok.2 rfl rfl nofun trivial
    · simp only [if_neg hok, Bool.false_eq_true, if_false] at hstep
      cases hstep
      exact h.onward hp rfl rfl nofun nofun trivial
  | createCells =>
    simp only [hp] at hstep
    split_ifs at hstep <;> cases hstep <;> exact h.onward hp rfl rfl id nofun trivial
  | createSize =>
    simp only [hp] at hstep
    split_ifs at hstep with hn
    · cases hstep
      exact h.onward hp rfl rfl id nofun ⟨rfl, hn⟩
    · cases hstep
      exact h.onward hp rfl rfl id nofun trivial
  | createSlot m =>
    simp only [hp] at hstep
    obtain ⟨address, hcells, hstep⟩ := Option.bind_eq_some_iff.mp hstep
    split_ifs at hstep with hslot
    · cases hstep
      exact h.onward hp rfl rfl id nofun (h.nullSlot hp hcells hslot)
    · cases hstep
      exact h.onward hp rfl rfl id nofun trivial
  | createStore j =>
    simp only [hp] at hstep
    obtain ⟨address, hcells, hstep⟩ := Option.bind_eq_some_iff.mp hstep
    cases hstep
    exact h.createStore hp hcells
  | createUnlock created =>
    simp only [hp] at hstep
    cases hstep
    cases created with
    | false => exact h.release hp trivial rfl rfl not_false nofun trivial
    | true => exact h.release hp trivial rfl rfl not_false nofun trivial
  | loopLoad =>
    simp only [hp] at hstep
    rw [Owns, hp] at howns
    cases hstep
    exact h.onward hp rfl rfl nofun nofun howns
  | loopCas =>
    simp only [hp, casCellValue] at hstep
    rw [Owns, hp] at howns
    by_cases hok : o.ok = true ∧ s.value (s.thread t).a = (s.thread t).v
    · simp only [if_pos hok, if_true] at hstep
      cases hstep
      exact h.addCell hp not_false rfl hok.2 (hcas (Or.inr hp) hok.1 hok.2) rfl
    · simp only [if_neg hok, Bool.false_eq_true, if_false] at hstep
      split_ifs at hstep
      · cases hstep
        exact h.onward hp rfl rfl nofun nofun trivial
      · cases hstep
        exact h.onward hp rfl rfl nofun nofun howns
  | contended =>
    simp only [hp] at hstep
    rw [Owns, hp] at howns
    split_ifs at hstep
    · cases hstep
      exact h.onward hp rfl rfl nofun nofun trivial
    · cases hstep
      exact h.onward hp rfl rfl nofun nofun howns
    · cases hstep
      exact h.onward hp rfl rfl nofun nofun trivial
  | doubleTest =>
    simp only [hp] at hstep
    rw [Owns, hp] at howns
    split_ifs at hstep
    · cases hstep
      exact h.onward hp rfl rfl nofun nofun howns
    · cases hstep
      exact h.onward hp rfl rfl nofun nofun trivial
  | doubleLock =>
    simp only [hp, casCellBusy] at hstep
    rw [Owns, hp] at howns
    by_cases hok : o.ok = true ∧ s.cellBusy = none
    · simp only [if_pos hok, if_true] at hstep
      cases hstep
      exact h.acquire hp hok.2 rfl rfl nofun howns
    · simp only [if_neg hok, Bool.false_eq_true, if_false] at hstep
      cases hstep
      exact h.onward hp rfl rfl nofun nofun trivial
  | doubleCheck =>
    simp only [hp] at hstep
    split_ifs at hstep with hsame
    · cases hstep
      obtain ⟨hle, hdrop⟩ := hcheck hp hsame
      exact h.onward hp rfl rfl id nofun (h.complete hp hsame hle hdrop)
    · cases hstep
      exact h.onward hp rfl rfl id nofun trivial
  | doubleNew =>
    simp only [hp] at hstep
    split_ifs at hstep with hfree
    cases hstep
    exact h.doubleNew hp hfree (hdouble hp)
  | doubleCopy i =>
    simp only [hp] at hstep
    obtain ⟨address, has, hstep⟩ := Option.bind_eq_some_iff.mp hstep
    split_ifs at hstep with hi
    · cases hstep
      exact h.doubleCopy hp has hi o.memory
    · cases hstep
      exact h.copied hp hi
  | doublePublish =>
    simp only [hp] at hstep
    cases hstep
    exact h.doublePublish hp
  | doubleClear i =>
    simp only [hp] at hstep
    rw [Owns, hp] at howns
    obtain ⟨hn, hcells, hdoubled⟩ := howns
    obtain ⟨address, has, hstep⟩ := Option.bind_eq_some_iff.mp hstep
    split_ifs at hstep with hi
    · cases hstep
      refine h.freeCells (q := .doubleClear (i + 1)) hp trivial trivial rfl rfl rfl rfl
        ⟨hn, hcells, hdoubled.frame rfl ?_⟩
      exact Tables.arrays_setSlot_of_ne (hdoubled.ne has)
    · cases hstep
      exact h.onward hp rfl rfl id (fun _ => trivial) ⟨hn, hcells, hdoubled⟩
  | doubleDelete =>
    simp only [hp] at hstep
    rw [Owns, hp] at howns
    obtain ⟨hn, hcells, hdoubled⟩ := howns
    obtain ⟨address, has, hstep⟩ := Option.bind_eq_some_iff.mp hstep
    cases hstep
    refine h.freeCells (q := .doubleSize) hp trivial trivial rfl rfl rfl rfl
      ⟨hn, hcells, hdoubled.frame rfl ?_⟩
    exact Tables.arrays_deleteArray_of_ne (hdoubled.ne has)
  | doubleSize =>
    simp only [hp] at hstep
    cases hstep
    exact h.doubleSize hp
  | doubleUnlock =>
    simp only [hp] at hstep
    cases hstep
    exact h.release hp trivial rfl rfl not_false nofun trivial
  | initTest =>
    simp only [hp] at hstep
    rw [Owns, hp] at howns
    split_ifs at hstep
    · cases hstep
      exact h.onward hp rfl rfl nofun nofun howns
    · cases hstep
      exact h.onward hp rfl rfl nofun nofun trivial
  | initRetest =>
    simp only [hp] at hstep
    rw [Owns, hp] at howns
    split_ifs at hstep
    · cases hstep
      exact h.onward hp rfl rfl nofun nofun howns
    · cases hstep
      exact h.onward hp rfl rfl nofun nofun trivial
  | initLock =>
    simp only [hp, casCellBusy] at hstep
    rw [Owns, hp] at howns
    by_cases hok : o.ok = true ∧ s.cellBusy = none
    · simp only [if_pos hok, if_true] at hstep
      cases hstep
      exact h.acquire hp hok.2 rfl rfl nofun howns
    · simp only [if_neg hok, Bool.false_eq_true, if_false] at hstep
      cases hstep
      exact h.onward hp rfl rfl nofun nofun trivial
  | initCheck =>
    simp only [hp] at hstep
    rw [Owns, hp] at howns
    split_ifs at hstep with hsame
    · cases hstep
      exact h.onward hp rfl rfl id nofun (hsame.trans howns)
    · cases hstep
      exact h.onward hp rfl rfl id nofun trivial
  | initNew =>
    simp only [hp] at hstep
    split_ifs at hstep with hfree
    cases hstep
    exact h.initNew hp (hinit hp)
  | initSize =>
    simp only [hp] at hstep
    cases hstep
    exact h.initSize hp
  | initStore =>
    simp only [hp] at hstep
    cases hstep
    exact h.initStore hp
  | initPublish =>
    simp only [hp] at hstep
    cases hstep
    exact h.initPublish hp
  | initUnlock init =>
    simp only [hp] at hstep
    cases hstep
    cases init with
    | false => exact h.release hp trivial rfl rfl not_false nofun trivial
    | true => exact h.release hp trivial rfl rfl not_false nofun trivial
  | loopLoadBase =>
    simp only [hp] at hstep
    cases hstep
    exact h.onward hp rfl rfl nofun nofun trivial
  | loopCasBase =>
    simp only [hp, casBase] at hstep
    by_cases hok : o.ok = true ∧ s.base = (s.thread t).v
    · simp only [if_pos hok, if_true] at hstep
      cases hstep
      exact h.addBase hp not_false rfl hok.2 rfl
    · simp only [if_neg hok, Bool.false_eq_true, if_false] at hstep
      cases hstep
      exact h.onward hp rfl rfl nofun nofun trivial

/-- A call of `add`. -/
theorem Inv.call (h : Inv s) (hp : (s.thread t).point = .idle) (val : BitVec 64)
    (chosenIdx : BitVec 32) :
    Inv ({ s with passed := val :: s.passed }.goTo t
      { point := .addTest, val := val, chosenIdx := chosenIdx }) := by
  refine h.move rfl rfl hp nofun ?_ (h.held.move nofun) trivial
  have hrest := sum_update_add (Finset.mem_univ t) Thread.pending s.thread
    { point := .addTest, val := val, chosenIdx := chosenIdx }
  have hzero : (s.thread t).pending = 0 := by
    rw [Thread.pending, hp]
    rfl
  have hval : Thread.pending { point := .addTest, val := val, chosenIdx := chosenIdx } = val := rfl
  rw [hzero, hval, add_zero] at hrest
  rw [total]
  dsimp only [LongAddr.goTo]
  rw [List.sum_cons, h.conserved, total, hrest, add_comm val, add_assoc]

/-- Every step that meets the condition keeps the invariant. -/
theorem Inv.next (h : Inv s) {ncpus : ℕ} {a : Action T} (hc : Orderly s a)
    (hstep : next ncpus s a = some s') : Inv s' := by
  cases a with
  | call t val chosenIdx =>
    unfold LongAddr.next at hstep
    dsimp only at hstep
    split_ifs at hstep with hp
    cases hstep
    exact h.call hp val chosenIdx
  | work t o => exact h.work hc hstep

omit [DecidableEq T] in
/-- A new `LongAddr` holds nothing. -/
theorem Inv.new (memory : ℕ → BitVec 64) : Inv ({ value := memory } : LongAddr T) where
  conserved := by
    have hpending : ∑ t : T, Thread.pending {} = 0 := Finset.sum_eq_zero fun _ _ => rfl
    rw [total, hpending]
    rfl
  held := .of_idle fun _ _ => not_false
  placed _ := ⟨fun _ => rfl, nofun⟩
  sized hne := absurd rfl hne
  owns _ := trivial

/-- In a run from a new `LongAddr` all of whose steps meet the condition, `sum` is the sum of
the values passed to `add` whenever no addition is in progress. -/
theorem exact_of_orderly {ncpus : ℕ} {trace : List (LongAddr T × Action T)}
    (hinit : (machine ncpus).init s) (hrun : (machine ncpus).Run s trace s')
    (horderly : ∀ step ∈ trace, Orderly step.1 step.2) :
    ∀ u ∈ Machine.visited trace s', Exact u := by
  obtain ⟨memory, rfl⟩ := hinit
  have hinv : ∀ u ∈ Machine.visited trace s', Inv u :=
    hrun.forall_visited (C := Orderly) (I := Inv) (fun u a v h hc hstep => h.next hc hstep)
      (Inv.new memory) horderly
  exact fun u hu => (hinv u hu).exact

instance (s : LongAddr T) : Decidable s.Quiescent :=
  inferInstanceAs (Decidable (∀ t, (s.thread t).point = .idle))

/-- The numerals of the two threads below rest on this instance. -/
local instance neZero_two : NeZero 2 := ⟨two_ne_zero⟩

/-- A weak compare-exchange fails, whatever it finds. -/
def fails : Oracle := { ok := false }

/-- An addition of the second thread makes the `casBase` of the first one fail, which then makes
the array. The second thread makes the other cell, and still holds `m_cellBusy` when the first
one begins a further addition. Its compare-exchanges fail, and it doubles the table; before it
deletes the old array the second thread has added to one of the cells once more. -/
def doubling : List (Action (Fin 2)) :=
  [.call 0 5 (-1), .work 0 {}, .work 0 {}, .call 1 3 (-1)] ++ List.replicate 3 (.work 1 {}) ++
    List.replicate 13 (.work 0 {}) ++ [.call 1 2 0] ++ List.replicate 16 (.work 1 {}) ++
    [.call 0 7 1] ++ List.replicate 6 (.work 0 {}) ++ [.work 0 fails] ++
    List.replicate 8 (.work 0 {}) ++ [.work 0 fails, .work 1 {}] ++ List.replicate 5 (.work 0 {}) ++
    [.work 0 fails] ++ List.replicate 4 (.work 0 {}) ++ [.work 0 { address := 1 }] ++
    List.replicate 4 (.work 0 {}) ++ [.call 1 4 1] ++ List.replicate 7 (.work 1 {}) ++
    List.replicate 11 (.work 0 {})

/-- A new `LongAddr` for two threads, where the memory holds ones. -/
def onesForTwo : LongAddr (Fin 2) := { value := fun _ => 1 }

/-- In the end of that run the table has four slots, and the sum is right. -/
theorem exact_of_orderly_doubling :
    ∃ s, doubling.foldlM (next 4) onesForTwo = some s ∧
      s.tables.table = [some 1, some 0, none, none] ∧ s.base = 3 ∧ s.sum = 21 ∧
      ∀ u ∈ Machine.visited (Machine.traceOf (next 4) onesForTwo doubling) s, Exact u := by
  have hend : (doubling.foldlM (next 4) onesForTwo).map
      (fun s => (s.tables.table, s.base, s.sum)) = some ([some 1, some 0, none, none], 3, 21) := by
    decide +kernel
  obtain ⟨s, hs, hend⟩ := Option.map_eq_some_iff.mp hend
  simp only [Prod.mk.injEq] at hend
  obtain ⟨htable, hbase, hsum⟩ := hend
  have hrun : (machine 4).Run onesForTwo (Machine.traceOf (next 4) onesForTwo doubling) s :=
    .of_foldlM hs
  exact ⟨s, hs, htable, hbase, hsum, exact_of_orderly ⟨_, rfl⟩ hrun (by decide +kernel)⟩

/-- One thread adds 5, `casBase` fails, and the thread makes an array, whose memory holds a
pointer. -/
def firstArray : List (Action (Fin 1)) :=
  [.call 0 5 (-1), .work 0 {}, .work 0 {}, .work 0 fails] ++ List.replicate 7 (.work 0 {}) ++
    [.work 0 { contents := fun _ => some 7 }] ++ List.replicate 4 (.work 0 {})

/-- A new `LongAddr` for one thread, where the memory holds ones. -/
def ones : LongAddr (Fin 1) := { value := fun _ => 1 }

/-- The state after the addition. -/
def afterFirstArray : LongAddr (Fin 1) := (firstArray.foldlM (next 4) ones).getD ones

/-- The steps can be taken. -/
theorem afterFirstArray_eq : firstArray.foldlM (next 4) ones = some afterFirstArray := by
  have hsome : (firstArray.foldlM (next 4) ones).isSome = true := by decide +kernel
  exact (Option.getD_of_ne_none (Option.isSome_iff_ne_none.mp hsome) _).symm

/-- `sum` adds what the pointer points to. -/
theorem firstArray_not_exact :
    (machine 4).Reachable afterFirstArray ∧ ¬Exact afterFirstArray := by
  have hinit : (machine 4).Reachable ones := .of_init ⟨_, rfl⟩
  refine ⟨hinit.of_foldlM afterFirstArray_eq, fun hexact => ?_⟩
  exact absurd (hexact (by decide +kernel)) (by decide +kernel)

end LongAddr

end DuoDuo.Buffer
