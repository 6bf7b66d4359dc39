import DuoDuo.Library.Locks
import DuoDuo.Library.Machine
import DuoDuo.Library.Tally
import Mathlib.Data.BitVec
import Mathlib.Data.List.ReduceOption
import Mathlib.Data.Fintype.Basic

/-!
# The striped adder

Threads add numbers to a `LongAddr`. An addition goes to the base, or to a cell of a
table that is created and doubled under `m_cellBusy`. Every load, compare-exchange and
store of a pointer is one step, and the arguments of `casBase` and `casCellValue` are
evaluated from right to left. The slots of a new array, and those of one that has been
deleted, hold whatever the memory holds.
-/

namespace DuoDuo.Buffer

open Library

namespace LongAddr

/-- The slot of an array, which holds a null pointer or the number of a cell. -/
abbrev Slot := Option ℕ

/-- Where a thread is in `add` or in `metaAccumulate`. -/
inductive Point
  | idle
  /-- `add` compares `m_cells` with `nullptr`. -/
  | addTest
  | addLoadBase
  | addCasBase
  /-- `add` compares `m_cells` with `nullptr` once more, after a failed `casBase`. -/
  | addRetest
  | addSize
  | addCells
  | addSlot
  | addLoad
  | addCas
  /-- `metaAccumulate` is called. -/
  | enter
  /-- The loop begins, and loads `m_cells` into `as`. -/
  | loopCells
  | loopSize
  | loopSlot
  /-- The slot is null: `!m_cellBusy`. -/
  | createTest
  | createRetest
  | createLock
  | createCells
  | createSize
  | createSlot (m : ℕ)
  | createStore (j : ℕ)
  | createUnlock (created : Bool)
  /-- There is a cell: its value is loaded for `casCellValue`. -/
  | loopLoad
  | loopCas
  /-- `casCellValue` has failed: `m_cells != as`. -/
  | contended
  | doubleTest
  | doubleLock
  | doubleCheck
  | doubleNew
  | doubleCopy (i : ℕ)
  | doublePublish
  /-- `freeCells` sets the slots of the old array to null, and deletes it. -/
  | doubleClear (i : ℕ)
  | doubleDelete
  | doubleSize
  | doubleUnlock
  /-- There is no array: `!m_cellBusy`. -/
  | initTest
  | initRetest
  | initLock
  | initCheck
  | initNew
  | initSize
  | initStore
  | initPublish
  | initUnlock (init : Bool)
  | loopLoadBase
  | loopCasBase
  deriving DecidableEq

/-- A thread with the variables of `add` and `metaAccumulate`. -/
structure Thread where
  point : Point := .idle
  val : BitVec 64 := 0
  chosenIdx : BitVec 32 := -1
  wasUncontended : Bool := true
  extend : Bool := false
  /-- The address of the array. -/
  as : Option ℕ := none
  n : ℕ := 0
  /-- The cell. -/
  a : ℕ := 0
  v : BitVec 64 := 0
  /-- The address of the new array. -/
  rs : ℕ := 0
  deriving DecidableEq

/-- `m_cells` and the arrays. -/
structure Tables where
  /-- The address in `m_cells`. -/
  cells : Option ℕ := none
  nCells : ℕ := 0
  /-- The arrays that have not been deleted, by their addresses. -/
  arrays : ℕ → Option (List Slot) := fun _ => none
  /-- The number of cells that were made. They are numbered, and never deleted; other
  numbers are pointers that point to no cell. -/
  numCells : ℕ := 0

namespace Tables

/-- The slots of the array in `m_cells`. -/
def table (m : Tables) : List Slot := (m.cells.bind m.arrays).getD []

/-- Slot `i` of an array. Outside of it, and when it has been deleted, the slot is whatever
the memory holds. -/
def slot (m : Tables) (address i : ℕ) (memory : Slot) : Slot :=
  ((m.arrays address).getD []).getD i memory

/-- `new Cell<T>*[size]`, where the memory holds `contents`. -/
def newArray (m : Tables) (address size : ℕ) (contents : ℕ → Slot) : Tables :=
  { m with arrays := Function.update m.arrays address (some ((List.range size).map contents)) }

/-- A store to slot `i` of an array. -/
def setSlot (m : Tables) (address i : ℕ) (slot : Slot) : Tables :=
  { m with arrays := Function.update m.arrays address ((m.arrays address).map (·.set i slot)) }

/-- `delete[]`. -/
def deleteArray (m : Tables) (address : ℕ) : Tables :=
  { m with arrays := Function.update m.arrays address none }

variable {m : Tables} {address i p : ℕ} {l : List Slot} {slot memory : Slot}

theorem slot_eq (harray : m.arrays address = some l) (hslot : l[i]? = some slot) :
    m.slot address i memory = slot := by
  rw [Tables.slot, harray, Option.getD_some, List.getD_eq_getElem?_getD, hslot, Option.getD_some]

theorem arrays_newArray_self {size : ℕ} {contents : ℕ → Slot} :
    (m.newArray address size contents).arrays address = some ((List.range size).map contents) :=
  Function.update_self _ _ _

theorem arrays_newArray_of_ne (h : p ≠ address) {size : ℕ} {contents : ℕ → Slot} :
    (m.newArray address size contents).arrays p = m.arrays p :=
  Function.update_of_ne h _ _

theorem arrays_setSlot_self (h : m.arrays address = some l) :
    (m.setSlot address i slot).arrays address = some (l.set i slot) := by
  rw [setSlot, h]
  exact Function.update_self _ _ _

theorem arrays_setSlot_of_ne (h : p ≠ address) :
    (m.setSlot address i slot).arrays p = m.arrays p :=
  Function.update_of_ne h _ _

theorem arrays_deleteArray_of_ne (h : p ≠ address) :
    (m.deleteArray address).arrays p = m.arrays p :=
  Function.update_of_ne h _ _

end Tables

/-- `chosenIdx & n - 1`. -/
def slotOf (chosenIdx : BitVec 32) (n : ℕ) : ℕ := chosenIdx.toNat &&& (n - 1)

/-- The slot lies in the array. -/
theorem slotOf_lt {chosenIdx : BitVec 32} {n : ℕ} (hn : 0 < n) : slotOf chosenIdx n < n :=
  Nat.lt_of_le_of_lt Nat.and_le_right (Nat.sub_one_lt hn.ne')

/-- What a step depends on beside the state. -/
structure Oracle where
  /-- A weak compare-exchange of equal values succeeds. -/
  ok : Bool := true
  /-- What a slot holds that is not part of an array. -/
  memory : Slot := none
  /-- The address of a new array. -/
  address : ℕ := 0
  /-- What its memory holds. -/
  contents : ℕ → Slot := fun _ => none
  /-- The slot that `chooseCell` chooses. -/
  chosenIdx : BitVec 32 := 0

/-- A thread calls `add` with its `chosenIdx`, or it goes on. -/
inductive Action (T : Type)
  | call (t : T) (val : BitVec 64) (chosenIdx : BitVec 32)
  | work (t : T) (o : Oracle)

end LongAddr

open LongAddr in
/-- The adder and its threads. -/
structure LongAddr (T : Type) where
  base : BitVec 64 := 0
  /-- The thread that has set `m_cellBusy`. -/
  cellBusy : Option T := none
  tables : Tables := {}
  /-- The values of the cells, and of what other pointers point to. -/
  value : ℕ → BitVec 64
  thread : T → Thread := fun _ => {}
  /-- The values that were passed to `add`. -/
  passed : List (BitVec 64) := []

namespace LongAddr

variable {T : Type} [DecidableEq T]

/-- A thread goes on. -/
def goTo (s : LongAddr T) (t : T) (th : Thread) : LongAddr T :=
  { s with thread := Function.update s.thread t th }

/-- `casBase`. A weak compare-exchange may fail although the values are equal. -/
def casBase (s : LongAddr T) (desire expected : BitVec 64) (ok : Bool) : Bool × LongAddr T :=
  if ok ∧ s.base = expected then (true, { s with base := desire }) else (false, s)

/-- `casCellValue`. -/
def casCellValue (s : LongAddr T) (desire value : BitVec 64) (a : ℕ) (ok : Bool) :
    Bool × LongAddr T :=
  if ok ∧ s.value a = value then (true, { s with value := Function.update s.value a desire })
  else (false, s)

/-- `casCellBusy`, by the thread `t`. -/
def casCellBusy (s : LongAddr T) (t : T) (ok : Bool) : Bool × LongAddr T :=
  if ok ∧ s.cellBusy = none then (true, { s with cellBusy := some t }) else (false, s)

/-- `new Cell<T>(val)`, stored in a slot of an array. Before it is stored, the cell is known
to its thread only. -/
def storeCell (s : LongAddr T) (address i : ℕ) (val : BitVec 64) : LongAddr T :=
  { s with
    tables := { s.tables.setSlot address i (some s.tables.numCells) with
      numCells := s.tables.numCells + 1 }
    value := Function.update s.value s.tables.numCells val }

/-- The next step of a thread. -/
def work (ncpus : ℕ) (s : LongAddr T) (t : T) (o : Oracle) : Option (LongAddr T) :=
  let th := s.thread t
  match th.point with
  | .idle => none
  | .addTest =>
    some (s.goTo t { th with point := if s.tables.cells = none then .addLoadBase else .addRetest })
  | .addLoadBase => some (s.goTo t { th with v := s.base, point := .addCasBase })
  | .addCasBase =>
    let (done, s) := s.casBase (th.v + th.val) th.v o.ok
    some (s.goTo t { th with point := if done then .idle else .addRetest })
  | .addRetest =>
    some (s.goTo t { th with point := if s.tables.cells = none then .enter else .addSize })
  | .addSize =>
    -- `(m = nCells - 1) < 0`
    some (s.goTo t { th with
      n := s.tables.nCells, point := if s.tables.nCells = 0 then .enter else .addCells })
  | .addCells => some (s.goTo t { th with as := s.tables.cells, point := .addSlot })
  | .addSlot =>
    th.as.bind fun address =>
      some (s.goTo t (match s.tables.slot address (slotOf th.chosenIdx th.n) o.memory with
        | none => { th with point := .enter }
        | some a => { th with a := a, point := .addLoad }))
  | .addLoad => some (s.goTo t { th with v := s.value th.a, point := .addCas })
  | .addCas =>
    let (done, s) := s.casCellValue (th.v + th.val) th.v th.a o.ok
    some (s.goTo t (if done then { th with point := .idle }
      else { th with wasUncontended := false, point := .enter }))
  | .enter =>
    some (s.goTo t { th with
      chosenIdx := if s.tables.cells ≠ none ∧ th.chosenIdx = -1 then o.chosenIdx else th.chosenIdx
      extend := false, point := .loopCells })
  | .loopCells =>
    some (s.goTo t { th with
      as := s.tables.cells, point := if s.tables.cells = none then .initTest else .loopSize })
  | .loopSize =>
    some (s.goTo t { th with
      n := s.tables.nCells, point := if 0 < s.tables.nCells then .loopSlot else .initTest })
  | .loopSlot =>
    th.as.bind fun address =>
      some (s.goTo t (match s.tables.slot address (slotOf th.chosenIdx th.n) o.memory with
        | none => { th with point := .createTest }
        | some a =>
          if th.wasUncontended then { th with a := a, point := .loopLoad }
          else { th with wasUncontended := true, point := .loopCells }))
  | .createTest =>
    some (s.goTo t (if s.cellBusy = none then { th with point := .createRetest }
      else { th with extend := false, point := .loopCells }))
  | .createRetest =>
    some (s.goTo t (if s.cellBusy = none then { th with point := .createLock }
      else { th with extend := false, point := .loopCells }))
  | .createLock =>
    let (locked, s) := s.casCellBusy t o.ok
    some (s.goTo t (if locked then { th with point := .createCells }
      else { th with extend := false, point := .loopCells }))
  | .createCells =>
    some (s.goTo t { th with
      point := if s.tables.cells = none then .createUnlock false else .createSize })
  | .createSize =>
    some (s.goTo t { th with
      point := if 0 < s.tables.nCells then .createSlot s.tables.nCells else .createUnlock false })
  | .createSlot m =>
    s.tables.cells.bind fun address =>
      some (s.goTo t { th with
        point := if s.tables.slot address (slotOf th.chosenIdx m) o.memory = none
          then .createStore (slotOf th.chosenIdx m) else .createUnlock false })
  | .createStore j =>
    s.tables.cells.bind fun address =>
      some ((s.storeCell address j th.val).goTo t { th with point := .createUnlock true })
  | .createUnlock created =>
    some ({ s with cellBusy := none }.goTo t { th with
      point := if created then .idle else .loopCells })
  | .loopLoad => some (s.goTo t { th with v := s.value th.a, point := .loopCas })
  | .loopCas =>
    let (done, s) := s.casCellValue (th.v + th.val) th.v th.a o.ok
    some (s.goTo t (if done then { th with point := .idle }
      else if ncpus ≤ th.n then { th with extend := false, point := .loopCells }
      else { th with point := .contended }))
  | .contended =>
    some (s.goTo t (if s.tables.cells ≠ th.as then { th with extend := false, point := .loopCells }
      else if th.extend then { th with point := .doubleTest }
      else { th with extend := true, point := .loopCells }))
  | .doubleTest =>
    some (s.goTo t { th with point := if s.cellBusy = none then .doubleLock else .loopCells })
  | .doubleLock =>
    let (locked, s) := s.casCellBusy t o.ok
    some (s.goTo t { th with point := if locked then .doubleCheck else .loopCells })
  | .doubleCheck =>
    some (s.goTo t { th with
      point := if s.tables.cells = th.as then .doubleNew else .doubleUnlock })
  | .doubleNew =>
    if s.tables.arrays o.address = none then
      some ({ s with tables := s.tables.newArray o.address (2 * th.n) o.contents }.goTo t
        { th with rs := o.address, point := .doubleCopy 0 })
    else none
  | .doubleCopy i =>
    th.as.bind fun address =>
      if i < th.n then
        some ({ s with
          tables := s.tables.setSlot th.rs i (s.tables.slot address i o.memory) }.goTo t
            { th with point := .doubleCopy (i + 1) })
      else some (s.goTo t { th with point := .doublePublish })
  | .doublePublish =>
    -- `toDel` is `as`, which was found to be `m_cells`
    some ({ s with tables := { s.tables with cells := some th.rs } }.goTo t
      { th with point := .doubleClear 0 })
  | .doubleClear i =>
    th.as.bind fun toDel =>
      if i < th.n then
        some ({ s with tables := s.tables.setSlot toDel i none }.goTo t
          { th with point := .doubleClear (i + 1) })
      else some (s.goTo t { th with point := .doubleDelete })
  | .doubleDelete =>
    th.as.bind fun toDel =>
      some ({ s with tables := s.tables.deleteArray toDel }.goTo t { th with point := .doubleSize })
  | .doubleSize =>
    some ({ s with tables := { s.tables with nCells := 2 * th.n } }.goTo t
      { th with point := .doubleUnlock })
  | .doubleUnlock =>
    some ({ s with cellBusy := none }.goTo t { th with extend := false, point := .loopCells })
  | .initTest =>
    some (s.goTo t { th with point := if s.cellBusy = none then .initRetest else .loopLoadBase })
  | .initRetest =>
    some (s.goTo t { th with
      point := if s.tables.cells = th.as then .initLock else .loopLoadBase })
  | .initLock =>
    let (locked, s) := s.casCellBusy t o.ok
    some (s.goTo t { th with point := if locked then .initCheck else .loopLoadBase })
  | .initCheck =>
    some (s.goTo t { th with
      point := if s.tables.cells = th.as then .initNew else .initUnlock false })
  | .initNew =>
    if s.tables.arrays o.address = none then
      some ({ s with tables := s.tables.newArray o.address 2 o.contents }.goTo t
        { th with rs := o.address, point := .initSize })
    else none
  | .initSize =>
    some ({ s with tables := { s.tables with nCells := 2 } }.goTo t { th with point := .initStore })
  | .initStore =>
    let chosenIdx := BitVec.ofNat 32 (slotOf th.chosenIdx 2)
    some ((s.storeCell th.rs (slotOf th.chosenIdx 2) th.val).goTo t
      { th with chosenIdx := chosenIdx, point := .initPublish })
  | .initPublish =>
    some ({ s with tables := { s.tables with cells := some th.rs } }.goTo t
      { th with point := .initUnlock true })
  | .initUnlock init =>
    some ({ s with cellBusy := none }.goTo t { th with
      point := if init then .idle else .loopCells })
  | .loopLoadBase => some (s.goTo t { th with v := s.base, point := .loopCasBase })
  | .loopCasBase =>
    let (done, s) := s.casBase (th.v + th.val) th.v o.ok
    some (s.goTo t { th with point := if done then .idle else .loopCells })

/-- One step, with `NCPUS` rounded up to a power of two. -/
def next (ncpus : ℕ) (s : LongAddr T) : Action T → Option (LongAddr T)
  | .call t val chosenIdx =>
    if (s.thread t).point = .idle then
      some ({ s with passed := val :: s.passed }.goTo t
        { point := .addTest, val := val, chosenIdx := chosenIdx })
    else none
  | .work t o => s.work ncpus t o

/-- The machine of threads that add to one `LongAddr`. -/
def machine (ncpus : ℕ) : Machine (LongAddr T) (Action T) :=
  Machine.ofNext (fun s => ∃ memory, s = { value := memory }) (next ncpus)

/-- `sum`, when no thread is at work. -/
def sum (s : LongAddr T) : BitVec 64 :=
  s.base + (((s.tables.table.take s.tables.nCells).reduceOption).map s.value).sum

/-- No addition is in progress. -/
def Quiescent (s : LongAddr T) : Prop := ∀ t, (s.thread t).point = .idle

/-- When no addition is in progress, `sum` is the sum of the values passed to `add`. -/
def Exact (s : LongAddr T) : Prop := s.Quiescent → s.sum = s.passed.sum

end LongAddr

end DuoDuo.Buffer
