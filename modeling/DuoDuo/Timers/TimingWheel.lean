import DuoDuo.Library.Machine
import Mathlib.Logic.Function.Basic
import Mathlib.Tactic

/-!
# The hierarchical timing wheel

`Timer`, `TimingWheel`, `TimerTaskList` and `DelayQueue`, for one ticker thread.
Entries live on a heap, and a deleted entry may still be linked. The list that
hangs on a root entry is a Lean list, and a bucket refers to its root by name, so
that copies of a bucket share what the copied pointer points to. Operations that
do not return, and accesses to deleted entries, are errors.
-/

namespace DuoDuo.Timers

open Library

/-- A `time_entry<>`, as its total number of microseconds. -/
abbrev TimeEntry := ℤ

/-- The entry `{-1L, -1L}`. -/
def TimeEntry.unset : TimeEntry := -1000001

/-- `operator-`, which does not return negative differences. -/
def TimeEntry.sub (l r : TimeEntry) : TimeEntry := if l - r < 0 then unset else l - r

/-- `operator%`. -/
def TimeEntry.mod (l r : TimeEntry) : TimeEntry := l.tmod r

/-- `operator/`. -/
def TimeEntry.div (l r : TimeEntry) : ℤ := l.tdiv r

/-- Rounding a time down to a multiple of a tick. -/
theorem TimeEntry.sub_mod {x tick : TimeEntry} (hx : 0 ≤ x) (htick : 0 < tick) :
    sub x (mod x tick) = tick * (x / tick) := by
  have hmod : mod x tick = x % tick := Int.tmod_eq_emod_of_nonneg hx
  have hdiv : tick * (x / tick) + x % tick = x := Int.mul_ediv_add_emod x tick
  have hnonneg : 0 ≤ tick * (x / tick) := mul_nonneg htick.le (Int.ediv_nonneg hx htick.le)
  rw [sub, hmod, if_neg (by linarith)]
  linarith

/-- A `TimerTaskEntry` on the heap. `addByDelay` and `addByExpiration` create a task
and its entry together, so the task has the entry's name. -/
abbrev EntryId := ℕ

/-- The position of a bucket: the level of its wheel, and its index in `m_buckets`. -/
structure BucketId where
  level : ℕ
  index : ℕ
  deriving DecidableEq, Repr

/-- `TimerTaskEntry`, without the links to its neighbours. -/
structure TimerTaskEntry where
  /-- `m_expiration`. -/
  expiration : TimeEntry
  /-- `list`. -/
  list : Option BucketId := none
  /-- `m_timerTaskEntry` of the task. -/
  taskEntry : EntryId

/-- `TimerTaskEntry::cancelled`, for the entry named `id`. -/
def TimerTaskEntry.cancelled (e : TimerTaskEntry) (id : EntryId) : Bool := e.taskEntry ≠ id

/-- `TimerTaskList`. -/
structure TimerTaskList where
  /-- The root entry that the shared pointer `root` points to. -/
  root : ℕ
  /-- `m_expiration`. -/
  expiration : TimeEntry := .unset

/-- The copy constructor of `TimerTaskList`, which copies the shared pointers. -/
def TimerTaskList.copy (l : TimerTaskList) : TimerTaskList :=
  { root := l.root, expiration := l.expiration }

/-- `TimingWheel`. Its overflow wheel is the next one in the list of wheels. -/
structure TimingWheel where
  /-- `m_tickMs`. -/
  tickMs : TimeEntry
  /-- `m_wheelSize`. -/
  wheelSize : ℕ
  /-- `m_interval`. -/
  interval : TimeEntry
  /-- `m_currentTime`. -/
  currentTime : TimeEntry
  /-- `m_buckets`. -/
  buckets : List TimerTaskList

/-- The constructor of `TimingWheel`: `resize` fills the vector with copies of one
list, whose root entry is named `root`. -/
def TimingWheel.new (tickMs : TimeEntry) (wheelSize : ℕ) (startMs : TimeEntry) (root : ℕ) :
    TimingWheel where
  tickMs := tickMs
  wheelSize := wheelSize
  interval := tickMs * wheelSize
  currentTime := .sub startMs (.mod startMs tickMs)
  buckets := List.replicate wheelSize (TimerTaskList.copy { root })

/-- `delay_queue_entry`. -/
structure DelayQueueEntry where
  /-- `dqe_expiration`. -/
  expiration : TimeEntry
  /-- `appendix`. -/
  bucket : BucketId
  deriving DecidableEq

/-- One call of `poll`: the time of day, and which of several elements with the least
expiration is on top of the heap. -/
structure Reading where
  now : TimeEntry
  choice : ℕ := 0

/-- The state of a `Timer` and of everything that it owns. -/
structure Timer where
  /-- The first wheel and its overflow wheels. -/
  wheels : List TimingWheel
  /-- The entries linked behind each root entry, in order. -/
  rings : ℕ → List EntryId := fun _ => []
  /-- The entries that have not been deleted. -/
  entries : EntryId → Option TimerTaskEntry := fun _ => none
  /-- `m_delayQueue`. -/
  delayQueue : List DelayQueueEntry := []
  /-- The tasks whose functions have been handed to `m_threadPool`, in order. -/
  threadPool : List EntryId := []
  /-- The number of entries created so far, which names the next one. -/
  created : ℕ := 0
  /-- How often the end of the overflow branch of `TimingWheel::add` has been reached. -/
  overflows : ℕ := 0

/-- Why an operation has not returned. -/
inductive Stuck
  /-- It needs more steps, or another reading of the clock. -/
  | running
  /-- It has accessed a deleted entry. -/
  | useAfterFree
  /-- `m_buckets.at` has thrown `std::out_of_range`. -/
  | outOfRange
  deriving DecidableEq

namespace Timer

/-- The bucket at a position. -/
def bucket (t : Timer) (b : BucketId) : Option TimerTaskList :=
  (t.wheels[b.level]?).bind (·.buckets[b.index]?)

/-- Replace the wheel at a level. -/
def setWheel (t : Timer) (level : ℕ) (w : TimingWheel) : Timer :=
  { t with wheels := t.wheels.set level w }

/-- Replace an entry on the heap. -/
def setEntry (t : Timer) (id : EntryId) (e : Option TimerTaskEntry) : Timer :=
  { t with entries := Function.update t.entries id e }

/-- Replace the list behind a root entry. -/
def setRing (t : Timer) (root : ℕ) (ids : List EntryId) : Timer :=
  { t with rings := Function.update t.rings root ids }

/-- Access an entry. -/
def entry (t : Timer) (id : EntryId) : Except Stuck TimerTaskEntry :=
  match t.entries id with
  | some e => .ok e
  | none => .error .useAfterFree

/-- Access a bucket. -/
def bucketAt (t : Timer) (b : BucketId) : Except Stuck TimerTaskList :=
  match t.bucket b with
  | some l => .ok l
  | none => .error .outOfRange

/-- The entries next to a linked one, whose links change when it is unlinked. -/
def neighbours (ids : List EntryId) (id : EntryId) : List EntryId :=
  let i := ids.idxOf id
  (if i = 0 then [] else (ids[i - 1]?).toList) ++ (ids[i + 1]?).toList

/-- `TimerTaskList::remove`, on the list of bucket `b`. -/
def removeFrom (t : Timer) (b : BucketId) (id : EntryId) : Except Stuck Timer := do
  let e ← t.entry id
  if e.list = some b then
    let l ← t.bucketAt b
    let ids := t.rings l.root
    if (neighbours ids id).all fun n => (t.entries n).isSome then
      return (t.setRing l.root (ids.erase id)).setEntry id (some { e with list := none })
    else
      throw .useAfterFree
  else
    return t

/-- `TimerTaskEntry::remove`. Its loop ends after one iteration, since `removeFrom`
clears the pointer. -/
def removeEntry (t : Timer) (id : EntryId) : Except Stuck Timer := do
  let e ← t.entry id
  match e.list with
  | some b => t.removeFrom b id
  | none => return t

/-- `TimerTaskList::add`, on the list of bucket `b`. -/
def link (t : Timer) (b : BucketId) (id : EntryId) : Except Stuck Timer := do
  let t ← t.removeEntry id
  let e ← t.entry id
  let l ← t.bucketAt b
  let ids := t.rings l.root
  if ids.getLast?.all fun tail => (t.entries tail).isSome then
    return (t.setRing l.root (ids ++ [id])).setEntry id (some { e with list := some b })
  else
    throw .useAfterFree

/-- `TimerTaskList::setExpiration`, returning whether the expiration has changed. -/
def setExpiration (t : Timer) (b : BucketId) (expiration : TimeEntry) : Timer × Bool :=
  match t.wheels[b.level]?, t.bucket b with
  | some w, some l =>
    (t.setWheel b.level { w with buckets := w.buckets.set b.index { l with expiration } },
      expiration ≠ l.expiration)
  | _, _ => (t, false)

/-- `DelayQueue::offer`. -/
def offer (t : Timer) (b : BucketId) (expiration : TimeEntry) : Timer :=
  { t with delayQueue := { expiration, bucket := b } :: t.delayQueue }

/-- `TimingWheel::addOverflowWheel`, on the last wheel. -/
def addOverflowWheel (t : Timer) (w : TimingWheel) : Timer :=
  { t with
    wheels := t.wheels ++ [.new w.interval w.wheelSize w.currentTime t.wheels.length] }

/-- `TimingWheel::add`, on the wheel at `level`. The overflow branch has no return
statement, so its result is whatever `undef` yields. -/
def addToWheel (undef : ℕ → Bool) : ℕ → ℕ → EntryId → Timer → Except Stuck (Timer × Bool)
  | 0, _, _, _ => .error .running
  | fuel + 1, level, id, t => do
    let e ← t.entry id
    match t.wheels[level]? with
    | none => throw .running
    | some w =>
      if e.cancelled id then
        return (t, false)
      else if e.expiration < w.currentTime + w.tickMs then
        return (t, false)
      else if e.expiration < w.currentTime + w.interval then
        let virtualId := TimeEntry.div e.expiration w.tickMs
        let index := virtualId.tmod w.wheelSize
        if index < 0 then throw .outOfRange
        let b : BucketId := ⟨level, index.toNat⟩
        let t ← t.link b id
        let (t, changed) := t.setExpiration b (w.tickMs * virtualId)
        return (if changed then t.offer b e.expiration else t, true)
      else
        let t := if t.wheels.length = level + 1 then t.addOverflowWheel w else t
        let (t, _) ← addToWheel undef fuel (level + 1) id t
        return ({ t with overflows := t.overflows + 1 }, undef t.overflows)

/-- `Timer::addTimerTaskEntry`. -/
def addTimerTaskEntry (undef : ℕ → Bool) (fuel : ℕ) (id : EntryId) (t : Timer) :
    Except Stuck Timer := do
  let (t, added) ← addToWheel undef fuel 0 id t
  if added then
    return t
  else
    let e ← t.entry id
    if e.cancelled id then
      return t
    else
      return { t with threadPool := t.threadPool ++ [id] }.setEntry id none

/-- `Timer::add`, with a new task and a new entry for it. -/
def add (undef : ℕ → Bool) (fuel : ℕ) (expiration : TimeEntry) (t : Timer) : Except Stuck Timer :=
  let id := t.created
  addTimerTaskEntry undef fuel id
    ({ t with created := t.created + 1 }.setEntry id (some { expiration, taskEntry := id }))

/-- The loop of `TimerTaskList::flush`, on the list of bucket `b`. -/
def flushLoop (undef : ℕ → Bool) : ℕ → BucketId → Timer → Except Stuck Timer
  | 0, _, _ => .error .running
  | fuel + 1, b, t => do
    let l ← t.bucketAt b
    match t.rings l.root with
    | [] => return t
    | head :: _ =>
      let t ← t.removeFrom b head
      let t ← addTimerTaskEntry undef fuel head t
      flushLoop undef fuel b t

/-- `TimerTaskList::flush`. -/
def flush (undef : ℕ → Bool) (fuel : ℕ) (b : BucketId) (t : Timer) : Except Stuck Timer := do
  let t ← flushLoop undef fuel b t
  return (t.setExpiration b .unset).1

/-- `TimingWheel::advanceClock`, on a wheel and its overflow wheels. -/
def advanceWheels (timeMs : TimeEntry) : List TimingWheel → List TimingWheel
  | [] => []
  | w :: overflow =>
    if timeMs ≥ w.currentTime + w.tickMs then
      let currentTime := TimeEntry.sub timeMs (.mod timeMs w.tickMs)
      { w with currentTime } :: advanceWheels currentTime overflow
    else w :: overflow

/-- The elements with the least expiration. -/
def leastElements (q : List DelayQueueEntry) : List DelayQueueEntry :=
  q.filter fun e => q.all fun e' => e.expiration ≤ e'.expiration

/-- `DelayQueue::poll`. -/
def poll (t : Timer) (r : Reading) : Option (BucketId × Timer) :=
  let least := leastElements t.delayQueue
  match least[r.choice % least.length]? with
  | none => none
  | some first =>
    if TimeEntry.sub first.expiration r.now > 0 then none
    else some (first.bucket, { t with delayQueue := t.delayQueue.erase first })

/-- `Timer::advanceClock`, with one reading of the clock for each call of `poll`. -/
def advanceClock (undef : ℕ → Bool) (fuel : ℕ) : List Reading → Timer → Except Stuck Timer
  | [], _ => .error .running
  | r :: readings, t =>
    match t.poll r with
    | none => return t
    | some (b, t) => do
      let l ← t.bucketAt b
      let t ← flush undef fuel b { t with wheels := advanceWheels l.expiration t.wheels }
      advanceClock undef fuel readings t

/-- The constructor of `Timer`. -/
def new (tickMs : TimeEntry) (wheelSize : ℕ) (startMs : TimeEntry) : Timer where
  wheels := [.new tickMs wheelSize startMs 0]

/-- Access to an entry that exists. -/
theorem entry_eq {t : Timer} {id : EntryId} {e : TimerTaskEntry} (h : t.entries id = some e) :
    t.entry id = .ok e := by
  rw [entry, h]

/-- A task that is due is not filed. -/
theorem addToWheel_due {undef : ℕ → Bool} {fuel level : ℕ} {id : EntryId} {t : Timer}
    {e : TimerTaskEntry} {w : TimingWheel} (hentry : t.entries id = some e)
    (hwheel : t.wheels[level]? = some w) (hdue : e.expiration < w.currentTime + w.tickMs) :
    addToWheel undef (fuel + 1) level id t = .ok (t, false) := by
  rw [addToWheel, entry_eq hentry]
  simp only [bind, Except.bind, hwheel, if_pos hdue, ite_self]
  rfl

/-- The state in which `add` begins to file a new task. -/
def withEntry (t : Timer) (expiration : TimeEntry) : Timer :=
  { t with created := t.created + 1 }.setEntry t.created
    (some { expiration, taskEntry := t.created })

@[simp] theorem withEntry_wheels (t : Timer) (x : TimeEntry) :
    (t.withEntry x).wheels = t.wheels := rfl

@[simp] theorem withEntry_rings (t : Timer) (x : TimeEntry) : (t.withEntry x).rings = t.rings := rfl

/-- The new entry is on the heap. -/
theorem withEntry_entries (t : Timer) (x : TimeEntry) :
    (t.withEntry x).entries t.created = some { expiration := x, taskEntry := t.created } := by
  simp [withEntry, setEntry]

/-- `add` files the new entry. -/
theorem add_eq (undef : ℕ → Bool) (fuel : ℕ) (x : TimeEntry) (t : Timer) :
    t.add undef fuel x = addTimerTaskEntry undef fuel t.created (t.withEntry x) := rfl

/-- Setting an expiration touches the wheels only. -/
theorem setExpiration_rings (t : Timer) (b : BucketId) (x : TimeEntry) :
    (t.setExpiration b x).1.rings = t.rings := by
  rw [setExpiration]
  split <;> rfl

theorem setExpiration_created (t : Timer) (b : BucketId) (x : TimeEntry) :
    (t.setExpiration b x).1.created = t.created := by
  rw [setExpiration]
  split <;> rfl

/-- Setting an expiration leaves the entries and the tasks handed over alone. -/
theorem setExpiration_entries (t : Timer) (b : BucketId) (x : TimeEntry) :
    (t.setExpiration b x).1.entries = t.entries ∧
      (t.setExpiration b x).1.threadPool = t.threadPool := by
  rw [setExpiration]
  split <;> exact ⟨rfl, rfl⟩

end Timer

/-- The operations of a timer. -/
inductive TimerOp
  | add (expiration : TimeEntry)
  | advanceClock (readings : List Reading)

namespace Timer

/-- An operation, run for a number of steps. -/
def perform (undef : ℕ → Bool) (fuel : ℕ) (t : Timer) : TimerOp → Except Stuck Timer
  | .add expiration => t.add undef fuel expiration
  | .advanceClock readings => t.advanceClock undef fuel readings

/-- The machine of a timer, whose steps are the operations that return. -/
def machine (undef : ℕ → Bool) : Machine Timer TimerOp where
  init t := ∃ tickMs wheelSize startMs,
    0 < tickMs ∧ 0 < wheelSize ∧ 0 ≤ startMs ∧ t = Timer.new tickMs wheelSize startMs
  step t op t' := ∃ fuel, t.perform undef fuel op = .ok t'

end Timer

end DuoDuo.Timers
