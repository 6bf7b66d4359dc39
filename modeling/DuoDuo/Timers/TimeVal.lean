import DuoDuo.Timers.TimingWheel

/-!
# Times in seconds and microseconds

`time_entry<>` as a pair of seconds and microseconds, with the operators that
`TimingWheel` uses. They depend on the total number of microseconds alone, and compute
what the operations on total numbers compute.
-/

namespace DuoDuo.Timers

/-- A `timeval`. -/
structure TimeVal where
  /-- `tv_sec`. -/
  sec : ℤ
  /-- `tv_usec`. -/
  usec : ℤ
  deriving DecidableEq

namespace TimeVal

/-- The number of microseconds that the operators compute first. -/
def total (x : TimeVal) : TimeEntry := x.sec * 1000000 + x.usec

/-- The pair that the operators make of a number of microseconds. -/
def ofTotal (sum : ℤ) : TimeVal := ⟨sum.tdiv 1000000, sum.tmod 1000000⟩

/-- The total of the pair is the number that it was made of. -/
@[simp] theorem total_ofTotal (sum : ℤ) : (ofTotal sum).total = sum := Int.tdiv_mul_add_tmod _ _

/-- `operator-`. -/
def sub (lval rval : TimeVal) : TimeVal :=
  let sum := lval.sec * 1000000 + lval.usec - rval.sec * 1000000 - rval.usec
  if sum < 0 then ⟨-1, -1⟩ else ofTotal sum

/-- `operator+`. -/
def add (lval rval : TimeVal) : TimeVal :=
  ofTotal (lval.sec * 1000000 + lval.usec + rval.sec * 1000000 + rval.usec)

/-- `operator%`. -/
def mod (lval rval : TimeVal) : TimeVal := ofTotal (lval.total.tmod rval.total)

/-- `operator*`. -/
def mul (lval : TimeVal) (rval : ℤ) : TimeVal := ofTotal (lval.total * rval)

/-- `operator/`. -/
def div (lval rval : TimeVal) : ℤ := lval.total.tdiv rval.total

/-- `operator<`. -/
def lt (lval rval : TimeVal) : Bool := lval.total < rval.total

/-- `operator>=`. -/
def ge (lval rval : TimeVal) : Bool := lval.total ≥ rval.total

@[simp] theorem total_sub (lval rval : TimeVal) :
    (lval.sub rval).total = TimeEntry.sub lval.total rval.total := by
  have hsum : lval.sec * 1000000 + lval.usec - rval.sec * 1000000 - rval.usec =
      lval.total - rval.total := by
    rw [total, total]
    ring
  rw [sub, TimeEntry.sub]
  rw [hsum]
  split_ifs
  · rfl
  · exact total_ofTotal _

@[simp] theorem total_add (lval rval : TimeVal) :
    (lval.add rval).total = lval.total + rval.total := by
  rw [add, total_ofTotal, total, total]
  ring

@[simp] theorem total_mod (lval rval : TimeVal) :
    (lval.mod rval).total = TimeEntry.mod lval.total rval.total := total_ofTotal _

@[simp] theorem total_mul (lval : TimeVal) (rval : ℤ) :
    (lval.mul rval).total = lval.total * rval := total_ofTotal _

@[simp] theorem lt_iff (lval rval : TimeVal) : lval.lt rval = true ↔ lval.total < rval.total :=
  decide_eq_true_iff

@[simp] theorem ge_iff (lval rval : TimeVal) : lval.ge rval = true ↔ rval.total ≤ lval.total :=
  decide_eq_true_iff

end TimeVal

end DuoDuo.Timers
