import DuoDuo.Timers.Flush

/-!
# How many wheels an insertion takes

`TimingWheel::add` as the code computes it, with times in 64-bit microseconds. It calls
itself on the wheel above, until the expiration is within the range of a wheel. The ranges
grow by the factor of the wheel size, so that a wheel that is large enough is reached, but
not if the wheels have a single bucket each, and not if a range ends beyond the last
representable time.
-/

namespace DuoDuo.Timers

open Library

/-- Why an insertion has not returned. -/
inductive Fault
  | stuck (reason : Stuck)
  /-- A `long` has overflowed. -/
  | overflow
  deriving DecidableEq

/-- The result of an operation on `long`. -/
def long (x : ℤ) : Except Fault ℤ :=
  if -2 ^ 63 ≤ x ∧ x < 2 ^ 63 then .ok x else .error .overflow

theorem long_of_lt {x : ℤ} (hx : 0 ≤ x) (hlt : x < 2 ^ 63) : long x = .ok x :=
  if_pos ⟨by omega, hlt⟩

theorem long_ok {x y : ℤ} (h : long x = .ok y) : y = x ∧ x < 2 ^ 63 := by
  rw [long] at h
  split at h
  · next hrange => exact ⟨(Except.ok.inj h).symm, hrange.2⟩
  · cases h

/-- `operator-`, in `long`. -/
def TimeEntry.subLong (l r : TimeEntry) : Except Fault TimeEntry := do
  let sum ← long (l - r)
  return if sum < 0 then unset else sum

theorem TimeEntry.subLong_ok {l r x : TimeEntry} (h : subLong l r = .ok x) : x = sub l r := by
  rw [subLong] at h
  cases hsum : long (l - r) with
  | error fault => rw [hsum] at h; cases h
  | ok sum =>
    rw [hsum] at h
    rw [(long_ok hsum).1] at h
    exact (Except.ok.inj h).symm

/-- The constructor of `TimingWheel`, in `long`. -/
def TimingWheel.newLong (tickMs : TimeEntry) (wheelSize : ℕ) (startMs : TimeEntry) (root : ℕ) :
    Except Fault TimingWheel := do
  let interval ← long (tickMs * wheelSize)
  let currentTime ← TimeEntry.subLong startMs (.mod startMs tickMs)
  return {
    tickMs, wheelSize, interval, currentTime
    buckets := List.replicate wheelSize (TimerTaskList.copy { root }) }

/-- The wheel is the one with exact times. -/
theorem TimingWheel.newLong_ok {tickMs startMs : TimeEntry} {wheelSize root : ℕ} {w : TimingWheel}
    (h : newLong tickMs wheelSize startMs root = .ok w) :
    w = new tickMs wheelSize startMs root := by
  rw [newLong] at h
  cases hinterval : long (tickMs * wheelSize) with
  | error fault => rw [hinterval] at h; cases h
  | ok interval =>
    cases hcurrent : TimeEntry.subLong startMs (.mod startMs tickMs) with
    | error fault => rw [hinterval, hcurrent] at h; cases h
    | ok currentTime =>
      rw [hinterval, hcurrent] at h
      obtain rfl := (long_ok hinterval).1
      obtain rfl := TimeEntry.subLong_ok hcurrent
      exact (Except.ok.inj h).symm

/-- The constructor computes exactly if the interval and the starting time are
representable. -/
theorem TimingWheel.newLong_of_lt {tickMs startMs : TimeEntry} {wheelSize : ℕ}
    (htick : 0 < tickMs) (hstart : 0 ≤ startMs) (hinterval : tickMs * wheelSize < 2 ^ 63)
    (hlt : startMs < 2 ^ 63) (root : ℕ) :
    newLong tickMs wheelSize startMs root = .ok (new tickMs wheelSize startMs root) := by
  have hround : TimeEntry.subLong startMs (.mod startMs tickMs) =
      .ok (TimeEntry.sub startMs (.mod startMs tickMs)) := by
    have hmod : TimeEntry.mod startMs tickMs = startMs % tickMs :=
      Int.tmod_eq_emod_of_nonneg hstart
    have hdiv := Int.mul_ediv_add_emod startMs tickMs
    have hle := mul_nonneg htick.le (Int.ediv_nonneg hstart htick.le)
    have hnonneg := Int.emod_nonneg startMs htick.ne'
    rw [TimeEntry.subLong, hmod, long_of_lt (by linarith) (by linarith)]
    rfl
  have hinterval' := long_of_lt (mul_nonneg htick.le (Int.natCast_nonneg wheelSize)) hinterval
  rw [newLong, hinterval', hround]
  rfl

namespace Timer

/-- An operation that does not compute with times. -/
def reach {α : Type} : Except Stuck α → Except Fault α
  | .ok a => .ok a
  | .error reason => .error (.stuck reason)

/-- `TimingWheel::addOverflowWheel`, on the last wheel. -/
def addOverflowWheelLong (t : Timer) (w : TimingWheel) : Except Fault Timer := do
  let overflow ← TimingWheel.newLong w.interval w.wheelSize w.currentTime t.wheels.length
  return { t with wheels := t.wheels ++ [overflow] }

/-- The overflow wheel is the one with exact times. -/
theorem addOverflowWheelLong_ok {t t' : Timer} {w : TimingWheel}
    (h : t.addOverflowWheelLong w = .ok t') : t' = t.addOverflowWheel w := by
  rw [addOverflowWheelLong] at h
  cases hnew : TimingWheel.newLong w.interval w.wheelSize w.currentTime t.wheels.length with
  | error fault => rw [hnew] at h; cases h
  | ok overflow =>
    rw [hnew] at h
    obtain rfl := TimingWheel.newLong_ok hnew
    exact (Except.ok.inj h).symm

/-- `TimingWheel::add`, on the wheel at `level`, with times in `long`. -/
def addToWheelLong (undef : ℕ → Bool) : ℕ → ℕ → EntryId → Timer → Except Fault (Timer × Bool)
  | 0, _, _, _ => .error (.stuck .running)
  | fuel + 1, level, id, t => do
    let e ← reach (t.entry id)
    match t.wheels[level]? with
    | none => throw (.stuck .running)
    | some w =>
      if e.cancelled id then
        return (t, false)
      else
        let tickEnd ← long (w.currentTime + w.tickMs)
        if e.expiration < tickEnd then
          return (t, false)
        else
          let turnEnd ← long (w.currentTime + w.interval)
          if e.expiration < turnEnd then
            let virtualId := TimeEntry.div e.expiration w.tickMs
            let index := virtualId.tmod w.wheelSize
            if index < 0 then throw (.stuck .outOfRange)
            let b : BucketId := ⟨level, index.toNat⟩
            let t ← reach (t.link b id)
            let slot ← long (w.tickMs * virtualId)
            let (t, changed) := t.setExpiration b slot
            return (if changed then t.offer b e.expiration else t, true)
          else
            let t ← (if t.wheels.length = level + 1 then t.addOverflowWheelLong w else pure t)
            let (t, _) ← addToWheelLong undef fuel (level + 1) id t
            return ({ t with overflows := t.overflows + 1 }, undef t.overflows)

variable {undef : ℕ → Bool} {fuel level : ℕ} {id : EntryId} {t : Timer} {e : TimerTaskEntry}
  {w : TimingWheel} {p : Timer × Bool}

/-- What a call of `add` that returns has done: the times that it has compared the expiration
with are representable, and the values are those of exact times. -/
theorem addToWheelLong_cases (hentry : t.entries id = some e) (hcancelled : e.cancelled id = false)
    (hw : t.wheels[level]? = some w) (h : addToWheelLong undef (fuel + 1) level id t = .ok p) :
    w.currentTime + w.tickMs < 2 ^ 63 ∧
      ((e.expiration < w.currentTime + w.tickMs ∧ p = (t, false)) ∨
        (w.currentTime + w.tickMs ≤ e.expiration ∧ w.currentTime + w.interval < 2 ^ 63 ∧
          ((e.expiration < w.currentTime + w.interval ∧
              addToWheel undef (fuel + 1) level id t = .ok p) ∨
            (w.currentTime + w.interval ≤ e.expiration ∧ ∃ p',
              addToWheelLong undef fuel (level + 1) id
                (if t.wheels.length = level + 1 then t.addOverflowWheel w else t) = .ok p' ∧
              p = ({ p'.1 with overflows := p'.1.overflows + 1 }, undef p'.1.overflows))))) := by
  rw [addToWheelLong, entry_eq hentry] at h
  simp only [reach, bind, Except.bind, hw, hcancelled, Bool.false_eq_true, if_false] at h
  cases htick : long (w.currentTime + w.tickMs) with
  | error fault => rw [htick] at h; cases h
  | ok tickEnd =>
    obtain ⟨rfl, hlt⟩ := long_ok htick
    refine ⟨hlt, ?_⟩
    rw [htick] at h
    dsimp only at h
    by_cases hdue : e.expiration < w.currentTime + w.tickMs
    · rw [if_pos hdue] at h
      exact .inl ⟨hdue, (Except.ok.inj h).symm⟩
    rw [if_neg hdue] at h
    cases hturn : long (w.currentTime + w.interval) with
    | error fault => rw [hturn] at h; cases h
    | ok turnEnd =>
      obtain ⟨rfl, hlt'⟩ := long_ok hturn
      refine .inr ⟨not_lt.mp hdue, hlt', ?_⟩
      rw [hturn] at h
      dsimp only at h
      by_cases hfits : e.expiration < w.currentTime + w.interval
      · left
        refine ⟨hfits, ?_⟩
        rw [if_pos hfits] at h
        rw [addToWheel, entry_eq hentry]
        simp only [bind, Except.bind, hw, hcancelled, Bool.false_eq_true, if_false, if_neg hdue,
          if_pos hfits]
        split at h
        · cases h
        · next hindex =>
          rw [if_neg hindex]
          cases hlink : t.link
              ⟨level, ((TimeEntry.div e.expiration w.tickMs).tmod w.wheelSize).toNat⟩ id with
          | error reason => rw [hlink] at h; cases h
          | ok t₁ =>
            rw [hlink] at h
            dsimp only at h ⊢
            cases hslot : long (w.tickMs * TimeEntry.div e.expiration w.tickMs) with
            | error fault => rw [hslot] at h; cases h
            | ok slot =>
              obtain ⟨rfl, -⟩ := long_ok hslot
              rw [hslot] at h
              rw [← Except.ok.inj h]
              rfl
      · right
        refine ⟨not_lt.mp hfits, ?_⟩
        rw [if_neg hfits] at h
        -- the overflow wheel that is created is the one with exact times
        obtain ⟨t₁, rfl, hover⟩ : ∃ t₁,
            t₁ = (if t.wheels.length = level + 1 then t.addOverflowWheel w else t) ∧
            (addToWheelLong undef fuel (level + 1) id t₁ >>= fun p' =>
              pure ({ p'.1 with overflows := p'.1.overflows + 1 }, undef p'.1.overflows)) =
                .ok p := by
          by_cases hlast : t.wheels.length = level + 1
          · rw [if_pos hlast] at h ⊢
            cases hgrow : t.addOverflowWheelLong w with
            | error fault => rw [hgrow] at h; cases h
            | ok t₁ =>
              rw [hgrow] at h
              exact ⟨t₁, addOverflowWheelLong_ok hgrow, h⟩
          · rw [if_neg hlast] at h ⊢
            exact ⟨t, rfl, h⟩
        cases hcall : addToWheelLong undef fuel (level + 1) id
            (if t.wheels.length = level + 1 then t.addOverflowWheel w else t) with
        | error fault => rw [hcall] at hover; cases hover
        | ok p' =>
          rw [hcall] at hover
          exact ⟨p', rfl, (Except.ok.inj hover).symm⟩

end Timer

/-- The end of a turn of the wheel at a level, by the tick, the size and the time of the
first wheel. -/
def turnEnd (first : TimingWheel) (level : ℕ) : TimeEntry :=
  roundDown (first.tickMs * first.wheelSize ^ level) first.currentTime +
    first.tickMs * first.wheelSize ^ (level + 1)

/-- The wheels are as the first one determines. -/
theorem scaled {ws : List TimingWheel} {first w : TimingWheel} {level : ℕ} (hgeared : Geared ws)
    (hfitted : Fitted ws) (hfirst : ws[0]? = some first) (hw : ws[level]? = some w) :
    w.tickMs = first.tickMs * first.wheelSize ^ level ∧
      w.currentTime = roundDown (first.tickMs * first.wheelSize ^ level) first.currentTime ∧
      w.currentTime + w.interval = turnEnd first level := by
  have hhead : first ∈ ws.head? := by rw [List.head?_eq_getElem?, hfirst]; rfl
  have hsound₀ := hgeared.sound first (List.mem_of_getElem? hfirst)
  suffices h : w.tickMs = first.tickMs * first.wheelSize ^ level ∧
      w.currentTime = roundDown (first.tickMs * first.wheelSize ^ level) first.currentTime by
    have hsize := (hfitted level w hw).2.2 first hhead
    refine ⟨h.1, h.2, ?_⟩
    rw [(hgeared.sound w (List.mem_of_getElem? hw)).interval_eq, hsize, h.1, h.2, turnEnd,
      mul_assoc, ← pow_succ]
  induction level generalizing w with
  | zero =>
    obtain rfl := Option.some.inj (hfirst.symm.trans hw)
    rw [pow_zero, mul_one, roundDown_of_dvd hsound₀.aligned]
    exact ⟨rfl, rfl⟩
  | succ level ih =>
    obtain ⟨hlt, -⟩ := List.getElem?_eq_some_iff.mp hw
    obtain ⟨below, hbelow⟩ : ∃ below, ws[level]? = some below :=
      ⟨_, List.getElem?_eq_getElem (show level < ws.length by omega)⟩
    obtain ⟨htick, hcurrent⟩ := ih hbelow
    obtain ⟨htick', hcurrent'⟩ := hgeared.meshes_succ hbelow hw
    have hsound := hgeared.sound below (List.mem_of_getElem? hbelow)
    have hscale : w.tickMs = first.tickMs * first.wheelSize ^ (level + 1) := by
      rw [htick', hsound.interval_eq, (hfitted level below hbelow).2.2 first hhead, htick,
        mul_assoc, ← pow_succ]
    refine ⟨hscale, ?_⟩
    rw [hcurrent', hcurrent, ← htick, roundDown_roundDown hsound.tick_pos
      (hgeared.sound w (List.mem_of_getElem? hw)).tick_pos, hscale]
    rw [htick', hsound.interval_eq]
    exact Dvd.intro _ rfl

/-- A wheel with one bucket, and every wheel above it, ends its turn with the current tick. -/
theorem turnEnd_of_size_one {first : TimingWheel} (hsound : first.Sound)
    (hsize : first.wheelSize = 1) (level : ℕ) :
    turnEnd first level = first.currentTime + first.tickMs := by
  rw [turnEnd, hsize, Nat.cast_one, one_pow, one_pow, mul_one, roundDown_of_dvd hsound.aligned]

/-- With at least two buckets, the ranges grow past every expiration. The first one that
does so ends at most at the time plus the wheel size times the expiration. -/
theorem exists_turn {first : TimingWheel} (hsound : first.Sound) (hsize : 2 ≤ first.wheelSize)
    {x : TimeEntry} (hlate : first.currentTime + first.tickMs ≤ x) :
    ∃ k, (∀ j < k, turnEnd first j ≤ x) ∧ x < turnEnd first k ∧
      turnEnd first k ≤ first.currentTime + x * first.wheelSize := by
  have htick := hsound.tick_pos
  have hcurrent := hsound.current_nonneg
  have hsize' : (2 : ℤ) ≤ first.wheelSize := by exact_mod_cast hsize
  have hscale : ∀ k, 0 < first.tickMs * (first.wheelSize : ℤ) ^ k := fun k =>
    mul_pos htick (pow_pos (by linarith) k)
  have hround : ∀ k, 0 ≤ roundDown (first.tickMs * (first.wheelSize : ℤ) ^ k) first.currentTime :=
    fun k => mul_nonneg (hscale k).le (Int.ediv_nonneg hcurrent (hscale k).le)
  have hexists : ∃ k, x < turnEnd first k := by
    refine ⟨x.toNat, ?_⟩
    have hpow : (x.toNat : ℤ) < (first.wheelSize : ℤ) ^ x.toNat := by
      calc (x.toNat : ℤ) < 2 ^ x.toNat := by exact_mod_cast Nat.lt_two_pow_self
        _ ≤ (first.wheelSize : ℤ) ^ x.toNat := pow_le_pow_left₀ (by norm_num) hsize' _
    have hgrow : (first.wheelSize : ℤ) ^ x.toNat ≤
        first.tickMs * (first.wheelSize : ℤ) ^ (x.toNat + 1) := by
      calc (first.wheelSize : ℤ) ^ x.toNat
          ≤ (first.wheelSize : ℤ) ^ (x.toNat + 1) := by
            rw [pow_succ]
            exact le_mul_of_one_le_right (pow_nonneg (by linarith) _) (by linarith)
        _ ≤ first.tickMs * (first.wheelSize : ℤ) ^ (x.toNat + 1) :=
            le_mul_of_one_le_left (pow_nonneg (by linarith) _) htick
    have hself := Int.self_le_toNat x
    rw [turnEnd]
    linarith [hround x.toNat]
  classical
  refine ⟨Nat.find hexists, fun j hj => not_lt.mp (Nat.find_min hexists hj),
    Nat.find_spec hexists, ?_⟩
  -- the interval of a range is the tick of the wheel, times the size
  have hfine : first.tickMs * (first.wheelSize : ℤ) ^ Nat.find hexists ≤ x := by
    cases hk : Nat.find hexists with
    | zero =>
      rw [pow_zero, mul_one]
      linarith
    | succ k =>
      have hbelow := not_lt.mp (Nat.find_min hexists (show k < Nat.find hexists by omega))
      rw [turnEnd] at hbelow
      linarith [hround k]
  have hle := roundDown_le (hscale (Nat.find hexists)) first.currentTime
  have hinterval : first.tickMs * (first.wheelSize : ℤ) ^ (Nat.find hexists + 1) ≤
      x * first.wheelSize := by
    rw [pow_succ, ← mul_assoc]
    exact mul_le_mul_of_nonneg_right hfine (by linarith)
  rw [turnEnd]
  linarith

namespace Timer

variable {undef : ℕ → Bool} {fuel level k : ℕ} {id : EntryId} {t : Timer} {e : TimerTaskEntry}
  {first w : TimingWheel} {p : Timer × Bool}

/-- An insertion that returns computes with exact times. If the task is not due, then it
expires within the range of a wheel, and ranges up to that one are representable. -/
theorem addToWheelLong_ok (hgeared : Geared t.wheels) (hfitted : Fitted t.wheels)
    (hfirst : t.wheels[0]? = some first) (hentry : t.entries id = some e)
    (hcancelled : e.cancelled id = false) (hw : t.wheels[level]? = some w)
    (h : addToWheelLong undef fuel level id t = .ok p) :
    addToWheel undef fuel level id t = .ok p ∧ w.currentTime + w.tickMs < 2 ^ 63 ∧
      (w.currentTime + w.tickMs ≤ e.expiration → ∃ k, level ≤ k ∧
        (∀ j, level ≤ j → j < k → turnEnd first j ≤ e.expiration) ∧
        e.expiration < turnEnd first k ∧ turnEnd first k < 2 ^ 63) := by
  induction fuel generalizing level t p w with
  | zero => cases h
  | succ fuel ih =>
    obtain ⟨-, -, hend⟩ := scaled hgeared hfitted hfirst hw
    obtain ⟨hlt, ⟨hdue, rfl⟩ | ⟨hlate, hturn, ⟨hfits, hadd⟩ | ⟨hbeyond, p', hover, rfl⟩⟩⟩ :=
      addToWheelLong_cases hentry hcancelled hw h
    · exact ⟨addToWheel_due hentry hw hdue, hlt, fun hlate => absurd hdue (not_lt.mpr hlate)⟩
    · rw [hend] at hfits hturn
      exact ⟨hadd, hlt, fun _ => ⟨level, le_rfl, fun j hle hlt => absurd hlt (not_lt.mpr hle),
        hfits, hturn⟩⟩
    · obtain ⟨ws, hws, hgrows, hlength⟩ := exists_overflow hw
      have hgrown := hgrows ws (.refl ws)
      rw [hws] at hover
      have hw' : ws[level + 1]? = some ws[level + 1] := List.getElem?_eq_getElem hlength
      have hgeared' := hgeared.of_grows hgrown
      obtain ⟨hadd, -, hrange⟩ := ih (t := { t with wheels := ws }) hgeared'
        (hfitted.of_grows hgrown) (hgrown.getElem? hfirst) hentry hw' hover
      have hnot := (hgeared'.meshes_succ (hgrown.getElem? hw) hw').not_due
        (hgeared'.sound _ (List.mem_of_getElem? hw')) hbeyond
      obtain ⟨k, hle, hbelow, hx, hrep⟩ := hrange hnot
      refine ⟨?_, hlt, fun _ => ⟨k, by omega, fun j hj hjk => ?_, hx, hrep⟩⟩
      · rw [addToWheel, entry_eq hentry]
        simp only [bind, Except.bind, hw, hcancelled, Bool.false_eq_true, if_false,
          if_neg (not_lt.mpr hlate), if_neg (not_lt.mpr hbeyond), hws, hadd]
        rfl
      · rcases hj.eq_or_lt with rfl | hj
        · rwa [← hend]
        · exact hbelow j hj hjk

/-- A wheel files a task within its range as with exact times, if the end of the range is
representable. -/
theorem addToWheelLong_here (hsound : w.Sound) (hentry : t.entries id = some e)
    (hcancelled : e.cancelled id = false) (hw : t.wheels[level]? = some w)
    (hlate : w.currentTime + w.tickMs ≤ e.expiration)
    (hfits : e.expiration < w.currentTime + w.interval)
    (hturn : w.currentTime + w.interval < 2 ^ 63)
    (h : addToWheel undef (fuel + 1) level id t = .ok p) :
    addToWheelLong undef (fuel + 1) level id t = .ok p := by
  have htick := hsound.tick_pos
  have hcurrent := hsound.current_nonneg
  have hle := hsound.tick_le_interval
  have hnonneg : 0 ≤ e.expiration := by linarith
  have hdiv : TimeEntry.div e.expiration w.tickMs = e.expiration / w.tickMs :=
    Int.tdiv_eq_ediv_of_nonneg hnonneg
  have hslot : w.tickMs * TimeEntry.div e.expiration w.tickMs ≤ e.expiration := by
    rw [hdiv]
    exact roundDown_le htick _
  have hslot₀ : 0 ≤ w.tickMs * TimeEntry.div e.expiration w.tickMs := by
    rw [hdiv]
    exact mul_nonneg htick.le (Int.ediv_nonneg hnonneg htick.le)
  rw [addToWheel, entry_eq hentry] at h
  simp only [bind, Except.bind, hw, hcancelled, Bool.false_eq_true, if_false,
    if_neg (not_lt.mpr hlate), if_pos hfits] at h
  rw [addToWheelLong, entry_eq hentry]
  simp only [reach, bind, Except.bind, hw, hcancelled, Bool.false_eq_true, if_false]
  rw [long_of_lt (by linarith) (by linarith), long_of_lt (by linarith) hturn]
  dsimp only
  rw [if_neg (not_lt.mpr hlate), if_pos hfits]
  split at h
  · cases h
  · next hindex =>
    rw [if_neg hindex]
    cases hlink : t.link
        ⟨level, ((TimeEntry.div e.expiration w.tickMs).tmod w.wheelSize).toNat⟩ id with
    | error reason => rw [hlink] at h; cases h
    | ok t₁ =>
      rw [hlink] at h
      dsimp only
      rw [long_of_lt hslot₀ (by linarith), ← Except.ok.inj h]
      rfl

/-- The overflow wheel of a wheel is created with exact times, if its range is
representable. -/
theorem overflowWheelLong_eq (hgeared : Geared t.wheels) (hfitted : Fitted t.wheels)
    (hfirst : t.wheels[0]? = some first) (hw : t.wheels[level]? = some w)
    (hturn : w.currentTime + w.interval < 2 ^ 63) (hrep : turnEnd first (level + 1) < 2 ^ 63) :
    (if t.wheels.length = level + 1 then t.addOverflowWheelLong w else pure t) =
      .ok (if t.wheels.length = level + 1 then t.addOverflowWheel w else t) := by
  by_cases hlast : t.wheels.length = level + 1
  · rw [if_pos hlast, if_pos hlast]
    have hsound := hgeared.sound w (List.mem_of_getElem? hw)
    have hinterval : 0 < w.interval := hsound.tick_pos.trans_le hsound.tick_le_interval
    have hcurrent := hsound.current_nonneg
    -- the interval of the overflow wheel is part of its range
    have hgrown : w.interval * w.wheelSize < 2 ^ 63 := by
      obtain ⟨htick, -, -⟩ := scaled hgeared hfitted hfirst hw
      have hsize := (hfitted _ _ hw).2.2 first (by rw [List.head?_eq_getElem?, hfirst]; rfl)
      have hscale :
          w.interval * w.wheelSize = first.tickMs * first.wheelSize ^ (level + 1 + 1) := by
        rw [hsound.interval_eq, htick, hsize]
        ring
      have htick' : 0 < first.tickMs * first.wheelSize ^ (level + 1) := by
        rw [pow_succ, ← mul_assoc, ← htick, ← hsize, ← hsound.interval_eq]
        exact hinterval
      have hfirst₀ := (hgeared.sound first (List.mem_of_getElem? hfirst)).current_nonneg
      have hround : 0 ≤ roundDown (first.tickMs * first.wheelSize ^ (level + 1))
          first.currentTime :=
        mul_nonneg htick'.le (Int.ediv_nonneg hfirst₀ htick'.le)
      rw [turnEnd] at hrep
      linarith
    rw [addOverflowWheelLong, TimingWheel.newLong_of_lt hinterval hcurrent hgrown (by linarith)]
    rfl
  · rw [if_neg hlast, if_neg hlast]
    rfl

/-- An insertion returns with `long` times as with exact ones, if the range in which the task
expires is representable. -/
theorem addToWheelLong_of_ok (hgeared : Geared t.wheels) (hfitted : Fitted t.wheels)
    (hfirst : t.wheels[0]? = some first) (hentry : t.entries id = some e)
    (hcancelled : e.cancelled id = false) (hw : t.wheels[level]? = some w)
    (hlate : w.currentTime + w.tickMs ≤ e.expiration) (hlevel : level ≤ k)
    (hbelow : ∀ j, level ≤ j → j < k → turnEnd first j ≤ e.expiration)
    (hx : e.expiration < turnEnd first k) (hrep : turnEnd first k < 2 ^ 63)
    (h : addToWheel undef fuel level id t = .ok p) :
    addToWheelLong undef fuel level id t = .ok p := by
  induction fuel generalizing level t p w with
  | zero => cases h
  | succ fuel ih =>
    have hsound := hgeared.sound w (List.mem_of_getElem? hw)
    obtain ⟨-, -, hend⟩ := scaled hgeared hfitted hfirst hw
    have hends : ∀ j, level ≤ j → j ≤ k → turnEnd first j < 2 ^ 63 := by
      intro j hj hjk
      rcases hjk.eq_or_lt with rfl | hlt
      · exact hrep
      · exact (hbelow j hj hlt).trans_lt (hx.trans hrep)
    have hturn : w.currentTime + w.interval < 2 ^ 63 := by
      rw [hend]
      exact hends level le_rfl hlevel
    rcases lt_or_ge e.expiration (w.currentTime + w.interval) with hfits | hbeyond
    · exact addToWheelLong_here hsound hentry hcancelled hw hlate hfits hturn h
    · have hover : level + 1 ≤ k := by
        by_contra hnot
        obtain rfl : level = k := by omega
        rw [hend] at hbeyond
        exact absurd hx (not_lt.mpr hbeyond)
      have hgrow := overflowWheelLong_eq hgeared hfitted hfirst hw hturn
        (hends _ (Nat.le_succ level) hover)
      obtain ⟨ws, hws, hgrows, hlength⟩ := exists_overflow hw
      have hgrown := hgrows ws (.refl ws)
      have hgeared' := hgeared.of_grows hgrown
      have hw' : ws[level + 1]? = some ws[level + 1] := List.getElem?_eq_getElem hlength
      have hnot := (hgeared'.meshes_succ (hgrown.getElem? hw) hw').not_due
        (hgeared'.sound _ (List.mem_of_getElem? hw')) hbeyond
      rw [addToWheel, entry_eq hentry] at h
      simp only [bind, Except.bind, hw, hcancelled, Bool.false_eq_true, if_false,
        if_neg (not_lt.mpr hlate), if_neg (not_lt.mpr hbeyond), hws] at h
      cases hcall : addToWheel undef fuel (level + 1) id { t with wheels := ws } with
      | error reason => rw [hcall] at h; cases h
      | ok p' =>
        have hcall' := ih (t := { t with wheels := ws }) hgeared' (hfitted.of_grows hgrown)
          (hgrown.getElem? hfirst) hentry hw' hnot hover (fun j hj => hbelow j (by omega)) hcall
        have htick := hsound.tick_le_interval
        have htick' := hsound.tick_pos
        have hcurrent := hsound.current_nonneg
        rw [hcall] at h
        rw [addToWheelLong, entry_eq hentry]
        simp only [reach, bind, Except.bind, hw, hcancelled, Bool.false_eq_true, if_false]
        rw [long_of_lt (by linarith) (by linarith), long_of_lt (by linarith) hturn]
        dsimp only
        rw [if_neg (not_lt.mpr hlate), if_neg (not_lt.mpr hbeyond), hgrow, hws]
        dsimp only
        rw [hcall', ← Except.ok.inj h]
        rfl

/-- The insertion of an entry ends, and the entry is filed in one bucket, or reported as
expired and not filed, whatever the overflow branch may yield. -/
def Inserts (sure : Bool) (t : Timer) (id : EntryId) : Prop :=
  ∀ undef, Yields sure undef → ∃ fuel t' r, addToWheelLong undef fuel 0 id t = .ok (t', r) ∧
    ((r = true ∧ ∃! b, t'.FiledIn b id) ∨ (r = false ∧ ∀ root, id ∉ t'.rings root))

/-- A task that is due, or one that expires within the range of some wheel, which may not
exist yet: the end of this range is representable, and the list of the wheel does not end in
a deleted entry. The wheel is the first one, unless the overflow branch is sure to yield
true. -/
def Insertable (sure : Bool) (t : Timer) (x : TimeEntry) : Prop :=
  ∃ first ∈ t.wheels.head?,
    (x < first.currentTime + first.tickMs ∧ first.currentTime + first.tickMs < 2 ^ 63) ∨
    (first.currentTime + first.tickMs ≤ x ∧ ∃ k, (∀ j < k, turnEnd first j ≤ x) ∧
      x < turnEnd first k ∧ turnEnd first k < 2 ^ 63 ∧ (k = 0 ∨ sure = true) ∧
      ∀ tail ∈ (t.rings k).getLast?, (t.entries tail).isSome = true)

/-- Overflow wheels can be added up to any level. -/
theorem exists_grows {ws : List TimingWheel} (hne : 0 < ws.length) (k : ℕ) :
    ∃ ws', Grows ws ws' ∧ k < ws'.length := by
  induction k with
  | zero => exact ⟨ws, .refl ws, hne⟩
  | succ k ih =>
    obtain ⟨ws', hgrows, hlt⟩ := ih
    obtain ⟨w, hw⟩ : ∃ w, w ∈ ws'.getLast? := by
      rw [List.getLast?_eq_getElem?, List.getElem?_eq_getElem (by omega)]
      exact ⟨_, rfl⟩
    refine ⟨_, hgrows.trans (.add hw (.refl _)), ?_⟩
    rw [List.length_append, List.length_singleton]
    omega

/-- A task is placed on the wheel in the range of which it expires first. -/
theorem level_of_place {ws : List TimingWheel} {b : BucketId} {x : TimeEntry}
    (hgeared : Geared ws) (hfitted : Fitted ws) (hfirst : ws[0]? = some first)
    (hplace : place x ws 0 = some b) (hlate : first.currentTime + first.tickMs ≤ x)
    (hbelow : ∀ j < k, turnEnd first j ≤ x) (hx : x < turnEnd first k) : b.level = k := by
  obtain ⟨w, hw, -, hfits, -⟩ := place_spec hplace
  rw [Nat.sub_zero] at hw
  rw [(scaled hgeared hfitted hfirst hw).2.2] at hfits
  have hle : k ≤ b.level := by
    by_contra hlt
    exact absurd hfits (not_lt.mpr (hbelow b.level (not_le.mp hlt)))
  obtain ⟨hlt, -⟩ := List.getElem?_eq_some_iff.mp hw
  have hk : ws[0 + k]? = some ws[k] := by
    rw [Nat.zero_add]
    exact List.getElem?_eq_getElem (hle.trans_lt hlt)
  have hend := (scaled hgeared hfitted hfirst (by rw [← hk, Nat.zero_add])).2.2
  obtain ⟨b', hb', hle'⟩ := exists_place hgeared hfirst hlate hk (by rw [hend]; exact hx)
  rw [List.drop_zero] at hb'
  obtain rfl := Option.some.inj (hplace.symm.trans hb')
  omega

/-- An entry that is filed is in one bucket. -/
theorem Linked.existsUnique_filedIn {b : BucketId} (h : t.Linked) (hentry : t.entries id = some e)
    (hlist : e.list = some b) : ∃! b, t.FiledIn b id := by
  refine ⟨b, h.filedIn_iff.mpr ⟨e, hentry, hlist⟩, fun b' hfiled => ?_⟩
  obtain ⟨e', hentry', hlist'⟩ := h.filedIn_iff.mp hfiled
  obtain rfl := Option.some.inj (hentry.symm.trans hentry')
  exact Option.some.inj (hlist'.symm.trans hlist)

/-- The insertion of an entry that may be inserted ends as it should. -/
theorem Insertable.inserts {sure : Bool} (hlinked : t.Linked) (hentry : t.entries id = some e)
    (hlist : e.list = none) (h : Insertable sure t e.expiration) : Inserts sure t id := by
  intro undef hyields
  obtain ⟨first, hhead, hcases⟩ := h
  have hfirst : t.wheels[0]? = some first := by rwa [← List.head?_eq_getElem?]
  have hcancelled : e.cancelled id = false := by
    simp [TimerTaskEntry.cancelled, (hlinked.tasks id e hentry).1]
  rcases hcases with ⟨hdue, hrep⟩ | ⟨hlate, k, hbelow, hx, hrep, hsure, htail⟩
  · have hsound := hlinked.geared.sound first (List.mem_of_getElem? hfirst)
    refine ⟨1, t, false, ?_, .inr ⟨rfl, hlinked.not_mem hentry hlist⟩⟩
    rw [addToWheelLong, entry_eq hentry]
    simp only [reach, bind, Except.bind, hfirst, hcancelled, Bool.false_eq_true, if_false]
    rw [long_of_lt (by linarith [hsound.tick_pos, hsound.current_nonneg]) hrep]
    dsimp only
    rw [if_pos hdue]
    rfl
  · obtain ⟨ws, hgrows, hlt⟩ := exists_grows hlinked.first k
    have hgeared := hlinked.geared.of_grows hgrows
    have hfitted := hlinked.fitted.of_grows hgrows
    have hfirst' := hgrows.getElem? hfirst
    have hk : ws[0 + k]? = some ws[k] := by
      rw [Nat.zero_add]
      exact List.getElem?_eq_getElem hlt
    have hend := (scaled hgeared hfitted hfirst' (by rw [← hk, Nat.zero_add])).2.2
    obtain ⟨b, hplace, -⟩ := exists_place hgeared hfirst' hlate hk (by rw [hend]; exact hx)
    rw [List.drop_zero] at hplace
    have hlevel := level_of_place hgeared hfitted hfirst' hplace hlate hbelow hx
    obtain ⟨w, l, hbucket⟩ := bucketAt_of_place hgeared hfitted hplace
    have htotal : ∃ p, addToWheel undef (k + 1) 0 id t = .ok p := by
      refine addToWheel_total hgeared hgrows hentry hcancelled hlist hlinked.first hplace hbucket ?_
        (by omega)
      rw [hfitted.root_eq hbucket, hlevel]
      exact htail
    obtain ⟨⟨t', r⟩, hadd⟩ := htotal
    obtain ⟨b', f, rfl, rfl, hlinks⟩ :=
      addToWheel_ok hlinked.geared hentry hcancelled hfirst hlate hadd
    have hlong : addToWheelLong undef (k + 1) 0 id t = .ok _ :=
      addToWheelLong_of_ok hlinked.geared hlinked.fitted hfirst hentry hcancelled hfirst hlate
        (Nat.zero_le k) (fun j _ => hbelow j) hx hrep hadd
    have hlevel' : b'.level = k :=
      level_of_place (hlinked.geared.of_grows f.grows) (hlinked.fitted.of_grows f.grows)
        (f.grows.getElem? hfirst) f.placed hlate hbelow hx
    refine ⟨k + 1, f.result, _, hlong, .inl ⟨?_, ?_⟩⟩
    · rw [Bool.or_eq_true, decide_eq_true_iff, hlevel']
      exact hsure.imp_right fun hsure => hyields hsure _
    · exact (hlinked.result hentry f hlinks).existsUnique_filedIn (Function.update_self ..) rfl

/-- An entry the insertion of which ends as it should may be inserted. -/
theorem Inserts.insertable {sure : Bool} (hlinked : t.Linked) (hentry : t.entries id = some e)
    (hlist : e.list = none) (h : Inserts sure t id) : Insertable sure t e.expiration := by
  obtain ⟨fuel, t', r, hlong, hend⟩ := h (fun _ => sure) fun hsure _ => hsure
  obtain ⟨first, hfirst⟩ : ∃ first, t.wheels[0]? = some first :=
    ⟨_, List.getElem?_eq_getElem hlinked.first⟩
  have hcancelled : e.cancelled id = false := by
    simp [TimerTaskEntry.cancelled, (hlinked.tasks id e hentry).1]
  obtain ⟨hadd, hrep, hrange⟩ := addToWheelLong_ok hlinked.geared hlinked.fitted hfirst hentry
    hcancelled hfirst hlong
  refine ⟨first, by rw [List.head?_eq_getElem?, hfirst]; rfl, ?_⟩
  rcases lt_or_ge e.expiration (first.currentTime + first.tickMs) with hdue | hlate
  · exact .inl ⟨hdue, hrep⟩
  obtain ⟨k, -, hbelow, hx, hturn⟩ := hrange hlate
  obtain ⟨b, f, rfl, rfl, hlinks⟩ :=
    addToWheel_ok hlinked.geared hentry hcancelled hfirst hlate hadd
  have hbelow' : ∀ j < k, turnEnd first j ≤ e.expiration := fun j hj => hbelow j (Nat.zero_le j) hj
  have hlevel : b.level = k :=
    level_of_place (hlinked.geared.of_grows f.grows) (hlinked.fitted.of_grows f.grows)
      (f.grows.getElem? hfirst) f.placed hlate hbelow' hx
  refine .inr ⟨hlate, k, hbelow', hx, hturn, ?_, ?_⟩
  · rcases hend with ⟨hkept, -⟩ | ⟨-, hout⟩
    · rw [Bool.or_eq_true, decide_eq_true_iff, hlevel] at hkept
      exact hkept
    · exact absurd ((hlinked.mem_filed_iff hentry f hlinks b.level).mpr rfl) (hout b.level)
  · obtain ⟨rings, hunlinked, htail, -⟩ := hlinks
    rw [hlist] at hunlinked
    obtain rfl := hunlinked
    rwa [hlinked.root_eq f, hlevel] at htail

/-- With wheels of at least two buckets, and no deleted entry linked, a task may be inserted
if the wheel size times its expiration is representable with the time added to it. -/
theorem Linked.insertable {x : TimeEntry} (hlinked : t.Linked) (hfirst : t.wheels[0]? = some first)
    (hsize : 2 ≤ first.wheelSize)
    (halive : ∀ root, ∀ id ∈ t.rings root, (t.entries id).isSome = true)
    (hx : first.currentTime + max x first.tickMs * first.wheelSize < 2 ^ 63) :
    Insertable true t x := by
  have hsound := hlinked.geared.sound first (List.mem_of_getElem? hfirst)
  have hsize' : (2 : ℤ) ≤ first.wheelSize := by exact_mod_cast hsize
  refine ⟨first, by rw [List.head?_eq_getElem?, hfirst]; rfl, ?_⟩
  rcases lt_or_ge x (first.currentTime + first.tickMs) with hdue | hlate
  · refine .inl ⟨hdue, ?_⟩
    have htick : first.tickMs ≤ max x first.tickMs * first.wheelSize := by
      have hle := le_max_right x first.tickMs
      nlinarith [hsound.tick_pos]
    linarith
  · obtain ⟨k, hbelow, hfits, hend⟩ := exists_turn hsound hsize hlate
    have hmax : max x first.tickMs = x := max_eq_left (by linarith [hsound.current_nonneg])
    rw [hmax] at hx
    exact .inr ⟨hlate, k, hbelow, hfits, hend.trans_lt hx, .inr rfl,
      fun tail hmem => halive k tail (List.mem_of_getLast? hmem)⟩

/-- With wheels of one bucket, only a task that is due may be inserted. -/
theorem Insertable.due_of_size_one {sure : Bool} {x : TimeEntry} (hlinked : t.Linked)
    (hfirst : t.wheels[0]? = some first) (hsize : first.wheelSize = 1)
    (h : Insertable sure t x) : x < first.currentTime + first.tickMs := by
  have hsound := hlinked.geared.sound first (List.mem_of_getElem? hfirst)
  obtain ⟨first', hhead, ⟨hdue, -⟩ | ⟨-, k, -, hx, -⟩⟩ := h
  · rw [List.head?_eq_getElem?, hfirst] at hhead
    exact Option.some.inj hhead ▸ hdue
  · rw [List.head?_eq_getElem?, hfirst] at hhead
    obtain rfl := Option.some.inj hhead
    rwa [turnEnd_of_size_one hsound hsize] at hx

/-- The timers in which `TimingWheel::add` is called for an entry: a new entry has been
created by `add`, or `flush` has unlinked an entry of the bucket. -/
inductive Inserting (t : Timer) : Timer → EntryId → Prop
  | add (x : TimeEntry) : Inserting t (t.withEntry x) t.created
  | refile {t' : Timer} {b : BucketId} {id : EntryId} {e : TimerTaskEntry} :
    t.entries id = some e → e.list = some b → t.removeFrom b id = .ok t' → Inserting t t' id

/-- The entry is not linked yet, or no longer. -/
theorem Inserting.unlinked {t' : Timer} (h : t.Inserting t' id) (hlinked : t.Linked) :
    t'.Linked ∧ ∃ e, t'.entries id = some e ∧ e.list = none := by
  cases h with
  | add x => exact ⟨hlinked.withEntry x, _, t.withEntry_entries x, rfl⟩
  | refile hentry hlist hok =>
    refine ⟨hlinked.removeFrom hok, ?_⟩
    obtain ⟨e', hentry', ⟨-, rings, -, rfl⟩ | ⟨hother, -⟩⟩ := removeFrom_spec hok
    · exact ⟨_, Function.update_self .., rfl⟩
    · obtain rfl := Option.some.inj (hentry.symm.trans hentry')
      exact absurd hlist hother

end Timer

namespace Ticker

variable {tickMs : TimeEntry} {wheelSize : ℕ} {s : Ticker}

/-- In every state that is reached, the insertion of an entry ends as it should exactly if
its task is due, or expires within a range that the wheels can represent. -/
theorem inserts_iff_insertable (htick : 0 < tickMs) (hsize : 0 < wheelSize)
    (hs : (machine tickMs wheelSize).Reachable s) {t : Timer} {id : EntryId} {e : TimerTaskEntry}
    (h : s.timer.Inserting t id) (hentry : t.entries id = some e) (sure : Bool) :
    t.Inserts sure id ↔ t.Insertable sure e.expiration := by
  obtain ⟨-, hlinked⟩ := linked_of_reachable htick hsize hs
  obtain ⟨ht, e', hentry', hlist⟩ := h.unlinked hlinked
  obtain rfl := Option.some.inj (hentry.symm.trans hentry')
  exact ⟨fun h => h.insertable ht hentry hlist, fun h => h.inserts ht hentry hlist⟩

/-- A task that expires within the range of the third wheel is filed there. -/
theorem inserts_iff_insertable_third :
    ((start 10 4 100).timer.withEntry 300).Inserts true 0 := by
  have hreach : (machine 10 4).Reachable (start 10 4 100) := .of_init ⟨100, by decide, rfl⟩
  have hinserting : (start 10 4 100).timer.Inserting ((start 10 4 100).timer.withEntry 300) 0 :=
    .add 300
  have hentry : ((start 10 4 100).timer.withEntry 300).entries 0 = some ⟨300, none, 0⟩ := rfl
  refine (inserts_iff_insertable (by decide) (by decide) hreach hinserting hentry true).mpr ?_
  refine ⟨_, rfl, .inr ⟨by decide, 2, by decide, by decide, by decide, .inr rfl, ?_⟩⟩
  rintro tail ⟨⟩

/-- With wheels of one bucket, the insertion of a task that expires five ticks ahead does not
end. -/
theorem oneBucket_not_inserts : ∃ s, (machine 1000 1).Reachable s ∧ s.timer.delayQueue = [] ∧
    (∀ undef fuel p, (s.timer.withEntry 1700000000005000).addToWheelLong undef fuel 0
      s.timer.created ≠ .ok p) ∧
    ¬ (s.timer.withEntry 1700000000005000).Inserts true s.timer.created := by
  have hreach : (machine 1000 1).Reachable (start 1000 1 1700000000000000) :=
    .of_init ⟨_, by decide, rfl⟩
  obtain ⟨-, hlinked⟩ := linked_of_reachable (by decide) (by decide) hreach
  have hlinked' := hlinked.withEntry 1700000000005000
  have hfirst : ((start 1000 1 1700000000000000).timer.withEntry 1700000000005000).wheels[0]? =
      some (.new 1000 1 1700000000000000 0) := rfl
  have hsound := hlinked'.geared.sound _ (List.mem_of_getElem? hfirst)
  have hforever : ∀ undef fuel p,
      ((start 1000 1 1700000000000000).timer.withEntry 1700000000005000).addToWheelLong undef fuel
        0 0 ≠ .ok p := by
    intro undef fuel p hok
    obtain ⟨-, -, hrange⟩ := Timer.addToWheelLong_ok hlinked'.geared hlinked'.fitted hfirst
      (Timer.withEntry_entries _ _) rfl hfirst hok
    obtain ⟨k, -, -, hx, -⟩ := hrange (by decide)
    rw [turnEnd_of_size_one hsound rfl] at hx
    exact absurd hx (by decide)
  refine ⟨_, hreach, rfl, hforever, fun h => ?_⟩
  obtain ⟨fuel, t', r, hok, -⟩ := h (fun _ => true) fun _ _ => rfl
  exact hforever _ _ _ hok

end Ticker

end DuoDuo.Timers
