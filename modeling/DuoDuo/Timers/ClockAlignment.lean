import DuoDuo.Timers.Gears
import DuoDuo.Timers.TimeVal

/-!
# The clocks of the wheels

The wheels of a timer with their times in seconds and microseconds, and with a record of
where tasks have been filed. The times of the wheels stay aligned however wheels are
added and the clock is advanced, so that tasks that are not due on a wheel share a bucket
of it only if they have the same virtual id.
-/

namespace DuoDuo.Timers

open Library

/-- The times of a `TimingWheel`. Its overflow wheel is the next one in the list. -/
structure WheelClock where
  /-- `m_tickMs`. -/
  tickMs : TimeVal
  /-- `m_wheelSize`. -/
  wheelSize : ℕ
  /-- `m_interval`. -/
  interval : TimeVal
  /-- `m_currentTime`. -/
  currentTime : TimeVal

/-- Where `TimingWheel::add` files a task, with the time of the wheel when it does. -/
structure Filing where
  level : ℕ
  expiration : TimeVal
  virtualId : ℤ
  index : ℤ
  filedAt : TimeVal

namespace WheelClock

/-- The constructor of `TimingWheel`. -/
def new (tickMs : TimeVal) (wheelSize : ℕ) (startMs : TimeVal) : WheelClock where
  tickMs := tickMs
  wheelSize := wheelSize
  interval := tickMs.mul wheelSize
  currentTime := startMs.sub (startMs.mod tickMs)

/-- `TimingWheel::add` of a task that is not cancelled, from the wheel at a level on, as far
as `fuel` calls get. -/
def add (expiration : TimeVal) : ℕ → ℕ → List WheelClock → List WheelClock × Option Filing
  | 0, _, wheels => (wheels, none)
  | fuel + 1, level, wheels =>
    match wheels[level]? with
    | none => (wheels, none)
    | some w =>
      if expiration.lt (w.currentTime.add w.tickMs) then (wheels, none)
      else if expiration.lt (w.currentTime.add w.interval) then
        let virtualId := expiration.div w.tickMs
        (wheels, some
          { level, expiration, virtualId
            index := virtualId.tmod w.wheelSize
            filedAt := w.currentTime })
      else
        let wheels :=
          if wheels.length = level + 1 then wheels ++ [.new w.interval w.wheelSize w.currentTime]
          else wheels
        add expiration fuel (level + 1) wheels

/-- `TimingWheel::advanceClock`, on a wheel and its overflow wheels. -/
def advanceClock (timeMs : TimeVal) : List WheelClock → List WheelClock
  | [] => []
  | w :: overflow =>
    if timeMs.ge (w.currentTime.add w.tickMs) then
      let currentTime := timeMs.sub (timeMs.mod w.tickMs)
      { w with currentTime } :: advanceClock currentTime overflow
    else w :: overflow

/-- The wheel with its times in microseconds. -/
def toWheel (w : WheelClock) : TimingWheel where
  tickMs := w.tickMs.total
  wheelSize := w.wheelSize
  interval := w.interval.total
  currentTime := w.currentTime.total
  buckets := []

end WheelClock

/-- The wheels, and where tasks have been filed. -/
structure Clocks where
  wheels : List WheelClock
  filed : List Filing

/-- An operation on the wheels. -/
inductive ClockAction
  /-- `TimingWheel::add`, as far as a number of calls get. -/
  | add (expiration : TimeVal) (calls : ℕ)
  /-- `TimingWheel::advanceClock`. -/
  | advanceClock (timeMs : TimeVal)

namespace Clocks

/-- One operation. -/
def next (s : Clocks) : ClockAction → Clocks
  | .add expiration calls =>
    let (wheels, filing) := WheelClock.add expiration calls 0 s.wheels
    { wheels, filed := filing.toList ++ s.filed }
  | .advanceClock timeMs => { s with wheels := WheelClock.advanceClock timeMs s.wheels }

/-- The machine, which starts with one wheel at some time of day. -/
def machine : Machine Clocks ClockAction where
  init s := ∃ tickMs wheelSize startMs, 0 < tickMs.total ∧ 0 < wheelSize ∧ 0 ≤ startMs.total ∧
    s = ⟨[.new tickMs wheelSize startMs], []⟩
  step s action t := s.next action = t

/-- What holds of the wheels at any time. The time of a wheel is a multiple of its tick, a
tick of an overflow wheel is the interval of the wheel below, and the time of the wheel
below lies within its current tick. A task that has been filed got a virtual id above that
of the time of its wheel, less than a turn above. Of two tasks that are not yet due on
their wheel, those in the same bucket have the same virtual id. -/
structure Aligned (s : Clocks) : Prop where
  multiple : ∀ w ∈ s.wheels, w.tickMs.total ∣ w.currentTime.total
  tick : ∀ (level : ℕ) (w overflow : WheelClock), s.wheels[level]? = some w →
    s.wheels[level + 1]? = some overflow → overflow.tickMs.total = w.interval.total
  bracket : ∀ (level : ℕ) (w overflow : WheelClock), s.wheels[level]? = some w →
    s.wheels[level + 1]? = some overflow →
    overflow.currentTime.total ≤ w.currentTime.total ∧
      w.currentTime.total < overflow.currentTime.total + overflow.tickMs.total
  virtualId : ∀ f ∈ s.filed, ∃ w, s.wheels[f.level]? = some w ∧
    f.virtualId = f.expiration.div w.tickMs ∧ f.index = f.virtualId.tmod w.wheelSize ∧
    f.filedAt.div w.tickMs < f.virtualId ∧ f.virtualId < f.filedAt.div w.tickMs + w.wheelSize
  distinct : ∀ f ∈ s.filed, ∀ g ∈ s.filed, ∀ w, f.level = g.level → s.wheels[f.level]? = some w →
    w.currentTime.total + w.tickMs.total ≤ f.expiration.total →
    w.currentTime.total + w.tickMs.total ≤ g.expiration.total →
    f.index = g.index → f.virtualId = g.virtualId

/-- The wheels that there were are still there, and their times have not gone back. -/
def Later (s t : Clocks) : Prop :=
  ∀ (level : ℕ) (w : WheelClock), s.wheels[level]? = some w → ∃ w', t.wheels[level]? = some w' ∧
    w'.tickMs = w.tickMs ∧ w'.wheelSize = w.wheelSize ∧ w'.interval = w.interval ∧
    w.currentTime.total ≤ w'.currentTime.total

end Clocks

/-- A time from the next tick of a multiple on, and within a turn of it. -/
theorem div_in_turn {tick c x : ℤ} {size : ℕ} (htick : 0 < tick) (hdvd : tick ∣ c)
    (hle : c + tick ≤ x) (hlt : x < c + tick * size) :
    c / tick < x / tick ∧ x / tick < c / tick + size := by
  obtain ⟨k, rfl⟩ := hdvd
  rw [Int.mul_ediv_cancel_left k htick.ne']
  constructor
  · rw [Int.lt_iff_add_one_le, Int.le_ediv_iff_mul_le htick, add_mul, one_mul, mul_comm k]
    exact hle
  · rw [Int.ediv_lt_iff_lt_mul htick, add_mul, mul_comm k, mul_comm (size : ℤ)]
    exact hlt

/-- A task has been filed on a wheel, at a time that its wheel has reached. -/
structure Filing.On (f : Filing) (w : WheelClock) : Prop where
  virtualId_eq : f.virtualId = f.expiration.div w.tickMs
  index_eq : f.index = f.virtualId.tmod w.wheelSize
  nonneg : 0 ≤ f.filedAt.total
  multiple : w.tickMs.total ∣ f.filedAt.total
  reached : f.filedAt.total ≤ w.currentTime.total
  notDue : f.filedAt.total + w.tickMs.total ≤ f.expiration.total
  fits : f.expiration.total < f.filedAt.total + w.tickMs.total * w.wheelSize

namespace Filing.On

variable {f g : Filing} {w : WheelClock}

/-- The virtual id, without truncation. -/
theorem virtualId_eq_ediv (h : f.On w) (htick : 0 < w.tickMs.total) :
    f.virtualId = f.expiration.total / w.tickMs.total ∧ 0 ≤ f.virtualId := by
  have hnonneg : 0 ≤ f.expiration.total := by linarith [h.nonneg, h.notDue]
  have hdiv : f.virtualId = f.expiration.total / w.tickMs.total :=
    h.virtualId_eq.trans (Int.tdiv_eq_ediv_of_nonneg hnonneg)
  exact ⟨hdiv, hdiv ▸ Int.ediv_nonneg hnonneg htick.le⟩

/-- The virtual id lies above that of the time of filing, by less than a turn. -/
theorem virtualId_bounds (h : f.On w) (htick : 0 < w.tickMs.total) :
    f.filedAt.div w.tickMs < f.virtualId ∧
      f.virtualId < f.filedAt.div w.tickMs + w.wheelSize := by
  rw [(h.virtualId_eq_ediv htick).1, TimeVal.div, Int.tdiv_eq_ediv_of_nonneg h.nonneg]
  exact div_in_turn htick h.multiple h.notDue h.fits

/-- Tasks that are not yet due share a bucket only if they have the same virtual id. -/
theorem virtualId_inj (hf : f.On w) (hg : g.On w) (hsound : w.toWheel.Sound)
    (hfd : w.currentTime.total + w.tickMs.total ≤ f.expiration.total)
    (hgd : w.currentTime.total + w.tickMs.total ≤ g.expiration.total)
    (hindex : f.index = g.index) : f.virtualId = g.virtualId := by
  have htick : 0 < w.tickMs.total := hsound.tick_pos
  obtain ⟨hfv, hfn⟩ := hf.virtualId_eq_ediv htick
  obtain ⟨hgv, hgn⟩ := hg.virtualId_eq_ediv htick
  have hfturn := div_in_turn htick hsound.aligned hfd
    (hf.fits.trans_le (add_le_add_left hf.reached _))
  have hgturn := div_in_turn htick hsound.aligned hgd
    (hg.fits.trans_le (add_le_add_left hg.reached _))
  rw [hf.index_eq, hg.index_eq, Int.tmod_eq_emod_of_nonneg hfn,
    Int.tmod_eq_emod_of_nonneg hgn] at hindex
  rw [← hfv] at hfturn
  rw [← hgv] at hgturn
  exact eq_of_emod_eq hfturn.1.le hfturn.2 hgturn.1.le hgturn.2 hindex

end Filing.On

namespace WheelClock

variable {ws ws' : List WheelClock}

/-- The constructor, in microseconds. -/
theorem toWheel_new (tickMs : TimeVal) (wheelSize : ℕ) (startMs : TimeVal) :
    (WheelClock.new tickMs wheelSize startMs).toWheel =
      { TimingWheel.new tickMs.total wheelSize startMs.total 0 with buckets := [] } := by
  simp only [toWheel, WheelClock.new, TimingWheel.new, TimeVal.total_mul, TimeVal.total_sub,
    TimeVal.total_mod]

/-- A new wheel is sound, and its time is the starting time rounded down. -/
theorem sound_new {tickMs startMs : TimeVal} (htick : 0 < tickMs.total)
    (hstart : 0 ≤ startMs.total) {wheelSize : ℕ} (hsize : 0 < wheelSize) :
    (WheelClock.new tickMs wheelSize startMs).toWheel.Sound ∧
      (WheelClock.new tickMs wheelSize startMs).currentTime.total =
        roundDown tickMs.total startMs.total := by
  obtain ⟨hsound, hcurrent⟩ := TimingWheel.Sound.new htick hstart hsize 0
  have htoWheel := toWheel_new tickMs wheelSize startMs
  refine ⟨?_, (congrArg TimingWheel.currentTime htoWheel).trans hcurrent⟩
  rw [htoWheel]
  exact ⟨hsound.tick_pos, hsound.size_pos, hsound.interval_eq, hsound.current_nonneg,
    hsound.aligned⟩

/-- A new overflow wheel fits the wheels below it. -/
theorem geared_append (h : Geared (ws.map toWheel)) {w : WheelClock} (hw : ws.getLast? = some w) :
    Geared ((ws ++ [WheelClock.new w.interval w.wheelSize w.currentTime]).map toWheel) := by
  have hsound := h.sound w.toWheel (List.mem_map_of_mem (List.mem_of_getLast? hw))
  have hinterval : 0 < w.interval.total := hsound.tick_pos.trans_le hsound.tick_le_interval
  obtain ⟨hnew, hcurrent⟩ := sound_new hinterval hsound.current_nonneg hsound.size_pos
  rw [List.map_append, List.map_singleton]
  constructor
  · rw [List.forall_mem_append, List.forall_mem_singleton]
    exact ⟨h.sound, hnew⟩
  · refine h.meshes.append (List.isChain_singleton _) ?_
    intro x hx y hy
    rw [List.getLast?_map, hw] at hx
    obtain rfl : w.toWheel = x := Option.some.inj hx
    obtain rfl := Option.some.inj hy
    exact ⟨rfl, hcurrent⟩

/-- A wheel at a level, in microseconds. -/
theorem sound_getElem? (h : Geared (ws.map toWheel)) {level : ℕ} {w : WheelClock}
    (hw : ws[level]? = some w) : w.toWheel.Sound :=
  h.sound w.toWheel (List.mem_map_of_mem (List.mem_of_getElem? hw))

/-- `add` adds wheels that fit, and files a task on a wheel that it suits. -/
theorem add_spec {expiration : TimeVal} {calls level : ℕ} {filing : Option Filing}
    (h : Geared (ws.map toWheel)) (hadd : add expiration calls level ws = (ws', filing)) :
    Geared (ws'.map toWheel) ∧ ws <+: ws' ∧
      ∀ f ∈ filing, ∃ w, ws'[f.level]? = some w ∧ f.On w := by
  induction calls generalizing level ws with
  | zero =>
    cases hadd
    exact ⟨h, List.prefix_refl _, nofun⟩
  | succ calls ih =>
    rw [add] at hadd
    split at hadd
    · cases hadd
      exact ⟨h, List.prefix_refl _, nofun⟩
    · next w hw =>
      have hsound := sound_getElem? h hw
      split_ifs at hadd with hdue hfits hlast
      · cases hadd
        exact ⟨h, List.prefix_refl _, nofun⟩
      · cases hadd
        refine ⟨h, List.prefix_refl _, ?_⟩
        intro f hf
        obtain rfl := Option.some.inj hf
        rw [TimeVal.lt_iff, TimeVal.total_add] at hdue hfits
        exact ⟨w, hw, rfl, rfl, hsound.current_nonneg, hsound.aligned, le_rfl, not_lt.mp hdue,
          hfits.trans_eq (congrArg _ hsound.interval_eq)⟩
      · have hlast' : ws.getLast? = some w := by
          rw [List.getLast?_eq_getElem?, hlast]
          exact hw
        obtain ⟨hgeared, hprefix, hfiled⟩ := ih (geared_append h hlast') hadd
        exact ⟨hgeared, (List.prefix_append _ _).trans hprefix, hfiled⟩
      · exact ih h hadd

/-- `advanceClock`, in microseconds. -/
theorem map_advanceClock (timeMs : TimeVal) (ws : List WheelClock) :
    (advanceClock timeMs ws).map toWheel = Timer.advanceWheels timeMs.total (ws.map toWheel) := by
  induction ws generalizing timeMs with
  | nil => rfl
  | cons w overflow ih =>
    have hcurrent : (timeMs.sub (timeMs.mod w.tickMs)).total =
        TimeEntry.sub timeMs.total (.mod timeMs.total w.tickMs.total) := by
      rw [TimeVal.total_sub, TimeVal.total_mod]
    have hiff : timeMs.ge (w.currentTime.add w.tickMs) = true ↔
        timeMs.total ≥ w.toWheel.currentTime + w.toWheel.tickMs := by
      rw [TimeVal.ge_iff, TimeVal.total_add]
      rfl
    rw [advanceClock, List.map_cons, Timer.advanceWheels]
    by_cases hreached : timeMs.ge (w.currentTime.add w.tickMs) = true
    · rw [if_pos hreached, if_pos (hiff.mp hreached)]
      dsimp only
      rw [List.map_cons, ih, hcurrent, toWheel, hcurrent]
      rfl
    · rw [if_neg hreached, if_neg (mt hiff.mpr hreached)]
      rfl

/-- `advanceClock` changes nothing but the times of the wheels. -/
theorem getElem?_advanceClock (timeMs : TimeVal) {level : ℕ} {w : WheelClock}
    (hw : ws[level]? = some w) :
    ∃ currentTime, (advanceClock timeMs ws)[level]? = some { w with currentTime } := by
  induction ws generalizing timeMs level with
  | nil => cases hw
  | cons w₀ overflow ih =>
    rw [advanceClock]
    split
    · cases level with
      | zero =>
        cases hw
        exact ⟨_, rfl⟩
      | succ level => exact ih _ hw
    · exact ⟨w.currentTime, hw⟩

/-- A time before the first wheel's next tick, such as that of an unset expiration, changes
nothing. -/
theorem advanceClock_of_neg (h : Geared (ws.map toWheel)) {timeMs : TimeVal}
    (htime : timeMs.total < 0) : advanceClock timeMs ws = ws := by
  cases ws with
  | nil => rfl
  | cons w overflow =>
    have hsound := h.sound w.toWheel List.mem_cons_self
    have htick : 0 < w.tickMs.total := hsound.tick_pos
    have hcurrent : 0 ≤ w.currentTime.total := hsound.current_nonneg
    rw [advanceClock, if_neg]
    rw [TimeVal.ge_iff, TimeVal.total_add]
    linarith

/-- Whatever the time, wheels that fit together do so after `advanceClock`, and their times
do not go back. -/
theorem advanceClock_spec (h : Geared (ws.map toWheel)) (timeMs : TimeVal) :
    Geared ((advanceClock timeMs ws).map toWheel) ∧
      ∀ (level : ℕ) (w : WheelClock), ws[level]? = some w →
        ∃ currentTime, (advanceClock timeMs ws)[level]? = some { w with currentTime } ∧
          w.currentTime.total ≤ currentTime.total := by
  rcases lt_or_ge timeMs.total 0 with hneg | hnonneg
  · rw [advanceClock_of_neg h hneg]
    exact ⟨h, fun level w hw => ⟨w.currentTime, hw, le_rfl⟩⟩
  · have hadvanced := (map_advanceClock timeMs ws).trans (advanceWheels_eq h hnonneg)
    refine ⟨hadvanced ▸ h.advance timeMs.total, fun level w hw => ?_⟩
    obtain ⟨currentTime, hw'⟩ := getElem?_advanceClock timeMs hw
    refine ⟨currentTime, hw', ?_⟩
    have hlevel : ((advanceClock timeMs ws).map toWheel)[level]? = _ :=
      congrArg (·[level]?) hadvanced
    rw [List.getElem?_map, hw', List.getElem?_map, List.getElem?_map, hw] at hlevel
    have hcurrent := congrArg TimingWheel.currentTime (Option.some.inj hlevel)
    exact (le_max_left _ _).trans_eq hcurrent.symm

end WheelClock

namespace Clocks

variable {s t u : Clocks} {trace : List (Clocks × ClockAction)}

/-- The wheels fit together, and tasks have been filed on wheels that suited them. -/
structure Inv (s : Clocks) : Prop where
  geared : Geared (s.wheels.map WheelClock.toWheel)
  filed : ∀ f ∈ s.filed, ∃ w, s.wheels[f.level]? = some w ∧ f.On w

/-- The invariant holds of the first wheel. -/
theorem Inv.of_init (h : machine.init s) : s.Inv := by
  obtain ⟨tickMs, wheelSize, startMs, htick, hsize, hstart, rfl⟩ := h
  refine ⟨⟨?_, List.isChain_singleton _⟩, nofun⟩
  rw [List.map_singleton, List.forall_mem_singleton]
  exact (WheelClock.sound_new htick hstart hsize).1

/-- Nothing has gone back yet. -/
theorem Later.refl (s : Clocks) : s.Later s :=
  fun _ w hw => ⟨w, hw, rfl, rfl, rfl, le_rfl⟩

theorem Later.trans (h : s.Later t) (h' : t.Later u) : s.Later u := by
  intro level w hw
  obtain ⟨w₁, hw₁, htick₁, hsize₁, hinterval₁, hle₁⟩ := h level w hw
  obtain ⟨w₂, hw₂, htick₂, hsize₂, hinterval₂, hle₂⟩ := h' level w₁ hw₁
  exact ⟨w₂, hw₂, htick₂.trans htick₁, hsize₂.trans hsize₁, hinterval₂.trans hinterval₁,
    hle₁.trans hle₂⟩

/-- A step keeps the invariant, and no time goes back. -/
theorem Inv.step {action : ClockAction} (h : s.Inv) (hstep : machine.step s action t) :
    t.Inv ∧ s.Later t := by
  obtain rfl : s.next action = t := hstep
  cases action with
  | add expiration calls =>
    obtain ⟨wheels, filing, hadd⟩ : ∃ wheels filing,
        WheelClock.add expiration calls 0 s.wheels = (wheels, filing) := ⟨_, _, rfl⟩
    obtain ⟨hgeared, ⟨rest, hprefix⟩, hfiled⟩ := WheelClock.add_spec h.geared hadd
    have hkeep (level : ℕ) (w : WheelClock) (hw : s.wheels[level]? = some w) :
        wheels[level]? = some w := by
      obtain ⟨hlt, -⟩ := List.getElem?_eq_some_iff.mp hw
      rw [← hprefix, List.getElem?_append_left hlt, hw]
    rw [next, hadd]
    refine ⟨⟨hgeared, ?_⟩, fun level w hw => ⟨w, hkeep level w hw, rfl, rfl, rfl, le_rfl⟩⟩
    intro f hf
    rcases List.mem_append.mp hf with hnew | hold
    · exact hfiled f (Option.mem_toList.mp hnew)
    · obtain ⟨w, hw, hon⟩ := h.filed f hold
      exact ⟨w, hkeep f.level w hw, hon⟩
  | advanceClock timeMs =>
    obtain ⟨hgeared, hlater⟩ := WheelClock.advanceClock_spec h.geared timeMs
    refine ⟨⟨hgeared, fun f hf => ?_⟩, fun level w hw => ?_⟩
    · obtain ⟨w, hw, hon⟩ := h.filed f hf
      obtain ⟨currentTime, hw', hle⟩ := hlater f.level w hw
      exact ⟨_, hw', hon.virtualId_eq, hon.index_eq, hon.nonneg, hon.multiple,
        hon.reached.trans hle, hon.notDue, hon.fits⟩
    · obtain ⟨currentTime, hw', hle⟩ := hlater level w hw
      exact ⟨_, hw', rfl, rfl, rfl, hle⟩

/-- A run keeps the invariant, and no time goes back. -/
theorem Inv.run (h : s.Inv) (hrun : machine.Run s trace u) : u.Inv ∧ s.Later u := by
  induction hrun with
  | nil s => exact ⟨h, .refl s⟩
  | cons hstep _ ih =>
    obtain ⟨ht, hst⟩ := h.step hstep
    obtain ⟨hu, htu⟩ := ih ht
    exact ⟨hu, hst.trans htu⟩

/-- The wheel above a wheel fits it. -/
theorem Inv.meshes (h : s.Inv) {level : ℕ} {w overflow : WheelClock}
    (hw : s.wheels[level]? = some w) (hoverflow : s.wheels[level + 1]? = some overflow) :
    w.toWheel.Meshes overflow.toWheel := by
  have hbelow : (s.wheels.map WheelClock.toWheel)[level]? = some w.toWheel := by
    rw [List.getElem?_map, hw, Option.map_some]
  have habove : (s.wheels.map WheelClock.toWheel)[level + 1]? = some overflow.toWheel := by
    rw [List.getElem?_map, hoverflow, Option.map_some]
  exact h.geared.meshes_succ hbelow habove

/-- The invariant says what holds of the wheels. -/
theorem Inv.aligned (h : s.Inv) : s.Aligned := by
  refine ⟨?_, ?_, ?_, ?_, ?_⟩
  · intro w hw
    exact (h.geared.sound w.toWheel (List.mem_map_of_mem hw)).aligned
  · intro level w overflow hw hoverflow
    exact (h.meshes hw hoverflow).1
  · intro level w overflow hw hoverflow
    have hmesh : overflow.currentTime.total = roundDown overflow.tickMs.total w.currentTime.total :=
      (h.meshes hw hoverflow).2
    have htick : 0 < overflow.tickMs.total :=
      (WheelClock.sound_getElem? h.geared hoverflow).tick_pos
    rw [hmesh]
    exact ⟨roundDown_le htick _, lt_roundDown_add htick _⟩
  · intro f hf
    obtain ⟨w, hw, hon⟩ := h.filed f hf
    have htick := (WheelClock.sound_getElem? h.geared hw).tick_pos
    exact ⟨w, hw, hon.virtualId_eq, hon.index_eq, hon.virtualId_bounds htick⟩
  · intro f hf g hg w hlevel hw hfd hgd hindex
    obtain ⟨w₁, hw₁, hfon⟩ := h.filed f hf
    obtain ⟨w₂, hw₂, hgon⟩ := h.filed g hg
    obtain rfl : w₁ = w := Option.some.inj (hw₁.symm.trans hw)
    obtain rfl : w₂ = w₁ := Option.some.inj (hw₂.symm.trans (hlevel ▸ hw))
    exact hfon.virtualId_inj hgon (WheelClock.sound_getElem? h.geared hw) hfd hgd hindex

/-- After every sequence of insertions and of advances of the clock to arbitrary times, the
wheels are aligned, and no time has gone back. -/
theorem clock_aligned (hs : machine.Reachable s) (h : machine.Run s trace u) :
    u.Aligned ∧ s.Later u := by
  have hinv : s.Inv := hs.invariant (fun _ => .of_init) fun _ _ _ hI hstep => (hI.step hstep).1
  obtain ⟨hu, hlater⟩ := hinv.run h
  exact ⟨hu.aligned, hlater⟩

/-- A task beyond the first wheel, and an advance to the expiration of a flushed bucket. -/
theorem clock_aligned_unset :
    (((⟨[.new ⟨0, 1000⟩ 20 ⟨1, 0⟩], []⟩ : Clocks).next (.add ⟨1, 25000⟩ 2)).next
        (.advanceClock ⟨-1, -1⟩)).Aligned ∧
      (⟨[.new ⟨0, 1000⟩ 20 ⟨1, 0⟩], []⟩ : Clocks).Later
        (((⟨[.new ⟨0, 1000⟩ 20 ⟨1, 0⟩], []⟩ : Clocks).next (.add ⟨1, 25000⟩ 2)).next
          (.advanceClock ⟨-1, -1⟩)) :=
  clock_aligned (.of_init ⟨_, _, _, by decide, by decide, by decide, rfl⟩)
    (.cons rfl (.cons rfl (.nil _)))

end Clocks

end DuoDuo.Timers
