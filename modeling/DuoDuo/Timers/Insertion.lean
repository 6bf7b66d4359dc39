import DuoDuo.Timers.EarlyFiring

/-!
# Concurrent insertion

The threads that call `Timer::add` hold the lock of the timer shared, so that their calls
interleave. `m_currentTime` does not change meanwhile. The mutex that all buckets of a
wheel share makes `TimerTaskList::add` one step, and so does the lock of the delay queue
for `offer`, but `setExpiration` is guarded by a flag that is tried only once.
-/

namespace DuoDuo.Timers

open Library

namespace Insertion

/-- What `TimingWheel::add` knows of a task when it has found the bucket. -/
structure Locals where
  id : EntryId
  expiration : TimeEntry
  bucket : BucketId
  /-- `m_tickMs * virtualId`. -/
  slot : TimeEntry
  deriving DecidableEq

/-- Where a thread is. -/
inductive Point
  /-- It has not called `Timer::add`, or the call has returned. -/
  | idle
  /-- It calls `TimingWheel::add` of the wheel at a level. -/
  | adding (id : EntryId) (level : ℕ)
  /-- It has found no overflow wheel above that wheel. -/
  | creating (id : EntryId) (level : ℕ)
  /-- It calls `TimerTaskList::add`. -/
  | linking (f : Locals)
  /-- `setExpiration` tests and sets the flag. -/
  | setting (f : Locals)
  /-- The flag was clear, and `m_expiration` is read. -/
  | reading (f : Locals)
  /-- `m_expiration` is written. It was `ori`. -/
  | writing (f : Locals) (ori : TimeEntry)
  /-- The flag is cleared. -/
  | clearing (f : Locals) (changed : Bool)
  /-- `setExpiration` has returned. -/
  | answered (f : Locals) (changed : Bool)
  /-- `TimingWheel::add` of the first wheel has returned. -/
  | returned (id : EntryId) (added : Bool)
  deriving DecidableEq

/-- A thread that is idle calls `Timer::add`, or a thread goes on. A function that ends
without a return statement in this step yields the value `undef`. -/
inductive Action (T : Type)
  | add (t : T) (expiration : TimeEntry)
  | work (t : T) (undef : Bool)

end Insertion

open Insertion in
/-- The timer, the flags, the threads, and the tasks that a bucket has received. The flag
of a bucket is shared with its root entry by all copies of the list. -/
structure Insertion (T : Type) where
  timer : Timer
  /-- `m_setFlag`, under the name of the root entry. -/
  setFlag : ℕ → Bool := fun _ => false
  point : T → Point := fun _ => .idle
  received : List Locals := []

namespace Insertion

/-- What `TimingWheel::add` of the first wheel returns when that of the wheel at a level
returns `added`: the overflow branch has no return statement. -/
def outcome (level : ℕ) (added undef : Bool) : Bool := if level = 0 then added else undef

/-- The branches of `TimingWheel::add`, on the wheel at a level. -/
def route (w : TimingWheel) (level : ℕ) (last : Bool) (id : EntryId) (e : TimerTaskEntry)
    (undef : Bool) : Option Point :=
  if e.cancelled id then some (.returned id (outcome level false undef))
  else if e.expiration < w.currentTime + w.tickMs then
    some (.returned id (outcome level false undef))
  else if e.expiration < w.currentTime + w.interval then
    let virtualId := TimeEntry.div e.expiration w.tickMs
    let index := virtualId.tmod w.wheelSize
    if index < 0 then none
    else some (.linking ⟨id, e.expiration, ⟨level, index.toNat⟩, w.tickMs * virtualId⟩)
  else some (if last then .creating id level else .adding id (level + 1))

variable {T : Type} [DecidableEq T]

/-- A thread goes on. -/
def goTo (s : Insertion T) (t : T) (p : Point) : Insertion T :=
  { s with point := Function.update s.point t p }

/-- The next step of a thread. -/
def work (s : Insertion T) (t : T) (undef : Bool) : Option (Insertion T) :=
  match s.point t with
  | .idle => none
  | .adding id level => do
    let e ← s.timer.entries id
    let w ← s.timer.wheels[level]?
    let p ← route w level (s.timer.wheels.length = level + 1) id e undef
    return s.goTo t p
  | .creating id level => do
    let w ← s.timer.wheels[level]?
    let timer :=
      if s.timer.wheels.length = level + 1 then s.timer.addOverflowWheel w else s.timer
    return { s with timer }.goTo t (.adding id (level + 1))
  | .linking f => do
    let timer ← (s.timer.link f.bucket f.id).toOption
    return { s with timer, received := f :: s.received }.goTo t (.setting f)
  | .setting f => do
    let l ← s.timer.bucket f.bucket
    return if s.setFlag l.root then s.goTo t (.answered f undef)
      else { s with setFlag := Function.update s.setFlag l.root true }.goTo t (.reading f)
  | .reading f => do
    let l ← s.timer.bucket f.bucket
    return s.goTo t (.writing f l.expiration)
  | .writing f ori => do
    let _ ← s.timer.bucket f.bucket
    let timer := (s.timer.setExpiration f.bucket f.slot).1
    return { s with timer }.goTo t (.clearing f (f.slot ≠ ori))
  | .clearing f changed => do
    let l ← s.timer.bucket f.bucket
    return { s with setFlag := Function.update s.setFlag l.root false }.goTo t (.answered f changed)
  | .answered f changed =>
    let timer := if changed then s.timer.offer f.bucket f.expiration else s.timer
    some ({ s with timer }.goTo t (.returned f.id (outcome f.bucket.level true undef)))
  | .returned _ true => some (s.goTo t .idle)
  | .returned id false => do
    let e ← s.timer.entries id
    let timer := if e.cancelled id then s.timer else s.timer.handOver id
    return { s with timer }.goTo t .idle

/-- One step. -/
def next (s : Insertion T) : Action T → Option (Insertion T)
  | .add t expiration =>
    if s.point t = .idle then
      some ({ s with timer := s.timer.withEntry expiration }.goTo t (.adding s.timer.created 0))
    else none
  | .work t undef => s.work t undef

/-- The threads begin when a timer is between two calls of `flush`. -/
def Begins (s : Insertion T) : Prop :=
  ∃ tickMs wheelSize ticker, 0 < tickMs ∧ 0 < wheelSize ∧
    (Ticker.machine tickMs wheelSize).Reachable ticker ∧ ticker.flushing = none ∧
    s = { timer := ticker.timer }

/-- The machine of threads that add tasks. -/
def machine : Machine (Insertion T) (Action T) := Machine.ofNext Begins next

/-- A bucket has an expiration. -/
def SetTo (ws : List TimingWheel) (b : BucketId) (x : TimeEntry) : Prop :=
  ∃ w l, BucketAt ws b w l ∧ l.expiration = x

/-- A bucket has an element in the delay queue. -/
def Offered (q : List DelayQueueEntry) (b : BucketId) : Prop := ∃ e ∈ q, e.bucket = b

/-- No bucket is lost: every bucket that has received a task has the expiration that the
task determines, and it will be polled. -/
def NoneLost (s : Insertion T) : Prop :=
  ∀ f ∈ s.received, SetTo s.timer.wheels f.bucket f.slot ∧ Offered s.timer.delayQueue f.bucket

/-- `setExpiration` finds the flag of a bucket clear, and sets the bucket to an expiration. -/
def Stamps (b : BucketId) (x : TimeEntry) (s : Insertion T) : Action T → Prop
  | .add _ _ => False
  | .work t _ => ∃ f l, s.point t = .setting f ∧ f.bucket = b ∧ f.slot = x ∧
      s.timer.bucket b = some l ∧ s.setFlag l.root = false

variable {ws ws' : List TimingWheel} {b b' : BucketId} {w : TimingWheel} {l l' : TimerTaskList}
  {x y : TimeEntry}

/-- A bucket has one expiration. -/
theorem SetTo.unique (h : SetTo ws b x) (h' : SetTo ws b y) : x = y := by
  obtain ⟨w, l, hbucket, rfl⟩ := h
  obtain ⟨w', l', hbucket', rfl⟩ := h'
  rw [(hbucket.unique hbucket').2]

/-- Overflow wheels leave the buckets alone. -/
theorem SetTo.of_grows (h : SetTo ws b x) (hgrows : Grows ws ws') : SetTo ws' b x := by
  obtain ⟨w, l, hbucket, hx⟩ := h
  exact ⟨w, l, hbucket.of_grows hgrows, hx⟩

/-- The buckets of a new overflow wheel have no expiration. -/
theorem SetTo.before_grows (h : SetTo ws' b x) (hgrows : Grows ws ws') (hx : x ≠ .unset) :
    SetTo ws b x := by
  obtain ⟨w, l, hbucket, rfl⟩ := h
  by_cases hlevel : ws.length ≤ b.level
  · exact absurd (hgrows.expiration_unset hbucket.1 hlevel l (List.mem_of_getElem? hbucket.2)) hx
  · obtain ⟨w₀, hw₀⟩ : ∃ w₀, ws[b.level]? = some w₀ :=
      ⟨_, List.getElem?_eq_getElem (not_le.mp hlevel)⟩
    obtain rfl : w₀ = w := Option.some.inj ((hgrows.getElem? hw₀).symm.trans hbucket.1)
    exact ⟨w₀, l, ⟨hw₀, hbucket.2⟩, rfl⟩

/-- Writing an expiration. -/
theorem setTo_setBucket (h : BucketAt ws b w l) (x : TimeEntry) :
    SetTo (setBucket ws b w { l with expiration := x }) b x :=
  ⟨_, _, h.set_self _, rfl⟩

/-- The other buckets keep their expirations. -/
theorem setTo_setBucket_of_ne (h : BucketAt ws b w l) (hne : b' ≠ b) (l' : TimerTaskList) :
    SetTo (setBucket ws b w l') b' x ↔ SetTo ws b' x := by
  constructor
  · rintro ⟨w₁, l₁, ⟨hw₁, hl₁⟩, hx⟩
    by_cases hlevel : b'.level = b.level
    · obtain ⟨hlt, -⟩ := List.getElem?_eq_some_iff.mp h.1
      rw [setBucket, hlevel, List.getElem?_set_self hlt] at hw₁
      obtain rfl := Option.some.inj hw₁
      have hindex : b.index ≠ b'.index := by
        intro hindex
        exact hne (by cases b; cases b'; simp_all)
      rw [List.getElem?_set_ne hindex] at hl₁
      exact ⟨w, l₁, ⟨hlevel ▸ h.1, hl₁⟩, hx⟩
    · rw [setBucket, List.getElem?_set_ne (Ne.symm hlevel)] at hw₁
      exact ⟨w₁, l₁, ⟨hw₁, hl₁⟩, hx⟩
  · rintro ⟨w₁, l₁, hbucket, hx⟩
    obtain ⟨buckets, hset⟩ := h.set_of_ne hbucket hne l'
    exact ⟨_, l₁, hset, hx⟩

/-- The wheel of the bucket takes the task into a tick after the current one, and the
bucket and the expiration for it are those of this tick. -/
def Slotted (ws : List TimingWheel) (f : Locals) : Prop :=
  ∃ w, ws[f.bucket.level]? = some w ∧ w.currentTime + w.tickMs ≤ f.expiration ∧
    f.expiration < w.currentTime + w.interval ∧
    (f.bucket.index : ℤ) = f.expiration / w.tickMs % w.wheelSize ∧
    f.slot = roundDown w.tickMs f.expiration

variable {f g : Locals}

theorem Slotted.of_grows (h : Slotted ws f) (hgrows : Grows ws ws') : Slotted ws' f := by
  obtain ⟨w, hw, hspec⟩ := h
  exact ⟨w, hgrows.getElem? hw, hspec⟩

theorem Slotted.before_grows (h : Slotted ws' f) (hgrows : Grows ws ws')
    (hw : ws[f.bucket.level]? = some w) : Slotted ws f := by
  obtain ⟨w', hw', hspec⟩ := h
  obtain rfl : w = w' := Option.some.inj ((hgrows.getElem? hw).symm.trans hw')
  exact ⟨w, hw, hspec⟩

/-- Expirations of buckets do not matter. -/
theorem slotted_setBucket (h : BucketAt ws b w l) (l' : TimerTaskList) :
    Slotted (setBucket ws b w l') f ↔ Slotted ws f := by
  constructor
  · rintro ⟨w₁, hw₁, hspec⟩
    have hlt : f.bucket.level < ws.length := by
      obtain ⟨hlt, -⟩ := List.getElem?_eq_some_iff.mp hw₁
      simpa [setBucket] using hlt
    have hw₀ := List.getElem?_eq_getElem hlt
    obtain ⟨buckets, hset⟩ := h.getElem?_setBucket hw₀ l'
    obtain rfl := Option.some.inj (hset.symm.trans hw₁)
    exact ⟨_, hw₀, hspec⟩
  · rintro ⟨w₁, hw₁, hspec⟩
    obtain ⟨buckets, hset⟩ := h.getElem?_setBucket hw₁ l'
    exact ⟨_, hset, hspec⟩

/-- Two tasks for one bucket expire in the same tick. -/
theorem Slotted.slot_eq (hgeared : Geared ws) (hf : Slotted ws f) (hg : Slotted ws g)
    (hbucket : f.bucket = g.bucket) : f.slot = g.slot := by
  obtain ⟨w, hw, hlate, hfits, hindex, hslot⟩ := hf
  obtain ⟨w', hw', hlate', hfits', hindex', hslot'⟩ := hg
  rw [hbucket] at hw hindex
  obtain rfl : w = w' := Option.some.inj (hw.symm.trans hw')
  have hsound := hgeared.sound w (List.mem_of_getElem? hw)
  have htick := hsound.tick_pos
  obtain ⟨hle, hlt⟩ := hsound.tick_in_turn (by linarith) hfits
  obtain ⟨hle', hlt'⟩ := hsound.tick_in_turn (by linarith) hfits'
  have hsame := eq_of_emod_eq hle hlt hle' hlt' (hindex.symm.trans hindex')
  rw [hslot, hslot', roundDown, roundDown, hsame]

/-- The expiration for the bucket of a task is not that of an empty bucket. -/
theorem Slotted.slot_ne_unset (hgeared : Geared ws) (hf : Slotted ws f) : f.slot ≠ .unset := by
  obtain ⟨w, hw, hlate, -, -, hslot⟩ := hf
  have hsound := hgeared.sound w (List.mem_of_getElem? hw)
  have hnonneg : 0 ≤ f.expiration := by linarith [hsound.current_nonneg, hsound.tick_pos]
  have hslot_nonneg : 0 ≤ f.slot := by
    rw [hslot]
    exact mul_nonneg hsound.tick_pos.le (Int.ediv_nonneg hnonneg hsound.tick_pos.le)
  rintro hunset
  rw [hunset] at hslot_nonneg
  exact absurd hslot_nonneg (by decide)

/-- The task of a thread that knows its bucket. -/
def Point.locals : Point → Option Locals
  | .linking f | .setting f | .reading f | .writing f _ | .clearing f _ | .answered f _ => some f
  | .idle | .adding .. | .creating .. | .returned .. => none

/-- The task of a thread that has set the flag and not yet written the expiration. -/
def Point.stamps : Point → Option Locals
  | .reading f | .writing f _ => some f
  | _ => none

/-- The bucket that a thread is going to offer, because it has changed its expiration. -/
def Point.offers : Point → Option BucketId
  | .clearing f true | .answered f true => some f.bucket
  | _ => none

/-- The invariant. `D` contains the buckets that had an expiration in the beginning or for
which the flag was found clear, with this expiration. -/
structure Inv (D : Set (BucketId × TimeEntry)) (s : Insertion T) : Prop where
  geared : Geared s.timer.wheels
  slotted : ∀ t, ∀ f ∈ (s.point t).locals, Slotted s.timer.wheels f
  received : ∀ f ∈ s.received, Slotted s.timer.wheels f
  writing : ∀ t f, s.point t = .writing f f.slot → SetTo s.timer.wheels f.bucket f.slot
  armed : ∀ b x, SetTo s.timer.wheels b x → x ≠ .unset →
    Offered s.timer.delayQueue b ∨ ∃ t, (s.point t).offers = some b
  marked : ∀ b x, SetTo s.timer.wheels b x → x ≠ .unset → (b, x) ∈ D
  bucket : ∀ b x, (b, x) ∈ D → ∃ w l, BucketAt s.timer.wheels b w l
  stamps : ∀ t, ∀ f ∈ (s.point t).stamps, (f.bucket, f.slot) ∈ D
  stamped : ∀ f, Slotted s.timer.wheels f → (f.bucket, f.slot) ∈ D →
    SetTo s.timer.wheels f.bucket f.slot ∨
      ∃ t, ∃ g ∈ (s.point t).stamps, g.bucket = f.bucket

variable {s s' : Insertion T} {t : T} {p : Point} {D D' : Set (BucketId × TimeEntry)}

/-- The rule of all steps but the write: wheels and elements of the queue are only added. -/
theorem Inv.move (h : Inv D s) (hpoint : s'.point = Function.update s.point t p)
    (hgeared : Geared s'.timer.wheels) (hgrows : Grows s.timer.wheels s'.timer.wheels)
    (hqueue : ∀ e ∈ s.timer.delayQueue, e ∈ s'.timer.delayQueue)
    (hreceived : ∀ f ∈ s'.received, f ∈ s.received ∨ Slotted s'.timer.wheels f)
    (hlocals : ∀ f ∈ p.locals, Slotted s'.timer.wheels f)
    (hwriting : ∀ f, p = .writing f f.slot → SetTo s.timer.wheels f.bucket f.slot)
    (hoffers : ∀ b, (s.point t).offers = some b →
      p.offers = some b ∨ Offered s'.timer.delayQueue b)
    (hstamps : ∀ f ∈ p.stamps, (f.bucket, f.slot) ∈ D')
    (hkept : ∀ f ∈ (s.point t).stamps, f ∈ p.stamps) (hD : D ⊆ D')
    (hD' : ∀ b x, (b, x) ∈ D' → (b, x) ∈ D ∨ (∃ w l, BucketAt s.timer.wheels b w l) ∧
      ∃ f ∈ p.stamps, f.bucket = b) : Inv D' s' := by
  have hself : s'.point t = p := by rw [hpoint, Function.update_self]
  have hother : ∀ u, u ≠ t → s'.point u = s.point u := by
    intro u hne
    rw [hpoint, Function.update_of_ne hne]
  have hbucket : ∀ b x, (b, x) ∈ D' → ∃ w l, BucketAt s.timer.wheels b w l := by
    intro b x hx
    rcases hD' b x hx with hx | ⟨hexists, -⟩
    · exact h.bucket b x hx
    · exact hexists
  constructor
  · exact hgeared
  · intro u f hf
    by_cases hu : u = t
    · rw [hu, hself] at hf
      exact hlocals f hf
    · rw [hother u hu] at hf
      exact (h.slotted u f hf).of_grows hgrows
  · intro f hf
    rcases hreceived f hf with hf | hf
    · exact (h.received f hf).of_grows hgrows
    · exact hf
  · intro u f hf
    by_cases hu : u = t
    · rw [hu, hself] at hf
      exact (hwriting f hf).of_grows hgrows
    · rw [hother u hu] at hf
      exact (h.writing u f hf).of_grows hgrows
  · intro b x hset hx
    rcases h.armed b x (hset.before_grows hgrows hx) hx with ⟨e, he, hb⟩ | ⟨u, hu⟩
    · exact .inl ⟨e, hqueue e he, hb⟩
    · by_cases hut : u = t
      · rw [hut] at hu
        rcases hoffers b hu with hp | hoffered
        · exact .inr ⟨t, by rw [hself, hp]⟩
        · exact .inl hoffered
      · exact .inr ⟨u, by rw [hother u hut, hu]⟩
  · intro b x hset hx
    exact hD (h.marked b x (hset.before_grows hgrows hx) hx)
  · intro b x hx
    obtain ⟨w, l, hexists⟩ := hbucket b x hx
    exact ⟨w, l, hexists.of_grows hgrows⟩
  · intro u f hf
    by_cases hu : u = t
    · rw [hu, hself] at hf
      exact hstamps f hf
    · rw [hother u hu] at hf
      exact hD (h.stamps u f hf)
  · intro f hf hfD
    obtain ⟨w, l, hexists⟩ := hbucket _ _ hfD
    rcases hD' _ _ hfD with hfD | ⟨-, g, hg, hgf⟩
    · rcases h.stamped f (hf.before_grows hgrows hexists.1) hfD with hset | ⟨u, g, hg, hgf⟩
      · exact .inl (hset.of_grows hgrows)
      · refine .inr ⟨u, g, ?_, hgf⟩
        by_cases hu : u = t
        · rw [hu] at hg ⊢
          rw [hself]
          exact hkept g hg
        · rw [hother u hu]
          exact hg
    · exact .inr ⟨t, g, by rwa [hself], hgf⟩

/-- The rule of a step that leaves the timer's wheels and queue alone. -/
theorem Inv.goTo (h : Inv D s) (hpoint : s'.point = Function.update s.point t p)
    (hwheels : s'.timer.wheels = s.timer.wheels)
    (hqueue : s'.timer.delayQueue = s.timer.delayQueue)
    (hreceived : ∀ f ∈ s'.received, f ∈ s.received ∨ Slotted s.timer.wheels f)
    (hlocals : ∀ f ∈ p.locals, Slotted s.timer.wheels f)
    (hwriting : ∀ f, p = .writing f f.slot → SetTo s.timer.wheels f.bucket f.slot)
    (hoffers : ∀ b, (s.point t).offers = some b → p.offers = some b)
    (hstamps : (s.point t).stamps = p.stamps) : Inv D s' := by
  refine h.move hpoint (hwheels ▸ h.geared) (hwheels ▸ .refl _) (hqueue ▸ fun e he => he)
    (hwheels ▸ hreceived) (hwheels ▸ hlocals) hwriting ?_ ?_ ?_ subset_rfl ?_
  · intro b hb
    exact .inl (hoffers b hb)
  · intro f hf
    exact h.stamps t f (hstamps ▸ hf)
  · intro f hf
    exact hstamps ▸ hf
  · intro b x hx
    exact .inl hx

/-- The branches of `TimingWheel::add` lead to a bucket for the tick of the task, if they
lead to one. -/
theorem route_spec {level : ℕ} {last undef : Bool} {id : EntryId} {e : TimerTaskEntry}
    (hsound : w.Sound) (hw : ws[level]? = some w) (h : route w level last id e undef = some p) :
    (∀ f ∈ p.locals, Slotted ws f) ∧ p.stamps = none ∧ ∀ f, p ≠ .writing f f.slot := by
  unfold route at h
  split_ifs at h with hcancelled hdue hfits
  · cases h
    exact ⟨by rintro _ ⟨⟩, rfl, by rintro _ ⟨⟩⟩
  · cases h
    exact ⟨by rintro _ ⟨⟩, rfl, by rintro _ ⟨⟩⟩
  · dsimp only at h
    split_ifs at h with hneg
    cases h
    refine ⟨?_, rfl, by rintro _ ⟨⟩⟩
    intro f hf
    cases hf
    have htick := hsound.tick_pos
    have hnonneg : 0 ≤ e.expiration := by linarith [hsound.current_nonneg]
    have hdiv : TimeEntry.div e.expiration w.tickMs = e.expiration / w.tickMs :=
      Int.tdiv_eq_ediv_of_nonneg hnonneg
    refine ⟨w, hw, not_lt.mp hdue, hfits, ?_, ?_⟩
    · dsimp only
      rw [Int.toNat_of_nonneg (not_lt.mp hneg), hdiv,
        Int.tmod_eq_emod_of_nonneg (Int.ediv_nonneg hnonneg htick.le)]
    · dsimp only
      rw [hdiv, roundDown]
  · cases h
    exact ⟨by rintro _ ⟨⟩, rfl, by rintro _ ⟨⟩⟩
  · cases h
    exact ⟨by rintro _ ⟨⟩, rfl, by rintro _ ⟨⟩⟩

/-- `addOverflowWheel` adds a wheel if there is still none. -/
theorem grows_addOverflowWheel {timer : Timer} {level : ℕ} (hw : timer.wheels[level]? = some w) :
    Grows timer.wheels
      (if timer.wheels.length = level + 1 then timer.addOverflowWheel w else timer).wheels := by
  split
  · next hlast =>
    refine .add ?_ (.refl _)
    rw [List.getLast?_eq_getElem?, hlast]
    exact hw
  · exact .refl _

/-- A bucket that the timer finds. -/
theorem bucketAt_of_bucket {timer : Timer} (h : timer.bucket b = some l) :
    ∃ w, BucketAt timer.wheels b w l := by
  obtain ⟨w, hw, hl⟩ := Option.bind_eq_some_iff.mp h
  exact ⟨w, hw, hl⟩

/-- The write of an expiration keeps the invariant. -/
theorem Inv.write (h : Inv D s) {ori : TimeEntry} (hp : s.point t = .writing f ori)
    (hbucket : BucketAt s.timer.wheels f.bucket w l)
    (hpoint : s'.point = Function.update s.point t (.clearing f (f.slot ≠ ori)))
    (hwheels : s'.timer.wheels =
      setBucket s.timer.wheels f.bucket w { l with expiration := f.slot })
    (hqueue : s'.timer.delayQueue = s.timer.delayQueue) (hreceived : s'.received = s.received) :
    Inv D s' := by
  have hself : s'.point t = .clearing f (f.slot ≠ ori) := by rw [hpoint, Function.update_self]
  have hother : ∀ u, u ≠ t → s'.point u = s.point u := by
    intro u hne
    rw [hpoint, Function.update_of_ne hne]
  have hf : Slotted s.timer.wheels f := h.slotted t f (by rw [hp]; rfl)
  have hset : SetTo s'.timer.wheels f.bucket f.slot := by
    rw [hwheels]
    exact setTo_setBucket hbucket f.slot
  have hsetTo : ∀ b x, b ≠ f.bucket → (SetTo s'.timer.wheels b x ↔ SetTo s.timer.wheels b x) := by
    intro b x hne
    rw [hwheels]
    exact setTo_setBucket_of_ne hbucket hne _
  have hslotted : ∀ g, Slotted s'.timer.wheels g ↔ Slotted s.timer.wheels g := by
    intro g
    rw [hwheels]
    exact slotted_setBucket hbucket _
  have hkept : ∀ g, Slotted s.timer.wheels g → SetTo s.timer.wheels g.bucket g.slot →
      SetTo s'.timer.wheels g.bucket g.slot := by
    intro g hg hold
    by_cases hsame : g.bucket = f.bucket
    · rw [hsame, hg.slot_eq h.geared hf hsame]
      exact hset
    · exact (hsetTo _ _ hsame).mpr hold
  constructor
  · rw [hwheels]
    exact h.geared.setBucket hbucket _
  · intro u g hg
    rw [hslotted]
    by_cases hu : u = t
    · rw [hu, hself] at hg
      cases hg
      exact hf
    · rw [hother u hu] at hg
      exact h.slotted u g hg
  · intro g hg
    rw [hslotted]
    exact h.received g (hreceived ▸ hg)
  · intro u g hg
    have hu : u ≠ t := by
      rintro rfl
      rw [hself] at hg
      cases hg
    rw [hother u hu] at hg
    exact hkept g (h.slotted u g (by rw [hg]; rfl)) (h.writing u g hg)
  · -- a bucket that has changed is going to be offered by this thread
    intro b x hx hne
    have hcarry : SetTo s.timer.wheels b x →
        Offered s'.timer.delayQueue b ∨ ∃ u, (s'.point u).offers = some b := by
      intro hold
      rcases h.armed b x hold hne with hoffered | ⟨u, hu⟩
      · exact .inl (hqueue ▸ hoffered)
      · have hut : u ≠ t := by
          rintro rfl
          rw [hp] at hu
          cases hu
        exact .inr ⟨u, by rw [hother u hut, hu]⟩
    by_cases hb : b = f.bucket
    · obtain rfl : x = f.slot := (hb ▸ hx).unique hset
      by_cases hsame : ori = f.slot
      · rw [hsame] at hp
        exact hcarry (hb ▸ h.writing t f hp)
      · refine .inr ⟨t, ?_⟩
        rw [hself, hb, decide_eq_true (Ne.symm hsame)]
        rfl
    · exact hcarry ((hsetTo b x hb).mp hx)
  · intro b x hx hne
    by_cases hb : b = f.bucket
    · obtain rfl : x = f.slot := (hb ▸ hx).unique hset
      rw [hb]
      exact h.stamps t f (by rw [hp]; rfl)
    · exact h.marked b x ((hsetTo b x hb).mp hx) hne
  · intro b x hx
    obtain ⟨w', l', hexists⟩ := h.bucket b x hx
    rw [hwheels]
    by_cases hb : b = f.bucket
    · rw [hb]
      exact ⟨_, _, hbucket.set_self _⟩
    · obtain ⟨buckets, hstill⟩ := hbucket.set_of_ne hexists hb { l with expiration := f.slot }
      exact ⟨_, _, hstill⟩
  · intro u g hg
    by_cases hu : u = t
    · rw [hu, hself] at hg
      cases hg
    · rw [hother u hu] at hg
      exact h.stamps u g hg
  · intro g hg hgD
    rw [hslotted] at hg
    rcases h.stamped g hg hgD with hold | ⟨u, g', hg', hgg'⟩
    · exact .inl (hkept g hg hold)
    · by_cases hu : u = t
      · rw [hu, hp] at hg'
        cases hg'
        rw [← hgg', ← hf.slot_eq h.geared hg hgg']
        exact .inl hset
      · exact .inr ⟨u, g', by rwa [hother u hu], hgg'⟩

/-- A thread that finds the flag clear stamps the bucket. -/
theorem Inv.stamp (h : Inv D s) (hp : s.point t = .setting f)
    (hbucket : s.timer.bucket f.bucket = some l) (setFlag : ℕ → Bool) :
    Inv (D ∪ {(f.bucket, f.slot)}) ({ s with setFlag }.goTo t (.reading f)) := by
  obtain ⟨w, hexists⟩ := bucketAt_of_bucket hbucket
  refine h.move rfl h.geared (.refl _) (fun e he => he) (fun g hg => .inl hg) ?_ nofun ?_ ?_ ?_
    Set.subset_union_left ?_
  · intro g hg
    cases hg
    exact h.slotted t f (by rw [hp]; rfl)
  · rw [hp]
    nofun
  · intro g hg
    cases hg
    exact .inr rfl
  · rw [hp]
    nofun
  · rintro b x (hx | hx)
    · exact .inl hx
    · obtain ⟨rfl, rfl⟩ := Prod.mk.inj hx
      exact .inr ⟨⟨w, l, hexists⟩, f, rfl, rfl⟩

/-- Every other step of a thread keeps the invariant. -/
theorem Inv.work (h : Inv D s) {undef : Bool} (hstep : s.work t undef = some s')
    (hnot : ∀ b x, ¬Stamps b x s (.work t undef)) : Inv D s' := by
  unfold Insertion.work at hstep
  cases hp : s.point t with
  | idle =>
    rw [hp] at hstep
    cases hstep
  | adding id level =>
    rw [hp] at hstep
    obtain ⟨e, -, hstep⟩ := Option.bind_eq_some_iff.mp hstep
    obtain ⟨w, hw, hstep⟩ := Option.bind_eq_some_iff.mp hstep
    obtain ⟨p, hroute, hstep⟩ := Option.bind_eq_some_iff.mp hstep
    cases hstep
    have hsound := h.geared.sound w (List.mem_of_getElem? hw)
    obtain ⟨hlocals, hstamps, hwriting⟩ := route_spec hsound hw hroute
    exact h.goTo rfl rfl rfl (fun g hg => .inl hg) hlocals
      (fun g hg => absurd hg (hwriting g)) (by rw [hp]; nofun) (by rw [hp, hstamps]; rfl)
  | creating id level =>
    rw [hp] at hstep
    obtain ⟨w, hw, hstep⟩ := Option.bind_eq_some_iff.mp hstep
    cases hstep
    have hgrows := grows_addOverflowWheel hw
    refine h.move rfl (h.geared.of_grows hgrows) hgrows ?_ (fun g hg => .inl hg) nofun nofun ?_
      nofun ?_ subset_rfl (fun _ _ hx => .inl hx)
    · intro e he
      show e ∈ (if _ then _ else _ : Timer).delayQueue
      split <;> exact he
    · rw [hp]
      nofun
    · rw [hp]
      nofun
  | linking f =>
    rw [hp] at hstep
    obtain ⟨timer, hlink, hstep⟩ := Option.bind_eq_some_iff.mp hstep
    cases hstep
    have hok : s.timer.link f.bucket f.id = .ok timer := by
      cases hresult : s.timer.link f.bucket f.id with
      | error stuck => rw [hresult] at hlink; cases hlink
      | ok timer' => rw [hresult] at hlink; exact congrArg _ (Option.some.inj hlink)
    obtain ⟨e, l, -, -, ⟨rings, rfl, -⟩, -⟩ := Timer.link_relinked hok
    have hf := h.slotted t f (by rw [hp]; rfl)
    refine h.goTo rfl rfl rfl ?_ ?_ nofun (by rw [hp]; nofun) (by rw [hp]; rfl)
    · intro g hg
      rcases List.mem_cons.mp hg with rfl | hg
      · exact .inr hf
      · exact .inl hg
    · intro g hg
      cases hg
      exact hf
  | setting f =>
    rw [hp] at hstep
    obtain ⟨l, hbucket, hstep⟩ := Option.bind_eq_some_iff.mp hstep
    cases hstep
    cases hflag : s.setFlag l.root with
    | false => exact absurd ⟨f, l, hp, rfl, rfl, hbucket, hflag⟩ (hnot f.bucket f.slot)
    | true =>
      rw [if_pos rfl]
      exact h.goTo rfl rfl rfl (fun g hg => .inl hg)
        (fun g hg => h.slotted t g (by rw [hp]; exact hg)) nofun (by rw [hp]; nofun)
        (by rw [hp]; rfl)
  | reading f =>
    rw [hp] at hstep
    obtain ⟨l, hbucket, hstep⟩ := Option.bind_eq_some_iff.mp hstep
    cases hstep
    obtain ⟨w, hexists⟩ := bucketAt_of_bucket hbucket
    refine h.goTo rfl rfl rfl (fun g hg => .inl hg)
      (fun g hg => h.slotted t g (by rw [hp]; exact hg)) ?_ (by rw [hp]; nofun) (by rw [hp]; rfl)
    rintro g hg
    obtain ⟨rfl, hsame⟩ := Point.writing.inj hg
    exact ⟨w, l, hexists, hsame⟩
  | writing f ori =>
    rw [hp] at hstep
    obtain ⟨l, hbucket, hstep⟩ := Option.bind_eq_some_iff.mp hstep
    cases hstep
    obtain ⟨w, hexists⟩ := bucketAt_of_bucket hbucket
    refine h.write hp hexists rfl ?_ ?_ rfl
    · rw [Insertion.goTo, Timer.setExpiration_eq hexists.1 hbucket]
      rfl
    · rw [Insertion.goTo, Timer.setExpiration_eq hexists.1 hbucket]
      rfl
  | clearing f changed =>
    rw [hp] at hstep
    obtain ⟨l, hbucket, hstep⟩ := Option.bind_eq_some_iff.mp hstep
    cases hstep
    refine h.goTo rfl rfl rfl (fun g hg => .inl hg)
      (fun g hg => h.slotted t g (by rw [hp]; exact hg)) nofun ?_ (by rw [hp]; rfl)
    rw [hp]
    cases changed with
    | true => exact fun b hb => hb
    | false => nofun
  | answered f changed =>
    rw [hp] at hstep
    cases hstep
    cases changed with
    | false =>
      exact h.goTo rfl rfl rfl (fun g hg => .inl hg) nofun nofun (by rw [hp]; nofun)
        (by rw [hp]; rfl)
    | true =>
      refine h.move rfl h.geared (.refl _) ?_ (fun g hg => .inl hg) nofun nofun ?_ nofun ?_
        subset_rfl (fun _ _ hx => .inl hx)
      · intro e he
        exact List.mem_cons_of_mem _ he
      · rw [hp]
        rintro b hb
        cases hb
        exact .inr ⟨_, List.mem_cons_self .., rfl⟩
      · rw [hp]
        nofun
  | returned id added =>
    rw [hp] at hstep
    cases added with
    | true =>
      cases hstep
      exact h.goTo rfl rfl rfl (fun g hg => .inl hg) nofun nofun (by rw [hp]; nofun)
        (by rw [hp]; rfl)
    | false =>
      obtain ⟨e, -, hstep⟩ := Option.bind_eq_some_iff.mp hstep
      cases hstep
      refine h.goTo rfl ?_ ?_ (fun g hg => .inl hg) nofun nofun (by rw [hp]; nofun)
        (by rw [hp]; rfl)
      · show (if _ then _ else _ : Timer).wheels = _
        split <;> rfl
      · show (if _ then _ else _ : Timer).delayQueue = _
        split <;> rfl

/-- Every step keeps the invariant, with the bucket that it stamps. -/
theorem Inv.next (h : Inv D s) {a : Action T} (hstep : next s a = some s') :
    Inv (D ∪ {x | Stamps x.1 x.2 s a}) s' := by
  cases a with
  | add t expiration =>
    have hnone : D ∪ {x | Stamps x.1 x.2 s (.add t expiration)} = D := Set.union_empty D
    rw [hnone]
    unfold Insertion.next at hstep
    dsimp only at hstep
    split_ifs at hstep with hidle
    cases hstep
    exact h.goTo rfl rfl rfl (fun g hg => .inl hg) nofun nofun (by rw [hidle]; nofun)
      (by rw [hidle]; rfl)
  | work t undef =>
    have hstep : s.work t undef = some s' := hstep
    by_cases hstamps : ∃ b x, Stamps b x s (.work t undef)
    · obtain ⟨_, _, f, l, hp, rfl, rfl, hbucket, hflag⟩ := hstamps
      have hone : {x : BucketId × TimeEntry | Stamps x.1 x.2 s (.work t undef)} =
          {(f.bucket, f.slot)} := by
        ext ⟨b, x⟩
        constructor
        · rintro ⟨g, -, hg, rfl, rfl, -⟩
          obtain rfl := Point.setting.inj (hp.symm.trans hg)
          rfl
        · rintro ⟨⟩
          exact ⟨f, l, hp, rfl, rfl, hbucket, hflag⟩
      rw [hone]
      unfold Insertion.work at hstep
      rw [hp] at hstep
      obtain ⟨l', hbucket', hstep⟩ := Option.bind_eq_some_iff.mp hstep
      cases hstep
      obtain rfl := Option.some.inj (hbucket.symm.trans hbucket')
      rw [hflag]
      exact h.stamp hp hbucket _
    · simp only [not_exists] at hstamps
      have hnone : {x : BucketId × TimeEntry | Stamps x.1 x.2 s (.work t undef)} = ∅ :=
        Set.eq_empty_of_forall_notMem fun x => hstamps x.1 x.2
      rw [hnone, Set.union_empty]
      exact h.work hstep hstamps

/-- Every bucket of a timer that has an expiration is in the queue, except for the bucket
whose tasks are being filed again. -/
def Armed (s : Ticker) : Prop :=
  ∀ b x, SetTo s.timer.wheels b x → x ≠ .unset →
    s.flushing = some b ∨ Offered s.timer.delayQueue b

variable {ticker ticker' : Ticker} {tickMs : TimeEntry} {id : EntryId}

/-- Filing a task keeps buckets armed. -/
theorem armed_filed (h : Armed ticker) {e : TimerTaskEntry} (f : ticker.timer.Filing 0 id e b) :
    Armed { ticker with timer := f.result } := by
  have hqueue : ∀ b', Offered ticker.timer.delayQueue b' → Offered f.delayQueue' b' := by
    rintro b' ⟨q, hq, hb⟩
    refine ⟨q, ?_, hb⟩
    rw [Timer.Filing.delayQueue']
    split
    · exact List.mem_cons_of_mem _ hq
    · exact hq
  have hold : ∀ b' x, SetTo f.wheels b' x → x ≠ .unset →
      ticker.flushing = some b' ∨ Offered f.delayQueue' b' := by
    intro b' x hset hx
    exact (h b' x (hset.before_grows f.grows hx) hx).imp_right (hqueue b')
  intro b' x hset hx
  have hset : SetTo (setBucket f.wheels b f.wheel { f.bucket with expiration := f.slot }) b' x :=
    hset
  by_cases hb : b' = b
  · obtain rfl : x = f.slot := (hb ▸ hset).unique (setTo_setBucket f.bucketAt f.slot)
    rw [hb]
    by_cases hchanged : f.slot ≠ f.bucket.expiration
    · refine .inr ⟨⟨e.expiration, b⟩, ?_, rfl⟩
      show _ ∈ f.delayQueue'
      rw [Timer.Filing.delayQueue', if_pos hchanged]
      exact List.mem_cons_self ..
    · exact hold b f.slot ⟨_, _, f.bucketAt, (not_not.mp hchanged).symm⟩ hx
  · exact hold b' x ((setTo_setBucket_of_ne f.bucketAt hb _).mp hset) hx

/-- `addTimerTaskEntry` keeps buckets armed. -/
theorem armed_file (h : Armed ticker) (hclocked : ticker.Clocked tickMs) {fuel : ℕ}
    {overflow : Bool} (hfile : Ticker.file fuel overflow id ticker = .ok ticker') :
    Armed ticker' := by
  obtain ⟨w, hw, -, -⟩ := hclocked.first
  obtain ⟨e, -, ⟨-, rfl⟩ | ⟨-, b, f, ⟨-, rfl⟩ | ⟨-, -, rfl⟩⟩⟩ :=
    Ticker.file_ok hclocked.geared hclocked.tasks hw hfile
  · exact h
  · exact armed_filed h f
  · exact armed_filed h f

/-- Polling a bucket keeps the others armed. -/
theorem armed_poll (h : Armed ticker) (hclocked : ticker.Clocked tickMs) {choice : ℕ}
    (hflushing : ticker.flushing = none) (hpoll : Ticker.poll choice ticker = .ok ticker') :
    Armed ticker' := by
  obtain rfl | ⟨q, l, hq, -, -, hbucket, rfl⟩ := Ticker.poll_ok hpoll
  · exact h
  · obtain ⟨w, -, hnonneg, -⟩ := hclocked.queued_bucket hq hbucket
    rintro b x ⟨w', l', ⟨hw', hl'⟩, hx⟩ hne
    rw [advanceWheels_eq hclocked.geared hnonneg, List.getElem?_map,
      Option.map_eq_some_iff] at hw'
    obtain ⟨w₁, hw₁, rfl⟩ := hw'
    rcases h b x ⟨w₁, l', ⟨hw₁, hl'⟩, hx⟩ hne with hb | ⟨q', hq', hb⟩
    · rw [hflushing] at hb
      cases hb
    · by_cases hsame : q' = q
      · exact .inl (by rw [← hb, hsame])
      · exact .inr ⟨q', (List.mem_erase_of_ne hsame).mpr hq', hb⟩

/-- The bucket whose tasks have all been filed again has no expiration any more. -/
theorem armed_finish (h : Armed ticker) (hflushing : ticker.flushing = some b)
    (hfinish : Ticker.finish b ticker = .ok ticker') : Armed ticker' := by
  obtain ⟨l, hbucket, -, rfl⟩ := Ticker.finish_ok hfinish
  obtain ⟨w, hexists⟩ := bucketAt_of_bucket hbucket
  intro b' x hset hx
  rw [Timer.setExpiration_eq hexists.1 hbucket] at hset ⊢
  have hset : SetTo (setBucket ticker.timer.wheels b w { l with expiration := .unset }) b' x :=
    hset
  by_cases hb : b' = b
  · exact absurd ((hb ▸ hset).unique (setTo_setBucket hexists .unset)) hx
  · refine (h b' x ((setTo_setBucket_of_ne hexists hb _).mp hset) hx).imp_left fun hb' => ?_
    exact absurd (Option.some.inj (hb'.symm.trans hflushing)) hb

/-- Every step of a timer keeps buckets armed. -/
theorem armed_step (h : Armed ticker) (hclocked : ticker.Clocked tickMs) {wheelSize : ℕ}
    {a : TimeEntry × TickerAction}
    (hstep : (Ticker.machine tickMs wheelSize).step ticker a ticker') : Armed ticker' := by
  obtain ⟨fuel, hnext⟩ := hstep
  obtain ⟨hnow, hperform⟩ := Ticker.next_ok hnext
  have hclocked := hclocked.wait hnow
  have h : Armed { ticker with now := a.1 } := h
  obtain ⟨now, action⟩ := a
  cases action with
  | add x overflow =>
    obtain ⟨-, hfile⟩ := Ticker.perform_add hperform
    refine armed_file ?_ (hclocked.withEntry x) hfile
    exact h
  | poll choice =>
    obtain ⟨hflushing, hpoll⟩ := Ticker.perform_poll hperform
    exact armed_poll h hclocked hflushing hpoll
  | refile overflow =>
    obtain ⟨b, -, hrefile⟩ := Ticker.perform_refile hperform
    obtain ⟨l, head, rest, timer, e, list, -, -, hentry, hrelinked, -, hfile⟩ :=
      Ticker.refile_ok hrefile
    have hclocked := hclocked.relinked hentry hrelinked
    obtain ⟨rings, rfl, -⟩ := hrelinked
    refine armed_file ?_ hclocked hfile
    exact h
  | finish =>
    obtain ⟨b, hflushing, hfinish⟩ := Ticker.perform_finish hperform
    exact armed_finish h hflushing hfinish

omit [DecidableEq T] in
/-- The threads begin with the invariant. -/
theorem Begins.inv (h : Begins s) : Inv {x | SetTo s.timer.wheels x.1 x.2} s := by
  obtain ⟨tickMs, wheelSize, ticker, htick, hsize, hreachable, hflushing, rfl⟩ := h
  have hticker : ticker.Clocked tickMs ∧ Armed ticker := by
    refine hreachable.invariant (I := fun u => u.Clocked tickMs ∧ Armed u) ?_ ?_
    · intro u hu
      refine ⟨(Ticker.Clocked.init htick hsize hu).1, ?_⟩
      obtain ⟨startMs, -, rfl⟩ := hu
      rintro b x ⟨w, l, ⟨hw, hl⟩, rfl⟩ hx
      obtain rfl := List.mem_singleton.mp (List.mem_of_getElem? hw)
      rw [List.eq_of_mem_replicate (List.mem_of_getElem? hl)] at hx
      exact absurd rfl hx
    · rintro u a u' ⟨hclocked, harmed⟩ hstep
      exact ⟨(hclocked.step hstep).1, armed_step harmed hclocked hstep⟩
  obtain ⟨hclocked, harmed⟩ := hticker
  constructor
  · exact hclocked.geared
  · nofun
  · nofun
  · nofun
  · intro b x hset hx
    refine (harmed b x hset hx).elim (fun hb => ?_) .inl
    rw [hflushing] at hb
    cases hb
  · exact fun b x hset _ => hset
  · rintro b x ⟨w, l, hbucket, -⟩
    exact ⟨w, l, hbucket⟩
  · nofun
  · exact fun f _ hset => .inl hset

/-- When all calls have returned, no bucket is lost exactly when every bucket that has
received a task had the expiration of the task in the beginning, or one of the calls has
found the flag clear. -/
theorem noneLost_iff_stamped {s₀ s : Insertion T} {trace : List (Insertion T × Action T)}
    (hbegin : machine.init s₀) (hrun : machine.Run s₀ trace s) (hidle : ∀ t, s.point t = .idle) :
    NoneLost s ↔ ∀ f ∈ s.received, SetTo s₀.timer.wheels f.bucket f.slot ∨
      ∃ step ∈ trace, Stamps f.bucket f.slot step.1 step.2 := by
  have hinv := hrun.collect (I := Inv) (E := fun s a => {x | Stamps x.1 x.2 s a})
    (fun D s a t h hstep => h.next hstep) (Begins.inv hbegin)
  constructor
  · intro hnone f hf
    have hne := (hinv.received f hf).slot_ne_unset hinv.geared
    exact hinv.marked _ _ (hnone f hf).1 hne
  · intro hall f hf
    have hslotted := hinv.received f hf
    rcases hinv.stamped f hslotted (hall f hf) with hset | ⟨t, g, hg, -⟩
    · refine ⟨hset, (hinv.armed _ _ hset (hslotted.slot_ne_unset hinv.geared)).resolve_right ?_⟩
      rintro ⟨t, ht⟩
      rw [hidle t] at ht
      cases ht
    · rw [hidle t] at hg
      cases hg

/-- The numerals of the two threads below rest on this instance. -/
local instance neZero_two : NeZero 2 := ⟨two_ne_zero⟩

/-- Two threads and a new timer whose first wheel has three buckets. -/
def newTimer : Insertion (Fin 2) where
  timer := .new 1 3 0

/-- A new timer is between two calls of `flush`. -/
theorem begins_newTimer : Begins newTimer :=
  ⟨1, 3, .start 1 3 0, by decide, by decide, .of_init ⟨0, by decide, rfl⟩, rfl, rfl⟩

/-- Two threads add tasks for two buckets. The second thread links its task before the first
one sets the flag, and sets the flag when the first one has cleared it. -/
def adding : List (Action (Fin 2)) :=
  [.add 0 1, .work 0 false, .work 0 false, .add 1 2, .work 1 false, .work 1 false, .work 0 false,
    .work 0 false, .work 0 false, .work 0 false, .work 1 false, .work 0 false, .work 1 false,
    .work 1 false, .work 1 false, .work 0 false, .work 1 false, .work 1 false]

/-- The state after these steps. -/
def afterAdding : Insertion (Fin 2) := (adding.foldlM next newTimer).getD newTimer

/-- The steps can be taken. -/
theorem afterAdding_eq : adding.foldlM next newTimer = some afterAdding := by
  have hsome : (adding.foldlM next newTimer).isSome = true := by decide +kernel
  exact (Option.getD_of_ne_none (Option.isSome_iff_ne_none.mp hsome) _).symm

/-- Neither of the two buckets is lost. -/
theorem noneLost_iff_stamped_adding :
    machine.Run newTimer (Machine.traceOf next newTimer adding) afterAdding ∧
      afterAdding.received = [⟨1, 2, ⟨0, 2⟩, 2⟩, ⟨0, 1, ⟨0, 1⟩, 1⟩] ∧ NoneLost afterAdding := by
  have hrun : machine.Run newTimer (Machine.traceOf next newTimer adding) afterAdding :=
    .of_foldlM afterAdding_eq
  have hreceived : afterAdding.received = [⟨1, 2, ⟨0, 2⟩, 2⟩, ⟨0, 1, ⟨0, 1⟩, 1⟩] := by
    decide +kernel
  refine ⟨hrun, hreceived, ?_⟩
  refine (noneLost_iff_stamped begins_newTimer hrun (by decide +kernel)).mpr ?_
  rw [hreceived, List.forall_mem_cons, List.forall_mem_singleton]
  constructor
  · exact .inr ⟨_, List.mem_of_getElem? (i := 10) rfl, _, _, rfl, rfl, rfl, rfl, rfl⟩
  · exact .inr ⟨_, List.mem_of_getElem? (i := 6) rfl, _, _, rfl, rfl, rfl, rfl, rfl⟩

/-- While a thread has set the flag for one bucket, another thread adds a task for another
bucket of the wheel. -/
def overlapping : List (Action (Fin 2)) :=
  [.add 0 1, .work 0 false, .work 0 false, .work 0 false,
    .add 1 2, .work 1 false, .work 1 false, .work 1 false, .work 1 false, .work 1 false,
    .work 0 false, .work 0 false, .work 0 false, .work 0 false, .work 0 false]

/-- The state after these steps. -/
def afterOverlapping : Insertion (Fin 2) := (overlapping.foldlM next newTimer).getD newTimer

/-- The steps can be taken. -/
theorem afterOverlapping_eq : overlapping.foldlM next newTimer = some afterOverlapping := by
  have hsome : (overlapping.foldlM next newTimer).isSome = true := by decide +kernel
  exact (Option.getD_of_ne_none (Option.isSome_iff_ne_none.mp hsome) _).symm

/-- The other bucket is lost: it has received a task, but will not be polled. -/
theorem overlapping_not_noneLost :
    machine.Reachable afterOverlapping ∧ (∀ t, afterOverlapping.point t = .idle) ∧
      ¬NoneLost afterOverlapping := by
  have hreachable : machine.Reachable newTimer := .of_init begins_newTimer
  refine ⟨hreachable.of_foldlM afterOverlapping_eq, by decide +kernel, fun hnone => ?_⟩
  have hall : ∀ f ∈ afterOverlapping.received,
      ∃ e ∈ afterOverlapping.timer.delayQueue, e.bucket = f.bucket := fun f hf => (hnone f hf).2
  exact absurd hall (by decide +kernel)

end Insertion

end DuoDuo.Timers
