import DuoDuo.Timers.Links

/-!
# Which buckets a flush empties

`flush` takes the entries behind its root one after the other until there is none. All
buckets of the wheel have this root. So it takes the entries of the other buckets as
well, and an entry that is filed in the same wheel again comes back behind the same root.
The flush handles its own bucket exactly if all entries behind the root belong to the
bucket and leave the wheel.
-/

namespace DuoDuo.Timers

open Library

/-- The wheels remain as they are, but for their buckets. -/
def Keeps (ws ws' : List TimingWheel) : Prop :=
  ∀ (level : ℕ) (w : TimingWheel), ws[level]? = some w →
    ∃ buckets, ws'[level]? = some { w with buckets }

section Keeps

variable {ws ws' ws'' : List TimingWheel} {b : BucketId} {w : TimingWheel} {l : TimerTaskList}
  {x : TimeEntry}

theorem Keeps.refl (ws : List TimingWheel) : Keeps ws ws := fun _ w hw => ⟨w.buckets, hw⟩

theorem Keeps.of_grows (h : Grows ws ws') : Keeps ws ws' :=
  fun _ w hw => ⟨w.buckets, h.getElem? hw⟩

theorem Keeps.setBucket (h : BucketAt ws b w l) (l' : TimerTaskList) :
    Keeps ws (setBucket ws b w l') := fun _ _ hw => h.getElem?_setBucket hw l'

theorem Keeps.trans (h : Keeps ws ws') (h' : Keeps ws' ws'') : Keeps ws ws'' := by
  intro level w hw
  obtain ⟨buckets, hw'⟩ := h level w hw
  obtain ⟨buckets', hw''⟩ := h' level _ hw'
  exact ⟨buckets', hw''⟩

/-- A task that has its place keeps it, since only the times of the wheels matter. -/
theorem Keeps.place {level : ℕ} (h : Keeps ws ws') (hplace : place x ws level = some b) :
    place x ws' level = some b := by
  induction ws generalizing ws' level with
  | nil => cases hplace
  | cons w ws ih =>
    obtain ⟨buckets, hw⟩ := h 0 w rfl
    cases ws' with
    | nil => cases hw
    | cons w' ws' =>
      obtain rfl : w' = { w with buckets } := by simpa using hw
      rw [DuoDuo.Timers.place] at hplace ⊢
      split at hplace
      · cases hplace
      · next hlate =>
        rw [if_neg hlate]
        split at hplace
        · next hfits => rw [if_pos hfits]; exact hplace
        · next hbeyond =>
          rw [if_neg hbeyond]
          exact ih (fun i w hw => h (i + 1) w hw) hplace

/-- The task is due on the first wheel. -/
def Due (ws : List TimingWheel) (x : TimeEntry) : Prop :=
  ∀ w ∈ ws.head?, x < w.currentTime + w.tickMs

/-- A task that is due stays so. -/
theorem Due.keeps (h : Due ws x) (hfirst : 0 < ws.length) (hkeeps : Keeps ws ws') : Due ws' x := by
  intro w' hw'
  obtain ⟨buckets, hw⟩ := hkeeps 0 _ (List.getElem?_eq_getElem hfirst)
  rw [List.head?_eq_getElem?, hw] at hw'
  obtain rfl := Option.some.inj hw'
  exact h ws[0] (by rw [List.head?_eq_getElem?, List.getElem?_eq_getElem hfirst]; rfl)

/-- A task that is due has no place. -/
theorem Due.place (h : Due ws x) : DuoDuo.Timers.place x ws 0 = none := by
  cases ws with
  | nil => rfl
  | cons w ws => rw [DuoDuo.Timers.place, if_pos (h w rfl)]

end Keeps

/-- A task that is not due has a place, if it expires within the range of some wheel, on that
wheel or below. -/
theorem exists_place {ws : List TimingWheel} {w w' : TimingWheel} {x : TimeEntry} {level i : ℕ}
    (hgeared : Geared ws) (hw : ws[level]? = some w) (hlate : w.currentTime + w.tickMs ≤ x)
    (hw' : ws[level + i]? = some w') (hx : x < w'.currentTime + w'.interval) :
    ∃ b, place x (ws.drop level) level = some b ∧ b.level ≤ level + i := by
  induction i generalizing level w with
  | zero =>
    obtain rfl := Option.some.inj (hw.symm.trans hw')
    exact ⟨_, place_here hw hlate hx, le_rfl⟩
  | succ i ih =>
    rcases lt_or_ge x (w.currentTime + w.interval) with hfits | hbeyond
    · exact ⟨_, place_here hw hlate hfits, Nat.le_add_right ..⟩
    · obtain ⟨hlt, -⟩ := List.getElem?_eq_some_iff.mp hw'
      have hover := List.getElem?_eq_getElem (show level + 1 < ws.length by omega)
      have hsound := hgeared.sound _ (List.mem_of_getElem? hover)
      have hnot := (hgeared.meshes_succ hw hover).not_due hsound hbeyond
      obtain ⟨b, hb, hlevel⟩ := ih hover hnot (by rw [← hw']; congr 1; omega)
      exact ⟨b, (place_above hw hlate hbeyond).trans hb, by omega⟩

namespace Timer

/-- The entry is linked once, behind the root of the bucket to which it points. -/
def FiledIn (t : Timer) (b : BucketId) (id : EntryId) : Prop :=
  ∃ e l, t.entries id = some e ∧ e.list = some b ∧ t.bucket b = some l ∧
    ∀ root, (t.rings root).count id = if root = l.root then 1 else 0

/-- The values that the overflow branch of `TimingWheel::add`, which has no return
statement, may yield: any, or only `true` if this is sure. -/
def Yields (sure : Bool) (undef : ℕ → Bool) : Prop := sure = true → ∀ n, undef n = true

/-- What a flush of a bucket should do. -/
structure Flushed (t : Timer) (b : BucketId) (t' : Timer) : Prop where
  /-- Every entry of the bucket is handed over, or filed in another bucket. -/
  own : ∀ id, t.FiledIn b id →
    (t'.threadPool.count id = t.threadPool.count id + 1 ∧ ∀ root, id ∉ t'.rings root) ∨
    (t'.threadPool.count id = t.threadPool.count id ∧ ∃ b', b' ≠ b ∧ t'.FiledIn b' id)
  reset : ∃ l, t'.bucket b = some l ∧ l.expiration = .unset
  /-- The entries of other buckets stay where they are. -/
  others : ∀ b', b' ≠ b → ∀ id, t.FiledIn b' id →
    t'.FiledIn b' id ∧ t'.threadPool.count id = t.threadPool.count id

/-- The flush of the bucket ends and does what it should, whatever the overflow branch may
yield. -/
def FlushesOwn (sure : Bool) (t : Timer) (b : BucketId) : Prop :=
  ∀ undef, Yields sure undef →
    ∃ fuel t', t.flush undef fuel b = .ok t' ∧ t.Flushed b t'

/-- A task leaves the wheel of the bucket: it is due, or the wheels place it on another
wheel, the list of which does not end in a deleted entry. That wheel is the first one,
unless the overflow branch is sure to yield true. -/
def Leaves (sure : Bool) (t : Timer) (b : BucketId) (x : TimeEntry) : Prop :=
  Due t.wheels x ∨
    ∃ b', place x t.wheels 0 = some b' ∧ b'.level ≠ b.level ∧ (b'.level = 0 ∨ sure = true) ∧
      ∀ tail ∈ (t.rings b'.level).getLast?, (t.entries tail).isSome = true

/-- All entries behind the root of the bucket belong to the bucket, and leave its wheel. -/
def OnlyOwn (sure : Bool) (t : Timer) (b : BucketId) : Prop :=
  ∀ l ∈ t.bucket b, ∀ id ∈ t.rings l.root, ∃ e, t.entries id = some e ∧ e.list = some b ∧
    t.Leaves sure b e.expiration

variable {t t' t₁ : Timer} {id head : EntryId} {e : TimerTaskEntry} {b b' : BucketId}
  {undef : ℕ → Bool} {fuel : ℕ} {rest : List EntryId}

/-- One iteration of the loop of `flush`. -/
def iterate (undef : ℕ → Bool) (fuel : ℕ) (b : BucketId) (head : EntryId) (t : Timer) :
    Except Stuck Timer := do
  let t ← t.removeFrom b head
  addTimerTaskEntry undef fuel head t

/-- The loop takes the first entry behind the root. -/
theorem flushLoop_cons {l : TimerTaskList} (hbucket : t.bucket b = some l)
    (hring : t.rings l.root = head :: rest) :
    flushLoop undef (fuel + 1) b t =
      (t.iterate undef fuel b head >>= fun t => flushLoop undef fuel b t) := by
  rw [flushLoop, bucketAt, hbucket]
  simp only [bind, Except.bind, hring, iterate]
  cases t.removeFrom b head with
  | error stuck => rfl
  | ok t₀ => rfl

/-- The loop ends when there is no entry behind the root. -/
theorem flushLoop_nil {l : TimerTaskList} (hbucket : t.bucket b = some l)
    (hring : t.rings l.root = []) : flushLoop undef (fuel + 1) b t = .ok t := by
  rw [flushLoop, bucketAt, hbucket]
  simp only [bind, Except.bind, hring]
  rfl

/-- The entry that an iteration takes is alive. It is unlinked if it belongs to the bucket.
Then it is handed over if it is due, and else filed. -/
theorem Linked.iterate_cases (h : t.Linked) (hok : t.iterate undef fuel b head = .ok t₁) :
    ∃ e t₀ e₀, t.entries head = some e ∧ t₀.Linked ∧ t₀.entries head = some e₀ ∧
      e₀.expiration = e.expiration ∧
      ((e.list = some b ∧ e₀.list = none ∧ ∃ rings, Unlinked t.wheels t.rings head (some b) rings ∧
          t₀ = { t with rings, entries := Function.update t.entries head (some e₀) }) ∨
        (e.list ≠ some b ∧ t₀ = t)) ∧
      ∃ w, t.wheels[0]? = some w ∧
        ((e.expiration < w.currentTime + w.tickMs ∧ t₁ = t₀.handOver head) ∨
          (w.currentTime + w.tickMs ≤ e.expiration ∧ ∃ b', ∃ f : t₀.Filing 0 head e₀ b',
            f.Links ∧ t₁ = if b'.level = 0 ∨ undef (f.result.overflows - 1) = true then f.result
              else f.result.handOver head)) := by
  rw [iterate] at hok
  cases hremove : t.removeFrom b head with
  | error stuck => rw [hremove] at hok; cases hok
  | ok t₀ =>
    rw [hremove] at hok
    have h₀ := h.removeFrom hremove
    obtain ⟨e₀, hentry₀, w, hw, hcases⟩ := h₀.addTimerTaskEntry_cases hok
    obtain ⟨e, hentry, ⟨hlist, rings, hunlinked, ht₀⟩ | ⟨hlist, rfl⟩⟩ := removeFrom_spec hremove
    · have hsame : { e with list := none } = e₀ := by
        rw [ht₀] at hentry₀
        simpa using hentry₀
      rw [hlist] at hunlinked
      refine ⟨e, t₀, e₀, hentry, h₀, hentry₀, hsame ▸ rfl,
        .inl ⟨hlist, hsame ▸ rfl, rings, hunlinked, hsame ▸ ht₀⟩, w, ?_, ?_⟩
      · rw [ht₀] at hw
        exact hw
      · rw [← show e₀.expiration = e.expiration from hsame ▸ rfl]
        exact hcases
    · obtain rfl : e = e₀ := Option.some.inj (hentry.symm.trans hentry₀)
      exact ⟨e, t₀, e, hentry, h₀, hentry, rfl, .inr ⟨hlist, rfl⟩, w, hw, hcases⟩

/-- What an iteration leaves alone: the times of the wheels, and all entries but one. -/
structure Spares (head : EntryId) (t t₁ : Timer) : Prop where
  keeps : Keeps t.wheels t₁.wheels
  entries : ∀ id, id ≠ head → t₁.entries id = t.entries id
  mem_rings : ∀ id, id ≠ head → ∀ root, id ∈ t₁.rings root ↔ id ∈ t.rings root
  count : ∀ id, id ≠ head → t₁.threadPool.count id = t.threadPool.count id

/-- Handing an entry over spares the others. -/
theorem Spares.handOver (h : Spares head t t₁) : Spares head t (t₁.handOver head) where
  keeps := h.keeps
  entries := by
    intro id hne
    rw [← h.entries id hne]
    exact Function.update_of_ne hne ..
  mem_rings := h.mem_rings
  count := by
    intro id hne
    rw [← h.count id hne]
    show (t₁.threadPool ++ [head]).count id = _
    rw [List.count_append, List.count_singleton, if_neg (by simpa using hne.symm), Nat.add_zero]

/-- Filing an entry spares the others. -/
theorem Filing.spares (f : t.Filing 0 head e b') : Spares head t f.result where
  keeps := (Keeps.of_grows f.grows).trans (Keeps.setBucket f.bucketAt _)
  entries := fun _ hne => Function.update_of_ne hne ..
  mem_rings := fun id hne root => f.mem_rings root id hne
  count := fun _ _ => rfl

/-- Unlinking an entry spares the others. -/
theorem spares_unlinked {rings : ℕ → List EntryId} {list : Option BucketId}
    (h : Unlinked t.wheels t.rings head list rings) (e₀ : TimerTaskEntry) :
    Spares head t
      { t with rings, entries := Function.update t.entries head (some e₀) } where
  keeps := .refl t.wheels
  entries := fun _ hne => Function.update_of_ne hne ..
  mem_rings := fun _ hne root => h.mem_iff root hne
  count := fun _ _ => rfl

theorem Spares.trans {t₂ : Timer} (h : Spares head t t₁) (h' : Spares head t₁ t₂) :
    Spares head t t₂ where
  keeps := h.keeps.trans h'.keeps
  entries := fun id hne => (h'.entries id hne).trans (h.entries id hne)
  mem_rings := fun id hne root => (h'.mem_rings id hne root).trans (h.mem_rings id hne root)
  count := fun id hne => (h'.count id hne).trans (h.count id hne)

/-- An iteration keeps the links, and spares all entries but the one that it takes. -/
theorem Linked.iterate (h : t.Linked) (hok : t.iterate undef fuel b head = .ok t₁) :
    t₁.Linked ∧ Spares head t t₁ := by
  obtain ⟨e, t₀, e₀, -, h₀, hentry₀, -, hstart, w, -, hend⟩ := h.iterate_cases hok
  have hspares₀ : Spares head t t₀ := by
    rcases hstart with ⟨-, -, rings, hunlinked, rfl⟩ | ⟨-, rfl⟩
    · exact spares_unlinked hunlinked e₀
    · exact ⟨.refl _, fun _ _ => rfl, fun _ _ _ => Iff.rfl, fun _ _ => rfl⟩
  rcases hend with ⟨-, rfl⟩ | ⟨-, b', f, hlinks, rfl⟩
  · refine ⟨h₀.handOver head, hspares₀.trans (Spares.handOver ?_)⟩
    exact ⟨.refl _, fun _ _ => rfl, fun _ _ _ => Iff.rfl, fun _ _ => rfl⟩
  · have hresult := h₀.result hentry₀ f hlinks
    have hspares := hspares₀.trans f.spares
    split
    · exact ⟨hresult, hspares⟩
    · exact ⟨hresult.handOver head, hspares.handOver⟩

/-- An entry behind the root of a bucket that no iteration takes away from there: it has
been deleted, or it is placed on the same wheel. -/
def Stays (t : Timer) (b : BucketId) (id : EntryId) : Prop :=
  id ∈ t.rings b.level ∧ ∀ e, t.entries id = some e →
    ∃ b', place e.expiration t.wheels 0 = some b' ∧ b'.level = b.level

/-- Such an entry stays. -/
theorem Stays.iterate (hlinked : t.Linked) (h : t.Stays b id)
    (hok : t.iterate undef fuel b head = .ok t₁) : t₁.Stays b id := by
  obtain ⟨-, hspares⟩ := hlinked.iterate hok
  obtain ⟨hmem, hplace⟩ := h
  by_cases hid : id = head
  · subst hid
    obtain ⟨e, t₀, e₀, hentry, h₀, hentry₀, hsame, hstart, w, hw, hend⟩ :=
      hlinked.iterate_cases hok
    obtain ⟨b', hb', hlevel⟩ := hplace e hentry
    rcases hend with ⟨hdue, -⟩ | ⟨-, b'', f, hlinks, ht₁⟩
    · rw [place_due hw hdue] at hb'
      cases hb'
    · have hwheels : t₀.wheels = t.wheels := by
        rcases hstart with ⟨-, -, rings, -, rfl⟩ | ⟨-, rfl⟩ <;> rfl
      obtain rfl : b' = b'' := f.placed_eq (by rw [hsame, hwheels]; exact hb')
      have hrings : t₁.rings = f.rings := by
        rw [ht₁]
        split <;> rfl
      constructor
      · rw [hrings, h₀.mem_filed_iff hentry₀ f hlinks, hlevel]
      · intro e' hentry'
        have hexp : e'.expiration = e.expiration := by
          rw [← hsame]
          rw [ht₁] at hentry'
          split at hentry'
          · have hresult : f.result.entries id = some { e₀ with list := some b' } :=
              Function.update_self ..
            obtain rfl := Option.some.inj (hresult.symm.trans hentry')
            rfl
          · simp [Timer.handOver, setEntry] at hentry'
        refine ⟨b', ?_, hlevel⟩
        rw [hexp]
        exact hspares.keeps.place hb'
  · refine ⟨(hspares.mem_rings id hid _).mpr hmem, fun e hentry => ?_⟩
    rw [hspares.entries id hid] at hentry
    obtain ⟨b', hb', hlevel⟩ := hplace e hentry
    exact ⟨b', hspares.keeps.place hb', hlevel⟩

/-- The bucket keeps its place and its root. -/
theorem Linked.bucket_root (h : t.Linked) {l : TimerTaskList} (hbucket : t.bucket b = some l) :
    l.root = b.level := by
  obtain ⟨w, hw⟩ := bucketAt_of_bucket hbucket
  exact h.fitted.root_eq hw

/-- The loop of `flush` does not end while such an entry is there. -/
theorem Stays.flushLoop (hlinked : t.Linked) (h : t.Stays b id) :
    flushLoop undef fuel b t ≠ .ok t' := by
  induction fuel generalizing t with
  | zero => exact nofun
  | succ fuel ih =>
    intro hok
    cases hbucket : t.bucket b with
    | none =>
      rw [Timer.flushLoop, bucketAt, hbucket] at hok
      cases hok
    | some l =>
      have hroot := hlinked.bucket_root hbucket
      have hmem := h.1
      rw [← hroot] at hmem
      cases hring : t.rings l.root with
      | nil =>
        rw [hring] at hmem
        cases hmem
      | cons head rest =>
        rw [flushLoop_cons hbucket hring] at hok
        cases hstep : t.iterate undef fuel b head with
        | error stuck => rw [hstep] at hok; cases hok
        | ok t₁ =>
          rw [hstep] at hok
          exact ih (hlinked.iterate hstep).1 (h.iterate hlinked hstep) hok

/-- An entry of the bucket that is due has been handed over. -/
structure Fired (b : BucketId) (head : EntryId) (e : TimerTaskEntry) (t t₁ : Timer) : Prop where
  due : Due t.wheels e.expiration
  entry : t₁.entries head = none
  count : t₁.threadPool.count head = t.threadPool.count head + 1
  rings : ∀ root, root ≠ b.level → t₁.rings root = t.rings root

/-- An entry of the bucket has been filed on another wheel. It has been handed over all the
same, if the overflow branch has yielded false. -/
structure Refiled (undef : ℕ → Bool) (b : BucketId) (head : EntryId) (e : TimerTaskEntry)
    (b' : BucketId) (t t₁ : Timer) : Prop where
  placed : place e.expiration t.wheels 0 = some b'
  level_ne : b'.level ≠ b.level
  tail : ∀ tail ∈ (t.rings b'.level).getLast?, (t.entries tail).isSome = true
  mem_rings : ∀ root, head ∈ t₁.rings root ↔ root = b'.level
  outcome : ((b'.level = 0 ∨ ∃ n, undef n = true) ∧
      t₁.entries head = some { e with list := some b' } ∧
      t₁.threadPool.count head = t.threadPool.count head) ∨
    (b'.level ≠ 0 ∧ (∃ n, undef n = false) ∧ t₁.entries head = none ∧
      t₁.threadPool.count head = t.threadPool.count head + 1)

/-- An iteration has filed an entry of the bucket on another wheel. -/
structure Moved (undef : ℕ → Bool) (b : BucketId) (head : EntryId) (e : TimerTaskEntry)
    (b' : BucketId) (t t₁ : Timer) : Prop extends Refiled undef b head e b' t t₁ where
  appended : t₁.rings b'.level = t.rings b'.level ++ [head]
  rings : ∀ root, root ≠ b.level → root ≠ b'.level → t₁.rings root = t.rings root

/-- A task that is handed over is counted once more. -/
theorem handOver_count (t : Timer) (id : EntryId) :
    (t.handOver id).threadPool.count id = t.threadPool.count id + 1 := by
  show (t.threadPool ++ [id]).count id = _
  rw [List.count_append, List.count_singleton_self]

/-- An entry that points to a bucket has a place, unless it is due. -/
theorem Linked.exists_place (h : t.Linked) (hentry : t.entries id = some e)
    (hlist : e.list = some b) {w : TimingWheel} (hw : t.wheels[0]? = some w)
    (hlate : w.currentTime + w.tickMs ≤ e.expiration) :
    ∃ b', place e.expiration t.wheels 0 = some b' ∧ b'.level ≤ b.level := by
  obtain ⟨-, w', hw', hx, -⟩ := h.filed id e b hentry hlist
  rw [← Nat.zero_add b.level] at hw' ⊢
  exact DuoDuo.Timers.exists_place h.geared hw hlate hw' hx

/-- An iteration takes an entry of the bucket from the list, if it does not come back. -/
theorem Linked.iterate_own (h : t.Linked) (hring : t.rings b.level = head :: rest)
    (hentry : t.entries head = some e) (hlist : e.list = some b)
    (hleaves : ∀ b', place e.expiration t.wheels 0 = some b' → b'.level ≠ b.level)
    (hok : t.iterate undef fuel b head = .ok t₁) :
    t₁.rings b.level = rest ∧ (Fired b head e t t₁ ∨ ∃ b', Moved undef b head e b' t t₁) := by
  obtain ⟨e', t₀, e₀, hentry', h₀, hentry₀, hsame, hstart, w, hw, hend⟩ := h.iterate_cases hok
  obtain rfl := Option.some.inj (hentry.symm.trans hentry')
  obtain ⟨-, hlist₀, rings, ⟨w', l, hbucket, rfl⟩, ht₀⟩ :=
    hstart.resolve_right fun hother => hother.1 hlist
  have hroot : l.root = b.level := h.fitted.root_eq hbucket
  have hself : t₀.rings b.level = rest := by
    rw [ht₀]
    dsimp only
    rw [hroot, Function.update_self, hring, List.erase_cons_head]
  have hother : ∀ root, root ≠ b.level → t₀.rings root = t.rings root := by
    intro root hne
    rw [ht₀]
    dsimp only
    rw [hroot, Function.update_of_ne hne]
  have hpool : t₀.threadPool = t.threadPool := by rw [ht₀]
  rcases hend with ⟨hdue, rfl⟩ | ⟨hlate, b', f, hlinks, rfl⟩
  · refine ⟨hself, .inl ⟨fun w' hw' => ?_, Function.update_self .., ?_, hother⟩⟩
    · rw [List.head?_eq_getElem?, hw] at hw'
      exact (Option.some.inj hw') ▸ hdue
    · rw [handOver_count, hpool]
  · obtain ⟨c, hplace, -⟩ := h.exists_place hentry hlist hw hlate
    have hwheels : t₀.wheels = t.wheels := by rw [ht₀]
    obtain rfl : c = b' := f.placed_eq (by rw [hsame, hwheels]; exact hplace)
    have hne := hleaves c hplace
    have hlinks' := hlinks
    obtain ⟨rings, hunlinked, htail, hrings⟩ := hlinks
    rw [hlist₀] at hunlinked
    obtain rfl := hunlinked
    rw [h₀.root_eq f] at htail hrings
    have hfiled : ∀ root, root ≠ c.level → f.rings root = t₀.rings root := by
      intro root hroot'
      rw [hrings, Function.update_of_ne hroot']
    have happended : f.rings c.level = t.rings c.level ++ [head] := by
      rw [hrings, Function.update_self, hother c.level hne]
    have hfinal : ∀ root, (if c.level = 0 ∨ undef (f.result.overflows - 1) = true then f.result
        else f.result.handOver head).rings root = f.rings root := by
      intro root
      split <;> rfl
    refine ⟨by rw [hfinal, hfiled _ hne.symm, hself],
      .inr ⟨c, ⟨hplace, hne, ?_, fun root => ?_, ?_⟩, ?_, ?_⟩⟩
    · intro tail hmem
      rw [← hother c.level hne] at hmem
      have halive := htail tail hmem
      by_cases hid : tail = head
      · rw [hid, hentry]
        rfl
      · rw [ht₀] at halive
        dsimp only at halive
        rwa [Function.update_of_ne hid] at halive
    · rw [hfinal, h₀.mem_filed_iff hentry₀ f hlinks']
    · by_cases hkept : c.level = 0 ∨ undef (f.result.overflows - 1) = true
      · left
        rw [if_pos hkept]
        refine ⟨hkept.imp_right fun hyields => ⟨_, hyields⟩, ?_, by rw [← hpool]; rfl⟩
        have hresult : f.result.entries head = some { e₀ with list := some c } :=
          Function.update_self ..
        have hfields : ({ e₀ with list := some c } : TimerTaskEntry) =
            { e with list := some c } := by
          have htask := (h.tasks head e hentry).1
          have htask₀ := (h₀.tasks head e₀ hentry₀).1
          rw [TimerTaskEntry.mk.injEq]
          exact ⟨hsame, rfl, htask₀.trans htask.symm⟩
        rw [hresult, hfields]
      · right
        rw [if_neg hkept]
        rw [not_or] at hkept
        exact ⟨hkept.1, ⟨_, Bool.eq_false_of_not_eq_true hkept.2⟩, Function.update_self ..,
          by rw [handOver_count, ← hpool]; rfl⟩
    · rw [hfinal, happended]
    · intro root hb hc
      rw [hfinal, hfiled root hc, hother root hb]

/-- A task leaves the wheel of the bucket if it is filed again: it is due, or it is placed on
another wheel. -/
def Goes (ws : List TimingWheel) (b : BucketId) (x : TimeEntry) : Prop :=
  Due ws x ∨ ∃ b', place x ws 0 = some b' ∧ b'.level ≠ b.level

theorem Goes.keeps {ws ws' : List TimingWheel} {x : TimeEntry} (h : Goes ws b x)
    (hfirst : 0 < ws.length) (hkeeps : Keeps ws ws') : Goes ws' b x := by
  rcases h with hdue | ⟨b', hplace, hne⟩
  · exact .inl (hdue.keeps hfirst hkeeps)
  · exact .inr ⟨b', hkeeps.place hplace, hne⟩

theorem Goes.level_ne {ws : List TimingWheel} {x : TimeEntry} (h : Goes ws b x)
    (hplace : place x ws 0 = some b') : b'.level ≠ b.level := by
  rcases h with hdue | ⟨c, hc, hne⟩
  · rw [hdue.place] at hplace
    cases hplace
  · obtain rfl := Option.some.inj (hplace.symm.trans hc)
    exact hne

/-- Whether a task that leaves the wheel is due, and where its place is, does not change. -/
theorem Goes.of_keeps {ws ws' : List TimingWheel} {x : TimeEntry} (h : Goes ws b x)
    (hfirst : 0 < ws.length) (hkeeps : Keeps ws ws') :
    (Due ws' x → Due ws x) ∧ (∀ b', place x ws' 0 = some b' → place x ws 0 = some b') := by
  rcases h with hdue | ⟨c, hc, -⟩
  · refine ⟨fun _ => hdue, fun b' hplace => ?_⟩
    rw [(hdue.keeps hfirst hkeeps).place] at hplace
    cases hplace
  · have hc' := hkeeps.place hc
    refine ⟨fun hdue => ?_, fun b' hplace => ?_⟩
    · rw [hdue.place] at hc'
      cases hc'
    · rw [hc, ← hc', hplace]

/-- The bucket remains while the wheels do. -/
theorem Linked.bucket_of_keeps (h : t.Linked) (h₁ : t₁.Linked)
    (hkeeps : Keeps t.wheels t₁.wheels) {l : TimerTaskList} (hbucket : t.bucket b = some l) :
    ∃ l₁, t₁.bucket b = some l₁ := by
  obtain ⟨w, hw, hl⟩ := bucketAt_of_bucket hbucket
  obtain ⟨buckets, hw₁⟩ := hkeeps b.level w hw
  obtain ⟨hlt, -⟩ := List.getElem?_eq_some_iff.mp hl
  have hlength := (h.fitted b.level w hw).1
  have hlength₁ : buckets.length = w.wheelSize := (h₁.fitted b.level _ hw₁).1
  refine ⟨buckets.get ⟨b.index, by omega⟩, ?_⟩
  rw [bucket, hw₁]
  exact List.getElem?_eq_getElem _

/-- What the loop of `flush` does to a bucket whose entries leave its wheel. -/
structure Drained (undef : ℕ → Bool) (b : BucketId) (t t' : Timer) : Prop where
  linked : t'.Linked
  keeps : Keeps t.wheels t'.wheels
  empty : t'.rings b.level = []
  entries : ∀ id, id ∉ t.rings b.level → t'.entries id = t.entries id
  count : ∀ id, id ∉ t.rings b.level → t'.threadPool.count id = t.threadPool.count id
  mem_rings : ∀ id, id ∉ t.rings b.level → ∀ root, id ∈ t'.rings root ↔ id ∈ t.rings root
  own : ∀ id ∈ t.rings b.level, ∀ e, t.entries id = some e →
    (Due t.wheels e.expiration ∧ t'.entries id = none ∧
      t'.threadPool.count id = t.threadPool.count id + 1 ∧ ∀ root, id ∉ t'.rings root) ∨
    ∃ b', Refiled undef b id e b' t t'

/-- The entries of a bucket that remain after an iteration leave the wheel as well. -/
theorem Spares.goes (h : Spares head t t₁) (hfirst : 0 < t.wheels.length)
    (hring : t.rings b.level = head :: rest) (hnodup : (t.rings b.level).Nodup)
    (hown : ∀ id ∈ t.rings b.level, ∃ e, t.entries id = some e ∧ e.list = some b ∧
      Goes t.wheels b e.expiration) :
    ∀ id ∈ rest, id ≠ head ∧ ∃ e, t₁.entries id = some e ∧ e.list = some b ∧
      Goes t₁.wheels b e.expiration := by
  intro id hmem
  rw [hring, List.nodup_cons] at hnodup
  have hne : id ≠ head := fun heq => hnodup.1 (heq ▸ hmem)
  obtain ⟨e, hentry, hlist, hgoes⟩ := hown id (by rw [hring]; exact List.mem_cons_of_mem _ hmem)
  exact ⟨hne, e, (h.entries id hne).trans hentry, hlist, hgoes.keeps hfirst h.keeps⟩

/-- What an iteration does to the first entry, and the rest of the loop to the others. -/
theorem Drained.cons (h : t.Linked) (hring : t.rings b.level = head :: rest)
    (hown : ∀ id ∈ t.rings b.level, ∃ e, t.entries id = some e ∧ e.list = some b ∧
      Goes t.wheels b e.expiration)
    (hrest : t₁.rings b.level = rest) (hspares : Spares head t t₁)
    (hentry : t.entries head = some e)
    (hhead : Fired b head e t t₁ ∨ ∃ b', Moved undef b head e b' t t₁)
    (hd : Drained undef b t₁ t') : Drained undef b t t' := by
  have hnodup := h.nodup b.level
  rw [hring, List.nodup_cons] at hnodup
  have hfresh : head ∉ t₁.rings b.level := hrest ▸ hnodup.1
  have hnotRest : ∀ id, id ∉ t.rings b.level → id ≠ head ∧ id ∉ t₁.rings b.level := by
    intro id hid
    rw [hring, List.mem_cons, not_or] at hid
    exact ⟨hid.1, hrest ▸ hid.2⟩
  refine ⟨hd.linked, hspares.keeps.trans hd.keeps, hd.empty, fun id hid => ?_, fun id hid => ?_,
    fun id hid root => ?_, fun id hmem e' hentry' => ?_⟩
  · obtain ⟨hne, hid⟩ := hnotRest id hid
    rw [hd.entries id hid, hspares.entries id hne]
  · obtain ⟨hne, hid⟩ := hnotRest id hid
    rw [hd.count id hid, hspares.count id hne]
  · obtain ⟨hne, hid⟩ := hnotRest id hid
    rw [hd.mem_rings id hid root, hspares.mem_rings id hne root]
  · rw [hring, List.mem_cons] at hmem
    rcases hmem with rfl | hmem
    · obtain rfl := Option.some.inj (hentry.symm.trans hentry')
      rcases hhead with hfired | ⟨b', hmoved⟩
      · left
        refine ⟨hfired.due, (hd.entries id hfresh).trans hfired.entry,
          (hd.count id hfresh).trans hfired.count, fun root hmem => ?_⟩
        rw [hd.mem_rings id hfresh] at hmem
        by_cases hroot : root = b.level
        · exact hfresh (hroot ▸ hmem)
        · rw [hfired.rings root hroot] at hmem
          obtain ⟨e', hentry', hlist, -⟩ := hown id (by rw [hring]; exact List.mem_cons_self)
          obtain rfl := Option.some.inj (hentry.symm.trans hentry')
          exact hroot (h.level_eq hentry hlist hmem)
      · refine .inr ⟨b', hmoved.placed, hmoved.level_ne, hmoved.tail, fun root => ?_, ?_⟩
        · rw [hd.mem_rings id hfresh, hmoved.mem_rings]
        · rw [hd.entries id hfresh, hd.count id hfresh]
          exact hmoved.outcome
    · have hne : id ≠ head := fun heq => hnodup.1 (heq ▸ hmem)
      obtain ⟨e₀, hentry₀, -, hgoes⟩ := hown id (by rw [hring]; exact List.mem_cons_of_mem _ hmem)
      obtain rfl := Option.some.inj (hentry'.symm.trans hentry₀)
      obtain ⟨hdue_of, hplace_of⟩ := hgoes.of_keeps h.first hspares.keeps
      rcases hd.own id (hrest.symm ▸ hmem) e' ((hspares.entries id hne).trans hentry') with
        ⟨hdue, hgone, hcount, hout⟩ | ⟨b', hr⟩
      · exact .inl ⟨hdue_of hdue, hgone, hcount.trans (by rw [hspares.count id hne]), hout⟩
      · refine .inr ⟨b', hplace_of b' hr.placed, hr.level_ne, ?_,
          hr.mem_rings, by rw [← hspares.count id hne]; exact hr.outcome⟩
        -- The last entry of the list was alive before, since only the first one has changed.
        have hsame : ∀ tail ∈ (t₁.rings b'.level).getLast?, (t.entries tail).isSome = true := by
          intro tail htail
          by_cases heq : tail = head
          · rw [heq, hentry]
            rfl
          · rw [← hspares.entries tail heq]
            exact hr.tail tail htail
        rcases hhead with hfired | ⟨c, hmoved⟩
        · rwa [hfired.rings b'.level hr.level_ne] at hsame
        · by_cases hlevel : b'.level = c.level
          · rw [hlevel]
            exact hmoved.tail
          · rwa [hmoved.rings b'.level hr.level_ne hlevel] at hsame

/-- What the loop of `flush` does to a bucket all entries of which leave the wheel. -/
theorem Linked.drained (h : t.Linked) {l : TimerTaskList} (hbucket : t.bucket b = some l)
    (hown : ∀ id ∈ t.rings b.level, ∃ e, t.entries id = some e ∧ e.list = some b ∧
      Goes t.wheels b e.expiration)
    (hok : flushLoop undef fuel b t = .ok t') : Drained undef b t t' := by
  induction fuel generalizing t l with
  | zero => cases hok
  | succ fuel ih =>
    have hroot := h.bucket_root hbucket
    cases hring : t.rings b.level with
    | nil =>
      rw [flushLoop_nil hbucket (by rw [hroot, hring])] at hok
      obtain rfl := Except.ok.inj hok
      refine ⟨h, .refl _, hring, fun _ _ => rfl, fun _ _ => rfl, fun _ _ _ => Iff.rfl, ?_⟩
      rw [hring]
      exact nofun
    | cons head rest =>
      rw [flushLoop_cons hbucket (by rw [hroot, hring])] at hok
      cases hstep : t.iterate undef fuel b head with
      | error stuck => rw [hstep] at hok; cases hok
      | ok t₁ =>
        rw [hstep] at hok
        obtain ⟨e, hentry, hlist, hgoes⟩ := hown head (by rw [hring]; exact List.mem_cons_self)
        obtain ⟨h₁, hspares⟩ := h.iterate hstep
        obtain ⟨hrest, hhead⟩ := h.iterate_own hring hentry hlist
          (fun _ hplace => hgoes.level_ne hplace) hstep
        obtain ⟨l₁, hbucket₁⟩ := h.bucket_of_keeps h₁ hspares.keeps hbucket
        have hown₁ := hspares.goes h.first hring (h.nodup b.level) hown
        exact .cons h hring hown hrest hspares hentry hhead
          (ih h₁ hbucket₁ (fun id hid => (hown₁ id (hrest ▸ hid)).2) hok)

/-- The place of a task is a bucket. -/
theorem bucketAt_of_place {ws : List TimingWheel} {x : TimeEntry} (hgeared : Geared ws)
    (hfitted : Fitted ws) (hplace : place x ws 0 = some b) : ∃ w l, BucketAt ws b w l := by
  obtain ⟨w, hw, hlate, -, hindex⟩ := place_spec hplace
  rw [Nat.sub_zero] at hw
  have hsound := hgeared.sound w (List.mem_of_getElem? hw)
  have hx : 0 ≤ x := by linarith [hsound.current_nonneg, hsound.tick_pos]
  have hsize : (0 : ℤ) < w.wheelSize := by exact_mod_cast hsound.size_pos
  have hdiv := Int.ediv_nonneg hx hsound.tick_pos.le
  have hlt : b.index < w.buckets.length := by
    rw [(hfitted b.level w hw).1, hindex, TimeEntry.div, Int.tdiv_eq_ediv_of_nonneg hx,
      Int.tmod_eq_emod_of_nonneg hdiv]
    have hmod := Int.emod_lt_of_pos (x / w.tickMs) hsize
    have hnonneg := Int.emod_nonneg (x / w.tickMs) hsize.ne'
    omega
  exact ⟨w, w.buckets.get ⟨b.index, hlt⟩, hw, List.getElem?_eq_getElem hlt⟩

/-- The bucket to which an entry points exists. -/
theorem Linked.exists_bucket (h : t.Linked) (hentry : t.entries id = some e)
    (hlist : e.list = some b) : ∃ l, t.bucket b = some l := by
  obtain ⟨-, w, hw, -, hindex⟩ := h.filed id e b hentry hlist
  have hsound := h.geared.sound w (List.mem_of_getElem? hw)
  have hsize : (0 : ℤ) < w.wheelSize := by exact_mod_cast hsound.size_pos
  have hlt : b.index < w.buckets.length := by
    rw [(h.fitted b.level w hw).1]
    have hmod := Int.emod_lt_of_pos (e.expiration / w.tickMs) hsize
    omega
  refine ⟨w.buckets.get ⟨b.index, hlt⟩, ?_⟩
  rw [bucket, hw]
  exact List.getElem?_eq_getElem hlt

/-- An iteration returns if the entry leaves the wheel and the next one has not been
deleted. -/
theorem Linked.iterate_total {sure : Bool} (h : t.Linked) (hring : t.rings b.level = head :: rest)
    (hentry : t.entries head = some e) (hlist : e.list = some b)
    (hleaves : t.Leaves sure b e.expiration)
    (hnext : ∀ id ∈ rest.head?, (t.entries id).isSome = true) (hfuel : b.level < fuel) :
    ∃ t₁, t.iterate undef fuel b head = .ok t₁ := by
  obtain ⟨l, hl⟩ := h.exists_bucket hentry hlist
  have hroot := h.bucket_root hl
  have hneighbours :
      (neighbours (head :: rest) head).all (fun n => (t.entries n).isSome) = true := by
    cases rest with
    | nil => simp [neighbours]
    | cons next rest => simpa [neighbours] using hnext next rfl
  let e₀ : TimerTaskEntry := { e with list := none }
  let t₀ := (t.setRing b.level rest).setEntry head (some e₀)
  have hremove : t.removeFrom b head = .ok t₀ := by
    rw [Timer.removeFrom, entry_eq hentry]
    simp only [bind, Except.bind, hlist, if_true, bucketAt, hl, hroot, hring, hneighbours,
      List.erase_cons_head]
    rfl
  have h₀ := h.removeFrom hremove
  have hentry₀ : t₀.entries head = some e₀ := Function.update_self ..
  have hcancelled : e₀.cancelled head = false := by
    simp [TimerTaskEntry.cancelled, (h₀.tasks head e₀ hentry₀).1]
  obtain ⟨w, hw⟩ : ∃ w, t.wheels[0]? = some w := ⟨_, List.getElem?_eq_getElem h.first⟩
  have hhead : w ∈ t.wheels.head? := by rw [List.head?_eq_getElem?, hw]; rfl
  obtain ⟨p, hadd, e₁, hentry₁⟩ : ∃ p, addToWheel undef fuel 0 head t₀ = .ok p ∧
      ∃ e₁, p.1.entries head = some e₁ := by
    rcases lt_or_ge e.expiration (w.currentTime + w.tickMs) with hdue | hlate
    · obtain ⟨fuel, rfl⟩ : ∃ n, fuel = n + 1 := ⟨fuel - 1, by omega⟩
      exact ⟨_, addToWheel_due hentry₀ hw hdue, e₀, hentry₀⟩
    · obtain ⟨b', hplace, hlevel⟩ := h.exists_place hentry hlist hw hlate
      obtain ⟨c, hc, hne, -, htail⟩ :=
        hleaves.resolve_left fun hdue => absurd (hdue w hhead) (not_lt.mpr hlate)
      obtain rfl := Option.some.inj (hplace.symm.trans hc)
      obtain ⟨w₁, l₁, hbucket₁⟩ := bucketAt_of_place h₀.geared h₀.fitted hplace
      have hring₀ : t₀.rings l₁.root = t.rings b'.level := by
        rw [h₀.fitted.root_eq hbucket₁]
        exact Function.update_of_ne hne ..
      have htail₀ : ∀ tail ∈ (t₀.rings l₁.root).getLast?, (t₀.entries tail).isSome = true := by
        intro tail hmem
        rw [hring₀] at hmem
        by_cases heq : tail = head
        · rw [heq, hentry₀]
          rfl
        · rw [show t₀.entries tail = t.entries tail from Function.update_of_ne heq ..]
          exact htail tail hmem
      have htotal : ∃ p, addToWheel undef fuel 0 head t₀ = .ok p :=
        addToWheel_total h₀.geared (.refl _) hentry₀ hcancelled rfl h.first hplace hbucket₁ htail₀
          (by omega)
      obtain ⟨p, hp⟩ := htotal
      obtain ⟨t₂, r⟩ := p
      obtain ⟨b'', f, rfl, -⟩ := addToWheel_ok h₀.geared hentry₀ hcancelled hw hlate hp
      exact ⟨_, hp, _, Function.update_self ..⟩
  obtain ⟨t₂, r⟩ := p
  obtain ⟨t₁, ht₁⟩ := addTimerTaskEntry_total hadd hentry₁
  refine ⟨t₁, ?_⟩
  rw [Timer.iterate, hremove]
  exact ht₁

/-- The condition holds again after an iteration. -/
theorem OnlyOwn.iterate {sure : Bool} (hlinked : t.Linked) {l : TimerTaskList}
    (hbucket : t.bucket b = some l) (h : OnlyOwn sure t b) (hyields : Yields sure undef)
    (hring : t.rings b.level = head :: rest) (hok : t.iterate undef fuel b head = .ok t₁) :
    t₁.rings b.level = rest ∧ OnlyOwn sure t₁ b := by
  have hroot := hlinked.bucket_root hbucket
  obtain ⟨h₁, hspares⟩ := hlinked.iterate hok
  have hown : ∀ id ∈ t.rings b.level, ∃ e, t.entries id = some e ∧ e.list = some b ∧
      t.Leaves sure b e.expiration := fun id hmem => h l hbucket id (hroot.symm ▸ hmem)
  have hgoes : ∀ {x}, t.Leaves sure b x → Goes t.wheels b x := by
    rintro x (hdue | ⟨b', hplace, hne, -⟩)
    · exact .inl hdue
    · exact .inr ⟨b', hplace, hne⟩
  obtain ⟨e, hentry, hlist, hleaves⟩ := hown head (by rw [hring]; exact List.mem_cons_self)
  obtain ⟨hrest, hhead⟩ := hlinked.iterate_own hring hentry hlist
    (fun _ hplace => (hgoes hleaves).level_ne hplace) hok
  refine ⟨hrest, fun l₁ hl₁ id hmem => ?_⟩
  rw [h₁.bucket_root hl₁, hrest] at hmem
  have hne : id ≠ head := by
    rintro rfl
    exact (List.nodup_cons.mp (hring ▸ hlinked.nodup b.level)).1 hmem
  obtain ⟨e', hentry', hlist', hleaves'⟩ :=
    hown id (by rw [hring]; exact List.mem_cons_of_mem _ hmem)
  refine ⟨e', (hspares.entries id hne).trans hentry', hlist', ?_⟩
  rcases hleaves' with hdue | ⟨b', hplace, hlevel, hsure, htail⟩
  · exact .inl (hdue.keeps hlinked.first hspares.keeps)
  · refine .inr ⟨b', hspares.keeps.place hplace, hlevel, hsure, ?_⟩
    -- An entry at the end of the list is alive there still, or it is the one just filed.
    have hsame : ∀ tail ∈ (t.rings b'.level).getLast?, (t₁.entries tail).isSome = true := by
      intro tail hmem
      have hold := List.mem_of_getLast? hmem
      have hne : tail ≠ head := by
        rintro rfl
        exact hlevel (hlinked.level_eq hentry hlist hold)
      rw [hspares.entries tail hne]
      exact htail tail hmem
    rcases hhead with hfired | ⟨c, hmoved⟩
    · rwa [hfired.rings b'.level hlevel]
    · by_cases hc : b'.level = c.level
      · intro tail hmem
        rw [hc, hmoved.appended, List.getLast?_append, List.getLast?_singleton, Option.some_or,
          Option.mem_def, Option.some.injEq] at hmem
        rw [← hmem]
        rcases hmoved.outcome with ⟨-, hkept, -⟩ | ⟨hzero, ⟨n, hfalse⟩, -⟩
        · rw [hkept]
          rfl
        · rw [hyields (hsure.resolve_left (hc ▸ hzero)) n] at hfalse
          cases hfalse
      · rwa [hmoved.rings b'.level hlevel hc]

/-- The loop of `flush` returns under the condition. -/
theorem OnlyOwn.flushLoop_total {sure : Bool} (hlinked : t.Linked) {l : TimerTaskList}
    (hbucket : t.bucket b = some l) (h : OnlyOwn sure t b) (hyields : Yields sure undef)
    (hfuel : (t.rings b.level).length + b.level < fuel) :
    ∃ t', flushLoop undef fuel b t = .ok t' := by
  induction fuel generalizing t l with
  | zero => omega
  | succ fuel ih =>
    have hroot := hlinked.bucket_root hbucket
    cases hring : t.rings b.level with
    | nil => exact ⟨t, flushLoop_nil hbucket (by rw [hroot, hring])⟩
    | cons head rest =>
      rw [hring, List.length_cons] at hfuel
      have hmem : ∀ id ∈ head :: rest, ∃ e, t.entries id = some e ∧ e.list = some b ∧
          t.Leaves sure b e.expiration := by
        rw [← hring, ← hroot]
        exact h l hbucket
      obtain ⟨e, hentry, hlist, hleaves⟩ := hmem head List.mem_cons_self
      have hnext : ∀ id ∈ rest.head?, (t.entries id).isSome = true := by
        intro id hid
        obtain ⟨e', hentry', -⟩ := hmem id (List.mem_cons_of_mem _ (List.mem_of_mem_head? hid))
        rw [hentry']
        rfl
      have htotal : ∃ t₁, t.iterate undef fuel b head = .ok t₁ :=
        hlinked.iterate_total hring hentry hlist hleaves hnext (by omega)
      obtain ⟨t₁, hstep⟩ := htotal
      obtain ⟨h₁, hspares⟩ := hlinked.iterate hstep
      obtain ⟨l₁, hbucket₁⟩ := hlinked.bucket_of_keeps h₁ hspares.keeps hbucket
      obtain ⟨hrest, hown₁⟩ := h.iterate hlinked hbucket hyields hring hstep
      obtain ⟨t', ht'⟩ := ih h₁ hbucket₁ hown₁ (by rw [hrest]; omega)
      refine ⟨t', ?_⟩
      rw [flushLoop_cons hbucket (by rw [hroot, hring]), hstep]
      exact ht'

/-- An entry is filed in the bucket to which it points. -/
theorem Linked.filedIn_iff (h : t.Linked) :
    t.FiledIn b id ↔ ∃ e, t.entries id = some e ∧ e.list = some b := by
  constructor
  · rintro ⟨e, l, hentry, hlist, -⟩
    exact ⟨e, hentry, hlist⟩
  · rintro ⟨e, hentry, hlist⟩
    have hmem := (h.filed id e b hentry hlist).1
    obtain ⟨l, hbucket⟩ := h.exists_bucket hentry hlist
    refine ⟨e, _, hentry, hlist, hbucket, fun root => ?_⟩
    rw [h.bucket_root hbucket]
    by_cases hroot : root = b.level
    · rw [hroot, if_pos rfl]
      exact List.count_eq_one_of_mem (h.nodup b.level) hmem
    · rw [if_neg hroot, List.count_eq_zero]
      exact fun hmem' => hroot (h.level_eq hentry hlist hmem')

/-- The bucket has the expiration that is set. -/
theorem setExpiration_bucket {l : TimerTaskList} (hbucket : t.bucket b = some l) (x : TimeEntry) :
    (t.setExpiration b x).1.bucket b = some { l with expiration := x } := by
  obtain ⟨w, hw⟩ := bucketAt_of_bucket hbucket
  rw [setExpiration_eq hw.1 hbucket]
  obtain ⟨hw', hl'⟩ := hw.set_self { l with expiration := x }
  rw [bucket]
  show ((setBucket t.wheels b w { l with expiration := x })[b.level]?).bind _ = _
  rw [hw']
  exact hl'

/-- The loop of `flush` keeps the links, and ends when nothing is linked behind the root. -/
theorem Linked.of_flushLoop (h : t.Linked) (hok : flushLoop undef fuel b t = .ok t') :
    t'.Linked ∧ t'.rings b.level = [] := by
  induction fuel generalizing t with
  | zero => cases hok
  | succ fuel ih =>
    cases hbucket : t.bucket b with
    | none =>
      rw [flushLoop, bucketAt, hbucket] at hok
      cases hok
    | some l =>
      have hroot := h.bucket_root hbucket
      cases hring : t.rings l.root with
      | nil =>
        rw [flushLoop_nil hbucket hring] at hok
        obtain rfl := Except.ok.inj hok
        exact ⟨h, by rw [← hroot, hring]⟩
      | cons head rest =>
        rw [flushLoop_cons hbucket hring] at hok
        cases hstep : t.iterate undef fuel b head with
        | error stuck => rw [hstep] at hok; cases hok
        | ok t₁ =>
          rw [hstep] at hok
          exact ih (h.iterate hstep).1 hok

/-- A flush is its loop, and the reset of the expiration. -/
theorem flush_ok (hok : t.flush undef fuel b = .ok t') :
    ∃ t₁, flushLoop undef fuel b t = .ok t₁ ∧ t' = (t₁.setExpiration b .unset).1 := by
  rw [flush] at hok
  cases hloop : flushLoop undef fuel b t with
  | error stuck => rw [hloop] at hok; cases hok
  | ok t₁ =>
    rw [hloop] at hok
    exact ⟨t₁, rfl, (Except.ok.inj hok).symm⟩

/-- A bucket is flushed as it should be if its entries, and no others, are behind the root
and leave the wheel. -/
theorem OnlyOwn.flushesOwn {sure : Bool} (hlinked : t.Linked) {l : TimerTaskList}
    (hbucket : t.bucket b = some l) (h : OnlyOwn sure t b) : FlushesOwn sure t b := by
  intro undef hyields
  have hroot := hlinked.bucket_root hbucket
  have hmem : ∀ id ∈ t.rings b.level, ∃ e, t.entries id = some e ∧ e.list = some b ∧
      t.Leaves sure b e.expiration := fun id hid => h l hbucket id (hroot.symm ▸ hid)
  obtain ⟨t₁, hloop⟩ := h.flushLoop_total hlinked hbucket hyields (Nat.lt_succ_self _)
  have hd := hlinked.drained hbucket (fun id hid => by
    obtain ⟨e, hentry, hlist, hdue | ⟨b', hplace, hne, -⟩⟩ := hmem id hid
    · exact ⟨e, hentry, hlist, .inl hdue⟩
    · exact ⟨e, hentry, hlist, .inr ⟨b', hplace, hne⟩⟩) hloop
  have hreset := hd.linked.setExpiration b .unset
  obtain ⟨hentries, hpool⟩ := setExpiration_entries t₁ b .unset
  have hrings := setExpiration_rings t₁ b .unset
  refine ⟨_, (t₁.setExpiration b .unset).1, by rw [flush, hloop]; rfl, ?_, ?_, ?_⟩
  · intro id hfiled
    obtain ⟨e, hentry, hlist⟩ := hlinked.filedIn_iff.mp hfiled
    obtain ⟨e', hentry', -, hleaves⟩ := hmem id (hlinked.filed id e b hentry hlist).1
    obtain rfl := Option.some.inj (hentry.symm.trans hentry')
    rw [hpool, hrings]
    rcases hd.own id (hlinked.filed id e b hentry hlist).1 e hentry with
      ⟨-, -, hcount, hout⟩ | ⟨b', hr⟩
    · exact .inl ⟨hcount, hout⟩
    · rcases hr.outcome with ⟨-, hkept, hcount⟩ | ⟨hzero, ⟨n, hfalse⟩, -⟩
      · refine .inr ⟨hcount, b', fun heq => hr.level_ne (congrArg _ heq), ?_⟩
        rw [hreset.filedIn_iff, hentries]
        exact ⟨_, hkept, rfl⟩
      · rcases hleaves with hdue | ⟨c, hplace, -, hsure, -⟩
        · have hplaced := hr.placed
          rw [hdue.place] at hplaced
          cases hplaced
        · obtain rfl := Option.some.inj (hplace.symm.trans hr.placed)
          rw [hyields (hsure.resolve_left hzero) n] at hfalse
          cases hfalse
  · obtain ⟨l₁, hl₁⟩ := hlinked.bucket_of_keeps hd.linked hd.keeps hbucket
    exact ⟨_, setExpiration_bucket hl₁ .unset, rfl⟩
  · intro b' hne id hfiled
    obtain ⟨e, hentry, hlist⟩ := hlinked.filedIn_iff.mp hfiled
    have hnot : id ∉ t.rings b.level := by
      intro hid
      obtain ⟨e', hentry', hlist', -⟩ := hmem id hid
      obtain rfl := Option.some.inj (hentry.symm.trans hentry')
      exact hne (Option.some.inj (hlist.symm.trans hlist'))
    rw [hreset.filedIn_iff, hentries, hpool, hd.entries id hnot, hd.count id hnot]
    exact ⟨⟨e, hentry, hlist⟩, rfl⟩

/-- A task that is not due, and whose entry is not filed again on the wheel, goes. -/
theorem Linked.goes (h : t.Linked) (hentry : t.entries id = some e) (hlist : e.list = some b)
    (hnot : ∀ b', place e.expiration t.wheels 0 = some b' → b'.level ≠ b.level) :
    Goes t.wheels b e.expiration := by
  obtain ⟨w, hw⟩ : ∃ w, t.wheels[0]? = some w := ⟨_, List.getElem?_eq_getElem h.first⟩
  rcases lt_or_ge e.expiration (w.currentTime + w.tickMs) with hdue | hlate
  · left
    intro w' hw'
    rw [List.head?_eq_getElem?, hw] at hw'
    exact Option.some.inj hw' ▸ hdue
  · obtain ⟨b', hplace, -⟩ := h.exists_place hentry hlist hw hlate
    exact .inr ⟨b', hplace, hnot b' hplace⟩

/-- What is behind the root when the loop returns, and no entry of another bucket is lost:
only entries of the bucket itself, and none of them stays. -/
theorem Linked.own_of_flushed (h : t.Linked) (hloop : flushLoop undef fuel b t = .ok t₁)
    (hothers : ∀ b', b' ≠ b → ∀ id, t.FiledIn b' id → t₁.FiledIn b' id)
    (hmem : id ∈ t.rings b.level) :
    ∃ e, t.entries id = some e ∧ e.list = some b ∧ Goes t.wheels b e.expiration := by
  obtain ⟨h₁, hempty⟩ := h.of_flushLoop hloop
  cases hentry : t.entries id with
  | none =>
    have hstays : t.Stays b id := ⟨hmem, fun e he => by rw [hentry] at he; cases he⟩
    exact absurd hloop (hstays.flushLoop h)
  | some e =>
    obtain ⟨c, hc, hlevel⟩ := (h.rings _ id hmem).2.2 e hentry
    have heq : c = b := by
      by_contra hne
      have hfiled := hothers c hne id (h.filedIn_iff.mpr ⟨e, hentry, hc⟩)
      obtain ⟨e', hentry', hc'⟩ := h₁.filedIn_iff.mp hfiled
      have hmem' := (h₁.filed id e' c hentry' hc').1
      rw [hlevel, hempty] at hmem'
      cases hmem'
    subst heq
    refine ⟨e, rfl, hc, h.goes hentry hc fun b' hplace hlevel' => ?_⟩
    have hstays : t.Stays c id := by
      refine ⟨hmem, fun e' hentry' => ?_⟩
      obtain rfl := Option.some.inj (hentry.symm.trans hentry')
      exact ⟨b', hplace, hlevel'⟩
    exact hstays.flushLoop h hloop

/-- An entry is filed in the same buckets whatever expirations they have. -/
theorem Linked.filedIn_setExpiration (h : t.Linked) (b : BucketId) (x : TimeEntry) :
    (t.setExpiration b x).1.FiledIn b' id ↔ t.FiledIn b' id := by
  rw [(h.setExpiration b x).filedIn_iff, h.filedIn_iff, (setExpiration_entries t b x).1]

/-- A bucket is flushed as it should be only if its entries, and no others, are behind the
root and leave the wheel. -/
theorem FlushesOwn.onlyOwn {sure : Bool} (hlinked : t.Linked) {l : TimerTaskList}
    (hbucket : t.bucket b = some l) (h : FlushesOwn sure t b) : OnlyOwn sure t b := by
  intro l' hl' id hmem
  obtain rfl := Option.some.inj (hbucket.symm.trans hl')
  rw [hlinked.bucket_root hbucket] at hmem
  obtain ⟨fuel, t', hflush, hflushed⟩ := h (fun _ => sure) fun hsure _ => hsure
  obtain ⟨t₁, hloop, rfl⟩ := flush_ok hflush
  have h₁ := (hlinked.of_flushLoop hloop).1
  have hown : ∀ id ∈ t.rings b.level, ∃ e, t.entries id = some e ∧ e.list = some b ∧
      Goes t.wheels b e.expiration := fun _ hmem =>
    hlinked.own_of_flushed hloop (fun b' hne id hfiled =>
      (h₁.filedIn_setExpiration b .unset).mp (hflushed.others b' hne id hfiled).1) hmem
  have hd := hlinked.drained hbucket hown hloop
  obtain ⟨e, hentry, hlist, hgoes⟩ := hown id hmem
  refine ⟨e, hentry, hlist, ?_⟩
  rcases hgoes with hdue | ⟨b', hplace, hne⟩
  · exact .inl hdue
  rcases hd.own id hmem e hentry with ⟨hdue, -⟩ | ⟨c, hr⟩
  · rw [hdue.place] at hplace
    cases hplace
  obtain rfl := Option.some.inj (hplace.symm.trans hr.placed)
  rcases hr.outcome with ⟨hkept, -⟩ | ⟨-, -, -, hcount⟩
  · exact .inr ⟨b', hplace, hne, hkept.imp_right fun ⟨_, hyields⟩ => hyields, hr.tail⟩
  · have hpool := (setExpiration_entries t₁ b .unset).2
    have hrings := setExpiration_rings t₁ b .unset
    rcases hflushed.own id (hlinked.filedIn_iff.mpr ⟨e, hentry, hlist⟩) with
      ⟨-, hout⟩ | ⟨hsame, -⟩
    · have hlinked' := (hr.mem_rings b'.level).mpr rfl
      rw [hrings] at hout
      exact absurd hlinked' (hout b'.level)
    · rw [hpool, hcount] at hsame
      exact absurd hsame (Nat.succ_ne_self _)

end Timer

namespace Ticker

variable {tickMs : TimeEntry} {wheelSize : ℕ} {s : Ticker} {b : BucketId}

/-- In every state that is reached, a bucket is flushed as it should be exactly if all
entries behind its root are its own, and each leaves the wheel. -/
theorem flushesOwn_iff_onlyOwn (htick : 0 < tickMs) (hsize : 0 < wheelSize)
    (hs : (machine tickMs wheelSize).Reachable s) (hbucket : (s.timer.bucket b).isSome = true)
    (sure : Bool) : s.timer.FlushesOwn sure b ↔ s.timer.OnlyOwn sure b := by
  obtain ⟨l, hl⟩ := Option.isSome_iff_exists.mp hbucket
  obtain ⟨-, hlinked⟩ := linked_of_reachable htick hsize hs
  exact ⟨fun h => h.onlyOwn hlinked hl, fun h => h.flushesOwn hlinked hl⟩

/-- A bucket with one task that has been polled is flushed as it should be. -/
theorem flushesOwn_iff_onlyOwn_oneTask : ∃ s, (machine 10 4).Reachable s ∧
    s.flushing = some ⟨0, 0⟩ ∧ s.timer.rings 0 = [0] ∧ s.timer.FlushesOwn false ⟨0, 0⟩ := by
  have hinit : (machine 10 4).init (start 10 4 100) := ⟨100, by decide, rfl⟩
  have hsteps : ∃ s s', (machine 10 4).step (start 10 4 100) (100, .add 125 true) s ∧
      (machine 10 4).step s (125, .poll 0) s' ∧ s'.flushing = some ⟨0, 0⟩ ∧
      s'.timer.rings 0 = [0] ∧ s'.timer.entries 0 = some ⟨125, some ⟨0, 0⟩, 0⟩ ∧
      (s'.timer.bucket ⟨0, 0⟩).map (·.root) = some 0 ∧
      s'.timer.wheels.head?.map (fun w => (w.currentTime, w.tickMs)) = some (120, 10) :=
    ⟨_, _, ⟨1, rfl⟩, ⟨1, rfl⟩, rfl, rfl, rfl, rfl, rfl⟩
  obtain ⟨s, s', hadd, hpoll, hflushing, hring, hentry, hroot, hwheel⟩ := hsteps
  have hreach : (machine 10 4).Reachable s' :=
    Machine.Reachable.tail (Machine.Reachable.tail (.of_init hinit) hadd) hpoll
  obtain ⟨l, hl, hroot⟩ := Option.map_eq_some_iff.mp hroot
  refine ⟨s', hreach, hflushing, hring,
    (flushesOwn_iff_onlyOwn (by decide) (by decide) hreach (by rw [hl]; rfl) false).mpr ?_⟩
  intro l' hl' id hmem
  obtain rfl := Option.some.inj (hl.symm.trans hl')
  rw [hroot, hring, List.mem_singleton] at hmem
  subst hmem
  refine ⟨_, hentry, rfl, .inl fun w hw => ?_⟩
  rw [Option.mem_def] at hw
  rw [hw, Option.map_some, Option.some.injEq, Prod.mk.injEq] at hwheel
  rw [hwheel.1, hwheel.2]
  decide

/-- With two tasks in different buckets of the first wheel, the bucket of the first one has
been polled, but its flush does not end. -/
theorem twoBuckets_not_flushesOwn : ∃ s, (machine 1 4).Reachable s ∧
    s.flushing = some ⟨0, 1⟩ ∧ s.timer.FiledIn ⟨0, 1⟩ 0 ∧ s.timer.FiledIn ⟨0, 2⟩ 1 ∧
    (∀ undef fuel t', s.timer.flush undef fuel ⟨0, 1⟩ ≠ .ok t') ∧
    ¬ s.timer.FlushesOwn true ⟨0, 1⟩ := by
  have hinit : (machine 1 4).init (start 1 4 0) := ⟨0, by decide, rfl⟩
  have hsteps : ∃ s₁ s₂ s₃, (machine 1 4).step (start 1 4 0) (0, .add 1 true) s₁ ∧
      (machine 1 4).step s₁ (0, .add 2 true) s₂ ∧ (machine 1 4).step s₂ (1, .poll 0) s₃ ∧
      s₃.flushing = some ⟨0, 1⟩ ∧ s₃.timer.rings 0 = [0, 1] ∧
      s₃.timer.entries 0 = some ⟨1, some ⟨0, 1⟩, 0⟩ ∧
      s₃.timer.entries 1 = some ⟨2, some ⟨0, 2⟩, 1⟩ ∧
      place 2 s₃.timer.wheels 0 = some ⟨0, 2⟩ :=
    ⟨_, _, _, ⟨1, rfl⟩, ⟨1, rfl⟩, ⟨1, rfl⟩, rfl, rfl, rfl, rfl, rfl⟩
  obtain ⟨s₁, s₂, s, hfirst, hsecond, hpoll, hflushing, hring, hown, hother, hplace⟩ := hsteps
  have hreach : (machine 1 4).Reachable s := Machine.Reachable.tail
    (Machine.Reachable.tail (Machine.Reachable.tail (.of_init hinit) hfirst) hsecond) hpoll
  obtain ⟨-, hlinked⟩ := linked_of_reachable (by decide) (by decide) hreach
  have hstays : s.timer.Stays ⟨0, 1⟩ 1 := by
    refine ⟨by rw [hring]; decide, fun e hentry => ?_⟩
    obtain rfl := Option.some.inj (hother.symm.trans hentry)
    exact ⟨⟨0, 2⟩, hplace, rfl⟩
  have hforever : ∀ undef fuel t', s.timer.flush undef fuel ⟨0, 1⟩ ≠ .ok t' := by
    intro undef fuel t' hflush
    obtain ⟨t₁, hloop, -⟩ := Timer.flush_ok hflush
    exact hstays.flushLoop hlinked hloop
  refine ⟨s, hreach, hflushing, hlinked.filedIn_iff.mpr ⟨_, hown, rfl⟩,
    hlinked.filedIn_iff.mpr ⟨_, hother, rfl⟩, hforever, fun h => ?_⟩
  obtain ⟨fuel, t', hflush, -⟩ := h (fun _ => true) fun _ _ => rfl
  exact hforever _ _ _ hflush

end Ticker

end DuoDuo.Timers
