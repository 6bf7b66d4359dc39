import DuoDuo.Timers.Flush

/-!
# When tasks are filed once and fired once

A task that has not been handed over is linked once, behind the root of the wheel to whose
bucket its entry points, and no task is handed over twice. But the buckets of a wheel are
copies of one list and share its root entry. What hangs on the root is the list of one
bucket only as long as all tasks of the wheel are filed in the same bucket. And a task
that has been handed over stays linked if the overflow branch has yielded false.
-/

namespace DuoDuo.Timers

open Library

namespace Timer

variable {t t' : Timer} {id : EntryId} {e : TimerTaskEntry} {b : BucketId} {root : ℕ}

/-- The bucket to which an entry points, unless it has been deleted. -/
def listOf (t : Timer) (id : EntryId) : Option BucketId := (t.entries id).bind (·.list)

/-- Tasks are filed once and fired once. -/
structure ExactlyOnce (t : Timer) : Prop where
  /-- No task is handed over twice. -/
  once : t.threadPool.Nodup
  /-- A task that has not been handed over is linked once, in the bucket to which it points. -/
  pending : ∀ id < t.created, id ∉ t.threadPool → ∃ b, t.FiledIn b id
  /-- A list is the list of one bucket: all entries on it point to the same one. -/
  own : ∀ root, ∀ id ∈ t.rings root, ∀ id' ∈ t.rings root, t.listOf id = t.listOf id'
  /-- A task that has been handed over is not linked any more. -/
  gone : ∀ id ∈ t.threadPool, ∀ root, id ∉ t.rings root

/-- What hangs on a root is the list of one bucket, without tasks that have been handed over. -/
structure Apart (t : Timer) (root : ℕ) : Prop where
  own : ∀ id ∈ t.rings root, ∀ id' ∈ t.rings root, t.listOf id = t.listOf id'
  pending : ∀ id ∈ t.rings root, id ∉ t.threadPool

/-- All tasks are either handed over, once, or filed, but for one that is being filed. -/
structure Accounted (t : Timer) (filing : Option EntryId) : Prop where
  once : t.threadPool.Nodup
  handedOver : ∀ id ∈ t.threadPool, id < t.created ∧ t.entries id = none
  pending : ∀ id < t.created, id ∉ t.threadPool → id ∉ filing →
    ∃ e b, t.entries id = some e ∧ e.list = some b

/-- Every bucket in the delay queue has a task. -/
def QueuesFiled (t : Timer) : Prop := ∀ q ∈ t.delayQueue, ∃ id, t.listOf id = some q.bucket

/-- All tasks are accounted for, all lists are those of one bucket, and every bucket in the
delay queue has a task. -/
structure Separate (t : Timer) : Prop where
  accounted : t.Accounted none
  apart : ∀ root, t.Apart root
  queued : t.QueuesFiled

/-- On the list of the bucket in which the wheels file a task there are tasks of that bucket
only. -/
def FilesTogether (t : Timer) (x : TimeEntry) : Prop :=
  ∀ b ∈ place x t.wheels 0, ∀ id ∈ t.rings b.level, t.listOf id = some b

/-- If the first wheel takes its overflow branch for a task, the value is true. -/
def KeepsFiled (t : Timer) (overflow : Bool) (x : TimeEntry) : Prop :=
  ∀ w ∈ t.wheels.head?, w.currentTime + w.interval ≤ x → overflow = true

/-- The pointer of an entry depends on the entry only. -/
theorem listOf_congr (h : t'.entries id = t.entries id) : t'.listOf id = t.listOf id := by
  rw [listOf, listOf, h]

/-- The pointer of an entry that exists. -/
theorem listOf_eq (h : t.entries id = some e) : t.listOf id = e.list := by
  rw [listOf, h]
  rfl

/-- A list that has lost some of its entries is still the list of one bucket. -/
theorem Apart.mono (h : t.Apart root)
    (hsub : ∀ id ∈ t'.rings root, id ∈ t.rings root ∧ t'.entries id = t.entries id ∧
      (id ∈ t'.threadPool → id ∈ t.threadPool)) : t'.Apart root where
  own := by
    intro id hmem id' hmem'
    obtain ⟨hold, hentry, -⟩ := hsub id hmem
    obtain ⟨hold', hentry', -⟩ := hsub id' hmem'
    rw [listOf_congr hentry, listOf_congr hentry']
    exact h.own id hold id' hold'
  pending := by
    intro id hmem hhanded
    obtain ⟨hold, -, hpool⟩ := hsub id hmem
    exact h.pending id hold (hpool hhanded)

/-- If all lists are those of one bucket and all tasks are accounted for, then tasks are
filed once and fired once. -/
theorem Separate.exactlyOnce (h : t.Separate) (hlinked : t.Linked) : t.ExactlyOnce where
  once := h.accounted.once
  pending := by
    intro id hid hnot
    obtain ⟨e, b, hentry, hlist⟩ := h.accounted.pending id hid hnot nofun
    exact ⟨b, hlinked.filedIn_iff.mpr ⟨e, hentry, hlist⟩⟩
  own := fun root => (h.apart root).own
  gone := fun id hhanded root hmem => (h.apart root).pending id hmem hhanded

/-- The wheels do not matter, nor do buckets that leave the delay queue. -/
theorem Separate.of_wheels (h : t.Separate) (ws : List TimingWheel) {queue : List DelayQueueEntry}
    (hsub : ∀ q ∈ queue, q ∈ t.delayQueue) :
    Separate { t with wheels := ws, delayQueue := queue } where
  accounted := ⟨h.accounted.once, h.accounted.handedOver, h.accounted.pending⟩
  apart := fun root => ⟨(h.apart root).own, (h.apart root).pending⟩
  queued := fun q hq => h.queued q (hsub q hq)

/-- Lists are those of one bucket if tasks are filed once and fired once. -/
theorem ExactlyOnce.apart (h : t.ExactlyOnce) (root : ℕ) : t.Apart root :=
  ⟨h.own root, fun id hmem hhanded => h.gone id hhanded root hmem⟩

/-- An entry that has not been deleted has not been handed over. -/
theorem Accounted.not_mem {filing : Option EntryId} (h : t.Accounted filing)
    (hentry : t.entries id = some e) : id ∉ t.threadPool := by
  intro hmem
  rw [(h.handedOver id hmem).2] at hentry
  cases hentry

/-- The other tasks that have been handed over. -/
theorem mem_handOver {id' : EntryId} (hne : id' ≠ id) :
    id' ∈ (t.handOver id).threadPool ↔ id' ∈ t.threadPool := by
  simp [Timer.handOver, setEntry, hne]

/-- A task that is handed over is accounted for. -/
theorem Accounted.handOver (h : t.Accounted (some id)) (hentry : t.entries id = some e)
    (hid : id < t.created) : (t.handOver id).Accounted none := by
  have hnot := h.not_mem hentry
  have hother : ∀ id' ≠ id, (t.handOver id).entries id' = t.entries id' := fun id' hne =>
    Function.update_of_ne hne ..
  refine ⟨?_, fun id' hmem => ?_, fun id' hid' hnot' _ => ?_⟩
  · show (t.threadPool ++ [id]).Nodup
    refine List.nodup_append.mpr ⟨h.once, List.nodup_singleton id, ?_⟩
    rintro id' hmem _ hsingle rfl
    exact hnot (List.mem_singleton.mp hsingle ▸ hmem)
  · by_cases hne : id' = id
    · subst hne
      exact ⟨hid, Function.update_self ..⟩
    · obtain ⟨hlt, hgone⟩ := h.handedOver id' ((mem_handOver hne).mp hmem)
      exact ⟨hlt, (hother id' hne).trans hgone⟩
  · have hne : id' ≠ id := by
      rintro rfl
      exact hnot' (List.mem_append_right _ List.mem_cons_self)
    rw [mem_handOver hne] at hnot'
    rw [hother id' hne]
    exact h.pending id' hid' hnot' fun hmem => hne (Option.some.inj hmem).symm

/-- A task that is filed is accounted for. -/
theorem Accounted.result (h : t.Accounted (some id)) (hentry : t.entries id = some e)
    (f : t.Filing 0 id e b) : f.result.Accounted none := by
  have hother : ∀ id' ≠ id, f.result.entries id' = t.entries id' := fun id' hne =>
    Function.update_of_ne hne ..
  refine ⟨h.once, fun id' hmem => ?_, fun id' hid' hnot _ => ?_⟩
  · obtain ⟨hlt, hgone⟩ := h.handedOver id' hmem
    have hne : id' ≠ id := fun heq => h.not_mem hentry (heq ▸ hmem)
    exact ⟨hlt, (hother id' hne).trans hgone⟩
  · by_cases hne : id' = id
    · subst hne
      exact ⟨_, b, Function.update_self .., rfl⟩
    · rw [hother id' hne]
      exact h.pending id' hid' hnot fun hmem => hne (Option.some.inj hmem).symm

/-- After `addTimerTaskEntry` the task is accounted for. -/
theorem Accounted.addTimerTaskEntry (h : t.Accounted (some id)) (hlinked : t.Linked)
    {undef : ℕ → Bool} {fuel : ℕ} (hok : addTimerTaskEntry undef fuel id t = .ok t') :
    t'.Accounted none := by
  obtain ⟨e, hentry, w, -, ⟨-, rfl⟩ | ⟨-, b, f, hlinks, rfl⟩⟩ :=
    hlinked.addTimerTaskEntry_cases hok
  · exact h.handOver hentry (hlinked.tasks id e hentry).2
  · have hfiled := h.result hentry f
    split
    · exact hfiled
    · have hfiled' : f.result.Accounted (some id) :=
        ⟨hfiled.once, hfiled.handedOver, fun id' hid' hnot _ => hfiled.pending id' hid' hnot nofun⟩
      exact hfiled'.handOver (Function.update_self ..) (hlinked.tasks id e hentry).2

/-- An entry that points to no list is appended to one. -/
theorem Linked.filed_rings (h : t.Linked) (hlist : e.list = none) (f : t.Filing 0 id e b)
    (hlinks : f.Links) (root : ℕ) :
    f.rings root = if root = b.level then t.rings root ++ [id] else t.rings root := by
  obtain ⟨rings, hunlinked, -, hrings⟩ := hlinks
  rw [hlist] at hunlinked
  obtain rfl := hunlinked
  rw [hrings, h.root_eq f]
  split
  · next hroot => rw [hroot, Function.update_self]
  · next hroot => exact Function.update_of_ne hroot ..

/-- A task is filed where the present wheels place it, or on a new wheel. -/
theorem Filing.placed_or_new (f : t.Filing 0 id e b) :
    place e.expiration t.wheels 0 = some b ∨ t.wheels.length ≤ b.level := by
  obtain ⟨rest, hrest⟩ := f.grows.isPrefix
  have hplaced := f.placed
  rw [List.drop_zero, ← hrest] at hplaced
  simpa using place_append hplaced

/-- All entries on the list on which a task is filed point to its bucket. -/
theorem FilesTogether.listOf (h : t.FilesTogether e.expiration) (hlinked : t.Linked)
    (f : t.Filing 0 id e b) {id' : EntryId} (hmem : id' ∈ t.rings b.level) :
    t.listOf id' = some b := by
  rcases f.placed_or_new with hplace | hnew
  · exact h b hplace id' hmem
  · exact absurd (hlinked.rings b.level id' hmem).1 (not_lt.mpr hnew)

/-- The entry that has been filed points to its bucket. -/
theorem Filing.result_listOf (f : t.Filing 0 id e b) : f.result.listOf id = some b := by
  have hentry : f.result.entries id = some { e with list := some b } := Function.update_self ..
  exact listOf_eq hentry

/-- What the list of one bucket is after a task that points to no list has been filed. -/
theorem Linked.filed_apart (h : t.Linked) (hentry : t.entries id = some e) (hlist : e.list = none)
    (hpool : id ∉ t.threadPool) (hapart : t.Apart root) (f : t.Filing 0 id e b) (hlinks : f.Links)
    (htogether : root = b.level → ∀ id' ∈ t.rings root, t.listOf id' = some b) :
    f.result.Apart root := by
  have hrings : f.result.rings root = _ := h.filed_rings hlist f hlinks root
  have hself := f.result_listOf
  have hother : ∀ id' ∈ t.rings root, f.result.listOf id' = t.listOf id' := by
    intro id' hmem
    refine listOf_congr (Function.update_of_ne ?_ ..)
    rintro rfl
    exact h.not_mem hentry hlist root hmem
  by_cases hroot : root = b.level
  · rw [if_pos hroot] at hrings
    have hall : ∀ id' ∈ f.result.rings root, f.result.listOf id' = some b := by
      intro id' hmem
      rw [hrings, List.mem_append, List.mem_singleton] at hmem
      rcases hmem with hmem | rfl
      · rw [hother id' hmem]
        exact htogether hroot id' hmem
      · exact hself
    refine ⟨fun id₁ hmem₁ id₂ hmem₂ => (hall id₁ hmem₁).trans (hall id₂ hmem₂).symm,
      fun id' hmem => ?_⟩
    rw [hrings, List.mem_append, List.mem_singleton] at hmem
    rcases hmem with hmem | rfl
    · exact hapart.pending id' hmem
    · exact hpool
  · rw [if_neg hroot] at hrings
    refine ⟨fun id₁ hmem₁ id₂ hmem₂ => ?_, fun id' hmem => hapart.pending id' (hrings ▸ hmem)⟩
    rw [hrings] at hmem₁ hmem₂
    rw [hother id₁ hmem₁, hother id₂ hmem₂]
    exact hapart.own id₁ hmem₁ id₂ hmem₂

/-- Handing over an entry that is not linked leaves the lists alone. -/
theorem Apart.handOver (h : t.Apart root) (hnot : id ∉ t.rings root) :
    (t.handOver id).Apart root := by
  refine h.mono fun id' hmem => ?_
  have hne : id' ≠ id := by
    rintro rfl
    exact hnot hmem
  exact ⟨hmem, Function.update_of_ne hne .., (mem_handOver hne).mp⟩

variable {overflow : Bool} {fuel : ℕ} {x : TimeEntry}

/-- Whether a task is kept depends on the first wheel. -/
theorem keepsFiled_iff {w : TimingWheel} (hw : t.wheels[0]? = some w) :
    t.KeepsFiled overflow x ↔ (w.currentTime + w.interval ≤ x → overflow = true) := by
  rw [KeepsFiled, List.head?_eq_getElem?, hw]
  simp

/-- A task that is filed under the condition leaves the lists those of one bucket. -/
theorem Accounted.separate (haccounted : t.Accounted (some id)) (h : t.Linked)
    (hentry : t.entries id = some e) (hlist : e.list = none) (hapart : ∀ root, t.Apart root)
    (hqueued : t.QueuesFiled) (hkeeps : t.KeepsFiled overflow e.expiration)
    (htogether : t.FilesTogether e.expiration)
    (hok : Timer.addTimerTaskEntry (fun _ => overflow) fuel id t = .ok t') : t'.Separate := by
  have hpool := haccounted.not_mem hentry
  have haccounted' := haccounted.addTimerTaskEntry h hok
  have hother : ∀ id' b, t.listOf id' = some b → id' ≠ id := by
    rintro id' b hb rfl
    rw [listOf_eq hentry, hlist] at hb
    cases hb
  obtain ⟨e', hentry', w, hw, ⟨-, rfl⟩ | ⟨hlate, b, f, hlinks, rfl⟩⟩ :=
    h.addTimerTaskEntry_cases hok
  · refine ⟨haccounted', fun root => (hapart root).handOver (h.not_mem hentry hlist root),
      fun q hq => ?_⟩
    obtain ⟨id', hid'⟩ := hqueued q hq
    exact ⟨id', (listOf_congr (Function.update_of_ne (hother id' _ hid') ..)).trans hid'⟩
  · obtain rfl := Option.some.inj (hentry.symm.trans hentry')
    have hkept : b.level = 0 ∨ overflow = true := by
      rw [f.level_eq_zero_iff hw hlate]
      rcases lt_or_ge e.expiration (w.currentTime + w.interval) with hfits | hbeyond
      · exact .inl hfits
      · exact .inr ((keepsFiled_iff hw).mp hkeeps hbeyond)
    rw [if_pos hkept] at haccounted' ⊢
    refine ⟨haccounted', fun root => h.filed_apart hentry hlist hpool (hapart root) f hlinks ?_,
      fun q hq => ?_⟩
    · rintro rfl id' hmem
      exact htogether.listOf h f hmem
    · have hsplit : q.bucket = b ∨ q ∈ t.delayQueue := by
        have hq' : q ∈ f.delayQueue' := hq
        rw [Filing.delayQueue'] at hq'
        split at hq'
        · rcases List.mem_cons.mp hq' with rfl | hold
          · exact .inl rfl
          · exact .inr hold
        · exact .inr hq'
      rcases hsplit with rfl | hold
      · exact ⟨id, f.result_listOf⟩
      · obtain ⟨id', hid'⟩ := hqueued q hold
        exact ⟨id', (listOf_congr (Function.update_of_ne (hother id' _ hid') ..)).trans hid'⟩

/-- A task that is filed in violation of the condition is linked with a task of another
bucket, or is handed over and linked. -/
theorem Linked.not_apart_of_filed (h : t.Linked) (hentry : t.entries id = some e)
    (hlist : e.list = none)
    (hbad : ¬ (t.KeepsFiled overflow e.expiration ∧ t.FilesTogether e.expiration))
    (hok : Timer.addTimerTaskEntry (fun _ => overflow) fuel id t = .ok t') :
    ∃ b, (place e.expiration t.wheels 0 = some b ∨ t.wheels.length ≤ b.level) ∧
      ¬ t'.Apart b.level := by
  obtain ⟨e', hentry', w, hw, ⟨hdue, -⟩ | ⟨hlate, b, f, hlinks, rfl⟩⟩ :=
    h.addTimerTaskEntry_cases hok
  · obtain rfl := Option.some.inj (hentry.symm.trans hentry')
    refine absurd ⟨(keepsFiled_iff hw).mpr fun hbeyond => ?_, fun b hplace => ?_⟩ hbad
    · have hsound := h.geared.sound w (List.mem_of_getElem? hw)
      linarith [hsound.tick_le_interval]
    · rw [place_due hw hdue] at hplace
      cases hplace
  · obtain rfl := Option.some.inj (hentry.symm.trans hentry')
    have hself : id ∈ f.rings b.level := by
      rw [h.filed_rings hlist f hlinks, if_pos rfl]
      exact List.mem_append_right _ List.mem_cons_self
    refine ⟨b, f.placed_or_new, fun hapart => ?_⟩
    by_cases hkept : b.level = 0 ∨ overflow = true
    · rw [if_pos hkept] at hapart
      refine hbad ⟨(keepsFiled_iff hw).mpr fun hbeyond => ?_, fun c hplace id' hmem => ?_⟩
      · rw [f.level_eq_zero_iff hw hlate] at hkept
        exact hkept.resolve_left (not_lt.mpr hbeyond)
      · obtain rfl := f.placed_eq hplace
        have hne : id' ≠ id := by
          rintro rfl
          exact h.not_mem hentry hlist _ hmem
        have hmem' : id' ∈ f.rings c.level := (f.mem_rings _ id' hne).mpr hmem
        rw [← f.result_listOf, ← hapart.own id' hmem' id hself]
        exact (listOf_congr (Function.update_of_ne hne ..)).symm
    · rw [if_neg hkept] at hapart
      exact hapart.pending id hself (List.mem_append_right _ List.mem_cons_self)

/-- The tasks of a bucket that has been polled leave its wheel: the tick of the bucket is
the current one, in which nothing is filed. -/
theorem Linked.goes_of_polled (h : t.Linked) (hpolled : Polled t.wheels b)
    (hentry : t.entries id = some e) (hlist : e.list = some b) :
    Goes t.wheels b e.expiration := by
  refine h.goes hentry hlist fun b' hplace hlevel => ?_
  obtain ⟨w, l, hbucket, -, hindex⟩ := hpolled
  obtain ⟨-, w₁, hw₁, -, hindex₁⟩ := h.filed id e b hentry hlist
  obtain ⟨w₂, hw₂, hlate, hfits, -⟩ := place_spec hplace
  rw [Nat.sub_zero, hlevel] at hw₂
  obtain rfl := Option.some.inj (hbucket.1.symm.trans hw₁)
  obtain rfl := Option.some.inj (hbucket.1.symm.trans hw₂)
  have hsound := h.geared.sound w (List.mem_of_getElem? hbucket.1)
  have hinterval := hsound.tick_pos.trans_le hsound.tick_le_interval
  obtain ⟨hc, hc'⟩ := hsound.tick_in_turn le_rfl (by linarith)
  obtain ⟨hx, hx'⟩ := hsound.tick_in_turn (by linarith [hsound.tick_pos]) hfits
  have hsame := eq_of_emod_eq hc hc' hx hx' (hindex.symm.trans hindex₁)
  have hnext := Int.ediv_le_ediv hsound.tick_pos hlate
  rw [Int.add_ediv_of_dvd_left hsound.aligned, Int.ediv_self hsound.tick_pos.ne'] at hnext
  omega

variable {head : EntryId} {rest : List EntryId} {rings : ℕ → List EntryId} {t₁ : Timer}

/-- The timer from which an entry has been unlinked. -/
def unlinked (t : Timer) (head : EntryId) (e : TimerTaskEntry) (rings : ℕ → List EntryId) :
    Timer :=
  { t with rings, entries := Function.update t.entries head (some { e with list := none }) }

/-- An iteration unlinks a task of the bucket and files it. -/
theorem iterate_unlinked {undef : ℕ → Bool} (hentry : t.entries head = some e)
    (hlist : e.list = some b) (hok : t.iterate undef fuel b head = .ok t₁) :
    ∃ rings, Unlinked t.wheels t.rings head e.list rings ∧
      Timer.addTimerTaskEntry undef fuel head (t.unlinked head e rings) = .ok t₁ := by
  rw [iterate] at hok
  cases hremove : t.removeFrom b head with
  | error stuck => rw [hremove] at hok; cases hok
  | ok t₀ =>
    rw [hremove] at hok
    obtain ⟨e', hentry', hcases⟩ := removeFrom_spec hremove
    obtain rfl := Option.some.inj (hentry.symm.trans hentry')
    obtain ⟨-, rings, hunlinked, rfl⟩ := hcases.resolve_right fun hother => hother.1 hlist
    exact ⟨rings, hunlinked, hok⟩

section Unlinked

variable (h : t.Linked) (hentry : t.entries head = some e)
  (hunlinked : Unlinked t.wheels t.rings head e.list rings)

include h hentry hunlinked

/-- What remains linked when an entry has been unlinked. -/
theorem mem_unlinked {root : ℕ} (hmem : id ∈ (t.unlinked head e rings).rings root) :
    id ≠ head ∧ id ∈ t.rings root ∧ (t.unlinked head e rings).entries id = t.entries id := by
  have hne : id ≠ head := by
    rintro rfl
    exact (h.unlinked h.fitted hentry hunlinked root).1 hmem
  exact ⟨hne, (hunlinked.mem_iff root hne).mp hmem, Function.update_of_ne hne ..⟩

/-- The lists are those of one bucket when an entry has been unlinked. -/
theorem apart_unlinked (hapart : t.Apart root) : (t.unlinked head e rings).Apart root := by
  refine hapart.mono fun id hmem => ?_
  obtain ⟨-, hold, hsame⟩ := mem_unlinked h hentry hunlinked hmem
  exact ⟨hold, hsame, fun hpool => hpool⟩

/-- The condition on filing the entry is the same before and after it has been unlinked. -/
theorem filesTogether_unlinked (hlist : e.list = some b) (hgoes : Goes t.wheels b x) :
    (t.unlinked head e rings).FilesTogether x ↔ t.FilesTogether x := by
  refine forall₂_congr fun c hplace => ?_
  have hne := hgoes.level_ne hplace
  constructor
  · intro hall id hmem
    have hid : id ≠ head := by
      rintro rfl
      exact hne (h.level_eq hentry hlist hmem)
    rw [← hall id ((hunlinked.mem_iff _ hid).mpr hmem)]
    exact (listOf_congr (Function.update_of_ne hid ..)).symm
  · intro hall id hmem
    obtain ⟨-, hold, hsame⟩ := mem_unlinked h hentry hunlinked hmem
    rw [listOf_congr hsame]
    exact hall id hold

end Unlinked

/-- All tasks but the one that has been unlinked are accounted for. -/
theorem Accounted.unlinked (h : t.Accounted none) (hentry : t.entries head = some e)
    (rings : ℕ → List EntryId) : (t.unlinked head e rings).Accounted (some head) where
  once := h.once
  handedOver := by
    intro id hmem
    obtain ⟨hlt, hgone⟩ := h.handedOver id hmem
    have hne : id ≠ head := fun heq => h.not_mem hentry (heq ▸ hmem)
    exact ⟨hlt, (Function.update_of_ne hne ..).trans hgone⟩
  pending := by
    intro id hid hnot hfiling
    have hne : id ≠ head := fun heq => hfiling (congrArg some heq.symm)
    obtain ⟨e', b, hentry', hlist⟩ := h.pending id hid hnot nofun
    exact ⟨e', b, (Function.update_of_ne hne ..).trans hentry', hlist⟩


/-- A new entry is accounted for when it has been filed. -/
theorem Accounted.withEntry (h : t.Accounted none) (x : TimeEntry) :
    (t.withEntry x).Accounted (some t.created) where
  once := h.once
  handedOver := by
    intro id hmem
    obtain ⟨hlt, hgone⟩ := h.handedOver id hmem
    exact ⟨hlt.trans (Nat.lt_succ_self _), (Function.update_of_ne hlt.ne ..).trans hgone⟩
  pending := by
    intro id hid hnot hfiling
    have hne : id ≠ t.created := fun heq => hfiling (congrArg some heq.symm)
    obtain ⟨e, b, hentry, hlist⟩ :=
      h.pending id (lt_of_le_of_ne (Nat.lt_succ_iff.mp hid) hne) hnot nofun
    exact ⟨e, b, (Function.update_of_ne hne ..).trans hentry, hlist⟩

/-- A linked entry is not the new one. -/
theorem Linked.withEntry_entries (h : t.Linked) (hmem : id ∈ t.rings root) (x : TimeEntry) :
    (t.withEntry x).entries id = t.entries id :=
  Function.update_of_ne (h.rings root id hmem).2.1.ne ..

/-- The condition on filing a new entry is the same before and after it has been created. -/
theorem Linked.filesTogether_withEntry (h : t.Linked) (x : TimeEntry) :
    (t.withEntry x).FilesTogether x ↔ t.FilesTogether x := by
  refine forall₄_congr fun b hplace id hmem => ?_
  rw [listOf_congr (h.withEntry_entries hmem x)]

/-- What adding a task leads to, under the condition and in violation of it. -/
theorem Separate.add (h : t.Separate) (hlinked : t.Linked)
    (hok : Timer.addTimerTaskEntry (fun _ => overflow) fuel t.created (t.withEntry x) = .ok t') :
    (t.KeepsFiled overflow x ∧ t.FilesTogether x → t'.Separate) ∧
      (¬ (t.KeepsFiled overflow x ∧ t.FilesTogether x) → ∃ root, ¬ t'.Apart root) := by
  have hlinked₀ := hlinked.withEntry x
  have hentry := t.withEntry_entries x
  have htogether := hlinked.filesTogether_withEntry x
  constructor
  · rintro ⟨hkeeps, hcond⟩
    refine (h.accounted.withEntry x).separate hlinked₀ hentry rfl (fun root => ?_) (fun q hq => ?_)
      hkeeps (htogether.mpr hcond) hok
    · exact (h.apart root).mono fun id hmem =>
        ⟨hmem, hlinked.withEntry_entries hmem x, fun hpool => hpool⟩
    · obtain ⟨id, hid⟩ := h.queued q hq
      obtain ⟨e, he, -⟩ := Option.bind_eq_some_iff.mp hid
      refine ⟨id, (listOf_congr ?_).trans hid⟩
      exact Function.update_of_ne (hlinked.tasks id e he).2.ne ..
  · intro hbad
    rw [← htogether] at hbad
    obtain ⟨b, -, hapart⟩ := hlinked₀.not_apart_of_filed hentry rfl hbad hok
    exact ⟨b.level, hapart⟩

/-- What an iteration of `flush` leads to, under the condition and in violation of it, if all
entries behind the root are tasks of the bucket. -/
theorem Separate.iterate (h : t.Separate) (hlinked : t.Linked) (hpolled : Polled t.wheels b)
    (hnot : ∀ q ∈ t.delayQueue, q.bucket ≠ b) (hown : ∀ id ∈ t.rings b.level, t.listOf id = some b)
    (hring : t.rings b.level = head :: rest) (hentry : t.entries head = some e)
    (hok : t.iterate (fun _ => overflow) fuel b head = .ok t₁) :
    (t.KeepsFiled overflow e.expiration ∧ t.FilesTogether e.expiration →
      t₁.Separate ∧ ∀ id ∈ t₁.rings b.level, t₁.listOf id = some b) ∧
    (¬ (t.KeepsFiled overflow e.expiration ∧ t.FilesTogether e.expiration) →
      ∃ root, root ≠ b.level ∧ ¬ t₁.Apart root) := by
  have hlist : e.list = some b := by
    rw [← listOf_eq hentry]
    exact hown head (by rw [hring]; exact List.mem_cons_self)
  have hgoes := hlinked.goes_of_polled hpolled hentry hlist
  obtain ⟨rings, hunlinked, hadd⟩ := iterate_unlinked hentry hlist hok
  have hlinked₀ : (t.unlinked head e rings).Linked := hlinked.unlink hentry hunlinked
  have hentry₀ : (t.unlinked head e rings).entries head = some { e with list := none } :=
    Function.update_self ..
  have htogether := filesTogether_unlinked hlinked hentry hunlinked hlist hgoes
  constructor
  · rintro ⟨hkeeps, hcond⟩
    refine ⟨(h.accounted.unlinked hentry rings).separate hlinked₀ hentry₀ rfl
      (fun root => apart_unlinked hlinked hentry hunlinked (h.apart root)) (fun q hq => ?_)
      hkeeps (htogether.mpr hcond) hadd, fun id hmem => ?_⟩
    · obtain ⟨id, hid⟩ := h.queued q hq
      have hne : id ≠ head := by
        rintro rfl
        rw [listOf_eq hentry, hlist] at hid
        exact hnot q hq (Option.some.inj hid).symm
      exact ⟨id, (listOf_congr (Function.update_of_ne hne ..)).trans hid⟩
    · have hrest := (hlinked.iterate_own hring hentry hlist
        (fun _ hplace => hgoes.level_ne hplace) hok).1
      have hnodup := hlinked.nodup b.level
      rw [hring, List.nodup_cons] at hnodup
      rw [hrest] at hmem
      have hne : id ≠ head := fun heq => hnodup.1 (heq ▸ hmem)
      rw [listOf_congr ((hlinked.iterate hok).2.entries id hne)]
      exact hown id (by rw [hring]; exact List.mem_cons_of_mem _ hmem)
  · intro hbad
    rw [← htogether] at hbad
    obtain ⟨b', hplace, hapart⟩ := hlinked₀.not_apart_of_filed hentry₀ rfl hbad hadd
    refine ⟨b'.level, ?_, hapart⟩
    rcases hplace with hplace | hnew
    · exact hgoes.level_ne hplace
    · have hlt := (hlinked.rings b.level head (by rw [hring]; exact List.mem_cons_self)).1
      exact (hlt.trans_le hnew).ne'

/-- A list on which tasks of several buckets are, or tasks that have been handed over, is not
mended by a flush of a bucket of another wheel. -/
theorem Linked.apart_of_iterate (h : t.Linked) (hne : root ≠ b.level)
    (hring : t.rings b.level = head :: rest)
    (hok : t.iterate (fun _ => overflow) fuel b head = .ok t₁) (hapart : t₁.Apart root) :
    t.Apart root := by
  obtain ⟨e, -, -, hentry, -⟩ := h.iterate_cases hok
  obtain ⟨c, hlist, hlevel⟩ :=
    (h.rings b.level head (by rw [hring]; exact List.mem_cons_self)).2.2 e hentry
  have hspares := (h.iterate hok).2
  refine hapart.mono fun id hmem => ?_
  have hid : id ≠ head := by
    rintro rfl
    exact hne ((h.level_eq hentry hlist hmem).trans hlevel)
  refine ⟨(hspares.mem_rings id hid root).mpr hmem, (hspares.entries id hid).symm, fun hpool => ?_⟩
  rw [← List.count_pos_iff, hspares.count id hid]
  exact List.count_pos_iff.mpr hpool

end Timer

namespace Ticker

/-- The condition on a step: a task that is filed comes to tasks of its own bucket only. -/
def FilesTogether (s : Ticker) (a : TimeEntry × TickerAction) : Prop :=
  ∀ x ∈ s.filedExpiration a.2, s.timer.FilesTogether x

instance (s : Ticker) (a : TimeEntry × TickerAction) : Decidable (s.FilesTogether a) := by
  unfold FilesTogether Timer.FilesTogether
  infer_instance

/-- The invariant of runs under the condition. -/
structure Separate (tickMs : TimeEntry) (s : Ticker) : Prop where
  clocked : s.Clocked tickMs
  linked : s.timer.Linked
  separate : s.timer.Separate
  /-- Behind the root of a bucket that is flushed there are tasks of the bucket only. -/
  flushing : ∀ b ∈ s.flushing, ∀ id ∈ s.timer.rings b.level, s.timer.listOf id = some b

/-- A list that is not being flushed has tasks of several buckets, or tasks that have been
handed over. -/
structure Mixed (tickMs : TimeEntry) (s : Ticker) : Prop where
  clocked : s.Clocked tickMs
  linked : s.timer.Linked
  mixed : ∃ root, (∀ b ∈ s.flushing, root ≠ b.level) ∧ ¬ s.timer.Apart root

variable {tickMs : TimeEntry} {wheelSize fuel : ℕ} {s s' : Ticker} {action : TickerAction}
  {a : TimeEntry × TickerAction} {x : TimeEntry}

/-- The condition on a step that files a task. -/
theorem condition_iff (hfiled : s.filedExpiration a.2 = some x) :
    s.OverflowYieldsTrue a ∧ s.FilesTogether a ↔
      s.timer.KeepsFiled (overflowValue a.2) x ∧ s.timer.FilesTogether x := by
  rw [OverflowYieldsTrue, FilesTogether, hfiled]
  simp [Timer.KeepsFiled]

/-- There is no condition on other steps. -/
theorem condition_of_none (hfiled : s.filedExpiration a.2 = none) :
    s.OverflowYieldsTrue a ∧ s.FilesTogether a := by
  rw [OverflowYieldsTrue, FilesTogether, hfiled]
  simp

/-- An iteration of `flush` takes the first entry behind the root of the bucket. -/
theorem iterate_of_refile {overflow : Bool} {b : BucketId} (h : s.timer.Linked)
    (hflushing : s.flushing = some b) (hrefile : refile fuel overflow b s = .ok s') :
    ∃ head rest e, s.timer.rings b.level = head :: rest ∧ s.timer.entries head = some e ∧
      s.filedExpiration (.refile overflow) = some e.expiration ∧
      s.timer.iterate (fun _ => overflow) fuel b head = .ok s'.timer ∧
      s'.flushing = some b := by
  obtain ⟨l, head, rest, t, hbucket, hring, hremove, hfile⟩ := refile_removeFrom hrefile
  obtain ⟨e, hentry, -⟩ := Timer.removeFrom_spec hremove
  obtain ⟨hadd, hsame⟩ := file_timer hfile
  refine ⟨head, rest, e, h.bucket_root hbucket ▸ hring, hentry, ?_, ?_, hsame.trans hflushing⟩
  · simp [filedExpiration, hflushing, hbucket, hring, hentry]
  · rw [Timer.iterate, hremove]
    exact hadd

/-- What an action leads to, under the condition and in violation of it. -/
theorem Separate.perform (h : s.Separate tickMs) (hperform : perform fuel s action = .ok s')
    (now : TimeEntry) :
    (s.OverflowYieldsTrue (now, action) ∧ s.FilesTogether (now, action) →
      s'.timer.Separate ∧
        ∀ b ∈ s'.flushing, ∀ id ∈ s'.timer.rings b.level, s'.timer.listOf id = some b) ∧
    (¬ (s.OverflowYieldsTrue (now, action) ∧ s.FilesTogether (now, action)) →
      ∃ root, (∀ b ∈ s'.flushing, root ≠ b.level) ∧ ¬ s'.timer.Apart root) := by
  cases action with
  | add x overflow =>
    obtain ⟨hflushing, hfile⟩ := perform_add hperform
    obtain ⟨hadd, hsame⟩ := file_timer hfile
    have hnone : s'.flushing = none := hsame.trans hflushing
    obtain ⟨hkeep, hbreak⟩ := h.separate.add h.linked hadd
    rw [condition_iff rfl, hnone]
    refine ⟨fun hcond => ⟨hkeep hcond, nofun⟩, fun hbad => ?_⟩
    obtain ⟨root, hroot⟩ := hbreak hbad
    exact ⟨root, nofun, hroot⟩
  | poll choice =>
    refine ⟨fun _ => ?_, fun hbad => absurd (condition_of_none rfl) hbad⟩
    obtain ⟨hflushing, hpoll⟩ := perform_poll hperform
    rcases poll_ok hpoll with rfl | ⟨q, l, hq, -, -, -, rfl⟩
    · exact ⟨h.separate, h.flushing⟩
    · refine ⟨h.separate.of_wheels _ fun q' hq' => List.mem_of_mem_erase hq',
        fun b hb id hmem => ?_⟩
      -- The bucket has a task, and all entries on its list point to the same bucket.
      obtain rfl := Option.some.inj hb
      obtain ⟨id', hid'⟩ := h.separate.queued q hq
      obtain ⟨e, hentry, hlist⟩ := Option.bind_eq_some_iff.mp hid'
      rw [← hid']
      exact (h.separate.apart _).own id hmem id' (h.linked.filed id' e _ hentry hlist).1
  | refile overflow =>
    obtain ⟨b, hflushing, hrefile⟩ := perform_refile hperform
    obtain ⟨head, rest, e, hring, hentry, hfiled, hok, hflushing'⟩ :=
      iterate_of_refile h.linked hflushing hrefile
    obtain ⟨hpolled, hnot⟩ := h.clocked.polled b hflushing
    obtain ⟨hkeep, hbreak⟩ := h.separate.iterate h.linked hpolled hnot (h.flushing b hflushing)
      hring hentry hok
    rw [condition_iff hfiled, hflushing']
    refine ⟨fun hcond => ?_, fun hbad => ?_⟩
    · obtain ⟨hseparate, hown⟩ := hkeep hcond
      refine ⟨hseparate, fun c hc => ?_⟩
      obtain rfl := Option.some.inj hc
      exact hown
    · obtain ⟨root, hne, hapart⟩ := hbreak hbad
      refine ⟨root, fun c hc => ?_, hapart⟩
      obtain rfl := Option.some.inj hc
      exact hne
  | finish =>
    refine ⟨fun _ => ?_, fun hbad => absurd (condition_of_none rfl) hbad⟩
    obtain ⟨b, hflushing, hfinish⟩ := perform_finish hperform
    obtain ⟨l, hbucket, -, rfl⟩ := finish_ok hfinish
    obtain ⟨w, hw⟩ := Timer.bucketAt_of_bucket hbucket
    rw [Timer.setExpiration_eq hw.1 hbucket]
    exact ⟨h.separate.of_wheels _ fun q hq => hq, nofun⟩

/-- A step under the condition keeps the invariant, and one in violation of it mixes a list. -/
theorem Separate.step (h : s.Separate tickMs)
    (hstep : (machine tickMs wheelSize).step s a s') :
    (s.OverflowYieldsTrue a ∧ s.FilesTogether a → s'.Separate tickMs) ∧
      (¬ (s.OverflowYieldsTrue a ∧ s.FilesTogether a) → s'.Mixed tickMs) := by
  have hclocked := (h.clocked.step hstep).1
  have hlinked := linked_step h.clocked h.linked hstep
  obtain ⟨fuel, hnext⟩ := hstep
  obtain ⟨hnow, hperform⟩ := next_ok hnext
  have hwait : Separate tickMs { s with now := a.1 } :=
    ⟨h.clocked.wait hnow, h.linked, h.separate, h.flushing⟩
  obtain ⟨hkeep, hbreak⟩ := hwait.perform hperform a.1
  refine ⟨fun hcond => ?_, fun hbad => ⟨hclocked, hlinked, hbreak hbad⟩⟩
  obtain ⟨hseparate, hflushing⟩ := hkeep hcond
  exact ⟨hclocked, hlinked, hseparate, hflushing⟩

/-- A mixed list is not mended by the flush of another one. -/
theorem Mixed.perform (h : s.Mixed tickMs) (hflushing : s.flushing ≠ none)
    (hperform : perform fuel s action = .ok s') :
    ∃ root, (∀ b ∈ s'.flushing, root ≠ b.level) ∧ ¬ s'.timer.Apart root := by
  obtain ⟨root, hroot, hapart⟩ := h.mixed
  cases action with
  | add x overflow => exact absurd (perform_add hperform).1 hflushing
  | poll choice => exact absurd (perform_poll hperform).1 hflushing
  | refile overflow =>
    obtain ⟨b, hb, hrefile⟩ := perform_refile hperform
    obtain ⟨head, rest, e, hring, -, -, hok, hb'⟩ := iterate_of_refile h.linked hb hrefile
    refine ⟨root, fun c hc => ?_, fun hapart' => hapart ?_⟩
    · rw [hb'] at hc
      obtain rfl := Option.some.inj hc
      exact hroot b hb
    · exact h.linked.apart_of_iterate (hroot b hb) hring hok hapart'
  | finish =>
    obtain ⟨b, -, hfinish⟩ := perform_finish hperform
    obtain ⟨l, -, -, rfl⟩ := finish_ok hfinish
    refine ⟨root, nofun, fun hapart' => hapart (hapart'.mono fun id hmem => ?_)⟩
    obtain ⟨hentries, hpool⟩ := Timer.setExpiration_entries s.timer b .unset
    rw [Timer.setExpiration_rings, hentries, hpool]
    exact ⟨hmem, rfl, fun h => h⟩

/-- A mixed list stays so until the flush of another one ends. -/
theorem Mixed.step (h : s.Mixed tickMs) (hflushing : s.flushing ≠ none)
    (hstep : (machine tickMs wheelSize).step s a s') : s'.Mixed tickMs := by
  have hclocked := (h.clocked.step hstep).1
  have hlinked := linked_step h.clocked h.linked hstep
  obtain ⟨fuel, hnext⟩ := hstep
  obtain ⟨hnow, hperform⟩ := next_ok hnext
  have hwait : Mixed tickMs { s with now := a.1 } := ⟨h.clocked.wait hnow, h.linked, h.mixed⟩
  exact ⟨hclocked, hlinked, hwait.perform hflushing hperform⟩

/-- A new timer has no tasks. -/
theorem Separate.init (htick : 0 < tickMs) (hsize : 0 < wheelSize)
    (h : (machine tickMs wheelSize).init s) : s.Separate tickMs := by
  have hclocked := (Clocked.init htick hsize h).1
  have hlinked := linked_init htick hsize h
  obtain ⟨startMs, -, rfl⟩ := h
  refine ⟨hclocked, hlinked, ⟨⟨List.nodup_nil, nofun, nofun⟩, fun root => ⟨nofun, nofun⟩, nofun⟩,
    nofun⟩

/-- Between operations tasks are filed once and fired once throughout a run exactly when the
overflow branch of the first wheel yields true whenever it is taken, and every task that is
filed comes to tasks of its own bucket only. -/
theorem exactlyOnce_iff_filesTogether (htick : 0 < tickMs) (hsize : 0 < wheelSize)
    {first last : Ticker} {trace : List (Ticker × TimeEntry × TickerAction)}
    (hinit : (machine tickMs wheelSize).init first)
    (h : (machine tickMs wheelSize).Run first trace last) (hlast : last.flushing = none) :
    (∀ s ∈ Machine.visited trace last, s.flushing = none → s.timer.ExactlyOnce) ↔
      ∀ p ∈ trace, p.1.OverflowYieldsTrue p.2 ∧ p.1.FilesTogether p.2 := by
  refine h.forall_visited_iff_between (I := Separate tickMs) (D := Mixed tickMs)
    (C := fun s a => s.OverflowYieldsTrue a ∧ s.FilesTogether a)
    (P := fun s => s.timer.ExactlyOnce) (G := fun s => s.flushing = none)
    (fun s hs => hs.separate.exactlyOnce hs.linked)
    (fun s a s' hs hcond hstep => (hs.step hstep).1 hcond)
    (fun s a s' hs hbad hstep => (hs.step hstep).2 hbad)
    (fun s a s' hs hflushing => hs.step hflushing) ?_ (Separate.init htick hsize hinit) hlast
  intro s hs _ hexact
  obtain ⟨root, -, hapart⟩ := hs.mixed
  exact hapart (hexact.apart root)

/-- Four tasks: one due when it is added, two in one bucket of the first wheel, and one in a
bucket of an overflow wheel, which is moved to another bucket of the first wheel when that
is free. -/
def fourTasks : List (TimeEntry × TickerAction) :=
  [(100, .add 105 true), (100, .add 125 true), (100, .add 150 true), (101, .add 127 true),
    (126, .poll 0), (126, .refile true), (126, .refile true), (127, .finish),
    (151, .poll 0), (151, .refile true), (151, .finish),
    (152, .poll 0), (152, .refile true), (153, .finish)]

/-- The timer after these actions. -/
def afterFourTasks : Ticker :=
  (fourTasks.foldlM (next 4) (start 10 4 100)).getD (start 10 4 100)

/-- The actions can be performed. -/
theorem afterFourTasks_eq :
    fourTasks.foldlM (next 4) (start 10 4 100) = some afterFourTasks := by
  have hsome : (fourTasks.foldlM (next 4) (start 10 4 100)).isSome = true := by decide +kernel
  exact (Option.getD_of_ne_none (Option.isSome_iff_ne_none.mp hsome) _).symm

/-- Each of the four tasks is handed over once, though there have been tasks in two buckets
at the same time, and in two buckets of the first wheel one after the other. -/
theorem exactlyOnce_iff_filesTogether_fourTasks :
    (∀ s ∈ Machine.visited (Machine.traceOf (next 4) (start 10 4 100) fourTasks) afterFourTasks,
      s.flushing = none → s.timer.ExactlyOnce) ∧
    (∃ s ∈ Machine.visited (Machine.traceOf (next 4) (start 10 4 100) fourTasks) afterFourTasks,
      (List.range 4).map s.timer.listOf =
        [none, some ⟨0, 0⟩, some ⟨1, 3⟩, some ⟨0, 0⟩]) ∧
    (∃ s ∈ Machine.visited (Machine.traceOf (next 4) (start 10 4 100) fourTasks) afterFourTasks,
      (List.range 4).map s.timer.listOf = [none, none, some ⟨0, 3⟩, none]) ∧
    afterFourTasks.timer.threadPool = [0, 1, 3, 2] := by
  refine ⟨?_, by decide +kernel, by decide +kernel, by decide +kernel⟩
  have hinit : (machine 10 4).init (start 10 4 100) := ⟨100, by decide, rfl⟩
  exact (exactlyOnce_iff_filesTogether (by decide) (by decide) hinit
    (run_of_foldlM afterFourTasks_eq) (by decide +kernel)).mpr (by decide +kernel)

/-- Two tasks in different buckets of the first wheel are linked behind the root that the
two buckets share. -/
theorem twoBuckets_not_exactlyOnce : ∃ s, (machine 1 4).Reachable s ∧ s.flushing = none ∧
    s.timer.listOf 0 = some ⟨0, 1⟩ ∧ s.timer.listOf 1 = some ⟨0, 2⟩ ∧
    (s.timer.bucket ⟨0, 1⟩).map (s.timer.rings ·.root) = some [0, 1] ∧
    (s.timer.bucket ⟨0, 2⟩).map (s.timer.rings ·.root) = some [0, 1] ∧
    ¬ s.timer.ExactlyOnce := by
  have hinit : (machine 1 4).init (start 1 4 0) := ⟨0, by decide, rfl⟩
  have hsteps : ∃ s₁ s₂, (machine 1 4).step (start 1 4 0) (0, .add 1 true) s₁ ∧
      (machine 1 4).step s₁ (0, .add 2 true) s₂ ∧ s₂.flushing = none ∧
      s₂.timer.listOf 0 = some ⟨0, 1⟩ ∧ s₂.timer.listOf 1 = some ⟨0, 2⟩ ∧
      (s₂.timer.bucket ⟨0, 1⟩).map (s₂.timer.rings ·.root) = some [0, 1] ∧
      (s₂.timer.bucket ⟨0, 2⟩).map (s₂.timer.rings ·.root) = some [0, 1] ∧
      s₂.timer.rings 0 = [0, 1] :=
    ⟨_, _, ⟨1, rfl⟩, ⟨1, rfl⟩, rfl, rfl, rfl, rfl, rfl, rfl⟩
  obtain ⟨s₁, s, hfirst, hsecond, hflushing, hlist, hlist', hring₁, hring₂, hring⟩ := hsteps
  refine ⟨s, Machine.Reachable.tail (Machine.Reachable.tail (.of_init hinit) hfirst) hsecond,
    hflushing, hlist, hlist', hring₁, hring₂, fun hexact => ?_⟩
  have hsame := hexact.own 0 0 (by rw [hring]; decide) 1 (by rw [hring]; decide)
  rw [hlist, hlist'] at hsame
  exact absurd hsame (by decide)

end Ticker

end DuoDuo.Timers
