import DuoDuo.Buffer.ChunkProgress
import DuoDuo.Buffer.ListPlacement

/-!
# The arena answers every request

While all chunks are placed, no request of a class and no release of a region fails in
an assertion of the arena: a request is served from a list, or from a new chunk, which
is then free as a whole.
-/

namespace DuoDuo.Buffer

open Library PoolChunk PoolArena ChunkListName

variable {k : PoolConfig} {a a' : PoolArena} {t t' : PoolThreadCache} {owned rest : List Grant}
  {l : ChunkListName} {reqCapacity sizeIdx : ℕ} {cache : Bool} {type : SizeClassType} {g : Grant}

/-- A request to the chunks of a list is answered. -/
theorem Placed.allocateFrom_total (h : Placed k a) (howns : Owns k a owned) (hcarve : k.Carvable)
    (hi : sizeIdx < k.numSizes) (hreq : reqCapacity ≤ k.sizeClass.sizeIdx2size sizeIdx)
    {ids : List ℕ} (hids : ∀ id ∈ ids, ∃ c, a.store.chunks id = some c ∧ c.parent = some l) :
    ∃ res a', PoolArena.allocateFrom k.sizeClass l reqCapacity sizeIdx cache a ids = some (res, a') ∧
      ∀ r, res = some r → r.Fits k sizeIdx reqCapacity := by
  obtain ⟨⟨lists, hlinked⟩, hwithin⟩ := h
  obtain ⟨blocks, hstore⟩ := howns
  induction ids with
  | nil => exact ⟨none, a, rfl, nofun⟩
  | cons cur ids ih =>
    rw [List.forall_mem_cons] at hids
    obtain ⟨c, hid, hl⟩ := hids.1
    obtain ⟨res, store, halloc, _, hfits⟩ := hstore.allocate_total hcarve hid hi hreq
    cases res with
    | none =>
      obtain ⟨res, a', hrest, hfits⟩ := ih hids.2
      rcases hstore.allocate halloc with ⟨_, rfl⟩ | ⟨_, _, _, _, _, hsome, _⟩
      · refine ⟨res, a', ?_, hfits⟩
        rw [PoolArena.allocateFrom, halloc]
        exact hrest
      · cases hsome
    | some r =>
      have htouch := touches_allocate halloc
      obtain ⟨c', hid', hparent', _⟩ := hwithin.served htouch hids.1
      have hnonneg : 0 ≤ c'.freeBytes := by
        rcases hstore.allocate halloc with ⟨hnone, _⟩ | ⟨_, _, _, _, _, _, _, hstore', _⟩
        · cases hnone
        · exact (hstore'.chunk hid').freeBytes_le.1
      by_cases hmin : c'.freeBytes ≤ l.freeMinThreshold k.sizeClass
      · have hlinked' : Linked (a.setStore store) lists none := hlinked.touch htouch
        have hwithin' : Within k store (some cur) := hwithin.touch_other htouch
        obtain ⟨next, a₁, a₂, hnext, hremove, hadd, _⟩ :=
          hlinked'.demote hwithin' hid' hparent' hnonneg hmin
        refine ⟨some r, a₂, ?_, hfits⟩
        rw [PoolArena.allocateFrom, halloc, Option.bind_eq_bind, Option.bind_some]
        dsimp only
        rw [hid', Option.bind_eq_bind, Option.bind_some, if_pos hmin, hnext, Option.bind_eq_bind,
          Option.bind_some, hremove, Option.bind_eq_bind, Option.bind_some, hadd]
        rfl
      · refine ⟨some r, a.setStore store, ?_, hfits⟩
        rw [PoolArena.allocateFrom, halloc, Option.bind_eq_bind, Option.bind_some]
        dsimp only
        rw [hid', Option.bind_eq_bind, Option.bind_some, if_neg hmin]

/-- A request to the lists is answered. -/
theorem Placed.allocateLists_total (h : Placed k a) (howns : Owns k a owned)
    (hcarve : k.Carvable) (hi : sizeIdx < k.numSizes)
    (hreq : reqCapacity ≤ k.sizeClass.sizeIdx2size sizeIdx) (ls : List ChunkListName) :
    ∃ res a', PoolArena.allocateLists k.sizeClass reqCapacity sizeIdx cache a ls = some (res, a') ∧
      ∀ r, res = some r → r.Fits k sizeIdx reqCapacity := by
  induction ls with
  | nil => exact ⟨none, a, rfl, nofun⟩
  | cons l ls ih =>
    have hlist : ∃ res a₁, a.listAllocate k.sizeClass l reqCapacity sizeIdx cache = some (res, a₁) ∧
        (res = none → a₁ = a) ∧ ∀ r, res = some r → r.Fits k sizeIdx reqCapacity := by
      rw [listAllocate]
      split_ifs
      · exact ⟨none, a, rfl, fun _ => rfl, nofun⟩
      · obtain ⟨lists, hlinked⟩ := h.1
        have hids : ∀ id ∈ a.chunksOf l, ∃ c, a.store.chunks id = some c ∧ c.parent = some l := by
          intro id hid
          rw [hlinked.chunksOf_eq howns] at hid
          exact (hlinked.mem_iff.mp hid).2
        obtain ⟨res, a₁, hfrom, hfits⟩ := h.allocateFrom_total howns hcarve hi hreq hids
        refine ⟨res, a₁, hfrom, fun hnone => ?_, hfits⟩
        rcases howns.allocateFrom hfrom with ⟨_, hsame⟩ | ⟨_, _, hsome, _⟩
        · exact hsame
        · rw [hnone] at hsome
          cases hsome
    obtain ⟨res, a₁, hlist, hsame, hfits⟩ := hlist
    cases res with
    | none =>
      obtain rfl := hsame rfl
      obtain ⟨res, a', hrest, hfits⟩ := ih
      refine ⟨res, a', ?_, hfits⟩
      rw [PoolArena.allocateLists, hlist]
      exact hrest
    | some r =>
      refine ⟨some r, a₁, ?_, hfits⟩
      rw [PoolArena.allocateLists, hlist]
      rfl

/-- `allocateNormal` serves every request of a class. -/
theorem Placed.allocateNormal_total (h : Placed k a) (howns : Owns k a owned)
    (hcarve : k.Carvable) (hi : sizeIdx < k.numSizes)
    (hreq : reqCapacity ≤ k.sizeClass.sizeIdx2size sizeIdx) :
    ∃ r a', a.allocateNormal k.sizeClass reqCapacity sizeIdx cache = some (r, a') ∧
      r.Fits k sizeIdx reqCapacity := by
  obtain ⟨res, a₁, hlists, hfits⟩ := h.allocateLists_total howns hcarve hi hreq
    [q50, q25, q00, qInit, q75]
  cases res with
  | some r =>
    refine ⟨r, a₁, ?_, hfits r rfl⟩
    rw [PoolArena.allocateNormal, hlists]
    rfl
  | none =>
    rcases howns.allocateLists hlists with ⟨_, rfl⟩ | ⟨_, _, hsome, _⟩
    · -- A chunk that was just made has a run for any request.
      obtain ⟨blocks, hstore⟩ := howns
      obtain ⟨res, store, halloc, hwhole, hfits⟩ := hstore.newChunk.allocate_total hcarve
        (ChunkStore.chunks_newChunk_self _ _) hi hreq
      obtain ⟨r, rfl⟩ := Option.isSome_iff_exists.mp (hwhole (new_rest k).2.2.2.2)
      obtain ⟨a₂, hadd, _⟩ := h.addNew ⟨blocks, hstore⟩ halloc
      refine ⟨r, a₂, ?_, hfits r rfl⟩
      rw [PoolArena.allocateNormal, hlists, Option.bind_eq_bind, Option.bind_some]
      dsimp only
      rw [halloc, Option.bind_eq_bind, Option.bind_some]
      dsimp only
      rw [Option.bind_eq_bind, Option.bind_some, hadd]
      rfl
    · cases hsome

/-- `freeChunk` takes back every region that was handed out. -/
theorem Placed.freeChunk_total (h : Placed k a) (howns : Owns k a owned) (hg : g ∈ owned)
    (buffer : Addr) : ∃ a', a.freeChunk k.sizeClass g buffer = some a' := by
  obtain ⟨c, l, kept, a₁, hid, hl, hlist, _⟩ := h.listFree howns hg buffer
  rw [PoolArena.freeChunk, hid, Option.bind_eq_bind, Option.bind_some, hl, Option.bind_eq_bind,
    Option.bind_some, hlist, Option.bind_eq_bind, Option.bind_some]
  cases kept with
  | true => exact ⟨_, rfl⟩
  | false => exact ⟨_, rfl⟩

/-- The pools answer a request of a small class. -/
theorem Owns.pooledAllocate_total (h : Owns k a owned) (hsmall : sizeIdx < k.sizeClass.nSubpages)
    (hreq : reqCapacity ≤ k.sizeClass.sizeIdx2size sizeIdx) :
    ∃ res a', a.pooledAllocate k.sizeClass reqCapacity sizeIdx = some (res, a') ∧
      ∀ r, res = some r → r.Fits k sizeIdx reqCapacity := by
  obtain ⟨blocks, hstore⟩ := h
  obtain ⟨element, store, hpool, hsub⟩ := hstore.allocatePooled_total
  cases element with
  | none =>
    refine ⟨none, a.setStore store, ?_, nofun⟩
    rw [PoolArena.pooledAllocate, hpool]
    rfl
  | some element =>
    obtain ⟨id, handle⟩ := element
    have h' := hstore.allocatePooled hpool
    have hof : Grant.OfClass k sizeIdx ⟨id, handle, k.sizeClass.sizeIdx2size sizeIdx⟩ :=
      ⟨rfl, iff_of_true (hsub id handle rfl) hsmall⟩
    obtain ⟨r, hinit⟩ : ∃ r, store.initBufWithSubpage k.sizeClass id none handle reqCapacity true =
        some r :=
      h'.initBufWithSubpage_total List.mem_cons_self (hsub id handle rfl) hreq
    refine ⟨some r, a.setStore store, ?_, ?_⟩
    · rw [PoolArena.pooledAllocate, hpool, Option.bind_eq_bind, Option.bind_some]
      dsimp only
      rw [hinit]
      rfl
    · rintro _ ⟨⟩
      rw [(h'.initBufWithSubpage_eq List.mem_cons_self hinit).1]
      exact hof.fits _ _ _

end DuoDuo.Buffer
