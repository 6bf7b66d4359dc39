import DuoDuo.Buffer.CallEffects
import DuoDuo.Buffer.HugeChunks

/-!
# Ownership in a pool of buffers

The regions that are handed out are those of the live buffers and those that the caches
hold, each once, and the chunks that are not pooled belong to one live buffer each. A
request that throws leaves both as they are.
-/

namespace DuoDuo.Buffer

open Library Library.Machine PoolArena

section HandsOut

variable {k : PoolConfig} {a a' : PoolArena} {t t' : PoolThreadCache} {owned rest : List Grant}
  {chunks : List (ℕ × ℕ)} {r : Region} {reqCapacity : ℕ}

/-- The regions of the arena that are handed out are those of one list, and its chunks that
are not pooled those of another one. -/
structure HandsOut (k : PoolConfig) (a : PoolArena) (owned : List Grant) (chunks : List (ℕ × ℕ)) :
    Prop where
  owns : Owns k a owned
  nodup : (chunks.map Prod.fst).Nodup
  alive : ∀ id capacity, a.unpooled id = some capacity ↔ (id, capacity) ∈ chunks
  fresh : ∀ p ∈ chunks, p.1 < a.nextUnpooled

theorem HandsOut.perm {owned' : List Grant} {chunks' : List (ℕ × ℕ)} (h : HandsOut k a owned chunks)
    (howned : owned.Perm owned') (hchunks : chunks.Perm chunks') : HandsOut k a owned' chunks' where
  owns := h.owns.perm howned
  nodup := (hchunks.map Prod.fst).nodup_iff.mp h.nodup
  alive := fun id capacity => (h.alive id capacity).trans hchunks.mem_iff
  fresh := fun p hp => h.fresh p (hchunks.mem_iff.mpr hp)

/-- An arena with the same chunks that are not pooled. -/
theorem HandsOut.of_huge {owned' : List Grant} (h : HandsOut k a owned chunks)
    (howns : Owns k a' owned') (hhuge : a'.huge = a.huge) : HandsOut k a' owned' chunks := by
  obtain ⟨hunpooled, hnext⟩ := Prod.mk.inj hhuge
  refine ⟨howns, h.nodup, ?_, ?_⟩
  · rw [hunpooled]
    exact h.alive
  · rw [hnext]
    exact h.fresh

/-- A request that is answered hands out one region, or makes one chunk. -/
theorem HandsOut.allocate (h : HandsOut k a (t.grants ++ rest) chunks)
    (hstep : a.allocate k.sizeClass t reqCapacity = some (r, t', a')) :
    r.WellPlaced k ∧ HandsOut k a' (t'.grants ++ (r.grants ++ rest)) (r.huge ++ chunks) := by
  obtain ⟨hplaced, howns⟩ := Client.allocate_placed h.owns hstep
  refine ⟨hplaced, ?_⟩
  rcases h.owns.allocate_huge hstep with ⟨hnone, hhuge⟩ | ⟨capacity, rfl, rfl, rfl⟩
  · rw [hnone]
    exact h.of_huge howns hhuge
  · have hnew : ∀ p ∈ chunks, p.1 ≠ a.nextUnpooled := fun p hp => (h.fresh p hp).ne
    refine ⟨howns, ?_, fun id cap => ?_, fun p hp => ?_⟩
    · refine List.nodup_cons.mpr ⟨fun hmem => ?_, h.nodup⟩
      obtain ⟨p, hp, heq⟩ := List.mem_map.mp hmem
      exact hnew p hp heq
    · by_cases hid : id = a.nextUnpooled
      · have hother : (id, cap) ∉ chunks := fun hp => hnew _ hp hid
        subst hid
        simp [newUnpoolChunk, Region.huge, Region.initUnpool, Region.init0, hother, eq_comm]
      · simp [newUnpoolChunk, Region.huge, Region.initUnpool, Region.init0, hid, h.alive]
    · rcases List.mem_cons.mp hp with rfl | hp
      · exact Nat.lt_succ_self _
      · exact (h.fresh p hp).trans (Nat.lt_succ_self _)

/-- A region that is freed is handed out no longer, and a chunk that is freed is gone. -/
theorem HandsOut.free {cache : Bool}
    (h : HandsOut k a (t.grants ++ (r.grants ++ rest)) (r.huge ++ chunks))
    (hstep : a.free k.sizeClass t r.chunk r.tmpBuf r.handle r.maxLength cache = some (t', a')) :
    HandsOut k a' (t'.grants ++ rest) chunks := by
  have howns := Client.free_owns h.owns hstep
  rcases hchunk : r.chunk with id | id
  · have hnone : r.huge = [] := by rw [Region.huge, hchunk]
    rw [hnone] at h
    rw [hchunk] at hstep
    exact h.of_huge howns (huge_free hstep)
  · have hone : r.huge = [(id, r.maxLength)] := by rw [Region.huge, hchunk]
    rw [hone] at h
    rw [hchunk] at hstep
    cases hstep
    obtain ⟨hnew, hnodup⟩ := List.nodup_cons.mp h.nodup
    refine ⟨howns, hnodup, fun id' cap => ?_, fun p hp => h.fresh p (List.mem_cons_of_mem _ hp)⟩
    by_cases hid : id' = id
    · have hother : (id', cap) ∉ chunks := fun hp => hnew (List.mem_map.mpr ⟨_, hp, hid⟩)
      subst hid
      simp [destroyUnpoolChunk, hother]
    · have halive := h.alive id' cap
      simpa [destroyUnpoolChunk, hid] using halive

/-- A request that throws hands nothing out. -/
theorem HandsOut.fruitless (h : HandsOut k a (t.grants ++ rest) chunks)
    (hstep : Running.Fruitless k.sizeClass reqCapacity a t t' a') :
    HandsOut k a' (t'.grants ++ rest) chunks := by
  cases hstep with
  | small _ _ hcache hpool hlists =>
    have hhuge := (huge_allocateLists hlists).trans
      ((huge_pooledAllocate hpool).trans (huge_cacheAllocate hcache))
    obtain ⟨-, ⟨-, h₁⟩ | ⟨_, _, ⟨⟩, _⟩⟩ := h.owns.cacheAllocate hcache
    rcases h₁.pooledAllocate hpool with ⟨-, rfl⟩ | ⟨_, _, ⟨⟩, _⟩
    rcases h₁.allocateLists hlists with ⟨-, rfl⟩ | ⟨_, _, ⟨⟩, _⟩
    exact h.of_huge h₁ hhuge
  | normal _ _ _ hcache hlists =>
    have hhuge := (huge_allocateLists hlists).trans (huge_cacheAllocate hcache)
    obtain ⟨-, ⟨-, h₁⟩ | ⟨_, _, ⟨⟩, _⟩⟩ := h.owns.cacheAllocate hcache
    rcases h₁.allocateLists hlists with ⟨-, rfl⟩ | ⟨_, _, ⟨⟩, _⟩
    exact h.of_huge h₁ hhuge
  | huge => exact h

end HandsOut

/-- `retrieve` keeps the region. -/
theorem PoolByteBuf.toRegion_retrieve {buf buf' : PoolByteBuf} {len : ℕ}
    (h : buf.retrieve len = some buf') : buf'.toRegion = buf.toRegion := by
  rw [retrieve] at h
  split_ifs at h
  · cases h
    rfl
  · cases h
    rfl

namespace BufferPool

variable {k : PoolConfig} {t : PoolThreadCache}

theorem perm_exchange {β : Type} {xs xs' ys ys' : List β} (zs : List β)
    (h : (xs ++ ys).Perm (xs' ++ ys')) : (xs ++ (zs ++ ys)).Perm (xs' ++ (zs ++ ys')) :=
  ((List.perm_append_comm_assoc _ _ _).trans (h.append_left zs)).trans
    (List.perm_append_comm_assoc _ _ _)

/-- What the live buffers have, buffer by buffer. -/
def collect {β : Type} (f : Region → List β) (buffers : List (Option PoolByteBuf)) : List β :=
  buffers.flatMap fun slot => slot.elim [] fun buf => f buf.toRegion

/-- The regions that the live buffers and the caches hold. -/
def owned (s : BufferPool) : List Grant :=
  s.caches.flatMap PoolThreadCache.grants ++ collect Region.grants s.buffers

/-- The chunks that are not pooled of the live buffers. -/
def chunks (s : BufferPool) : List (ℕ × ℕ) := collect Region.huge s.buffers

/-- A slot takes in what its new buffer has and gives up what its old one had. -/
theorem collect_set {β : Type} {buffers : List (Option PoolByteBuf)} {i : ℕ} {buf : PoolByteBuf}
    (hbuf : (buffers[i]?).join = some buf) (f : Region → List β) (slot : Option PoolByteBuf) :
    (slot.elim [] (fun buf => f buf.toRegion) ++ collect f buffers).Perm
      (f buf.toRegion ++ collect f (buffers.set i slot)) :=
  (List.perm_append_comm.trans
    (flatMap_set_perm (Option.join_eq_some_iff.mp hbuf) slot
      fun slot => slot.elim [] fun buf => f buf.toRegion).symm).trans List.perm_append_comm

/-- A slot whose new buffer has what its old one had. -/
theorem collect_set_same {β : Type} {buffers : List (Option PoolByteBuf)} {i : ℕ}
    {buf buf' : PoolByteBuf} (hbuf : (buffers[i]?).join = some buf) {f : Region → List β}
    (hsame : f buf'.toRegion = f buf.toRegion) :
    (collect f buffers).Perm (collect f (buffers.set i (some buf'))) := by
  have hset := collect_set hbuf f (some buf')
  rw [Option.elim_some, hsame] at hset
  exact (List.perm_append_left_iff _).mp hset

theorem collect_append {β : Type} (f : Region → List β) (buffers : List (Option PoolByteBuf))
    (buf : PoolByteBuf) :
    collect f (buffers ++ [some buf]) = collect f buffers ++ f buf.toRegion := by
  rw [collect, List.flatMap_append, List.flatMap_singleton]
  rfl

/-- The cache of one thread, and those of the others. -/
theorem caches_perm {caches : List PoolThreadCache} {j : ℕ} {t : PoolThreadCache}
    (ht : caches[j]? = some t) (rest : List Grant) :
    (caches.flatMap PoolThreadCache.grants ++ rest).Perm
      (t.grants ++ ((caches.eraseIdx j).flatMap PoolThreadCache.grants ++ rest)) := by
  obtain ⟨hj, rfl⟩ := List.getElem?_eq_some_iff.mp ht
  have hsplit := (List.getElem_cons_eraseIdx_perm hj).flatMap_right PoolThreadCache.grants
  rw [List.flatMap_cons] at hsplit
  rw [← List.append_assoc]
  exact hsplit.symm.append_right rest

/-- The regions that are handed out are those that the live buffers and the caches hold,
and no thread holds a lock between its calls. -/
structure Inv (k : PoolConfig) (s : BufferPool) : Prop where
  handsOut : HandsOut k s.arena s.owned s.chunks
  placed : ∀ buf, some buf ∈ s.buffers → buf.toRegion.WellPlaced k
  held : ∀ l, s.held l = false

/-- The state in which a thread works, with the regions of the other threads. -/
theorem Inv.focus {s : BufferPool} (h : Inv k s) {j : ℕ} (ht : s.caches[j]? = some t) :
    HandsOut k s.arena (t.grants ++ ((s.caches.eraseIdx j).flatMap PoolThreadCache.grants ++
      collect Region.grants s.buffers)) s.chunks :=
  h.handsOut.perm (caches_perm ht _) (List.Perm.refl _)

/-- The state after a thread has worked. -/
theorem Inv.resume {s : BufferPool} (h : Inv k s) {j : ℕ} (ht : s.caches[j]? = some t)
    {run : Running} {buffers : List (Option PoolByteBuf)} {queues : List ByteQueue}
    (hheld : run.held = s.held)
    (hplaced : ∀ buf, some buf ∈ buffers → buf.toRegion.WellPlaced k)
    (hgives : HandsOut k run.heap.arena (run.heap.threadCache.grants ++
      ((s.caches.eraseIdx j).flatMap PoolThreadCache.grants ++ collect Region.grants buffers))
      (collect Region.huge buffers)) :
    Inv k { s.resume j run with buffers, queues } := by
  have hj : j < s.caches.length := (List.getElem?_eq_some_iff.mp ht).1
  have hset : (s.caches.set j run.heap.threadCache)[j]? = some run.heap.threadCache := by
    rw [List.getElem?_set_self hj]
  have hperm := caches_perm hset (collect Region.grants buffers)
  rw [List.eraseIdx_set_eq] at hperm
  exact ⟨hgives.perm hperm.symm (List.Perm.refl _), hplaced,
    fun l => (congrFun hheld l).trans (h.held l)⟩

/-- A buffer in one of the slots. -/
theorem placed_set {buffers : List (Option PoolByteBuf)} {i : ℕ} {slot : Option PoolByteBuf}
    {P : PoolByteBuf → Prop} (hplaced : ∀ buf, some buf ∈ buffers → P buf)
    (hslot : ∀ buf, slot = some buf → P buf) (buf : PoolByteBuf)
    (hbuf : some buf ∈ buffers.set i slot) : P buf := by
  rcases List.mem_or_eq_of_mem_set hbuf with h | h
  · exact hplaced buf h
  · exact hslot buf h.symm

/-- A call that may move a buffer gives its old region up when it has another one. -/
theorem effect_handsOut {s s' : Running} {f : Region → Option Filled} {target : Option ℕ}
    {r : Except Unit Unit} {others : List Grant} {buffers : List (Option PoolByteBuf)} {i : ℕ}
    (h : HandsOut k s.heap.arena (s.heap.threadCache.grants ++
      (others ++ collect Region.grants buffers)) (collect Region.huge buffers))
    (hbuf : (buffers[i]?).join = some s.buf) (hplaced : s.buf.toRegion.WellPlaced k)
    (heffect : Running.Effect k.sizeClass f s target r s') :
    s'.held = s.held ∧ s'.buf.toRegion.WellPlaced k ∧
      HandsOut k s'.heap.arena (s'.heap.threadCache.grants ++
        (others ++ collect Region.grants (buffers.set i (some s'.buf))))
        (collect Region.huge (buffers.set i (some s'.buf))) := by
  cases heffect with
  | kept hkept =>
    have hgrants : s'.buf.toRegion.grants = s.buf.toRegion.grants := by
      rw [hkept.toRegion]
      rfl
    have hhuge : s'.buf.toRegion.huge = s.buf.toRegion.huge := by
      rw [hkept.toRegion]
      rfl
    refine ⟨hkept.held, ?_, ?_⟩
    · rw [hkept.toRegion]
      exact hplaced
    · rw [hkept.arena, hkept.threadCache]
      exact h.perm (((collect_set_same hbuf hgrants).append_left _).append_left _)
        (collect_set_same hbuf hhuge)
  | moved hmoved =>
    obtain ⟨t, a, halloc, hfree⟩ := hmoved.found
    obtain ⟨hplaced', h₁⟩ := h.allocate halloc
    have hgrants := collect_set hbuf Region.grants (some s'.buf)
    have hhuge := collect_set hbuf Region.huge (some s'.buf)
    rw [Option.elim_some] at hgrants hhuge
    refine ⟨hmoved.held, hplaced', HandsOut.free (h₁.perm ?_ hhuge) hfree⟩
    exact (perm_exchange others hgrants).append_left _
  | thrown hfruitless =>
    exact ⟨rfl, hplaced, (h.fruitless hfruitless).perm
      (((collect_set_same hbuf rfl).append_left _).append_left _) (collect_set_same hbuf rfl)⟩

/-- A pool in which nothing has been handed out. -/
theorem inv_init (k : PoolConfig) (threads : ℕ) (memory : Memory) :
    Inv k (init k.sizeClass threads memory) := by
  have hnone : (init k.sizeClass threads memory).owned = [] := by
    rw [owned, List.append_eq_nil_iff, List.flatMap_eq_nil_iff]
    refine ⟨fun t ht => ?_, rfl⟩
    rw [List.eq_of_mem_replicate ht]
    exact PoolThreadCache.grants_new k
  refine ⟨⟨?_, List.nodup_nil, fun id capacity => ?_, nofun⟩, nofun, fun _ => rfl⟩
  · rw [hnone]
    exact ⟨fun _ _ => none, storeInv_empty k _⟩
  · exact ⟨nofun, nofun⟩

/-- Every call keeps the agreement. -/
theorem Inv.next {s s' : BufferPool} {turn : Turn} {r : Except Unit Unit} (h : Inv k s)
    (hstep : s.next k.sizeClass turn = some (r, s')) : Inv k s' := by
  obtain ⟨t, ht, hstep⟩ := Option.bind_eq_some_iff.mp hstep
  have hfocus := h.focus ht
  cases hcall : turn.call with
  | poolBuffer initCapacity maxCapacity recycled =>
    rw [hcall] at hstep
    dsimp only at hstep
    split_ifs at hstep
    · cases hstep
      exact h
    · obtain ⟨⟨r', run⟩, hcall, hstep⟩ := Option.bind_eq_some_iff.mp hstep
      rcases Running.allocate_eq hcall with ⟨region, t', a, rfl, halloc, rfl⟩ |
        ⟨t', a, rfl, hfruitless, rfl⟩
      · cases hstep
        obtain ⟨hplaced, h'⟩ := HandsOut.allocate hfocus halloc
        refine h.resume ht rfl (fun buf hbuf => ?_) (h'.perm ?_ ?_)
        · rcases List.mem_append.mp hbuf with hbuf | hbuf
          · exact h.placed buf hbuf
          · cases List.mem_singleton.mp hbuf
            exact hplaced
        · rw [collect_append]
          exact ((List.perm_append_comm_assoc _ _ _).trans
            (List.perm_append_comm.append_left _)).append_left _
        · rw [collect_append]
          exact List.perm_append_comm
      · cases hstep
        change Inv k { s.resume turn.thread ((s.running t _).setArena t' a) with
          buffers := s.buffers, queues := s.queues }
        exact h.resume ht rfl h.placed (HandsOut.fruitless hfocus hfruitless)
  | grow i growth =>
    rw [hcall] at hstep
    obtain ⟨buf, hbuf, hstep⟩ := Option.bind_eq_some_iff.mp hstep
    obtain ⟨⟨r', run⟩, hgrow, hstep⟩ := Option.bind_eq_some_iff.mp hstep
    cases hstep
    have hold := h.placed buf (List.mem_of_getElem? (Option.join_eq_some_iff.mp hbuf))
    obtain ⟨hheld, hplaced, h'⟩ := effect_handsOut hfocus hbuf hold (Running.growth_effect hgrow)
    exact h.resume ht hheld (placed_set h.placed (by rintro _ ⟨⟩; exact hplaced)) h'
  | retrieve i len =>
    rw [hcall] at hstep
    obtain ⟨buf, hbuf, hstep⟩ := Option.bind_eq_some_iff.mp hstep
    obtain ⟨buf', hretrieve, hstep⟩ := Option.bind_eq_some_iff.mp hstep
    cases hstep
    have hregion := PoolByteBuf.toRegion_retrieve hretrieve
    have hold := h.placed buf (List.mem_of_getElem? (Option.join_eq_some_iff.mp hbuf))
    refine ⟨h.handsOut.perm (List.Perm.append_left _ (collect_set_same hbuf (by rw [hregion])))
      (collect_set_same hbuf (by rw [hregion])), ?_, h.held⟩
    exact placed_set h.placed (by rintro _ ⟨⟩; rw [hregion]; exact hold)
  | deallocate i =>
    rw [hcall] at hstep
    obtain ⟨buf, hbuf, hstep⟩ := Option.bind_eq_some_iff.mp hstep
    obtain ⟨⟨r', run⟩, hcall, hstep⟩ := Option.bind_eq_some_iff.mp hstep
    cases hstep
    obtain ⟨heap, rfl, hheap, rfl⟩ := Running.free_eq hcall
    obtain ⟨⟨t', a⟩, hfree, hpair⟩ := Option.bind_eq_some_iff.mp hheap
    cases hpair
    have hgrants := collect_set hbuf Region.grants none
    have hhuge := collect_set hbuf Region.huge none
    refine h.resume ht rfl (placed_set h.placed (by rintro _ ⟨⟩)) ?_
    have hmoved := perm_exchange ((s.caches.eraseIdx turn.thread).flatMap PoolThreadCache.grants)
      hgrants
    exact HandsOut.free (hfocus.perm (hmoved.append_left _) hhuge) hfree

end BufferPool

end DuoDuo.Buffer
