import DuoDuo.Buffer.PoolOwnership
import DuoDuo.Buffer.RunAllocator

/-!
# A buffer that cannot grow

When the memory for another region cannot be had, the exception leaves the buffer and its
bytes as they were, no lock is held, and whatever is in use in the chunks has an owner.
-/

namespace DuoDuo.Buffer

open Library Library.Machine PoolChunk

variable {k : PoolConfig} {a : PoolArena} {owned : List Grant}

/-- Every page of a chunk is in one run, which is available, or belongs to an owner, or to a
subpage, and every element of a subpage that is in use belongs to an owner. -/
structure Accounted (k : PoolConfig) (store : ChunkStore) (owned : List Grant) : Prop where
  nodup : owned.Nodup
  runs : ∀ id c, store.chunks id = some c → ∀ page < k.chunkPages, ∃! run : ChunkRun,
    run.MemberOf id c owned ∧ run.start ≤ page ∧ page < run.start + run.pages k.pageShifts
  elements : ∀ id c, store.chunks id = some c → ∀ o sp i, c.subpages o = some sp →
    sp.isSet i = true → (⟨id, sp.toHandle i, sp.elemSize⟩ : Grant) ∈ owned

/-- What is in use in the chunks is what is handed out. -/
theorem Owns.accounted (h : Owns k a owned) : Accounted k a.store owned := by
  obtain ⟨blocks, h⟩ := h
  have hgranted : ∀ {id c}, a.store.chunks id = some c → ∀ handle cap,
      (⟨id, handle, cap⟩ : Grant) ∈ owned ↔ Holds k c (blocks id) handle cap := by
    intro id c hc handle cap
    rw [h.owned_iff]
    constructor
    · rintro ⟨c', hc', hholds⟩
      rw [hc] at hc'
      cases hc'
      exact hholds
    · intro hholds
      exact ⟨c, hc, hholds⟩
  refine ⟨h.nodup, fun id c hc => ?_, fun id c hc o sp i hsp hset => ?_⟩
  · exact ((h.chunk hc).runInvariant (hgranted hc)).partition
  · exact (hgranted hc _ _).mpr (.element hsp hset)

namespace BufferPool

/-- The bytes of chunks that the live buffers hold, and those that the entries of the
caches name. -/
def ranges (k : PoolConfig) (s : BufferPool) : List ByteRange :=
  s.caches.flatMap (fun t => t.entries.map fun e => e.grant.range k) ++
    collect Region.ranges s.buffers

/-- No two live buffers or entries of caches have a byte or a chunk together, and none has
anything that is available. -/
structure Exclusive (k : PoolConfig) (s : BufferPool) : Prop where
  apart : (ranges k s).Pairwise ByteRange.Apart
  within : ∀ x ∈ ranges k s, ∃ c, s.arena.store.chunks x.chunk = some c ∧ 0 < x.size ∧
    x.start + x.size ≤ k.chunkSize ∧ ApartFromFree k c x
  own : (s.chunks.map Prod.fst).Nodup
  alive : ∀ id capacity, s.arena.unpooled id = some capacity ↔ (id, capacity) ∈ s.chunks

/-- The bytes of the live buffers and of the caches are those of their regions. -/
theorem Inv.ranges_eq {s : BufferPool} (h : Inv k s) :
    ranges k s = s.owned.map (Grant.range k) := by
  have hslots : collect Region.ranges s.buffers =
      (collect Region.grants s.buffers).map (Grant.range k) := by
    rw [collect, collect, List.map_flatMap]
    refine List.flatMap_congr fun slot hslot => ?_
    cases slot with
    | none => rfl
    | some buf => exact (h.placed buf hslot).ranges_eq
  have hcaches : s.caches.flatMap (fun t => t.entries.map fun e => e.grant.range k) =
      (s.caches.flatMap PoolThreadCache.grants).map (Grant.range k) := by
    rw [List.map_flatMap]
    refine List.flatMap_congr fun t _ => ?_
    rw [PoolThreadCache.grants, List.map_map]
    rfl
  rw [ranges, owned, hslots, hcaches, List.map_append]

theorem Inv.exclusive {s : BufferPool} (h : Inv k s) : Exclusive k s := by
  obtain ⟨blocks, howns⟩ := h.handsOut.owns
  refine ⟨?_, fun x hx => ?_, h.handsOut.nodup, h.handsOut.alive⟩
  · rw [h.ranges_eq, List.pairwise_map]
    exact howns.nodup.imp_of_mem fun hg hg' hne => howns.apart hg hg' hne
  · rw [h.ranges_eq] at hx
    obtain ⟨g, hg, rfl⟩ := List.mem_map.mp hx
    exact howns.range_within hg

/-- The agreement holds in every reachable state. -/
theorem inv_of_reachable {threads : ℕ} {s : BufferPool} (hs : (machine k threads).Reachable s) :
    Inv k s := by
  refine hs.invariant ?_ fun s turn s' h hstep => ?_
  · rintro _ ⟨memory, rfl⟩
    exact inv_init k threads memory
  · obtain ⟨⟨r, s₁⟩, hnext, rfl⟩ := Option.map_eq_some_iff.mp hstep
    exact h.next hnext

/-- A call that throws changes no buffer, no byte and no chunk that is not pooled. -/
theorem grow_error {s s' : BufferPool} {thread i : ℕ} {memoryLeft : Bool} {growth : Growth}
    (hstep : s.next k.sizeClass ⟨thread, memoryLeft, .grow i growth⟩ = some (.error (), s')) :
    s'.buffers = s.buffers ∧ s'.queues = s.queues ∧ s'.memory = s.memory := by
  obtain ⟨t, _, hstep⟩ := Option.bind_eq_some_iff.mp hstep
  obtain ⟨buf, hbuf, hstep⟩ := Option.bind_eq_some_iff.mp hstep
  obtain ⟨⟨r, run⟩, hgrow, hstep⟩ := Option.bind_eq_some_iff.mp hstep
  have heffect := Running.growth_effect hgrow
  generalize growth.target (s.running t buf).buf = target at heffect
  cases heffect with
  | kept => cases hstep
  | moved => cases hstep
  | thrown =>
    cases hstep
    obtain ⟨hi, hbuf⟩ := List.getElem?_eq_some_iff.mp (Option.join_eq_some_iff.mp hbuf)
    have hbuffers : s.buffers.set i (some buf) = s.buffers := by
      rw [← hbuf, List.set_getElem_self hi]
    exact ⟨hbuffers, List.modify_id i s.queues, rfl⟩

/-- A growth that fails in a reachable state leaves the buffer and all bytes as they were,
releases all locks, and hands nothing out. -/
theorem intact_of_grow_error {threads thread i : ℕ} {memoryLeft : Bool} {growth : Growth}
    {s s' : BufferPool} (hs : (machine k threads).Reachable s)
    (hstep : s.next k.sizeClass ⟨thread, memoryLeft, .grow i growth⟩ = some (.error (), s')) :
    s'.buffers = s.buffers ∧ s'.queues = s.queues ∧ s'.memory = s.memory ∧
      (∀ l, s'.held l = false) ∧ Exclusive k s' ∧ Accounted k s'.arena.store s'.owned := by
  have hinv := (inv_of_reachable hs).next hstep
  obtain ⟨hbuffers, hqueues, hmemory⟩ := grow_error hstep
  exact ⟨hbuffers, hqueues, hmemory, hinv.held, hinv.exclusive, hinv.handsOut.owns.accounted⟩

/-- One thread makes two buffers in one chunk, frees the second one into its cache and writes
to the first one. -/
def fewTurns : List Turn :=
  [⟨0, true, .poolBuffer 100 20000000 (.initUnpool 0 0)⟩,
    ⟨0, true, .poolBuffer 70000 100000 (.initUnpool 0 0)⟩, ⟨0, true, .deallocate 1⟩,
    ⟨0, true, .grow 0 (.writeBytes [1, 2, 3] 0 3)⟩]

/-- The state before these calls. -/
def beforeFewTurns : BufferPool := init PoolConfig.default.sizeClass 1 fun _ => 0

/-- The state after these calls. -/
def afterFewTurns : BufferPool :=
  (fewTurns.foldlM (fun s turn => (next PoolConfig.default.sizeClass s turn).map Prod.snd)
    beforeFewTurns).getD beforeFewTurns

theorem afterFewTurns_eq :
    fewTurns.foldlM (fun s turn => (next PoolConfig.default.sizeClass s turn).map Prod.snd)
      beforeFewTurns = some afterFewTurns := by
  have hsome : (fewTurns.foldlM (fun s turn =>
      (next PoolConfig.default.sizeClass s turn).map Prod.snd) beforeFewTurns).isSome = true := by
    decide +kernel
  rw [afterFewTurns, Option.getD_of_ne_none (Option.isSome_iff_ne_none.mp hsome)]

/-- The first buffer shall have a whole chunk, and there is no memory for another chunk. -/
def wholeChunk : Turn := ⟨0, false, .grow 0 (.capacity 16777216)⟩

/-- The state after this call, which throws. -/
def afterWholeChunk : BufferPool :=
  ((afterFewTurns.next PoolConfig.default.sizeClass wholeChunk).map Prod.snd).getD afterFewTurns

theorem afterWholeChunk_eq :
    afterFewTurns.next PoolConfig.default.sizeClass wholeChunk =
      some (.error (), afterWholeChunk) := by
  have hthrown : (afterFewTurns.next PoolConfig.default.sizeClass wholeChunk).map
      (fun p => p.1.isOk) = some false := by
    decide +kernel
  cases hnext : afterFewTurns.next PoolConfig.default.sizeClass wholeChunk with
  | none =>
    rw [hnext] at hthrown
    cases hthrown
  | some p =>
    obtain ⟨r, s'⟩ := p
    rw [hnext] at hthrown
    cases r with
    | ok _ => cases hthrown
    | error _ =>
      rw [afterWholeChunk, hnext]
      rfl

theorem intact_of_grow_error_wholeChunk :
    afterWholeChunk.buffers = afterFewTurns.buffers ∧
      afterWholeChunk.memory = afterFewTurns.memory ∧ Exclusive .default afterWholeChunk := by
  have hs : (machine .default 1).Reachable afterFewTurns :=
    .of_foldlM (.of_init ⟨_, rfl⟩) afterFewTurns_eq
  have h := intact_of_grow_error hs afterWholeChunk_eq
  exact ⟨h.1, h.2.2.1, h.2.2.2.2.1⟩

end BufferPool

end DuoDuo.Buffer
