import DuoDuo.Buffer.CacheOwnership
import DuoDuo.Library.Machine

/-!
# Exclusive ownership of memory

One thread allocates, grows and frees buffers in any order. In every state of such a
history the regions of the live buffers and those that the entries of the thread's cache
name are apart from one another, and from everything that the chunks hold available.
-/

namespace DuoDuo.Buffer

open Library PoolChunk PoolSubpage

/-- A range of bytes of a chunk. -/
structure ByteRange where
  chunk : ℕ
  start : ℕ
  size : ℕ
  deriving DecidableEq, Repr

/-- The ranges do not overlap. -/
def ByteRange.Apart (x y : ByteRange) : Prop :=
  x.chunk ≠ y.chunk ∨ x.start + x.size ≤ y.start ∨ y.start + y.size ≤ x.start

theorem ByteRange.Apart.symm {x y : ByteRange} (h : x.Apart y) : y.Apart x := by
  rcases h with h | h | h
  · exact Or.inl (Ne.symm h)
  · exact Or.inr (Or.inr h)
  · exact Or.inr (Or.inl h)

/-- The bytes of an available run. -/
def runRange (k : PoolConfig) (id handle : ℕ) : ByteRange :=
  ⟨id, calculateRunOffset handle <<< k.pageShifts, calculateRunPages handle <<< k.pageShifts⟩

/-- The bytes of an element of a subpage. -/
def elementRange (k : PoolConfig) (id : ℕ) (sp : PoolSubpage) (i : ℕ) : ByteRange :=
  ⟨id, (sp.runOffset <<< k.pageShifts) + i * sp.elemSize, sp.elemSize⟩

/-- The bytes of a region that was handed out. -/
def Grant.range (k : PoolConfig) (g : Grant) : ByteRange := ⟨g.chunk, g.offset k, g.normCapacity⟩

/-- Ranges within runs that do not overlap do not overlap. -/
theorem ByteRange.apart_of_runs {p o n o' n' : ℕ} {x y : ByteRange} (hx : o <<< p ≤ x.start)
    (hx' : x.start + x.size ≤ (o + n) <<< p) (hy : o' <<< p ≤ y.start)
    (hy' : y.start + y.size ≤ (o' + n') <<< p) (h : o + n ≤ o' ∨ o' + n' ≤ o) : x.Apart y := by
  simp only [Nat.shiftLeft_eq] at hx hx' hy hy'
  rcases h with h | h
  · have hle := Nat.mul_le_mul_right (2 ^ p) h
    exact Or.inr (Or.inl (by omega))
  · have hle := Nat.mul_le_mul_right (2 ^ p) h
    exact Or.inr (Or.inr (by omega))

/-- Two elements of a subpage do not overlap. -/
theorem elementRange_apart {k : PoolConfig} {id : ℕ} {sp : PoolSubpage} {i j : ℕ} (h : i ≠ j) :
    (elementRange k id sp i).Apart (elementRange k id sp j) := by
  refine Or.inr ?_
  unfold elementRange
  dsimp only
  rcases Nat.lt_or_gt_of_ne h with h | h
  · have hle := Nat.mul_le_mul_right sp.elemSize h
    rw [Nat.succ_mul] at hle
    omega
  · have hle := Nat.mul_le_mul_right sp.elemSize h
    rw [Nat.succ_mul] at hle
    omega

variable {k : PoolConfig} {id : ℕ} {c : PoolChunk} {bs : ℕ → Option ℕ}

/-- An element of a subpage lies in the run of the subpage. -/
theorem SubpageAt.elementRange_le {o : ℕ} {sp : PoolSubpage} (hat : SubpageAt k id bs o sp) {i : ℕ}
    (hi : i < sp.maxNumElems) : ∃ run, bs o = some run ∧ isUsed run = true ∧
      o <<< k.pageShifts ≤ (elementRange k id sp i).start ∧
      (elementRange k id sp i).start + (elementRange k id sp i).size ≤
        (o + calculateRunPages run) <<< k.pageShifts := by
  obtain ⟨run, hb, hused, hsize⟩ := hat.run
  refine ⟨run, hb, hused, ?_, ?_⟩
  · rw [elementRange, hat.runOffset]
    exact Nat.le_add_right _ _
  · have hfits := hat.inv.fits
    have hle := Nat.mul_le_mul_right sp.elemSize hi
    rw [Nat.succ_mul] at hle
    have hpage : k.pageSize = 2 ^ k.pageShifts := rfl
    rw [elementRange, hat.runOffset]
    simp only [Nat.shiftLeft_eq, Nat.add_mul]
    rw [hsize, hpage] at hfits
    omega

/-- A region in use is a whole run, or an element that is set. -/
theorem Holds.range {g : Grant} (hc : ChunkInv k g.chunk c bs)
    (hholds : Holds k c bs g.handle g.normCapacity) :
    (∃ run, bs (calculateRunOffset g.handle) = some run ∧ isUsed run = true ∧ run = g.handle ∧
      c.subpages (calculateRunOffset g.handle) = none ∧ g.range k = runRange k g.chunk g.handle) ∨
    ∃ sp i, c.subpages (calculateRunOffset g.handle) = some sp ∧ sp.isSet i = true ∧
      i < sp.maxNumElems ∧ g.handle = sp.toHandle i ∧ g.range k = elementRange k g.chunk sp i := by
  obtain ⟨run, hb, hused, _, ⟨hsub, hrun, hnone, hcap⟩ | ⟨sp, hsub, hsp, hset, hhandle, hcap⟩⟩ :=
    hholds.block hc
  · refine Or.inl ⟨run, hb, hused, hrun, hnone, ?_⟩
    rw [Grant.range, Grant.offset, hsub, if_neg Bool.false_ne_true, Nat.add_zero, hcap, runRange,
      Nat.shiftLeft_eq (calculateRunPages _)]
    rfl
  · have hat := hc.subpage _ sp hsp
    refine Or.inr ⟨sp, _, hsp, hset, hat.inv.beyond _ hset, hhandle, ?_⟩
    rw [Grant.range, Grant.offset, hsub, if_pos rfl, hcap, elementRange, hat.runOffset]

/-- A region in use lies in the run in use at its own offset. -/
theorem Holds.range_le {g : Grant} (hc : ChunkInv k g.chunk c bs)
    (hholds : Holds k c bs g.handle g.normCapacity) :
    ∃ run, bs (calculateRunOffset g.handle) = some run ∧ isUsed run = true ∧ 0 < (g.range k).size ∧
      calculateRunOffset g.handle <<< k.pageShifts ≤ (g.range k).start ∧
      (g.range k).start + (g.range k).size ≤
        (calculateRunOffset g.handle + calculateRunPages run) <<< k.pageShifts := by
  rcases hholds.range hc with ⟨run, hb, hused, rfl, _, hrange⟩ |
    ⟨sp, i, hsp, _, hi, _, hrange⟩
  · have hpos : 0 < calculateRunPages g.handle <<< k.pageShifts := by
      rw [Nat.shiftLeft_eq]
      exact Nat.mul_pos (hc.runs.tiling.pos hb) (Nat.two_pow_pos _)
    refine ⟨_, hb, hused, ?_, ?_, ?_⟩
    · rw [hrange]
      exact hpos
    · rw [hrange, runRange]
    · rw [hrange, runRange]
      simp only [Nat.shiftLeft_eq, Nat.add_mul, le_refl]
  · have hat := hc.subpage _ sp hsp
    obtain ⟨run, hb, hused, hstart, hstop⟩ := hat.elementRange_le hi
    rw [hrange]
    exact ⟨run, hb, hused, hat.inv.elemSize_pos, hstart, hstop⟩

/-- What the arena keeps available does not overlap the region. -/
structure ApartFromFree (k : PoolConfig) (c : PoolChunk) (x : ByteRange) : Prop where
  runs : ∀ i handle, handle ∈ c.runsAvail i → x.Apart (runRange k x.chunk handle)
  elements : ∀ o sp i, c.subpages o = some sp → i < sp.maxNumElems → sp.isSet i = false →
    x.Apart (elementRange k x.chunk sp i)

/-- A region in use does not overlap what is available in its chunk. -/
theorem Holds.apartFromFree {g : Grant} (hc : ChunkInv k g.chunk c bs)
    (hholds : Holds k c bs g.handle g.normCapacity) : ApartFromFree k c (g.range k) := by
  obtain ⟨run, hb, hused, _, hstart, hstop⟩ := hholds.range_le hc
  have ht := hc.runs.tiling
  constructor
  · intro i handle hmem
    obtain ⟨o, ho, _⟩ := hc.runs.filed.queue.mp hmem
    obtain ⟨hb', hfree⟩ := unused_eq_some.mp ho
    have hoff := hc.runs.offset hb'
    have hstart' : o <<< k.pageShifts ≤ (runRange k g.chunk handle).start := by
      rw [runRange, hoff]
    have hstop' : (runRange k g.chunk handle).start + (runRange k g.chunk handle).size ≤
        (o + calculateRunPages handle) <<< k.pageShifts := by
      rw [runRange, hoff]
      simp only [Nat.shiftLeft_eq, Nat.add_mul, le_refl]
    refine ByteRange.apart_of_runs hstart hstop hstart' hstop' ?_
    · rcases Nat.lt_trichotomy (calculateRunOffset g.handle) o with h | h | h
      · exact Or.inl (ht.disjoint hb hb' h)
      · rw [h, hb'] at hb
        cases hb
        rw [hfree] at hused
        cases hused
      · exact Or.inr (ht.disjoint hb' hb h)
  · intro o sp i hsp hi hclear
    have hat := hc.subpage o sp hsp
    obtain ⟨run', hb', _, hstart', hstop'⟩ := hat.elementRange_le hi
    by_cases ho : calculateRunOffset g.handle = o
    · rcases hholds.range hc with ⟨_, _, _, _, hnone, _⟩ | ⟨sp', j, hsp', hset, _, _, hrange⟩
      · rw [ho, hsp] at hnone
        cases hnone
      · rw [ho, hsp] at hsp'
        cases hsp'
        rw [hrange]
        refine elementRange_apart fun heq => ?_
        rw [heq, hclear] at hset
        cases hset
    · refine ByteRange.apart_of_runs hstart hstop hstart' hstop' ?_
      rcases Nat.lt_or_gt_of_ne ho with h | h
      · exact Or.inl (ht.disjoint hb hb' h)
      · exact Or.inr (ht.disjoint hb' hb h)

variable {s : ChunkStore} {blocks : ℕ → ℕ → Option ℕ} {owned : List Grant}

/-- The regions that are handed out do not overlap. -/
theorem StoreInv.apart (h : StoreInv k s blocks owned) {g g' : Grant} (hg : g ∈ owned)
    (hg' : g' ∈ owned) (hne : g ≠ g') : (g.range k).Apart (g'.range k) := by
  obtain ⟨c, hid, hholds⟩ := (h.owned_iff g).mp hg
  obtain ⟨c', hid', hholds'⟩ := (h.owned_iff g').mp hg'
  by_cases hchunk : g.chunk = g'.chunk
  · rw [← hchunk, hid] at hid'
    cases hid'
    have hc := h.chunk hid
    rw [← hchunk] at hholds'
    have hc' : ChunkInv k g'.chunk c (blocks g.chunk) := hchunk ▸ hc
    obtain ⟨run, hb, _, _, hstart, hstop⟩ := hholds.range_le hc
    obtain ⟨run', hb', _, _, hstart', hstop'⟩ := hholds'.range_le hc'
    by_cases ho : calculateRunOffset g.handle = calculateRunOffset g'.handle
    · have hhandle : g.handle ≠ g'.handle := by
        intro heq
        rw [heq] at hholds
        exact hne (Grant.ext hchunk heq (hholds.cap_unique hc hholds'))
      rcases hholds.range hc with ⟨_, hrun, _, hrunEq, hnone, _⟩ | ⟨sp, i, hsp, _, _, hi, hrange⟩
      · rcases hholds'.range hc' with ⟨_, hrun', _, hrunEq', _, _⟩ | ⟨sp', _, hsp', _⟩
        · rw [← ho, hrun] at hrun'
          cases hrun'
          exact absurd (hrunEq.symm.trans hrunEq') hhandle
        · rw [← ho, hnone] at hsp'
          cases hsp'
      · rcases hholds'.range hc' with ⟨_, _, _, _, hnone, _⟩ | ⟨sp', j, hsp', _, _, hj, hrange'⟩
        · rw [← ho, hsp] at hnone
          cases hnone
        · rw [← ho, hsp] at hsp'
          cases hsp'
          rw [hrange, hrange', hchunk]
          refine elementRange_apart fun heq => hhandle ?_
          rw [hi, hj, heq]
    · refine ByteRange.apart_of_runs hstart hstop hstart' hstop' ?_
      rcases Nat.lt_or_gt_of_ne ho with h | h
      · exact Or.inl (hc.runs.tiling.disjoint hb hb' h)
      · exact Or.inr (hc.runs.tiling.disjoint hb' hb h)
  · exact Or.inl hchunk

/-- A region that is handed out lies in its chunk, apart from what is available there. -/
theorem StoreInv.range_within (h : StoreInv k s blocks owned) {g : Grant} (hg : g ∈ owned) :
    ∃ c, s.chunks g.chunk = some c ∧ 0 < (g.range k).size ∧
      (g.range k).start + (g.range k).size ≤ k.chunkSize ∧ ApartFromFree k c (g.range k) := by
  obtain ⟨c, hid, hholds⟩ := (h.owned_iff g).mp hg
  have hc := h.chunk hid
  obtain ⟨run, hb, _, hpos, _, hstop⟩ := hholds.range_le hc
  refine ⟨c, hid, hpos, ?_, hholds.apartFromFree hc⟩
  calc (g.range k).start + (g.range k).size
      ≤ (calculateRunOffset g.handle + calculateRunPages run) <<< k.pageShifts := hstop
    _ ≤ k.chunkPages * k.pageSize := by
        rw [Nat.shiftLeft_eq]
        exact Nat.mul_le_mul_right _ (hc.runs.tiling.bounded hb)
    _ = k.chunkSize := k.chunkSize_eq.symm

/-- The regions of the arena that a buffer holds: one, unless its chunk is not pooled. -/
def Region.grants (r : Region) : List Grant :=
  match r.chunk with
  | .pooled id => [⟨id, r.handle, r.maxLength⟩]
  | .unpooled _ => []

/-- The bytes of a chunk of the arena that a buffer holds. -/
def Region.ranges (r : Region) : List ByteRange :=
  match r.chunk with
  | .pooled id => [⟨id, r.offset, r.maxLength⟩]
  | .unpooled _ => []

/-- The fields of a pooled buffer agree with its handle. -/
def Region.WellPlaced (k : PoolConfig) (r : Region) : Prop :=
  ∀ id, r.chunk = .pooled id →
    r.memory = (.pooled id, 0) ∧ r.offset = Grant.offset k ⟨id, r.handle, r.maxLength⟩

theorem Region.WellPlaced.ranges_eq {r : Region} (h : r.WellPlaced k) :
    r.ranges = r.grants.map (Grant.range k) := by
  rw [Region.ranges, Region.grants]
  split
  · next id hchunk => rw [(h id hchunk).2]; rfl
  · rfl

/-- What `reallocate` does: nothing, or it finds another region, copies the bytes there,
and frees the old region when it is told to. -/
theorem Heap.reallocate_cases {sc : SizeClass} {h h' : Heap} {buf buf' : PoolByteBuf}
    {newCapacity : ℕ} {freeOldMemory : Bool}
    (hstep : h.reallocate sc buf newCapacity freeOldMemory = some (buf', h')) :
    newCapacity ≤ buf.maxCapacity ∧ ((buf.length = newCapacity ∧ buf' = buf ∧ h' = h) ∨
      ∃ region t a, buf.length ≠ newCapacity ∧
        h.arena.allocate sc h.threadCache newCapacity = some (region, t, a) ∧
        buf' = buf.moveTo region newCapacity ∧
        h'.memory = h.memory.copy (buf.memory.add buf.offset) (region.memory.add region.offset)
          (min buf.length newCapacity) ∧
        if freeOldMemory then
          a.free sc t buf.chunk buf.tmpBuf buf.handle buf.maxLength region.cache =
            some (h'.threadCache, h'.arena)
        else h'.threadCache = t ∧ h'.arena = a) := by
  rw [Heap.reallocate] at hstep
  by_cases hmax : buf.maxCapacity < newCapacity
  · rw [if_pos hmax] at hstep
    cases hstep
  rw [if_neg hmax] at hstep
  refine ⟨Nat.not_lt.mp hmax, ?_⟩
  by_cases hsame : buf.length = newCapacity
  · rw [if_pos hsame] at hstep
    cases hstep
    exact Or.inl ⟨hsame, rfl, rfl⟩
  rw [if_neg hsame] at hstep
  obtain ⟨⟨region, t, a⟩, halloc, hrest⟩ := Option.bind_eq_some_iff.mp hstep
  have hmin : (if buf.length < newCapacity then buf.length else newCapacity) =
      min buf.length newCapacity := by
    split <;> omega
  dsimp only at hrest
  rw [hmin, PoolByteBuf.toRegion_moveTo] at hrest
  refine Or.inr ⟨region, t, a, hsame, halloc, ?_⟩
  split at hrest
  · next hfree =>
    obtain ⟨h₁, hrel, hrest⟩ := Option.map_eq_some_iff.mp hrest
    obtain ⟨⟨t₁, a₁⟩, hinner, hmem⟩ := Option.bind_eq_some_iff.mp hrel
    cases hmem
    cases hrest
    exact ⟨rfl, rfl, by rw [if_pos hfree]; exact hinner⟩
  · next hfree =>
    cases hrest
    exact ⟨rfl, rfl, by rw [if_neg hfree]; exact ⟨rfl, rfl⟩⟩

/-- A new cache holds no regions. -/
theorem PoolThreadCache.grants_new (k : PoolConfig) :
    (PoolThreadCache.new k.sizeClass).grants = [] := by
  have hsmall : ∀ m ∈ createSubpageCaches k.sizeClass, m.queue = [] := by
    intro m hm
    rw [List.eq_of_mem_replicate hm]
    rfl
  have hnormal : ∀ m ∈ createNormalCaches k.sizeClass, m.queue = [] := by
    intro m hm
    obtain ⟨_, _, rfl⟩ := List.mem_map.mp hm
    rfl
  rw [grants, entries, List.map_eq_nil_iff, List.append_eq_nil_iff, List.flatMap_eq_nil_iff,
    List.flatMap_eq_nil_iff]
  exact ⟨hsmall, hnormal⟩

/-- One thread with its buffers, `none` for those that are deallocated. -/
structure Client where
  heap : Heap
  buffers : List (Option PoolByteBuf)

namespace Client

/-- The calls to the arena. A buffer is named by its place. -/
inductive Call
  | allocate (reqCapacity maxCapacity : ℕ)
  | reallocate (i newCapacity : ℕ) (freeOldMemory : Bool)
  | free (i : ℕ) (cache : Bool)

/-- The effect of a call. A buffer is freed while it is live only. -/
def next (sc : SizeClass) (s : Client) : Call → Option Client
  | .allocate reqCapacity maxCapacity => do
    let (buf, heap) ← s.heap.allocate sc reqCapacity maxCapacity
    some ⟨heap, s.buffers ++ [some buf]⟩
  | .reallocate i newCapacity freeOldMemory => do
    let buf ← (s.buffers[i]?).join
    let (buf, heap) ← s.heap.reallocate sc buf newCapacity freeOldMemory
    some ⟨heap, s.buffers.set i (some buf)⟩
  | .free i cache => do
    let buf ← (s.buffers[i]?).join
    let heap ← s.heap.free sc buf.toRegion cache
    some ⟨heap, s.buffers.set i none⟩

/-- The thread before its first call. -/
def init (sc : SizeClass) (memory : Memory) : Client := ⟨⟨.empty, .new sc, memory⟩, []⟩

/-- One thread that calls the arena in any order. -/
def machine (k : PoolConfig) : Machine Client Call :=
  .ofNext (fun s => ∃ memory, s = init k.sizeClass memory) (next k.sizeClass)

/-- The bytes of the live buffers that are pooled, and those that the entries of the
cache name. -/
def ranges (k : PoolConfig) (s : Client) : List ByteRange :=
  s.buffers.flatMap (fun slot => slot.elim [] fun buf => buf.toRegion.ranges) ++
    s.heap.threadCache.entries.map fun e => e.grant.range k

/-- The regions of the arena that the live buffers hold. -/
def grants (buffers : List (Option PoolByteBuf)) : List Grant :=
  buffers.flatMap fun slot => slot.elim [] fun buf => buf.toRegion.grants

/-- A slot takes in the regions of its new buffer and gives up those of its old one. -/
theorem grants_set {buffers : List (Option PoolByteBuf)} {i : ℕ} {buf : PoolByteBuf}
    (hbuf : (buffers[i]?).join = some buf) (slot : Option PoolByteBuf) (rest : List Grant) :
    (slot.elim [] (fun buf => buf.toRegion.grants) ++ (grants buffers ++ rest)).Perm
      (buf.toRegion.grants ++ (grants (buffers.set i slot) ++ rest)) := by
  have hset := flatMap_set_perm (Option.join_eq_some_iff.mp hbuf) slot
    fun slot => slot.elim [] fun buf => buf.toRegion.grants
  have hfront := (List.perm_append_comm.trans hset).trans List.perm_append_comm
  rw [← List.append_assoc, ← List.append_assoc]
  exact (hfront.append_right rest).symm

/-- The live buffers and the entries of the cache hold regions that were handed out; so
do those regions whose buffer was told not to free them. -/
structure Inv (k : PoolConfig) (s : Client) : Prop where
  owns : ∃ leaked, Owns k s.heap.arena (s.heap.threadCache.grants ++ (grants s.buffers ++ leaked))
  placed : ∀ buf, some buf ∈ s.buffers → buf.toRegion.WellPlaced k

theorem inv_init (k : PoolConfig) (memory : Memory) : Inv k (init k.sizeClass memory) := by
  refine ⟨⟨[], ?_⟩, fun buf hbuf => by cases hbuf⟩
  rw [init, PoolThreadCache.grants_new]
  exact ⟨fun _ _ => none, storeInv_empty k _⟩

/-- A region that `allocate` finds is well placed, and is handed out from then on. -/
theorem allocate_placed {a a' : PoolArena} {t t' : PoolThreadCache} {rest : List Grant}
    {reqCapacity : ℕ} {r : Region} (h : Owns k a (t.grants ++ rest))
    (hstep : a.allocate k.sizeClass t reqCapacity = some (r, t', a')) :
    r.WellPlaced k ∧ Owns k a' (t'.grants ++ (r.grants ++ rest)) := by
  obtain ⟨_, ⟨g, ptr, _, h', hr⟩ | ⟨id, hr, h'⟩⟩ := h.allocate hstep
  · rw [hr]
    refine ⟨?_, ?_⟩
    · rintro _ ⟨⟩
      exact ⟨rfl, rfl⟩
    · exact h'.perm List.perm_middle.symm
  · rw [hr]
    refine ⟨?_, h'⟩
    rintro _ ⟨⟩

/-- A region that `free` takes back is handed out no longer. -/
theorem free_owns {a a' : PoolArena} {t t' : PoolThreadCache} {rest : List Grant} {r : Region}
    {cache : Bool} (h : Owns k a (t.grants ++ (r.grants ++ rest)))
    (hstep : a.free k.sizeClass t r.chunk r.tmpBuf r.handle r.maxLength cache = some (t', a')) :
    Owns k a' (t'.grants ++ rest) := by
  rw [Region.grants] at h
  rcases hchunk : r.chunk with id | id
  · rw [hchunk] at h hstep
    exact (Owns.free (h.perm List.perm_middle) hstep).1
  · rw [hchunk] at h hstep
    cases hstep
    exact h

/-- A buffer in one of the slots of the client. -/
theorem placed_set {buffers : List (Option PoolByteBuf)} {i : ℕ} {slot : Option PoolByteBuf}
    (hplaced : ∀ buf, some buf ∈ buffers → buf.toRegion.WellPlaced k)
    (hslot : ∀ buf, slot = some buf → buf.toRegion.WellPlaced k) (buf : PoolByteBuf)
    (hbuf : some buf ∈ buffers.set i slot) : buf.toRegion.WellPlaced k := by
  rcases List.mem_or_eq_of_mem_set hbuf with h | h
  · exact hplaced buf h
  · exact hslot buf h.symm

/-- Every call keeps the agreement. -/
theorem Inv.next {s s' : Client} {call : Call} (h : Inv k s)
    (hstep : next k.sizeClass s call = some s') : Inv k s' := by
  obtain ⟨⟨leaked, howns⟩, hplaced⟩ := h
  cases call with
  | allocate reqCapacity maxCapacity =>
    obtain ⟨⟨buf, heap⟩, halloc, hrest⟩ := Option.bind_eq_some_iff.mp hstep
    obtain ⟨⟨region, t, a⟩, hregion, hbuf⟩ := Option.bind_eq_some_iff.mp halloc
    cases hbuf
    cases hrest
    obtain ⟨hwell, h'⟩ := allocate_placed howns hregion
    refine ⟨⟨leaked, h'.perm (List.Perm.append_left _ ?_)⟩, fun buf hbuf => ?_⟩
    · rw [← List.append_assoc]
      refine List.Perm.append_right _ ?_
      rw [grants, grants, List.flatMap_append, List.flatMap_singleton]
      exact List.perm_append_comm
    · rcases List.mem_append.mp hbuf with h | h
      · exact hplaced buf h
      · cases List.mem_singleton.mp h
        exact hwell
  | reallocate i newCapacity freeOldMemory =>
    obtain ⟨buf, hbuf, hrest⟩ := Option.bind_eq_some_iff.mp hstep
    obtain ⟨⟨buf', heap⟩, hrealloc, hrest⟩ := Option.bind_eq_some_iff.mp hrest
    cases hrest
    have hold : buf.toRegion.WellPlaced k :=
      hplaced buf (List.mem_of_getElem? (Option.join_eq_some_iff.mp hbuf))
    obtain ⟨_, ⟨_, hsame, rfl⟩ | ⟨region, t, a, _, halloc, rfl, _, hfree⟩⟩ :=
      Heap.reallocate_cases hrealloc
    · rw [hsame]
      have hsame := (List.perm_append_left_iff _).mp (grants_set hbuf (some buf) leaked)
      exact ⟨⟨leaked, howns.perm (hsame.append_left _)⟩,
        placed_set hplaced (by rintro _ ⟨⟩; exact hold)⟩
    · obtain ⟨hwell, h₁⟩ := allocate_placed howns halloc
      have hmoved := grants_set hbuf (some (buf.moveTo region newCapacity)) leaked
      rw [Option.elim_some, PoolByteBuf.toRegion_moveTo] at hmoved
      have h₂ := h₁.perm (hmoved.append_left _)
      have hplaced' : ∀ b, some b ∈ s.buffers.set i (some (buf.moveTo region newCapacity)) →
          b.toRegion.WellPlaced k :=
        placed_set hplaced (by rintro _ ⟨⟩; rw [PoolByteBuf.toRegion_moveTo]; exact hwell)
      split at hfree
      · exact ⟨⟨leaked, free_owns h₂ hfree⟩, hplaced'⟩
      · obtain ⟨ht, ha⟩ := hfree
        refine ⟨⟨buf.toRegion.grants ++ leaked, ?_⟩, hplaced'⟩
        rw [ht, ha]
        exact h₂.perm ((List.perm_append_comm_assoc _ _ _).append_left _)
  | free i cache =>
    obtain ⟨buf, hbuf, hrest⟩ := Option.bind_eq_some_iff.mp hstep
    obtain ⟨heap, hfree, hrest⟩ := Option.bind_eq_some_iff.mp hrest
    obtain ⟨⟨t, a⟩, hfree, hheap⟩ := Option.bind_eq_some_iff.mp hfree
    cases hheap
    cases hrest
    have h₁ := howns.perm ((grants_set hbuf none leaked).append_left _)
    exact ⟨⟨leaked, free_owns h₁ (by assumption)⟩, placed_set hplaced (by rintro _ ⟨⟩)⟩

/-- After every sequence of calls, the regions of the live buffers and those that the
entries of the cache name do not overlap, and lie in their chunks apart from all that is
available there. -/
theorem exclusive_of_reachable {s : Client} (hs : (machine k).Reachable s) :
    (ranges k s).Pairwise ByteRange.Apart ∧ ∀ x ∈ ranges k s,
      ∃ c, s.heap.arena.store.chunks x.chunk = some c ∧ 0 < x.size ∧
        x.start + x.size ≤ k.chunkSize ∧ ApartFromFree k c x := by
  have hinv : Inv k s := by
    refine hs.invariant ?_ fun s call t h hstep => h.next hstep
    rintro _ ⟨memory, rfl⟩
    exact inv_init k memory
  obtain ⟨⟨leaked, howns⟩, hplaced⟩ := hinv
  obtain ⟨blocks, h⟩ := howns.perm (List.perm_append_comm_assoc _ _ _)
  rw [← List.append_assoc] at h
  have hranges : ranges k s =
      (grants s.buffers ++ s.heap.threadCache.grants).map (Grant.range k) := by
    have hslots : s.buffers.flatMap (fun slot => slot.elim [] fun buf => buf.toRegion.ranges) =
        (grants s.buffers).map (Grant.range k) := by
      rw [grants, List.map_flatMap]
      refine List.flatMap_congr fun slot hslot => ?_
      cases slot with
      | none => rfl
      | some buf => exact (hplaced buf hslot).ranges_eq
    rw [ranges, hslots, List.map_append, PoolThreadCache.grants, List.map_map]
    rfl
  have hnodup := (List.nodup_append.mp h.nodup).1
  have hmem : ∀ {g}, g ∈ grants s.buffers ++ s.heap.threadCache.grants →
      g ∈ grants s.buffers ++ s.heap.threadCache.grants ++ leaked := List.mem_append_left _
  rw [hranges]
  constructor
  · rw [List.pairwise_map]
    exact hnodup.imp_of_mem fun hg hg' hne => h.apart (hmem hg) (hmem hg') hne
  · intro x hx
    obtain ⟨g, hg, rfl⟩ := List.mem_map.mp hx
    exact h.range_within (hmem hg)

/-- Two buffers, of which the first is freed into the cache and the second grows. -/
def fewCalls : List Call :=
  [.allocate 100 1000, .allocate 70000 100000, .free 0 true, .reallocate 1 90000 true]

/-- The state after these calls. -/
def afterFewCalls : Client :=
  (fewCalls.foldlM (next PoolConfig.default.sizeClass)
    (init PoolConfig.default.sizeClass fun _ => 0)).getD (init PoolConfig.default.sizeClass fun _ => 0)

theorem afterFewCalls_eq :
    fewCalls.foldlM (next PoolConfig.default.sizeClass)
      (init PoolConfig.default.sizeClass fun _ => 0) = some afterFewCalls := by
  have hsome : (fewCalls.foldlM (next PoolConfig.default.sizeClass)
      (init PoolConfig.default.sizeClass fun _ => 0)).isSome = true := by
    decide +kernel
  rw [afterFewCalls, Option.getD_of_ne_none (Option.isSome_iff_ne_none.mp hsome)]

theorem exclusive_of_reachable_fewCalls :
    ranges .default afterFewCalls = [⟨0, 139264, 98304⟩, ⟨0, 0, 112⟩] ∧
      (ranges .default afterFewCalls).Pairwise ByteRange.Apart := by
  have hranges : ranges .default afterFewCalls = [⟨0, 139264, 98304⟩, ⟨0, 0, 112⟩] := by
    decide +kernel
  exact ⟨hranges,
    (exclusive_of_reachable (.of_foldlM (.of_init ⟨_, rfl⟩) afterFewCalls_eq)).1⟩

end Client

end DuoDuo.Buffer
