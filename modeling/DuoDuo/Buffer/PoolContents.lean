import DuoDuo.Buffer.Capacity
import DuoDuo.Buffer.PoolOwnership
import DuoDuo.Buffer.ServingChunk

/-!
# What the buffers of a pool hold

Bytes are written through `m_memory` and `m_offset`, and moved from there. Whatever the
read pointers are, in every reachable state the bytes of a live buffer, from where it
writes, are those that were written to it and not retrieved.
-/

namespace DuoDuo.Buffer

open Library Library.Machine PoolArena

variable {k : PoolConfig}

/-- A region begins where its handle says, or with its own chunk. -/
structure Region.Based (k : PoolConfig) (r : Region) : Prop where
  placed : r.WellPlaced k
  own : ∀ id, r.chunk = .unpooled id → r.memory = (.unpooled id, 0) ∧ r.offset = 0

/-- A byte is one of those of a region. -/
def Region.Covers (r : Region) (x : Addr) : Prop :=
  x.1 = r.memory.1 ∧ r.memory.2 + r.offset ≤ x.2 ∧ x.2 < r.memory.2 + r.offset + r.maxLength

/-- Two regions have no byte in common. -/
def Region.Separate (r r' : Region) : Prop :=
  r.memory.1 ≠ r'.memory.1 ∨
    r.memory.2 + r.offset + r.maxLength ≤ r'.memory.2 + r'.offset ∨
    r'.memory.2 + r'.offset + r'.maxLength ≤ r.memory.2 + r.offset

theorem Region.Separate.not_covers {r r' : Region} (h : r.Separate r') {x : Addr}
    (hx : r.Covers x) : ¬ r'.Covers x := by
  rintro ⟨hblock, hstart, hend⟩
  obtain ⟨hblock', hstart', hend'⟩ := hx
  rcases h with h | h | h
  · exact h (hblock'.symm.trans hblock)
  · omega
  · omega

namespace Filled

variable {s s' : Filled} {q : ByteQueue} {x : Addr}

/-- A buffer means the same in every memory that has the same bytes in its region. -/
theorem Represents.frame (h : s.Represents q) {memory : Memory}
    (hsame : ∀ x, s.buf.toRegion.Covers x → memory x = s.memory x) :
    (⟨s.buf, memory⟩ : Filled).Represents q := by
  refine ⟨h.tmpBuf, h.readerIndex, h.writerIndex, h.capacity, h.maxLength, ?_⟩
  have hread : BlockMemory.read memory (s.start.add q.discarded) q.bytes.length =
      BlockMemory.read s.memory (s.start.add q.discarded) q.bytes.length := by
    apply BlockMemory.read_congr
    intro i hi
    have hwriter := h.writerIndex
    have hcapacity := h.capacity
    have hmaxLength := h.maxLength
    refine hsame _ ⟨rfl, ?_, ?_⟩
    · dsimp only [start, Addr.add]
      omega
    · dsimp only [start, Addr.add]
      omega
  exact hread.trans h.bytes

/-- `capacity` writes to the region that the buffer then has. -/
theorem capacity_frame {newCapacity : ℕ} {region : Region}
    (hcall : s.capacity newCapacity region = some s') (hx : ¬ s'.buf.toRegion.Covers x) :
    s'.memory x = s.memory x := by
  rw [capacity] at hcall
  split at hcall
  · cases hcall
  split at hcall
  · cases hcall
    rfl
  · rw [Option.ite_none_right_eq_some, Option.some.injEq] at hcall
    obtain ⟨⟨_, hroom, hlength, _⟩, rfl⟩ := hcall
    rw [reallocate, PoolByteBuf.toRegion_moveTo] at hx
    refine BlockMemory.copy_outside _ fun hmem => hx ?_
    obtain ⟨hblock, hstart, hend⟩ := hmem
    refine ⟨hblock, hstart, ?_⟩
    dsimp only [Addr.add] at hend
    split_ifs at hend
    · omega
    · omega

/-- `ensureWritable` writes to the region that the buffer then has. -/
theorem ensureWritable_frame {minWritableBytes : ℕ} {region : Region}
    (hcall : s.ensureWritable minWritableBytes region = some s')
    (hx : ¬ s'.buf.toRegion.Covers x) : s'.memory x = s.memory x := by
  rw [ensureWritable] at hcall
  split_ifs at hcall
  · obtain ⟨_, _, hcall⟩ := Option.bind_eq_some_iff.mp hcall
    exact capacity_frame hcall hx
  · cases hcall
    rfl

/-- A call writes to the region that the buffer then has. -/
theorem Represents.call_frame (h : s.Represents q) {c : BufferCall} (hcall : s.call c = some s')
    (hx : ¬ s'.buf.toRegion.Covers x) : s'.memory x = s.memory x := by
  cases c with
  | writeBytes src srcIndex length region =>
    rw [Filled.call, Filled.writeBytes] at hcall
    split_ifs at hcall with hsrc
    obtain ⟨s₁, hensure, hcall⟩ := Option.bind_eq_some_iff.mp hcall
    cases hcall
    obtain ⟨hrep, hroom⟩ := h.ensureWritable hensure
    have hmaxLength := hrep.maxLength
    refine Eq.trans ?_ (ensureWritable_frame hensure hx)
    refine BlockMemory.write_outside _ fun ⟨hblock, hstart, hend⟩ => ?_
    rw [List.length_take] at hend
    dsimp only [Addr.add, PoolByteBuf.idx] at hstart hend
    have hstart' : s₁.buf.memory.2 + s₁.buf.offset ≤ x.2 := by omega
    have hend' : x.2 < s₁.buf.memory.2 + s₁.buf.offset + s₁.buf.maxLength := by omega
    exact hx ⟨hblock, hstart', hend'⟩
  | retrieve len =>
    obtain ⟨_, _, rfl⟩ := Option.map_eq_some_iff.mp hcall
    rfl
  | ensureWritable minWritableBytes region => exact ensureWritable_frame hcall hx
  | capacity newCapacity region => exact capacity_frame hcall hx
  | retrieveAll | clear =>
    cases hcall
    rfl

end Filled

section

variable {a a' : PoolArena} {t t' : PoolThreadCache} {rest : List Grant} {chunks : List (ℕ × ℕ)}
  {r r' : Region} {reqCapacity : ℕ}

/-- Two regions that are handed out have no byte in common. -/
theorem HandsOut.separate
    (h : HandsOut k a (r.grants ++ (r'.grants ++ rest)) (r.huge ++ (r'.huge ++ chunks)))
    (hbased : r.Based k) (hbased' : r'.Based k) : r.Separate r' := by
  rcases hchunk : r.chunk with id | id
  · obtain ⟨hmemory, hoffset⟩ := hbased.placed id hchunk
    rcases hchunk' : r'.chunk with id' | id'
    · obtain ⟨hmemory', hoffset'⟩ := hbased'.placed id' hchunk'
      obtain ⟨blocks, howns⟩ := h.owns
      rw [Region.grants, Region.grants, hchunk, hchunk'] at howns
      have hmem : (⟨id, r.handle, r.maxLength⟩ : Grant) ∈
          (⟨id, r.handle, r.maxLength⟩ : Grant) :: ⟨id', r'.handle, r'.maxLength⟩ :: rest :=
        List.mem_cons_self
      have hmem' : (⟨id', r'.handle, r'.maxLength⟩ : Grant) ∈
          (⟨id, r.handle, r.maxLength⟩ : Grant) :: ⟨id', r'.handle, r'.maxLength⟩ :: rest :=
        List.mem_cons_of_mem _ List.mem_cons_self
      have hne := (List.nodup_cons.mp howns.nodup).1
      have hapart := howns.apart hmem hmem' fun heq => hne (heq ▸ List.mem_cons_self)
      rw [Region.Separate, hmemory, hmemory', hoffset, hoffset', Nat.zero_add, Nat.zero_add]
      exact hapart.imp_left fun hid heq => hid (ChunkPtr.pooled.inj heq)
    · rw [Region.Separate, hmemory, (hbased'.own id' hchunk').1]
      exact .inl (by rintro ⟨⟩)
  · obtain ⟨hmemory, -⟩ := hbased.own id hchunk
    rcases hchunk' : r'.chunk with id' | id'
    · rw [Region.Separate, hmemory, (hbased'.placed id' hchunk').1]
      exact .inl (by rintro ⟨⟩)
    · have hnodup := h.nodup
      rw [Region.huge, Region.huge, hchunk, hchunk'] at hnodup
      have hne := (List.nodup_cons.mp hnodup).1
      rw [Region.Separate, hmemory, (hbased'.own id' hchunk').1]
      refine .inl fun heq => hne ?_
      rw [ChunkPtr.unpooled.inj heq]
      exact List.mem_cons_self

/-- A request of an `int` is answered with a region that has the room. -/
theorem Placed.allocate_room (h : Placed k a) (howns : Owns k a (t.grants ++ rest))
    (hfiled : t.Filed k) (hcarve : k.Carvable) (hmax : reqCapacity < 2 ^ 31)
    (hstep : a.allocate k.sizeClass t reqCapacity = some (r, t', a')) :
    r.Based k ∧ reqCapacity ≤ r.length ∧ r.length ≤ r.maxLength := by
  have hplaced := (Client.allocate_placed howns hstep).1
  rcases Nat.lt_or_ge k.chunkSize reqCapacity with hlt | hle
  · rw [allocate_huge a t hlt, allocateHuge] at hstep
    split_ifs at hstep with hnonneg
    · cases hstep
      have hint : roundUp reqCapacity < 2 ^ 31 := by
        rcases (roundUp_le_two_pow hmax).lt_or_eq with hint | hover
        · exact hint
        · exact absurd hnonneg (not_le.mpr (normalizeSize_of_eq hlt hmax hover))
      refine ⟨⟨hplaced, ?_⟩, ?_, le_rfl⟩
      · rintro _ ⟨⟩
        exact ⟨rfl, rfl⟩
      · change reqCapacity ≤ (k.sizeClass.normalizeSize reqCapacity).toNat
        rw [normalizeSize_of_lt hlt hmax hint, Int.toNat_natCast]
        exact le_roundUp reqCapacity
    · cases hstep
  · obtain ⟨_, _, _, hstep', _, _, hfits⟩ := h.allocate_total howns hfiled hcarve hle
    rw [hstep] at hstep'
    cases hstep'
    obtain ⟨g, hchunk, _, hlength, hof⟩ := hfits.grant
    refine ⟨⟨hplaced, fun id hid => ?_⟩, hfits.length.ge, ?_⟩
    · rw [hchunk] at hid
      cases hid
    · rw [hfits.length, hlength, hof.normCapacity]
      exact (k.size2sizeIdx_spec hle).2

/-- A request that throws keeps all chunks placed and the cache filed. -/
theorem Placed.fruitless (h : Placed k a) (howns : Owns k a (t.grants ++ rest))
    (hfiled : t.Filed k) (hstep : Running.Fruitless k.sizeClass reqCapacity a t t' a') :
    Placed k a' ∧ t'.Filed k := by
  have hle : k.sizeClass.size2sizeIdx reqCapacity < k.sizeClass.nSizes →
      reqCapacity ≤ k.chunkSize := by
    intro hlt
    by_contra hgt
    rw [k.size2sizeIdx_of_lt (not_le.mp hgt), k.nSizes_sizeClass] at hlt
    exact lt_irrefl _ hlt
  cases hstep with
  | small hidx hsmall hcache hpool hlists =>
    subst hidx
    have hlt : k.sizeClass.size2sizeIdx reqCapacity < k.sizeClass.nSizes := by
      rw [k.smallMaxSizeIdx_sizeClass] at hsmall
      rw [k.nSizes_sizeClass]
      have hnum := k.numSizes_ge
      omega
    obtain ⟨_, _, _, hcache', h₁, hfiled₁, _⟩ := h.cacheAllocate_total .small howns hfiled
      (k.size2sizeIdx_spec (hle hlt)).2 fun _ => le_smallMaxSizeIdx_iff.mp hsmall
    rw [hcache] at hcache'
    cases hcache'
    obtain ⟨-, ⟨-, howns₁⟩ | ⟨_, _, ⟨⟩, _⟩⟩ := howns.cacheAllocate hcache
    rcases howns₁.pooledAllocate hpool with ⟨-, rfl⟩ | ⟨_, _, ⟨⟩, _⟩
    rcases howns₁.allocateLists hlists with ⟨-, rfl⟩ | ⟨_, _, ⟨⟩, _⟩
    exact ⟨h₁, hfiled₁⟩
  | normal hidx hlarge hlt hcache hlists =>
    subst hidx
    obtain ⟨_, _, _, hcache', h₁, hfiled₁, _⟩ := h.cacheAllocate_total .normal howns hfiled
      (k.size2sizeIdx_spec (hle hlt)).2 nofun
    rw [hcache] at hcache'
    cases hcache'
    obtain ⟨-, ⟨-, howns₁⟩ | ⟨_, _, ⟨⟩, _⟩⟩ := howns.cacheAllocate hcache
    rcases howns₁.allocateLists hlists with ⟨-, rfl⟩ | ⟨_, _, ⟨⟩, _⟩
    exact ⟨h₁, hfiled₁⟩
  | huge => exact ⟨h, hfiled⟩

end

/-- Where it writes, a buffer has the bytes of its queue. -/
structure Written (k : PoolConfig) (memory : Memory) (buf : PoolByteBuf) (q : ByteQueue) : Prop where
  based : buf.toRegion.Based k
  classed : buf.toRegion.Classed k
  maxCapacity : buf.maxCapacity < 2 ^ 31
  represents : (⟨buf.realigned, memory⟩ : Filled).Represents q

theorem Written.frame {memory memory' : Memory} {buf : PoolByteBuf} {q : ByteQueue}
    (h : Written k memory buf q) (hsame : ∀ x, buf.toRegion.Covers x → memory' x = memory x) :
    Written k memory' buf q :=
  ⟨h.based, h.classed, h.maxCapacity, h.represents.frame hsame⟩

/-- A call means the same whatever region the arena finds. -/
theorem Growth.apply_toCall (growth : Growth) (region : Region) (q : ByteQueue) :
    q.apply (growth.toCall region) = growth.apply q := by
  cases growth <;> rfl

namespace Running

variable {s s' : Running} {growth : Growth} {target : Option ℕ} {r : Except Unit Unit}
  {q : ByteQueue} {rest : List Grant} {chunks : List (ℕ × ℕ)}

/-- A call keeps all chunks placed and the cache filed. -/
theorem Effect.placed {f : Region → Option Filled} (heffect : Effect k.sizeClass f s target r s')
    (hclass : s.buf.toRegion.Classed k) (hplaced : Placed k s.heap.arena)
    (hfiled : s.heap.threadCache.Filed k) (hcarve : k.Carvable)
    (hgives : HandsOut k s.heap.arena
      (s.heap.threadCache.grants ++ (s.buf.toRegion.grants ++ rest))
      (s.buf.toRegion.huge ++ chunks)) :
    Placed k s'.heap.arena ∧ s'.heap.threadCache.Filed k := by
  cases heffect with
  | kept hkept =>
    rw [hkept.arena, hkept.threadCache]
    exact ⟨hplaced, hfiled⟩
  | moved hmoved =>
    obtain ⟨t, a, halloc, hfree⟩ := hmoved.found
    obtain ⟨hplaced₁, hfiled₁, _⟩ := hplaced.allocate hgives.owns hfiled hcarve halloc
    have howns₁ := (hgives.allocate halloc).2.owns
    exact hplaced₁.free (howns₁.perm ((List.perm_append_comm_assoc _ _ _).append_left _)) hfiled₁
      hclass hfree
  | thrown hfruitless => exact hplaced.fruitless hgives.owns hfiled hfruitless

/-- A call that returns does to the queue what it means, and writes to the region that the
buffer then has. -/
theorem Effect.written
    (heffect : Effect k.sizeClass (fun region => s.written.call (growth.toCall region)) s target
      (.ok ()) s')
    (h : Written k s.heap.memory s.buf q) (hplaced : Placed k s.heap.arena)
    (hfiled : s.heap.threadCache.Filed k) (hcarve : k.Carvable)
    (hgives : HandsOut k s.heap.arena
      (s.heap.threadCache.grants ++ (s.buf.toRegion.grants ++ rest))
      (s.buf.toRegion.huge ++ chunks)) :
    Written k s'.heap.memory s'.buf (growth.apply q) ∧
      ∀ x, ¬ s'.buf.toRegion.Covers x → s'.heap.memory x = s.heap.memory x := by
  cases heffect with
  | kept hkept =>
    have hcall := hkept.written s.buf.toRegion
    have hrep := h.represents.call hcall
    rw [growth.apply_toCall] at hrep
    refine ⟨⟨?_, ?_, ?_, hrep⟩, fun x hx => h.represents.call_frame hcall hx⟩
    · rw [hkept.toRegion]
      exact ⟨h.based.placed, h.based.own⟩
    · rw [hkept.toRegion]
      exact h.classed
    · rw [hkept.maxCapacity]
      exact h.maxCapacity
  | moved hmoved =>
    obtain ⟨t, a, halloc, _⟩ := hmoved.found
    obtain ⟨_, _, hclass⟩ := hplaced.allocate hgives.owns hfiled hcarve halloc
    obtain ⟨hbased, hroom, hlength⟩ := hplaced.allocate_room hgives.owns hfiled hcarve
      (hmoved.le.trans_lt h.maxCapacity) halloc
    have hgives₁ := (hgives.allocate halloc).2.perm List.perm_append_comm (List.Perm.refl _)
    rw [List.append_assoc, List.append_assoc] at hgives₁
    have hapart := hgives₁.separate hbased h.based
    have hcall := hmoved.written ⟨rfl, hroom, hlength, hapart⟩
    have hrep := h.represents.call hcall
    rw [growth.apply_toCall] at hrep
    refine ⟨⟨hbased, hclass, ?_, hrep⟩, fun x hx => h.represents.call_frame hcall hx⟩
    rw [hmoved.maxCapacity]
    exact h.maxCapacity

end Running

/-- A buffer reads and writes the same way whatever its read pointer is. -/
theorem PoolByteBuf.realigned_retrieve (buf : PoolByteBuf) (len : ℕ) :
    buf.realigned.retrieve len = (buf.retrieve len).map realigned := by
  have hreadable : buf.realigned.readableBytes = buf.readableBytes := rfl
  rw [retrieve, retrieve, hreadable]
  split_ifs <;> rfl

theorem PoolByteBuf.maxCapacity_retrieve {buf buf' : PoolByteBuf} {len : ℕ}
    (h : buf.retrieve len = some buf') : buf'.maxCapacity = buf.maxCapacity := by
  rw [retrieve] at h
  split_ifs at h
  · cases h
    rfl
  · cases h
    rfl

namespace BufferPool

variable {s s' : BufferPool} {t : PoolThreadCache} {buf buf' : PoolByteBuf} {i j : ℕ}

/-- What holds of all buffers and queues when it holds of one slot and of the others. -/
theorem slots_set {buffers : List (Option PoolByteBuf)} {queues : List ByteQueue}
    {slot : Option PoolByteBuf} {f : ByteQueue → ByteQueue} {W : PoolByteBuf → ByteQueue → Prop}
    (hother : ∀ j buf q, j ≠ i → (buffers[j]?).join = some buf → queues[j]? = some q → W buf q)
    (hslot : ∀ buf q, slot = some buf → queues[i]? = some q → W buf (f q)) (j : ℕ)
    (buf : PoolByteBuf) (q : ByteQueue) (hbuf : ((buffers.set i slot)[j]?).join = some buf)
    (hq : (queues.modify i f)[j]? = some q) : W buf q := by
  by_cases hji : j = i
  · subst hji
    rw [List.getElem?_modify_eq] at hq
    obtain ⟨q₀, hq₀, rfl⟩ := Option.map_eq_some_iff.mp hq
    rw [List.getElem?_set, if_pos rfl] at hbuf
    split_ifs at hbuf
    · exact hslot buf q₀ hbuf hq₀
    · cases hbuf
  · rw [List.getElem?_modify_ne f queues (Ne.symm hji)] at hq
    rw [List.getElem?_set_ne (Ne.symm hji)] at hbuf
    exact hother j buf q hji hbuf hq

/-- Two live buffers have no byte in common. -/
theorem Inv.separate (h : Inv k s) (hi : (s.buffers[i]?).join = some buf)
    (hj : (s.buffers[j]?).join = some buf') (hne : i ≠ j) (hbased : buf.toRegion.Based k)
    (hbased' : buf'.toRegion.Based k) : buf.toRegion.Separate buf'.toRegion := by
  have hj' : ((s.buffers.set i none)[j]?).join = some buf' := by
    rw [List.getElem?_set_ne hne]
    exact hj
  have hgrants := (collect_set hi Region.grants none).trans
    ((collect_set hj' Region.grants none).append_left _)
  have hhuge := (collect_set hi Region.huge none).trans
    ((collect_set hj' Region.huge none).append_left _)
  have hgives := h.handsOut.perm (List.perm_append_comm.trans (hgrants.append_right _)) hhuge
  rw [List.append_assoc, List.append_assoc] at hgives
  exact hgives.separate hbased hbased'

/-- The state in which a thread works on a buffer, with the regions of the others. -/
theorem Inv.focus_slot (h : Inv k s) (ht : s.caches[j]? = some t)
    (hbuf : (s.buffers[i]?).join = some buf) : ∃ rest chunks,
      HandsOut k s.arena (t.grants ++ (buf.toRegion.grants ++ rest))
        (buf.toRegion.huge ++ chunks) := by
  have hgrants := (collect_set hbuf Region.grants none).append_left
    ((s.caches.eraseIdx j).flatMap PoolThreadCache.grants)
  exact ⟨_, _, (h.focus ht).perm
    ((hgrants.trans (List.perm_append_comm_assoc _ _ _)).append_left _)
    (collect_set hbuf Region.huge none)⟩

/-- In a sound pool the live buffers have, where they write, the bytes of their queues. -/
structure Sound (k : PoolConfig) (s : BufferPool) : Prop where
  inv : Inv k s
  placed : Placed k s.arena
  filed : ∀ t ∈ s.caches, t.Filed k
  length : s.queues.length = s.buffers.length
  written : ∀ (i : ℕ) buf q, (s.buffers[i]?).join = some buf → s.queues[i]? = some q →
    Written k s.memory buf q

/-- A live buffer has a queue. -/
theorem Sound.exists_queue (h : Sound k s) (hbuf : (s.buffers[i]?).join = some buf) :
    ∃ q, s.queues[i]? = some q ∧ Written k s.memory buf q := by
  have hi : i < s.queues.length := by
    rw [h.length]
    exact (List.getElem?_eq_some_iff.mp (Option.join_eq_some_iff.mp hbuf)).1
  have hq := List.getElem?_eq_getElem hi
  exact ⟨_, hq, h.written i buf _ hbuf hq⟩

theorem filed_set {caches : List PoolThreadCache} (h : ∀ t ∈ caches, t.Filed k)
    (ht : t.Filed k) : ∀ t' ∈ caches.set j t, t'.Filed k := by
  intro t' hmem
  rcases List.mem_or_eq_of_mem_set hmem with hmem | rfl
  · exact h t' hmem
  · exact ht

/-- A pool in which nothing has been handed out is sound. -/
theorem sound_init (k : PoolConfig) (threads : ℕ) (memory : Memory) :
    Sound k (init k.sizeClass threads memory) where
  inv := inv_init k threads memory
  placed := (ChunkLists.inv_empty k).placed
  filed := fun _ ht => List.eq_of_mem_replicate ht ▸ PoolThreadCache.filed_new k
  length := rfl
  written := nofun

/-- `poolBuffer` makes a sound pool of a sound one. -/
theorem Sound.poolBuffer (h : Sound k s) (hcarve : k.Carvable) {thread : ℕ}
    (ht : s.caches[thread]? = some t) (hinv : Inv k s') {initCapacity maxCapacity : ℕ}
    {recycled region : Region} {t' : PoolThreadCache} {a : PoolArena}
    (hle : initCapacity ≤ maxCapacity) (hmax : maxCapacity < 2 ^ 31)
    (halloc : s.arena.allocate k.sizeClass t initCapacity = some (region, t', a))
    (hs' : s' = { s.resume thread (((s.running t (.newInstance maxCapacity recycled)).setArena t'
      a).setRegion region) with
      buffers := s.buffers ++ [some (.newInstance maxCapacity region)]
      queues := s.queues ++ [{}] }) : Sound k s' := by
  have howns := (h.inv.focus ht).owns
  have hfiled := h.filed t (List.mem_of_getElem? ht)
  obtain ⟨hplaced, hfiled', hclass⟩ := h.placed.allocate howns hfiled hcarve halloc
  obtain ⟨hbased, _, hlength⟩ :=
    h.placed.allocate_room howns hfiled hcarve (hle.trans_lt hmax) halloc
  subst hs'
  refine ⟨hinv, hplaced, filed_set h.filed hfiled', ?_, fun i buf q hbuf hq => ?_⟩
  · dsimp only [resume]
    rw [List.length_append, List.length_append, h.length]
    rfl
  · dsimp only [resume] at hbuf hq
    rcases Nat.lt_or_ge i s.buffers.length with hi | hi
    · rw [List.getElem?_append_left hi] at hbuf
      rw [List.getElem?_append_left (h.length.symm ▸ hi)] at hq
      exact h.written i buf q hbuf hq
    · rw [List.getElem?_append_right hi] at hbuf
      rw [List.getElem?_append_right (h.length.symm ▸ hi), h.length] at hq
      generalize i - s.buffers.length = n at hbuf hq
      cases n with
      | zero =>
        cases hbuf
        cases hq
        refine ⟨hbased, hclass, hmax, Filled.Made.represents ⟨maxCapacity, region.realigned, rfl,
          rfl, hlength⟩⟩
      | succ n => cases hbuf

/-- A call that may move a buffer makes a sound pool of a sound one. -/
theorem Sound.grow (h : Sound k s) (hcarve : k.Carvable) {thread : ℕ}
    (ht : s.caches[thread]? = some t) (hbuf : (s.buffers[i]?).join = some buf)
    {growth : Growth} {memoryLeft : Bool} {r : Except Unit Unit} {run : Running}
    (hgrow : growth.run k.sizeClass memoryLeft (s.running t buf) = some (r, run))
    {f : ByteQueue → ByteQueue} (hf : f = match r with | .ok () => growth.apply | .error () => id)
    (hinv : Inv k ((s.resume thread run).setBuffer i (some run.buf) f)) :
    Sound k ((s.resume thread run).setBuffer i (some run.buf) f) := by
  obtain ⟨q, hq, hwritten⟩ := h.exists_queue hbuf
  obtain ⟨rest, chunks, hgives⟩ := h.inv.focus_slot ht hbuf
  have hfiled := h.filed t (List.mem_of_getElem? ht)
  have heffect := Running.growth_effect hgrow
  obtain ⟨hplaced, hfiled'⟩ :=
    heffect.placed hwritten.classed h.placed hfiled hcarve hgives
  refine ⟨hinv, hplaced, filed_set h.filed hfiled', ?_, ?_⟩
  · rw [setBuffer, List.length_modify, List.length_set]
    exact h.length
  cases r with
  | ok _ =>
    obtain ⟨hwritten', hframe⟩ := heffect.written hwritten h.placed hfiled hcarve hgives
    subst hf
    refine slots_set (fun j buf' q' hji hbuf' hq' => ?_) ?_
    · have hother := h.written j buf' q' hbuf' hq'
      have hi : i < s.buffers.length :=
        (List.getElem?_eq_some_iff.mp (Option.join_eq_some_iff.mp hbuf)).1
      have hnew : (((s.buffers.set i (some run.buf))[i]?).join) = some run.buf := by
        rw [List.getElem?_set_self hi]
        rfl
      have hold : (((s.buffers.set i (some run.buf))[j]?).join) = some buf' := by
        rw [List.getElem?_set_ne (Ne.symm hji)]
        exact hbuf'
      have hapart := hinv.separate hold hnew hji hother.based hwritten'.based
      exact hother.frame fun x hx => hframe x (hapart.not_covers hx)
    · rintro _ q' ⟨⟩ hq'
      rw [show s.queues[i]? = some q' from hq'] at hq
      cases hq
      exact hwritten'
  | error _ =>
    generalize growth.target (s.running t buf).buf = target at heffect
    cases heffect with
    | thrown _ =>
      subst hf
      refine slots_set (fun j buf' q' _ hbuf' hq' => h.written j buf' q' hbuf' hq') ?_
      rintro _ q' ⟨⟩ hq'
      exact h.written i buf q' hbuf hq'

/-- Every call makes a sound pool of a sound one. -/
theorem Sound.next (h : Sound k s) (hcarve : k.Carvable) {turn : Turn} {r : Except Unit Unit}
    (hstep : s.next k.sizeClass turn = some (r, s')) : Sound k s' := by
  have hinv := h.inv.next hstep
  obtain ⟨t, ht, hstep⟩ := Option.bind_eq_some_iff.mp hstep
  have hfiled := h.filed t (List.mem_of_getElem? ht)
  cases hcall : turn.call with
  | poolBuffer initCapacity maxCapacity recycled =>
    rw [hcall] at hstep
    dsimp only at hstep
    split_ifs at hstep with hzero hrange
    · cases hstep
      exact h
    · obtain ⟨⟨r', run⟩, hcall, hstep⟩ := Option.bind_eq_some_iff.mp hstep
      obtain ⟨hle, hmax⟩ := not_or.mp hrange
      rcases Running.allocate_eq hcall with ⟨region, t', a, rfl, halloc, rfl⟩ |
        ⟨t', a, rfl, hfruitless, rfl⟩
      · cases hstep
        exact h.poolBuffer hcarve ht hinv (not_lt.mp hle) (not_le.mp hmax) halloc rfl
      · cases hstep
        obtain ⟨hplaced, hfiled'⟩ := h.placed.fruitless (h.inv.focus ht).owns hfiled hfruitless
        exact ⟨hinv, hplaced, filed_set h.filed hfiled', h.length, h.written⟩
  | grow i growth =>
    rw [hcall] at hstep
    obtain ⟨buf, hbuf, hstep⟩ := Option.bind_eq_some_iff.mp hstep
    obtain ⟨⟨r', run⟩, hgrow, hstep⟩ := Option.bind_eq_some_iff.mp hstep
    cases hstep
    refine h.grow hcarve ht hbuf hgrow ?_ hinv
    cases r <;> rfl
  | retrieve i len =>
    rw [hcall] at hstep
    obtain ⟨buf, hbuf, hstep⟩ := Option.bind_eq_some_iff.mp hstep
    obtain ⟨buf', hretrieve, hstep⟩ := Option.bind_eq_some_iff.mp hstep
    cases hstep
    refine ⟨hinv, h.placed, h.filed, ?_, slots_set
      (fun j buf' q' _ hbuf' hq' => h.written j buf' q' hbuf' hq') ?_⟩
    · rw [setBuffer, List.length_modify, List.length_set]
      exact h.length
    · rintro _ q ⟨⟩ hq
      have hwritten := h.written i buf q hbuf hq
      have hregion := PoolByteBuf.toRegion_retrieve hretrieve
      have hcalled : (⟨buf.realigned, s.memory⟩ : Filled).call (.retrieve len) =
          some ⟨buf'.realigned, s.memory⟩ := by
        rw [Filled.call, PoolByteBuf.realigned_retrieve, hretrieve]
        rfl
      refine ⟨?_, ?_, ?_, hwritten.represents.call hcalled⟩
      · rw [hregion]
        exact hwritten.based
      · rw [hregion]
        exact hwritten.classed
      · rw [PoolByteBuf.maxCapacity_retrieve hretrieve]
        exact hwritten.maxCapacity
  | deallocate i =>
    rw [hcall] at hstep
    obtain ⟨buf, hbuf, hstep⟩ := Option.bind_eq_some_iff.mp hstep
    obtain ⟨⟨r', run⟩, hcall, hstep⟩ := Option.bind_eq_some_iff.mp hstep
    cases hstep
    obtain ⟨heap, rfl, hheap, rfl⟩ := Running.free_eq hcall
    obtain ⟨⟨t', a⟩, hfree, hpair⟩ := Option.bind_eq_some_iff.mp hheap
    cases hpair
    obtain ⟨q, hq, hwritten⟩ := h.exists_queue hbuf
    obtain ⟨rest, chunks, hgives⟩ := h.inv.focus_slot ht hbuf
    obtain ⟨hplaced, hfiled'⟩ := h.placed.free hgives.owns hfiled hwritten.classed hfree
    refine ⟨hinv, hplaced, filed_set h.filed hfiled', ?_, slots_set
      (fun j buf' q' _ hbuf' hq' => h.written j buf' q' hbuf' hq') nofun⟩
    rw [setBuffer, List.length_modify, List.length_set]
    exact h.length

/-- Every reachable pool is sound. -/
theorem sound_of_reachable (hcarve : k.Carvable) {threads : ℕ}
    (hs : (machine k threads).Reachable s) : Sound k s := by
  refine hs.invariant ?_ fun s turn s' h hstep => ?_
  · rintro _ ⟨memory, rfl⟩
    exact sound_init k threads memory
  · obtain ⟨⟨r, s₁⟩, hnext, rfl⟩ := Option.map_eq_some_iff.mp hstep
    exact h.next hcarve hnext

/-- Where it writes, every live buffer has the bytes that were written to it and not
retrieved, between its indices and within its region, and no two regions meet. -/
structure HoldsWritten (s : BufferPool) : Prop where
  bytes : ∀ (i : ℕ) buf q, (s.buffers[i]?).join = some buf → s.queues[i]? = some q →
    BlockMemory.read s.memory ((buf.memory.add buf.offset).add buf.readerIndex)
      buf.readableBytes = q.bytes
  ordered : ∀ (i : ℕ) buf, (s.buffers[i]?).join = some buf → buf.readerIndex ≤ buf.writerIndex ∧
    buf.writerIndex ≤ buf.length ∧ buf.length ≤ buf.maxLength
  apart : ∀ (i j : ℕ) buf buf', i ≠ j → (s.buffers[i]?).join = some buf →
    (s.buffers[j]?).join = some buf' → buf.toRegion.Separate buf'.toRegion

theorem Sound.holdsWritten (h : Sound k s) : HoldsWritten s where
  bytes := fun i buf q hbuf hq => (h.written i buf q hbuf hq).represents.readable
  ordered := by
    intro i buf hbuf
    obtain ⟨q, _, hwritten⟩ := h.exists_queue hbuf
    have hrep := hwritten.represents
    have hreader : buf.readerIndex = q.discarded := hrep.readerIndex
    have hwriter : buf.writerIndex = q.discarded + q.bytes.length := hrep.writerIndex
    exact ⟨by omega, hrep.capacity, hrep.maxLength⟩
  apart := by
    intro i j buf buf' hne hi hj
    obtain ⟨_, _, hwritten⟩ := h.exists_queue hi
    obtain ⟨_, _, hwritten'⟩ := h.exists_queue hj
    exact h.inv.separate hi hj hne hwritten.based hwritten'.based

end BufferPool

end DuoDuo.Buffer
