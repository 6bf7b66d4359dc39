import DuoDuo.Buffer.PoolThreadCache
import DuoDuo.Library.BlockMemory
import DuoDuo.Library.Machine

/-!
# A buffer is a queue of bytes

`PoolByteBuf` writes through `m_memory` and `m_offset`, reads through `m_tmpBuf`,
and grows and shrinks in place or through `PoolArena::reallocate`. Here the
region that `PoolArena::allocate` finds is a parameter of each step: any fresh
region whose read pointer is its write pointer and which is large enough. What a
buffer means is a queue of bytes that remembers how many positions before it
have been discarded.
-/

namespace DuoDuo.Buffer

open Library

/-- The queue of bytes that a buffer stands for. -/
structure ByteQueue where
  /-- The positions before the first byte of the queue. -/
  discarded : ℕ := 0
  /-- The bytes, oldest first. -/
  bytes : List UInt8 := []

namespace ByteQueue

/-- Writing appends. -/
def append (q : ByteQueue) (data : List UInt8) : ByteQueue := { q with bytes := q.bytes ++ data }

/-- Retrieving drops a prefix; emptying the queue starts it anew. -/
def retrieve (q : ByteQueue) (len : ℕ) : ByteQueue :=
  if len < q.bytes.length then ⟨q.discarded + len, q.bytes.drop len⟩ else {}

/-- Only the first `n` positions are kept, if the queue extends beyond them. -/
def truncate (q : ByteQueue) (n : ℕ) : ByteQueue :=
  if n < q.discarded + q.bytes.length then ⟨min q.discarded n, q.bytes.take (n - q.discarded)⟩
  else q

end ByteQueue

/-- `CALCULATE_THRESHOLD`. -/
def CALCULATE_THRESHOLD : ℕ := 1048576 * 4

/-- The loop of `calculateNewCapacity`, which doubles at most `fuel` times. -/
def doubleUntil (minNewCapacity : ℕ) : ℕ → ℕ → ℕ
  | 0, newCapacity => newCapacity
  | fuel + 1, newCapacity =>
    if newCapacity < minNewCapacity then doubleUntil minNewCapacity fuel (newCapacity <<< 1)
    else newCapacity

/-- `PoolByteBufAllocator::calculateNewCapacity`; `none` is its exception. -/
def calculateNewCapacity (minNewCapacity maxCapacity : ℕ) : Option ℕ :=
  if maxCapacity < minNewCapacity then none
  else if minNewCapacity = CALCULATE_THRESHOLD then some CALCULATE_THRESHOLD
  else if CALCULATE_THRESHOLD < minNewCapacity then
    let newCapacity := minNewCapacity / CALCULATE_THRESHOLD * CALCULATE_THRESHOLD
    if maxCapacity - CALCULATE_THRESHOLD < newCapacity then some maxCapacity
    else some (newCapacity + CALCULATE_THRESHOLD)
  else some (min (doubleUntil minNewCapacity 32 64) maxCapacity)

namespace PoolByteBuf

/-- `idx`. -/
def idx (buf : PoolByteBuf) (index : ℕ) : ℕ := buf.offset + index

/-- `peek`. -/
def peek (buf : PoolByteBuf) : Addr := buf.tmpBuf.add buf.readerIndex

/-- `readableBytes`. -/
def readableBytes (buf : PoolByteBuf) : ℕ := buf.writerIndex - buf.readerIndex

/-- `writableBytes`. -/
def writableBytes (buf : PoolByteBuf) : ℕ := buf.length - buf.writerIndex

/-- `retrieveAll`, and `clear`. -/
def retrieveAll (buf : PoolByteBuf) : PoolByteBuf := { buf with readerIndex := 0, writerIndex := 0 }

/-- `retrieve`; `none` is the failure of its assertion. -/
def retrieve (buf : PoolByteBuf) (len : ℕ) : Option PoolByteBuf :=
  if buf.readableBytes < len then none
  else if len < buf.readableBytes then some { buf with readerIndex := buf.readerIndex + len }
  else some buf.retrieveAll

/-- `clear`. -/
def clear (buf : PoolByteBuf) : PoolByteBuf := { buf with readerIndex := 0, writerIndex := 0 }

/-- The routes of `capacity` that keep the region; `none` is the call of `reallocate`. -/
def resize (buf : PoolByteBuf) (newCapacity : ℕ) : Option PoolByteBuf :=
  if newCapacity = buf.length then some buf
  else if buf.length < newCapacity then
    if newCapacity ≤ buf.maxLength then some { buf with length := newCapacity } else none
  else if buf.maxLength >>> 1 < newCapacity ∧
      (512 < buf.maxLength ∨ buf.maxLength < newCapacity + 16) then
    some ({ buf with length := newCapacity }.trimIndicesToCapacity newCapacity)
  else none

/-- The variable `newCapacity` of `ensureWritable`. -/
def grownCapacity (buf : PoolByteBuf) (minWritableBytes : ℕ) : Option ℕ :=
  if minWritableBytes ≤ buf.writableBytes then some (buf.writerIndex + buf.writableBytes)
  else calculateNewCapacity (buf.writerIndex + minWritableBytes) buf.maxCapacity

end PoolByteBuf

/-- A region that `PoolArena::allocate` may find for a request while a buffer holds the
region `old`: the read pointer is the write pointer, it is large enough, and it
lies apart from the old one. -/
def Region.Serves (region old : Region) (reqCapacity : ℕ) : Prop :=
  region.tmpBuf = region.memory.add region.offset ∧
    reqCapacity ≤ region.length ∧ region.length ≤ region.maxLength ∧
    (region.memory.1 ≠ old.memory.1 ∨
      region.memory.2 + region.offset + region.maxLength ≤ old.memory.2 + old.offset ∨
      old.memory.2 + old.offset + old.maxLength ≤ region.memory.2 + region.offset)

instance (region old : Region) (reqCapacity : ℕ) : Decidable (region.Serves old reqCapacity) :=
  inferInstanceAs (Decidable (_ ∧ _))

/-- A buffer and the memory that it writes to and reads from. -/
structure Filled where
  buf : PoolByteBuf
  memory : Memory

namespace Filled

/-- `PoolArena::reallocate`, with the region that `allocate` finds. -/
def reallocate (s : Filled) (newCapacity : ℕ) (region : Region) : Filled where
  buf := s.buf.moveTo region newCapacity
  memory := s.memory.copy (s.buf.memory.add s.buf.offset) (region.memory.add region.offset)
    (if s.buf.length < newCapacity then s.buf.length else newCapacity)

/-- `capacity(newCapacity)`; `none` is the failure of its assertion. -/
def capacity (s : Filled) (newCapacity : ℕ) (region : Region) : Option Filled :=
  if newCapacity ≠ s.buf.length ∧ s.buf.maxCapacity < newCapacity then none
  else
    match s.buf.resize newCapacity with
    | some buf => some { s with buf }
    | none =>
      if region.Serves s.buf.toRegion newCapacity then some (s.reallocate newCapacity region)
      else none

/-- `ensureWritable`; `none` is the failure of its assertion. -/
def ensureWritable (s : Filled) (minWritableBytes : ℕ) (region : Region) : Option Filled :=
  if s.buf.maxCapacity < s.buf.writerIndex + minWritableBytes then none
  else if s.buf.length < s.buf.writerIndex + minWritableBytes then do
    let newCapacity ← s.buf.grownCapacity minWritableBytes
    s.capacity newCapacity region
  else some s

/-- `setBytes`. -/
def setBytes (s : Filled) (index : ℕ) (src : List UInt8) (srcIndex length : ℕ) : Filled :=
  { s with
    memory := BlockMemory.write s.memory (s.buf.memory.add (s.buf.idx index))
      ((src.drop srcIndex).take length) }

/-- `writeBytes`, whose source must hold the bytes that it is told to write. -/
def writeBytes (s : Filled) (src : List UInt8) (srcIndex length : ℕ) (region : Region) :
    Option Filled :=
  if src.length < srcIndex + length then none
  else do
    let s ← s.ensureWritable length region
    let s := s.setBytes s.buf.writerIndex src srcIndex length
    some { s with buf := { s.buf with writerIndex := s.buf.writerIndex + length } }

/-- The bytes between the two indices, as `peek` shows them. -/
def readable (s : Filled) : List UInt8 := BlockMemory.read s.memory s.buf.peek s.buf.readableBytes

end Filled

/-- The calls on a buffer. Those that may reallocate name the region that is found. -/
inductive BufferCall
  | writeBytes (src : List UInt8) (srcIndex length : ℕ) (region : Region)
  | retrieve (len : ℕ)
  | retrieveAll
  | ensureWritable (minWritableBytes : ℕ) (region : Region)
  | capacity (newCapacity : ℕ) (region : Region)
  | clear

/-- What a call means for the queue. -/
def ByteQueue.apply (q : ByteQueue) : BufferCall → ByteQueue
  | .writeBytes src srcIndex length _ => q.append ((src.drop srcIndex).take length)
  | .retrieve len => q.retrieve len
  | .retrieveAll => {}
  | .ensureWritable _ _ => q
  | .capacity newCapacity _ => q.truncate newCapacity
  | .clear => {}

namespace Filled

/-- A call on a buffer. -/
def call (s : Filled) : BufferCall → Option Filled
  | .writeBytes src srcIndex length region => s.writeBytes src srcIndex length region
  | .retrieve len => (s.buf.retrieve len).map fun buf => { s with buf }
  | .retrieveAll => some { s with buf := s.buf.retrieveAll }
  | .ensureWritable minWritableBytes region => s.ensureWritable minWritableBytes region
  | .capacity newCapacity region => s.capacity newCapacity region
  | .clear => some { s with buf := s.buf.clear }

/-- The calls on a buffer, beside the queue that it stands for. -/
def next (s : Filled × ByteQueue) (call : BufferCall) : Option (Filled × ByteQueue) :=
  (s.1.call call).map fun s' => (s', s.2.apply call)

/-- A buffer that `poolBuffer` has just made, for a region with room for the request. -/
def Made (s : Filled) : Prop :=
  ∃ maxCapacity region, s.buf = .newInstance maxCapacity region ∧
    region.tmpBuf = region.memory.add region.offset ∧ region.length ≤ region.maxLength

/-- The machine of one buffer and its queue. -/
def machine : Machine (Filled × ByteQueue) BufferCall :=
  Machine.ofNext (fun s => s.1.Made ∧ s.2 = {}) next

/-- The address of the first position of a buffer. -/
def start (s : Filled) : Addr := s.buf.memory.add s.buf.offset

/-- A buffer represents a queue: its indices delimit the bytes of the queue, which the
read pointer shows. -/
structure Represents (s : Filled) (q : ByteQueue) : Prop where
  tmpBuf : s.buf.tmpBuf = s.start
  readerIndex : s.buf.readerIndex = q.discarded
  writerIndex : s.buf.writerIndex = q.discarded + q.bytes.length
  capacity : s.buf.writerIndex ≤ s.buf.length
  maxLength : s.buf.length ≤ s.buf.maxLength
  bytes : BlockMemory.read s.memory (s.start.add q.discarded) q.bytes.length = q.bytes

/-- The bytes that `peek` shows are those of the queue. -/
theorem Represents.readable {s : Filled} {q : ByteQueue} (h : s.Represents q) :
    s.readable = q.bytes := by
  have hpeek : s.buf.peek = s.start.add q.discarded := by
    rw [PoolByteBuf.peek, h.tmpBuf, h.readerIndex]
  have hlen : s.buf.readableBytes = q.bytes.length := by
    rw [PoolByteBuf.readableBytes, h.readerIndex, h.writerIndex]
    omega
  rw [Filled.readable, hpeek, hlen, h.bytes]

/-- A buffer that has just been made represents the empty queue. -/
theorem Made.represents {s : Filled} (h : s.Made) : s.Represents {} := by
  obtain ⟨maxCapacity, region, hbuf, htmpBuf, hlength⟩ := h
  refine ⟨?_, ?_, ?_, ?_, ?_, rfl⟩
  · rw [start, hbuf]
    exact htmpBuf
  · rw [hbuf]
    rfl
  · rw [hbuf]
    rfl
  · rw [hbuf]
    exact Nat.zero_le _
  · rw [hbuf]
    exact hlength

/-- A region with the same first positions keeps the queue, if it has room for it. -/
theorem Represents.keep {s : Filled} {q : ByteQueue} (h : s.Represents q) {region : Region}
    {memory : Memory} {n : ℕ} (htmpBuf : region.tmpBuf = region.memory.add region.offset)
    (hn : s.buf.writerIndex ≤ n) (hroom : s.buf.writerIndex ≤ region.length)
    (hlength : region.length ≤ region.maxLength)
    (hsame : BlockMemory.read memory (region.memory.add region.offset) n =
      BlockMemory.read s.memory s.start n) :
    (⟨{ s.buf with toRegion := region }, memory⟩ : Filled).Represents q := by
  refine ⟨htmpBuf, h.readerIndex, h.writerIndex, hroom, hlength, ?_⟩
  have hwriter := h.writerIndex
  have hpart := BlockMemory.read_part _ _ hsame (i := q.discarded) (m := q.bytes.length) (by omega)
  exact hpart.trans h.bytes

/-- A region with the same first `n` positions represents the queue truncated to them. -/
theorem Represents.truncate {s : Filled} {q : ByteQueue} (h : s.Represents q) {region : Region}
    {memory : Memory} {n : ℕ} (htmpBuf : region.tmpBuf = region.memory.add region.offset)
    (hroom : n ≤ region.length) (hlength : region.length ≤ region.maxLength)
    (hsame : BlockMemory.read memory (region.memory.add region.offset) n =
      BlockMemory.read s.memory s.start n) :
    (⟨({ s.buf with toRegion := region } : PoolByteBuf).trimIndicesToCapacity n, memory⟩ :
      Filled).Represents (q.truncate n) := by
  have hreader := h.readerIndex
  have hwriter := h.writerIndex
  by_cases hn : n < s.buf.writerIndex
  · have hq : n < q.discarded + q.bytes.length := by omega
    have hlen : (q.bytes.take (n - q.discarded)).length = n - q.discarded := by
      rw [List.length_take]
      omega
    simp only [PoolByteBuf.trimIndicesToCapacity, if_pos hn, ByteQueue.truncate, if_pos hq]
    refine ⟨htmpBuf, by rw [hreader], ?_, hroom, hlength, ?_⟩
    · rw [hlen]
      show n = min q.discarded n + (n - q.discarded)
      omega
    · rw [hlen]
      by_cases hd : q.discarded ≤ n
      · have hpart := BlockMemory.read_part _ _ hsame (i := q.discarded) (m := n - q.discarded)
          (by omega)
        have htake : BlockMemory.read s.memory (s.start.add q.discarded) (n - q.discarded) =
            q.bytes.take (n - q.discarded) := by
          rw [← h.bytes, BlockMemory.take_read _ _ (by omega)]
        rw [Nat.min_eq_left hd]
        exact hpart.trans htake
      · have hzero : n - q.discarded = 0 := by omega
        rw [hzero]
        rfl
  · have hq : ¬ n < q.discarded + q.bytes.length := by omega
    simp only [PoolByteBuf.trimIndicesToCapacity, if_neg hn, ByteQueue.truncate, if_neg hq]
    exact h.keep htmpBuf (by omega) (by omega) hlength hsame

/-- `reallocate` truncates the queue to the new capacity. -/
theorem Represents.reallocate {s : Filled} {q : ByteQueue} (h : s.Represents q)
    {newCapacity : ℕ} {region : Region} (hserves : region.Serves s.buf.toRegion newCapacity) :
    (s.reallocate newCapacity region).Represents (q.truncate newCapacity) := by
  obtain ⟨htmpBuf, hroom, hlength, -⟩ := hserves
  have hcap := h.capacity
  have hwriter := h.writerIndex
  by_cases hgrow : s.buf.length < newCapacity
  · have hq : ¬ newCapacity < q.discarded + q.bytes.length := by omega
    simp only [Filled.reallocate, PoolByteBuf.moveTo, if_pos hgrow, ByteQueue.truncate, if_neg hq]
    refine h.keep htmpBuf hcap (by omega) hlength ?_
    exact BlockMemory.read_copy (i := 0) s.memory (by omega)
  · simp only [Filled.reallocate, PoolByteBuf.moveTo, if_neg hgrow]
    refine h.truncate htmpBuf hroom hlength ?_
    exact BlockMemory.read_copy (i := 0) s.memory (by omega)

/-- The routes that keep the region truncate the queue to the new capacity. -/
theorem Represents.resize {s : Filled} {q : ByteQueue} (h : s.Represents q) {newCapacity : ℕ}
    {buf : PoolByteBuf} (hresize : s.buf.resize newCapacity = some buf) :
    ({ s with buf } : Filled).Represents (q.truncate newCapacity) ∧ newCapacity ≤ buf.length := by
  have hcap := h.capacity
  have hwriter := h.writerIndex
  have hmax := h.maxLength
  unfold PoolByteBuf.resize at hresize
  by_cases heq : newCapacity = s.buf.length
  · rw [if_pos heq] at hresize
    obtain rfl := Option.some.inj hresize
    have hq : ¬ newCapacity < q.discarded + q.bytes.length := by omega
    rw [ByteQueue.truncate, if_neg hq]
    exact ⟨h, heq.le⟩
  · rw [if_neg heq] at hresize
    by_cases hgrow : s.buf.length < newCapacity
    · rw [if_pos hgrow, Option.ite_none_right_eq_some, Option.some.injEq] at hresize
      obtain ⟨hroom, rfl⟩ := hresize
      have hq : ¬ newCapacity < q.discarded + q.bytes.length := by omega
      rw [ByteQueue.truncate, if_neg hq]
      refine ⟨h.keep (n := s.buf.length) h.tmpBuf hcap ?_ hroom rfl, le_rfl⟩
      show s.buf.writerIndex ≤ newCapacity
      omega
    · rw [if_neg hgrow, Option.ite_none_right_eq_some, Option.some.injEq] at hresize
      obtain ⟨-, rfl⟩ := hresize
      refine ⟨h.truncate h.tmpBuf le_rfl (show newCapacity ≤ s.buf.maxLength by omega) rfl, ?_⟩
      rw [PoolByteBuf.toRegion_trimIndicesToCapacity]

/-- `capacity` truncates the queue, and provides what was asked for. -/
theorem Represents.setCapacity {s s' : Filled} {q : ByteQueue} (h : s.Represents q)
    {newCapacity : ℕ} {region : Region} (hcall : s.capacity newCapacity region = some s') :
    s'.Represents (q.truncate newCapacity) ∧ newCapacity ≤ s'.buf.length := by
  unfold Filled.capacity at hcall
  split at hcall
  · cases hcall
  · split at hcall
    · next buf hresize =>
      obtain rfl := Option.some.inj hcall
      exact h.resize hresize
    · rw [Option.ite_none_right_eq_some, Option.some.injEq] at hcall
      obtain ⟨hserves, rfl⟩ := hcall
      refine ⟨h.reallocate hserves, ?_⟩
      rw [Filled.reallocate, PoolByteBuf.toRegion_moveTo]
      exact hserves.2.1

end Filled

/-- Doubling often enough reaches the minimum. -/
theorem le_doubleUntil {minNewCapacity : ℕ} : ∀ (fuel newCapacity : ℕ),
    minNewCapacity ≤ newCapacity * 2 ^ fuel →
      minNewCapacity ≤ doubleUntil minNewCapacity fuel newCapacity
  | 0, newCapacity, h => by simpa [doubleUntil] using h
  | fuel + 1, newCapacity, h => by
    unfold doubleUntil
    split
    · apply le_doubleUntil fuel
      rw [Nat.shiftLeft_eq, pow_one, Nat.mul_assoc]
      rwa [pow_succ, Nat.mul_comm (2 ^ fuel)] at h
    · omega

/-- `calculateNewCapacity` returns at least the minimum and at most the maximum. -/
theorem le_of_calculateNewCapacity {minNewCapacity maxCapacity newCapacity : ℕ}
    (h : calculateNewCapacity minNewCapacity maxCapacity = some newCapacity) :
    minNewCapacity ≤ newCapacity ∧ newCapacity ≤ maxCapacity := by
  unfold calculateNewCapacity at h
  split at h
  · cases h
  · next hmax =>
    split at h
    · next heq =>
      obtain rfl := Option.some.inj h
      omega
    · split at h
      · next hlarge =>
        have hpos : 0 < CALCULATE_THRESHOLD := by decide
        have hfloor := Nat.div_add_mod minNewCapacity CALCULATE_THRESHOLD
        have hmod := Nat.mod_lt minNewCapacity hpos
        rw [Nat.mul_comm] at hfloor
        dsimp only at h
        split at h <;> obtain rfl := Option.some.inj h <;> omega
      · next hsmall =>
        obtain rfl := Option.some.inj h
        have hle : minNewCapacity ≤ CALCULATE_THRESHOLD := by omega
        have hpow : CALCULATE_THRESHOLD ≤ 64 * 2 ^ 32 := by decide
        have hdouble := le_doubleUntil 32 64 (hle.trans hpow)
        omega

/-- Growing for a write asks for at least the room that it needs. -/
theorem PoolByteBuf.le_of_grownCapacity {buf : PoolByteBuf} {minWritableBytes newCapacity : ℕ}
    (h : buf.grownCapacity minWritableBytes = some newCapacity) :
    buf.writerIndex + minWritableBytes ≤ newCapacity := by
  unfold grownCapacity at h
  split at h
  · obtain rfl := Option.some.inj h
    omega
  · exact (le_of_calculateNewCapacity h).1

namespace Filled

/-- `ensureWritable` keeps the queue, and provides the room that was asked for. -/
theorem Represents.ensureWritable {s s' : Filled} {q : ByteQueue} (h : s.Represents q)
    {minWritableBytes : ℕ} {region : Region}
    (hcall : s.ensureWritable minWritableBytes region = some s') :
    s'.Represents q ∧ s'.buf.writerIndex + minWritableBytes ≤ s'.buf.length := by
  unfold Filled.ensureWritable at hcall
  split at hcall
  · cases hcall
  · split at hcall
    · obtain ⟨newCapacity, hgrown, hcall⟩ := Option.bind_eq_some_iff.mp hcall
      obtain ⟨hrep, hroom⟩ := h.setCapacity hcall
      have hle := PoolByteBuf.le_of_grownCapacity hgrown
      have hwriter := h.writerIndex
      have hq : q.truncate newCapacity = q := by
        rw [ByteQueue.truncate, if_neg (by omega)]
      rw [hq] at hrep
      have hwriter' := hrep.writerIndex
      exact ⟨hrep, by omega⟩
    · obtain rfl := Option.some.inj hcall
      exact ⟨h, by omega⟩

/-- Writing behind the queue, where there is room, appends. -/
theorem Represents.setBytes {s : Filled} {q : ByteQueue} (h : s.Represents q)
    {src : List UInt8} {srcIndex length : ℕ} (hsrc : srcIndex + length ≤ src.length)
    (hroom : s.buf.writerIndex + length ≤ s.buf.length) :
    ({ s.setBytes s.buf.writerIndex src srcIndex length with
      buf := { s.buf with writerIndex := s.buf.writerIndex + length } } : Filled).Represents
      (q.append ((src.drop srcIndex).take length)) := by
  have hwriter := h.writerIndex
  have hlen : ((src.drop srcIndex).take length).length = length := by
    rw [List.length_take, List.length_drop]
    omega
  refine ⟨h.tmpBuf, h.readerIndex, ?_, hroom, h.maxLength, ?_⟩
  · show s.buf.writerIndex + length = q.discarded + (q.bytes ++ _).length
    rw [List.length_append, hlen]
    omega
  · show BlockMemory.read (BlockMemory.write s.memory _ _) (s.start.add q.discarded)
      (q.bytes ++ _).length = q.bytes ++ _
    have hend : s.buf.memory.add (s.buf.idx s.buf.writerIndex) =
        ((s.start.add q.discarded).1, (s.start.add q.discarded).2 + q.bytes.length) := by
      simp only [start, Addr.add, PoolByteBuf.idx, hwriter, Nat.add_assoc]
    rw [List.length_append, BlockMemory.read_add, hend, BlockMemory.read_write_self,
      BlockMemory.read_write_before _ le_rfl, h.bytes]

/-- Every call that passes its assertions does to the queue what it means. -/
theorem Represents.call {s s' : Filled} {q : ByteQueue} (h : s.Represents q) {c : BufferCall}
    (hcall : s.call c = some s') : s'.Represents (q.apply c) := by
  have hempty : ∀ buf : PoolByteBuf, buf = s.buf.retrieveAll →
      ({ s with buf } : Filled).Represents {} := by
    rintro buf rfl
    exact ⟨h.tmpBuf, rfl, rfl, Nat.zero_le _, h.maxLength, rfl⟩
  cases c with
  | writeBytes src srcIndex length region =>
    unfold Filled.call Filled.writeBytes at hcall
    dsimp only at hcall
    split at hcall
    · cases hcall
    · next hsrc =>
      obtain ⟨s₁, hensure, hcall⟩ := Option.bind_eq_some_iff.mp hcall
      obtain rfl := Option.some.inj hcall
      obtain ⟨hrep, hroom⟩ := h.ensureWritable hensure
      exact hrep.setBytes (by omega) hroom
  | retrieve len =>
    obtain ⟨buf, hretrieve, rfl⟩ := Option.map_eq_some_iff.mp hcall
    have hreader := h.readerIndex
    have hwriter := h.writerIndex
    have hreadable : s.buf.readableBytes = q.bytes.length := by
      rw [PoolByteBuf.readableBytes]
      omega
    unfold PoolByteBuf.retrieve at hretrieve
    rw [hreadable] at hretrieve
    split at hretrieve
    · cases hretrieve
    · show Filled.Represents _ (q.retrieve len)
      unfold ByteQueue.retrieve
      split at hretrieve
      · next hlt =>
        obtain rfl := Option.some.inj hretrieve
        rw [if_pos hlt]
        have hlen : (q.bytes.drop len).length = q.bytes.length - len := List.length_drop
        refine ⟨h.tmpBuf, by show _ + len = _; rw [hreader], ?_, h.capacity, h.maxLength, ?_⟩
        · show s.buf.writerIndex = q.discarded + len + (q.bytes.drop len).length
          omega
        · have hdrop := BlockMemory.drop_read s.memory (s.start.add q.discarded) hlt.le
          rw [h.bytes] at hdrop
          rw [hlen, hdrop]
          simp only [start, Addr.add, Nat.add_assoc]
      · next hle =>
        obtain rfl := Option.some.inj hretrieve
        rw [if_neg hle]
        exact hempty _ rfl
  | retrieveAll =>
    obtain rfl := Option.some.inj hcall
    exact hempty _ rfl
  | ensureWritable minWritableBytes region => exact (h.ensureWritable hcall).1
  | capacity newCapacity region => exact (h.setCapacity hcall).1
  | clear =>
    obtain rfl := Option.some.inj hcall
    exact hempty _ rfl

/-- After any calls on a buffer its indices are in order and within its capacity and its
region, and the bytes between them are those of the queue. -/
theorem readable_eq_of_reachable {s : Filled × ByteQueue} (h : machine.Reachable s) :
    0 ≤ s.1.buf.readerIndex ∧ s.1.buf.readerIndex ≤ s.1.buf.writerIndex ∧
      s.1.buf.writerIndex ≤ s.1.buf.length ∧ s.1.buf.length ≤ s.1.buf.maxLength ∧
      s.1.readable = s.2.bytes := by
  have hrep : s.1.Represents s.2 := by
    refine h.invariant (I := fun s => s.1.Represents s.2) ?_ ?_
    · rintro ⟨s, q⟩ ⟨hmade, rfl⟩
      exact hmade.represents
    · rintro ⟨s, q⟩ c t hs hstep
      obtain ⟨s', hcall, rfl⟩ := Option.map_eq_some_iff.mp hstep
      exact hs.call hcall
  have hreader := hrep.readerIndex
  have hwriter := hrep.writerIndex
  exact ⟨Nat.zero_le _, by omega, hrep.capacity, hrep.maxLength, hrep.readable⟩

/-- A region of the given length and room at an offset of a chunk. -/
def regionAt (offset length maxLength : ℕ) : Region :=
  .init0 (.pooled 0) none 0 offset length maxLength false

/-- A buffer of 16 bytes is written to and read from, grows into another region, shrinks
in place and then into a third region. -/
def growAndShrink : List BufferCall :=
  [.writeBytes [1, 2, 3, 4, 5, 6] 1 5 (regionAt 0 16 16), .retrieve 2,
    .writeBytes (List.replicate 20 9) 0 20 (regionAt 64 64 64), .capacity 60 (regionAt 0 16 16),
    .capacity 10 (regionAt 16 10 16)]

/-- The buffer before `growAndShrink`, over a memory of zeros. -/
def emptyBuffer : Filled × ByteQueue :=
  (⟨.newInstance 1024 (regionAt 0 16 16), fun _ => 0⟩, {})

/-- The buffer after `growAndShrink`. -/
def afterGrowAndShrink : Filled × ByteQueue :=
  (growAndShrink.foldlM next emptyBuffer).getD emptyBuffer

theorem afterGrowAndShrink_eq :
    growAndShrink.foldlM next emptyBuffer = some afterGrowAndShrink := by
  have hsome : (growAndShrink.foldlM next emptyBuffer).isSome = true := by decide
  rw [afterGrowAndShrink, Option.getD_of_ne_none (Option.isSome_iff_ne_none.mp hsome)]

theorem readable_eq_of_reachable_growAndShrink :
    afterGrowAndShrink.2.bytes = [4, 5, 6, 9, 9, 9, 9, 9] ∧
      afterGrowAndShrink.1.readable = afterGrowAndShrink.2.bytes := by
  refine ⟨by decide, ?_⟩
  have hreachable : machine.Reachable afterGrowAndShrink :=
    .of_foldlM (.of_init ⟨⟨1024, regionAt 0 16 16, rfl, rfl, by decide⟩, rfl⟩)
      afterGrowAndShrink_eq
  exact (readable_eq_of_reachable hreachable).2.2.2.2

end Filled

end DuoDuo.Buffer
