import DuoDuo.Buffer.ReadWindow

/-!
# Reading from a descriptor

`readFd` offers to the kernel the room of the buffer, through its read pointer, and an
array on the stack. When data has arrived in the array, the writer index is set to the
capacity and the data is written behind it, which may move the buffer.
-/

namespace DuoDuo.Buffer

open Library Library.Machine Library.Throws PoolArena

/-- The size of `extrabuf`. -/
def extrabufSize : ℕ := 65536

/-- The bytes that `readFd` offers to the kernel. -/
def PoolByteBuf.offered (buf : PoolByteBuf) : ℕ :=
  buf.writableBytes + if buf.writableBytes < extrabufSize then extrabufSize else 0

/-- The data that the kernel delivers; an error delivers none. -/
def delivered : Except ℤ (List UInt8) → List UInt8
  | .ok data => data
  | .error _ => []

namespace Running

/-- `readFd`, where the kernel delivers data or an error number. It returns the length of the
data, or the number that it stores in `savedErrno`. -/
def readFd (sc : SizeClass) (memoryLeft : Bool) : Except ℤ (List UInt8) →
    Throws Running (Except ℤ ℕ)
  | .error errno => return .error errno
  | .ok data => do
    let writable := (← .get).buf.writableBytes
    -- the first segment begins at `begin()`, which is the read pointer
    onMemory fun buf memory =>
      BlockMemory.write memory (buf.tmpBuf.add buf.writerIndex) (data.take writable)
    if data.length ≤ writable then
      onBuf fun buf => { buf with writerIndex := buf.writerIndex + data.length }
      return .ok data.length
    else
      onBuf fun buf => { buf with writerIndex := buf.length }
      writeBytes sc memoryLeft (data.drop writable) 0 (data.length - writable)
      return .ok data.length

/-- The memory with the data of the first segment. -/
def scattered (s : Running) (data : List UInt8) : Memory :=
  BlockMemory.write s.heap.memory (s.buf.tmpBuf.add s.buf.writerIndex)
    (data.take s.buf.writableBytes)

/-- Another memory, and another writer index of the buffer. -/
def advance (s : Running) (memory : Memory) (writerIndex : ℕ) : Running :=
  { s with heap := { s.heap with memory }, buf := { s.buf with writerIndex } }

/-- What `readFd` does: nothing after an error, and else it lets the first segment be filled,
and writes what does not fit there. -/
theorem readFd_eq {sc : SizeClass} {memoryLeft : Bool} {s s' : Running}
    {received : Except ℤ (List UInt8)} {r : Except Unit (Except ℤ ℕ)}
    (h : readFd sc memoryLeft received s = some (r, s')) :
    (∃ errno, received = .error errno ∧ r = .ok (.error errno) ∧ s' = s) ∨
    (∃ data, received = .ok data ∧ data.length ≤ s.buf.writableBytes ∧
      r = .ok (.ok data.length) ∧
      s' = s.advance (s.scattered data) (s.buf.writerIndex + data.length)) ∨
    ∃ data r', received = .ok data ∧ s.buf.writableBytes < data.length ∧
      writeBytes sc memoryLeft (data.drop s.buf.writableBytes) 0
        (data.length - s.buf.writableBytes)
        (s.advance (s.scattered data) s.buf.length) = some (r', s') ∧
      r = r'.map fun _ => .ok data.length := by
  cases received with
  | error errno =>
    cases h
    exact .inl ⟨errno, rfl, rfl, rfl⟩
  | ok data =>
    rw [readFd, get_bind] at h
    have h := onMemory_bind h
    split_ifs at h with hfits
    · cases onBuf_bind h
      exact .inr (.inl ⟨data, rfl, hfits, rfl, rfl⟩)
    · refine .inr (.inr ⟨data, ?_⟩)
      rcases bind_eq (onBuf_bind h) with ⟨_, s₁, hwrite, h⟩ | ⟨hwrite, rfl⟩
      · cases h
        exact ⟨.ok (), rfl, not_le.mp hfits, hwrite, rfl⟩
      · exact ⟨.error (), rfl, not_le.mp hfits, hwrite, rfl⟩

end Running

namespace BufferPool

/-- `readFd` of a thread for a buffer. The kernel delivers no more than it is offered. -/
def readFd (sc : SizeClass) (s : BufferPool) (thread i : ℕ) (memoryLeft : Bool)
    (received : Except ℤ (List UInt8)) : Option (Except Unit (Except ℤ ℕ) × BufferPool) := do
  let t ← s.caches[thread]?
  let buf ← (s.buffers[i]?).join
  if buf.offered < (delivered received).length then none
  else
    let (r, run) ← Running.readFd sc memoryLeft received (s.running t buf)
    some (r, (s.resume thread run).setBuffer i (some run.buf) fun q => q.append
      (match r with
        | .ok _ => delivered received
        | .error _ => (delivered received).take buf.writableBytes))

/-- The calls of the threads, `readFd` among them. -/
inductive FdTurn
  | turn (turn : Turn)
  | readFd (thread i : ℕ) (memoryLeft : Bool) (received : Except ℤ (List UInt8))

/-- The state after a call. -/
def nextFd (sc : SizeClass) (s : BufferPool) : FdTurn → Option BufferPool
  | .turn turn => (s.next sc turn).map Prod.snd
  | .readFd thread i memoryLeft received =>
    (s.readFd sc thread i memoryLeft received).map Prod.snd

/-- Threads that call in any order, and read from descriptors. -/
def fdMachine (k : PoolConfig) (threads : ℕ) : Machine BufferPool FdTurn :=
  .ofNext (fun s => ∃ memory, s = init k.sizeClass threads memory) (nextFd k.sizeClass)

end BufferPool

variable {k : PoolConfig}

/-- The indices of a buffer are in order, and within its capacity and its region. -/
structure PoolByteBuf.Ordered (buf : PoolByteBuf) : Prop where
  readerIndex : buf.readerIndex ≤ buf.writerIndex
  writerIndex : buf.writerIndex ≤ buf.length
  length : buf.length ≤ buf.maxLength

namespace Filled

/-- The bytes between the two indices, as they were written. -/
def contents (s : Filled) : ByteQueue :=
  ⟨s.buf.readerIndex, BlockMemory.read s.memory (s.start.add s.buf.readerIndex) s.buf.readableBytes⟩

/-- Whatever the bytes are, a buffer that reads where it writes represents them. -/
theorem represents_contents {s : Filled} (haligned : s.buf.tmpBuf = s.start)
    (hordered : s.buf.Ordered) : s.Represents s.contents := by
  have hlength : s.contents.bytes.length = s.buf.readableBytes := BlockMemory.length_read _ _ _
  refine ⟨haligned, rfl, ?_, hordered.writerIndex, hordered.length, ?_⟩
  · rw [hlength, PoolByteBuf.readableBytes]
    exact (Nat.add_sub_cancel' hordered.readerIndex).symm
  · rw [hlength]
    rfl

/-- Data that arrives behind the queue, where there is room, appends. -/
theorem Represents.scatter {buf : PoolByteBuf} {memory : Memory} {q : ByteQueue}
    (h : (⟨buf, memory⟩ : Filled).Represents q) {data : List UInt8}
    (hroom : data.length ≤ buf.writableBytes) :
    (⟨{ buf with writerIndex := buf.writerIndex + data.length },
      BlockMemory.write memory (buf.tmpBuf.add buf.writerIndex) data⟩ : Filled).Represents
      (q.append data) := by
  have hroom' : data.length ≤ buf.length - buf.writerIndex := hroom
  have hset : Filled.Represents _ (q.append ((data.drop 0).take data.length)) :=
    h.setBytes (Nat.zero_add _).le (Nat.add_le_of_le_sub' h.capacity hroom')
  have hplace : buf.tmpBuf.add buf.writerIndex = buf.memory.add (buf.idx buf.writerIndex) := by
    have htmpBuf : buf.tmpBuf = buf.memory.add buf.offset := h.tmpBuf
    rw [htmpBuf, Addr.add, Addr.add, Addr.add, PoolByteBuf.idx, Nat.add_assoc]
  rw [List.drop_zero, List.take_length] at hset
  rw [hplace]
  dsimp only [Filled.setBytes] at hset
  rwa [List.drop_zero, List.take_length] at hset

theorem Represents.ordered {s : Filled} {q : ByteQueue} (h : s.Represents q) : s.buf.Ordered where
  readerIndex := by
    rw [h.readerIndex, h.writerIndex]
    exact Nat.le_add_right _ _
  writerIndex := h.capacity
  length := h.maxLength

end Filled

/-- With other indices, and in any memory, a buffer has some bytes written. -/
theorem Written.reindex {memory : Memory} {buf buf' : PoolByteBuf} {q : ByteQueue}
    (h : Written k memory buf q) (hregion : buf'.toRegion = buf.toRegion)
    (hmax : buf'.maxCapacity = buf.maxCapacity) (hordered : buf'.Ordered) (memory' : Memory) :
    Written k memory' buf' (Filled.contents ⟨buf'.realigned, memory'⟩) where
  based := hregion ▸ h.based
  classed := hregion ▸ h.classed
  maxCapacity := hmax ▸ h.maxCapacity
  represents := Filled.represents_contents rfl ⟨hordered.1, hordered.2, hordered.3⟩

namespace BufferPool

variable {s s' : BufferPool} {t : PoolThreadCache} {buf buf' : PoolByteBuf} {i : ℕ}

/-- A pool is formed when it is sound for some bytes that may have been written. -/
def Formed (k : PoolConfig) (s : BufferPool) : Prop :=
  ∃ queues, Sound k { s with queues }

/-- A buffer of a formed pool. -/
theorem Formed.written (h : Formed k s) (hbuf : (s.buffers[i]?).join = some buf) :
    ∃ q, Written k s.memory buf q := by
  obtain ⟨queues, hsound⟩ := h
  obtain ⟨q, _, hwritten⟩ := hsound.exists_queue hbuf
  exact ⟨q, hwritten⟩

/-- Another memory, and another writer index of a buffer. -/
def advance (s : BufferPool) (i : ℕ) (buf : PoolByteBuf) (memory : Memory) (writerIndex : ℕ) :
    BufferPool :=
  { s with memory, buffers := s.buffers.set i (some { buf with writerIndex }) }

/-- A formed pool stays formed when the indices of a buffer and the memory change. -/
theorem Formed.reindex (h : Formed k s) (hbuf : (s.buffers[i]?).join = some buf)
    (hregion : buf'.toRegion = buf.toRegion) (hmax : buf'.maxCapacity = buf.maxCapacity)
    (hordered : buf'.Ordered) (memory : Memory) (queues : List ByteQueue) :
    Formed k { s with memory, buffers := s.buffers.set i (some buf'), queues } := by
  obtain ⟨queues₀, hsound⟩ := h
  have hinv := hsound.inv
  have hwritten : ∀ b, some b ∈ s.buffers.set i (some buf') →
      Written k memory b (Filled.contents ⟨b.realigned, memory⟩) := by
    refine placed_set (fun b hb => ?_) ?_
    · obtain ⟨j, hj⟩ := List.getElem?_of_mem hb
      obtain ⟨q, _, hold⟩ := hsound.exists_queue (i := j) (Option.join_eq_some_iff.mpr hj)
      have hold' := hold.represents.ordered
      exact hold.reindex rfl rfl ⟨hold'.1, hold'.2, hold'.3⟩ memory
    · rintro _ ⟨⟩
      obtain ⟨q, _, hold⟩ := hsound.exists_queue hbuf
      exact hold.reindex hregion hmax hordered memory
  refine ⟨(s.buffers.set i (some buf')).map fun slot =>
    slot.elim {} fun b => Filled.contents ⟨b.realigned, memory⟩, ⟨?_, ?_, hinv.held⟩,
    hsound.placed, hsound.filed, List.length_map _, ?_⟩
  · exact hinv.handsOut.perm (List.Perm.append_left _ (collect_set_same hbuf (by rw [hregion])))
      (collect_set_same hbuf (by rw [hregion]))
  · exact fun b hb => (hwritten b hb).based.placed
  · intro j b q hb hq
    have hslot := Option.join_eq_some_iff.mp hb
    rw [List.getElem?_map, show (s.buffers.set i (some buf'))[j]? = some (some b) from hslot] at hq
    cases hq
    exact hwritten b (List.mem_of_getElem? hslot)

/-- What the buffers mean plays no part in a call. -/
theorem next_queues {sc : SizeClass} {turn : Turn} {r : Except Unit Unit}
    (hstep : s.next sc turn = some (r, s')) (queues : List ByteQueue) :
    ∃ queues', ({ s with queues } : BufferPool).next sc turn =
      some (r, { s' with queues := queues' }) := by
  obtain ⟨t, ht, hstep⟩ := Option.bind_eq_some_iff.mp hstep
  rw [next, ht]
  cases hcall : turn.call with
  | poolBuffer initCapacity maxCapacity recycled =>
    rw [hcall] at hstep
    simp only [Option.bind_eq_bind, Option.bind_some] at hstep ⊢
    split_ifs at hstep ⊢
    · cases hstep
      exact ⟨_, rfl⟩
    · obtain ⟨⟨r', run⟩, hrun, hstep⟩ := Option.bind_eq_some_iff.mp hstep
      have hrun' : Running.allocate sc turn.memoryLeft initCapacity (({ s with queues } :
        BufferPool).running t (.newInstance maxCapacity recycled)) = some (r', run) := hrun
      rw [hrun', Option.bind_some]
      cases r' with
      | ok _ =>
        cases hstep
        exact ⟨_, rfl⟩
      | error _ =>
        cases hstep
        exact ⟨_, rfl⟩
  | grow i growth =>
    rw [hcall] at hstep
    obtain ⟨buf, hbuf, hstep⟩ := Option.bind_eq_some_iff.mp hstep
    obtain ⟨⟨r', run⟩, hrun, hstep⟩ := Option.bind_eq_some_iff.mp hstep
    cases hstep
    have hrun' : growth.run sc turn.memoryLeft (({ s with queues } : BufferPool).running t buf) =
      some (r, run) := hrun
    simp only [Option.bind_eq_bind, Option.bind_some, hbuf, hrun']
    exact ⟨_, rfl⟩
  | retrieve i len =>
    rw [hcall] at hstep
    obtain ⟨buf, hbuf, hstep⟩ := Option.bind_eq_some_iff.mp hstep
    obtain ⟨buf', hretrieve, hstep⟩ := Option.bind_eq_some_iff.mp hstep
    cases hstep
    simp only [Option.bind_eq_bind, Option.bind_some, hbuf, hretrieve]
    exact ⟨_, rfl⟩
  | deallocate i =>
    rw [hcall] at hstep
    obtain ⟨buf, hbuf, hstep⟩ := Option.bind_eq_some_iff.mp hstep
    obtain ⟨⟨r', run⟩, hrun, hstep⟩ := Option.bind_eq_some_iff.mp hstep
    cases hstep
    have hrun' : Running.free sc buf.toRegion buf.cache (({ s with queues } :
      BufferPool).running t buf) = some (r, run) := hrun
    simp only [Option.bind_eq_bind, Option.bind_some, hbuf, hrun']
    exact ⟨_, rfl⟩

/-- A call on a buffer is a call of the pool. -/
theorem next_grow {sc : SizeClass} {thread : ℕ} (ht : s.caches[thread]? = some t)
    (hbuf : (s.buffers[i]?).join = some buf) {growth : Growth} {memoryLeft : Bool}
    {r : Except Unit Unit} {run : Running}
    (hgrow : growth.run sc memoryLeft (s.running t buf) = some (r, run)) :
    ∃ f, s.next sc ⟨thread, memoryLeft, .grow i growth⟩ =
      some (r, (s.resume thread run).setBuffer i (some run.buf) f) := by
  simp only [next, ht, hbuf, hgrow, Option.bind_eq_bind, Option.bind_some]
  exact ⟨_, rfl⟩

/-- Every call makes a formed pool of a formed one. -/
theorem Formed.next (h : Formed k s) (hcarve : k.Carvable) {turn : Turn} {r : Except Unit Unit}
    (hstep : s.next k.sizeClass turn = some (r, s')) : Formed k s' := by
  obtain ⟨queues, hsound⟩ := h
  obtain ⟨queues', hstep'⟩ := next_queues hstep queues
  exact ⟨queues', hsound.next hcarve hstep'⟩

/-- `readFd` makes a formed pool of a formed one. -/
theorem Formed.readFd (h : Formed k s) (hcarve : k.Carvable) {thread : ℕ} {memoryLeft : Bool}
    {received : Except ℤ (List UInt8)} {r : Except Unit (Except ℤ ℕ)}
    (hstep : s.readFd k.sizeClass thread i memoryLeft received = some (r, s')) : Formed k s' := by
  obtain ⟨t, ht, hstep⟩ := Option.bind_eq_some_iff.mp hstep
  obtain ⟨buf, hbuf, hstep⟩ := Option.bind_eq_some_iff.mp hstep
  split_ifs at hstep
  obtain ⟨⟨r', run⟩, hread, hstep⟩ := Option.bind_eq_some_iff.mp hstep
  cases hstep
  obtain ⟨q, hwritten⟩ := h.written hbuf
  have hordered := hwritten.represents.ordered
  have hsame : s.caches.set thread t = s.caches := by
    obtain ⟨hj, rfl⟩ := List.getElem?_eq_some_iff.mp ht
    exact List.set_getElem_self hj
  have hmoved : ∀ (writerIndex : ℕ) (memory : Memory), buf.readerIndex ≤ writerIndex →
      writerIndex ≤ buf.length →
      Formed k (s.advance i buf memory writerIndex) := by
    intro writerIndex memory hreader hwriter
    have hregion : ({ buf with writerIndex } : PoolByteBuf).toRegion = buf.toRegion := rfl
    exact h.reindex hbuf hregion rfl ⟨hreader, hwriter, hordered.length⟩ memory s.queues
  rcases Running.readFd_eq hread with ⟨errno, rfl, rfl, rfl⟩ | ⟨data, rfl, hfits, rfl, rfl⟩ |
    ⟨data, r', rfl, hover, hwrite, rfl⟩
  · have hnew := hmoved buf.writerIndex s.memory hordered.readerIndex hordered.writerIndex
    dsimp only [resume, setBuffer, running]
    rw [hsame]
    exact hnew
  · have hfits' : data.length ≤ buf.length - buf.writerIndex := hfits
    have hnew := hmoved (buf.writerIndex + data.length) ((s.running t buf).scattered data)
      (Nat.le_add_right_of_le hordered.readerIndex)
      (Nat.add_le_of_le_sub' hordered.writerIndex hfits')
    dsimp only [resume, setBuffer, running, Running.advance]
    rw [hsame]
    exact hnew
  · -- the rest is a call of `writeBytes` on the buffer that has been filled
    have hfull := hmoved buf.length ((s.running t buf).scattered data)
      (hordered.readerIndex.trans hordered.writerIndex) le_rfl
    have hi := (List.getElem?_eq_some_iff.mp (Option.join_eq_some_iff.mp hbuf)).1
    have hslot : ((s.buffers.set i (some { buf with writerIndex := buf.length }))[i]?).join =
        some { buf with writerIndex := buf.length } := by
      rw [List.getElem?_set_self hi]
      rfl
    have hgrow : (Growth.writeBytes (data.drop buf.writableBytes) 0
        (data.length - buf.writableBytes)).run k.sizeClass memoryLeft
        ((s.advance i buf ((s.running t buf).scattered data) buf.length).running t
          { buf with writerIndex := buf.length }) = some (r', run) := hwrite
    obtain ⟨f, hnext⟩ := next_grow (s := s.advance i buf _ buf.length) ht hslot hgrow
    have hnew := hfull.next hcarve hnext
    dsimp only [resume, setBuffer, advance] at hnew ⊢
    rw [List.set_set] at hnew
    exact hnew

end BufferPool

/-- The capacity for which `readFd` asks the arena when it reads `n` bytes, if it does. -/
def PoolByteBuf.readTarget (buf : PoolByteBuf) (n : ℕ) : Option ℕ :=
  if n ≤ buf.writableBytes then none
  else { buf with writerIndex := buf.length }.writableTarget (n - buf.writableBytes)

namespace Running

variable {s s' : Running} {memoryLeft : Bool}

/-- What `readFd` does when it has read: the bytes that were there are followed by the data
where they were written, and the buffer reads there if the request for its new region, if
there is one, is served right. -/
theorem readFd_written {rest : List Grant} {chunks : List (ℕ × ℕ)} {q : ByteQueue}
    {data : List UInt8} {n : Except ℤ ℕ} (haligned : s.buf.toRegion.Aligned)
    (h : Written k s.heap.memory s.buf q) (hplaced : Placed k s.heap.arena)
    (hfiled : s.heap.threadCache.Filed k) (hcarve : k.Carvable)
    (hgives : HandsOut k s.heap.arena
      (s.heap.threadCache.grants ++ (s.buf.toRegion.grants ++ rest))
      (s.buf.toRegion.huge ++ chunks))
    (hread : readFd k.sizeClass memoryLeft (.ok data) s = some (.ok n, s')) :
    n = .ok data.length ∧ Written k s'.heap.memory s'.buf (q.append data) ∧
      (s'.buf.toRegion.Aligned ↔
        ∀ m ∈ s.buf.readTarget data.length, s.heap.arena.ServesRight k s.heap.threadCache m) := by
  have hrep := h.represents
  have hsame : s.buf.realigned = s.buf := by
    rw [PoolByteBuf.realigned, haligned.realigned]
  rw [hsame] at hrep
  have hcapacity : s.buf.writerIndex ≤ s.buf.length := hrep.capacity
  rw [PoolByteBuf.readTarget]
  rcases readFd_eq hread with ⟨_, ⟨⟩, _⟩ | ⟨_, ⟨⟩, hfits, hn, rfl⟩ |
    ⟨_, r', ⟨⟩, hover, hwrite, hn⟩
  · cases hn
    have hscatter := hrep.scatter hfits
    refine ⟨rfl, ⟨h.based, h.classed, h.maxCapacity, ?_⟩, ?_⟩
    · rw [advance, scattered, List.take_of_length_le hfits]
      rw [PoolByteBuf.realigned, haligned.realigned]
      exact hscatter
    · rw [if_pos hfits]
      exact iff_of_true haligned (by rintro _ ⟨⟩)
  · cases r' with
    | error _ => cases hn
    | ok _ =>
      cases hn
      rw [if_neg (not_le.mpr hover)]
      have hpart : (data.take s.buf.writableBytes).length = s.buf.writableBytes := by
        rw [List.length_take, Nat.min_eq_left hover.le]
      have hend : s.buf.writerIndex + s.buf.writableBytes = s.buf.length :=
        Nat.add_sub_cancel' hcapacity
      have hscatter := hrep.scatter hpart.le
      rw [hpart, hend] at hscatter
      have hfilled : Written k (s.scattered data) { s.buf with writerIndex := s.buf.length }
          (q.append (data.take s.buf.writableBytes)) := by
        refine ⟨h.based, h.classed, h.maxCapacity, ?_⟩
        rw [PoolByteBuf.realigned, haligned.realigned]
        exact hscatter
      have hgrow : (Growth.writeBytes (data.drop s.buf.writableBytes) 0
          (data.length - s.buf.writableBytes)).run k.sizeClass memoryLeft
          (s.advance (s.scattered data) s.buf.length) = some (.ok (), s') := hwrite
      have heffect := growth_effect hgrow
      have hwritten := (heffect.written hfilled hplaced hfiled hcarve hgives).1
      have hall : Growth.apply (.writeBytes (data.drop s.buf.writableBytes) 0
          (data.length - s.buf.writableBytes)) (q.append (data.take s.buf.writableBytes)) =
            q.append data := by
        rw [Growth.apply, List.drop_zero, List.take_of_length_le (List.length_drop).le,
          ByteQueue.append, ByteQueue.append, ByteQueue.append, List.append_assoc,
          List.take_append_drop]
      rw [hall] at hwritten
      exact ⟨rfl, hwritten, heffect.aligned_iff haligned hgives.owns⟩

/-- `writeBytes` makes room and writes. -/
theorem writeBytes_ok_iff {sc : SizeClass} {src : List UInt8} :
    writeBytes sc memoryLeft src 0 src.length s = some (.ok (), s') ↔
      ∃ s₁, ensureWritable sc memoryLeft src.length s = some (.ok (), s₁) ∧
        s' = s₁.advance (BlockMemory.write s₁.heap.memory
          (s₁.buf.memory.add (s₁.buf.idx s₁.buf.writerIndex)) src)
          (s₁.buf.writerIndex + src.length) := by
  have hsrc : ¬ src.length < 0 + src.length := by omega
  have hall : (src.drop 0).take src.length = src := by
    rw [List.drop_zero, List.take_length]
  rw [writeBytes, if_neg hsrc]
  constructor
  · intro h
    rcases bind_eq h with ⟨_, s₁, hensure, h⟩ | ⟨_, ⟨⟩⟩
    refine ⟨s₁, hensure, ?_⟩
    rw [setBytes, hall] at h
    exact (onBuf_eq (onMemory_bind h)).2
  · rintro ⟨s₁, hensure, rfl⟩
    rw [bind_of_ok hensure, setBytes, hall]
    rfl

/-- `readFd` returns when what does not fit has been written. -/
theorem readFd_of_writeBytes {sc : SizeClass} {data : List UInt8}
    (hover : s.buf.writableBytes < data.length)
    (hwrite : writeBytes sc memoryLeft (data.drop s.buf.writableBytes) 0
      (data.length - s.buf.writableBytes) (s.advance (s.scattered data) s.buf.length) =
        some (.ok (), s')) :
    readFd sc memoryLeft (.ok data) s = some (.ok (.ok data.length), s') := by
  rw [readFd, get_bind, if_neg (not_le.mpr hover)]
  exact bind_of_ok hwrite

/-- The last byte that `readFd` writes does not matter to what it does, and shows at one
place only, which is before the writer index. -/
theorem readFd_concat {sc : SizeClass} {data : List UInt8} {v : UInt8} {n : Except ℤ ℕ}
    (hover : s.buf.writableBytes ≤ data.length)
    (hread : readFd sc memoryLeft (.ok (data ++ [v])) s = some (.ok n, s')) (w : UInt8) :
    ∃ memory, readFd sc memoryLeft (.ok (data ++ [w])) s =
        some (.ok n, { s' with heap := { s'.heap with memory } }) ∧
      ∀ x, x.1 ≠ s'.buf.memory.1 ∨
          x.2 + 1 ≠ s'.buf.memory.2 + (s'.buf.offset + s'.buf.writerIndex) →
        memory x = s'.heap.memory x := by
  have hlength : ∀ u : UInt8, (data ++ [u]).length = data.length + 1 := fun u =>
    List.length_append
  have hdrop : ∀ u : UInt8, (data ++ [u]).drop s.buf.writableBytes =
      data.drop s.buf.writableBytes ++ [u] := fun u => List.drop_append_of_le_length hover
  have htake : ∀ u : UInt8, s.scattered (data ++ [u]) = s.scattered data := by
    intro u
    rw [scattered, scattered, List.take_append_of_le_length hover]
  have hrest : ∀ u : UInt8, (data ++ [u]).length - s.buf.writableBytes =
      (data.drop s.buf.writableBytes ++ [u]).length := by
    intro u
    rw [← hdrop, List.length_drop]
  rcases readFd_eq hread with ⟨_, ⟨⟩, _⟩ | ⟨_, ⟨⟩, hfits, _⟩ | ⟨_, r', ⟨⟩, _, hwrite, hn⟩
  · rw [hlength] at hfits
    omega
  cases r' with
  | error _ => cases hn
  | ok _ =>
    cases hn
    rw [hdrop, hrest, htake, writeBytes_ok_iff] at hwrite
    obtain ⟨s₁, hensure, rfl⟩ := hwrite
    refine ⟨BlockMemory.write s₁.heap.memory
      (s₁.buf.memory.add (s₁.buf.idx s₁.buf.writerIndex))
      (data.drop s.buf.writableBytes ++ [w]), ?_, ?_⟩
    · have hover' : s.buf.writableBytes < (data ++ [w]).length := by
        rw [hlength]
        omega
      have hsame : ∀ u : UInt8, (data.drop s.buf.writableBytes ++ [u]).length =
          (data.drop s.buf.writableBytes).length + 1 := fun u => List.length_append
      have hwrite : writeBytes sc memoryLeft ((data ++ [w]).drop s.buf.writableBytes) 0
          ((data ++ [w]).length - s.buf.writableBytes)
          (s.advance (s.scattered (data ++ [w])) s.buf.length) =
            some (.ok (), s₁.advance (BlockMemory.write s₁.heap.memory
              (s₁.buf.memory.add (s₁.buf.idx s₁.buf.writerIndex))
              (data.drop s.buf.writableBytes ++ [w]))
              (s₁.buf.writerIndex + (data.drop s.buf.writableBytes ++ [w]).length)) := by
        rw [hdrop, hrest, htake, writeBytes_ok_iff]
        refine ⟨s₁, ?_, rfl⟩
        rw [hsame, ← hsame v]
        exact hensure
      rw [readFd_of_writeBytes hover' hwrite, hlength, hlength, hsame, hsame]
      rfl
    · intro x hx
      refine BlockMemory.write_concat_of_ne _ ?_ w v
      rintro rfl
      rcases hx with hx | hx
      · exact hx rfl
      · refine hx ?_
        dsimp only [advance, Addr.add, PoolByteBuf.idx]
        rw [List.length_append, List.length_singleton]
        omega

end Running

/-- The last byte that is read. -/
theorem Filled.readable_concat {s : Filled} {data : List UInt8} {v : UInt8}
    (h : s.readable = data ++ [v]) :
    s.memory (s.buf.tmpBuf.1, s.buf.tmpBuf.2 + s.buf.readerIndex + data.length) = v ∧
      s.buf.writerIndex = s.buf.readerIndex + (data.length + 1) := by
  have hlength := congrArg List.length h
  rw [readable, BlockMemory.length_read, List.length_append, List.length_singleton] at hlength
  constructor
  · rw [readable, hlength, BlockMemory.read_add] at h
    exact List.singleton_inj.mp (List.append_inj_right' h rfl)
  · rw [PoolByteBuf.readableBytes] at hlength
    omega

namespace BufferPool

variable {s s' : BufferPool} {t : PoolThreadCache} {buf buf' : PoolByteBuf} {i thread n : ℕ}
  {memoryLeft : Bool} {received : Except ℤ (List UInt8)} {r : Except Unit (Except ℤ ℕ)}

/-- `readFd` of the pool is `readFd` of the thread for the buffer. -/
theorem readFd_run {sc : SizeClass} (ht : s.caches[thread]? = some t)
    (hbuf : (s.buffers[i]?).join = some buf)
    (hstep : s.readFd sc thread i memoryLeft received = some (r, s')) :
    ∃ run, (delivered received).length ≤ buf.offered ∧
      Running.readFd sc memoryLeft received (s.running t buf) = some (r, run) ∧
      s'.buffers = s.buffers.set i (some run.buf) ∧ s'.memory = run.heap.memory := by
  obtain ⟨_, ht', hstep⟩ := Option.bind_eq_some_iff.mp hstep
  rw [ht] at ht'
  cases ht'
  obtain ⟨_, hbuf', hstep⟩ := Option.bind_eq_some_iff.mp hstep
  rw [hbuf] at hbuf'
  cases hbuf'
  split_ifs at hstep with hoffered
  obtain ⟨⟨r', run⟩, hread, hstep⟩ := Option.bind_eq_some_iff.mp hstep
  cases hstep
  exact ⟨run, not_lt.mp hoffered, hread, rfl, rfl⟩

theorem readFd_of_run {sc : SizeClass} (ht : s.caches[thread]? = some t)
    (hbuf : (s.buffers[i]?).join = some buf) (hoffered : (delivered received).length ≤ buf.offered)
    {run : Running}
    (hread : Running.readFd sc memoryLeft received (s.running t buf) = some (r, run)) :
    ∃ f, s.readFd sc thread i memoryLeft received =
      some (r, (s.resume thread run).setBuffer i (some run.buf) f) := by
  simp only [readFd, ht, hbuf, hread, Option.bind_eq_bind, Option.bind_some,
    if_neg (not_lt.mpr hoffered)]
  exact ⟨_, rfl⟩

/-- Every pool that reads from descriptors is formed. -/
theorem formed_of_reachable (hcarve : k.Carvable) {threads : ℕ}
    (hs : (fdMachine k threads).Reachable s) : Formed k s := by
  refine hs.invariant ?_ fun s turn s' h hstep => ?_
  · rintro _ ⟨memory, rfl⟩
    exact ⟨[], sound_init k threads memory⟩
  · cases turn with
    | turn turn =>
      obtain ⟨⟨r, s₁⟩, hnext, rfl⟩ := Option.map_eq_some_iff.mp hstep
      exact h.next hcarve hnext
    | readFd thread i memoryLeft received =>
      obtain ⟨⟨r, s₁⟩, hread, rfl⟩ := Option.map_eq_some_iff.mp hstep
      exact h.readFd hcarve hread

/-- Of any `n` bytes that arrive, when `readFd` returns, the buffer shows all behind what it
showed before, and its indices are in order and within its capacity. After an error the
buffer is as it was, and the error number is stored. -/
structure ReadsAll (sc : SizeClass) (s : BufferPool) (thread i : ℕ) (memoryLeft : Bool)
    (buf : PoolByteBuf) (n : ℕ) : Prop where
  appends : ∀ data : List UInt8, data.length = n → ∀ m s',
    s.readFd sc thread i memoryLeft (.ok data) = some (.ok m, s') →
      m = .ok n ∧ ∃ buf', (s'.buffers[i]?).join = some buf' ∧
        Filled.readable ⟨buf', s'.memory⟩ = Filled.readable ⟨buf, s.memory⟩ ++ data ∧
        buf'.readerIndex ≤ buf'.writerIndex ∧ buf'.writerIndex ≤ buf'.length
  keeps : ∀ errno r s', s.readFd sc thread i memoryLeft (.error errno) = some (r, s') →
    r = .ok (.error errno) ∧ s'.buffers = s.buffers ∧ s'.memory = s.memory

/-- An error changes nothing. -/
theorem readFd_error {sc : SizeClass} {errno : ℤ}
    (hstep : s.readFd sc thread i memoryLeft (.error errno) = some (r, s')) :
    r = .ok (.error errno) ∧ s'.buffers = s.buffers ∧ s'.memory = s.memory := by
  have hpool := hstep
  obtain ⟨t, ht, hpool⟩ := Option.bind_eq_some_iff.mp hpool
  obtain ⟨buf, hbuf, _⟩ := Option.bind_eq_some_iff.mp hpool
  obtain ⟨run, _, hread, hbuffers, hmemory⟩ := readFd_run ht hbuf hstep
  cases hread
  obtain ⟨hi, hslot⟩ := List.getElem?_eq_some_iff.mp (Option.join_eq_some_iff.mp hbuf)
  refine ⟨rfl, hbuffers.trans ?_, hmemory⟩
  change s.buffers.set i (some buf) = s.buffers
  rw [← hslot, List.set_getElem_self hi]

/-- In a formed pool, when `readFd` has read into a buffer that reads where it writes, the data
is behind what the buffer has shown, and the buffer reads there exactly when the request for
its new region, if there is one, is served right. -/
theorem Formed.readFd_written (h : Formed k s) (hcarve : k.Carvable)
    (ht : s.caches[thread]? = some t) (hbuf : (s.buffers[i]?).join = some buf)
    (haligned : buf.toRegion.Aligned) {data : List UInt8} {m : Except ℤ ℕ} {run : Running}
    (hread : Running.readFd k.sizeClass memoryLeft (.ok data) (s.running t buf) =
      some (.ok m, run)) :
    m = .ok data.length ∧
      (∃ q, q.bytes = Filled.readable ⟨buf, s.memory⟩ ++ data ∧
        Written k run.heap.memory run.buf q) ∧
      (run.buf.toRegion.Aligned ↔ ∀ n ∈ buf.readTarget data.length, s.arena.ServesRight k t n) := by
  obtain ⟨queues, hsound⟩ := h
  obtain ⟨q, _, hwritten⟩ := hsound.exists_queue hbuf
  obtain ⟨rest, chunks, hgives⟩ := hsound.inv.focus_slot ht hbuf
  have hfiled := hsound.filed t (List.mem_of_getElem? ht)
  obtain ⟨hm, hwritten', halign⟩ := Running.readFd_written haligned hwritten hsound.placed hfiled
    hcarve hgives hread
  have hreadable : Filled.readable ⟨buf, s.memory⟩ = q.bytes := by
    have hrep := hwritten.represents
    rw [PoolByteBuf.realigned, haligned.realigned] at hrep
    exact hrep.readable
  exact ⟨hm, ⟨q.append data, by rw [hreadable]; rfl, hwritten'⟩, halign⟩

/-- Of threads that read into their buffers in any order: in every reachable state, where a
buffer reads where it writes and `readFd` returns after `n` bytes, all of them are read behind
the old ones, whatever they are, exactly when the request for another region, if there is
one, is served with the right pointer. -/
theorem readsAll_iff_servesRight {threads : ℕ} (hs : (fdMachine .default threads).Reachable s)
    (ht : s.caches[thread]? = some t) (hbuf : (s.buffers[i]?).join = some buf)
    (haligned : buf.tmpBuf = buf.memory.add buf.offset)
    (hreturns : ∃ data m s', data.length = n ∧
      s.readFd PoolConfig.default.sizeClass thread i memoryLeft (.ok data) = some (.ok m, s')) :
    s.ReadsAll PoolConfig.default.sizeClass thread i memoryLeft buf n ↔
      ∀ m ∈ buf.readTarget n, s.arena.ServesRight .default t m := by
  have hcarve := PoolConfig.carvable_default
  have hformed := formed_of_reachable hcarve hs
  have hi := (List.getElem?_eq_some_iff.mp (Option.join_eq_some_iff.mp hbuf)).1
  have hslot : ∀ b : PoolByteBuf, ((s.buffers.set i (some b))[i]?).join = some b := by
    intro b
    rw [List.getElem?_set_self hi]
    rfl
  constructor
  · rintro ⟨happends, -⟩
    obtain ⟨data, m, s', hlength, hstep⟩ := hreturns
    obtain ⟨run, hoffered, hread, hbuffers, hmemory⟩ := readFd_run ht hbuf hstep
    obtain ⟨-, -, halign⟩ := hformed.readFd_written hcarve ht hbuf haligned hread
    rw [hlength] at halign
    rw [← halign]
    by_cases hfits : n ≤ buf.writableBytes
    · rw [halign, PoolByteBuf.readTarget, if_pos hfits]
      exact nofun
    · -- another last byte would have to show at the same place
      have hlast : data ≠ [] := by
        rintro rfl
        exact hfits (hlength ▸ Nat.zero_le _)
      obtain ⟨data, v, rfl⟩ := (List.eq_nil_or_concat' data).resolve_left hlast
      obtain ⟨w, hw⟩ : ∃ w : UInt8, w ≠ v := by
        by_cases hv : v = 0
        · exact ⟨1, by rw [hv]; decide⟩
        · exact ⟨0, Ne.symm hv⟩
      have hover : buf.writableBytes ≤ data.length := by
        rw [List.length_append, List.length_singleton] at hlength
        omega
      obtain ⟨memory, hread', hsame⟩ := Running.readFd_concat hover hread w
      have hlength' : (data ++ [w]).length = (data ++ [v]).length := by
        rw [List.length_append, List.length_append]
        rfl
      have hoffered' : (delivered (.ok (data ++ [w]))).length ≤ buf.offered :=
        hlength'.trans_le hoffered
      obtain ⟨f, hstep'⟩ := readFd_of_run ht hbuf hoffered' hread'
      obtain ⟨-, b, hb, hshown, -⟩ := happends _ hlength _ _ hstep
      obtain ⟨-, b', hb', hshown', -⟩ := happends _ (hlength'.trans hlength) _ _ hstep'
      rw [hbuffers, hslot] at hb
      cases hb
      have hb'' : ((s.buffers.set i (some run.buf))[i]?).join = some b' := hb'
      rw [hslot] at hb''
      cases hb''
      rw [← List.append_assoc] at hshown hshown'
      obtain ⟨hv, hwriter⟩ := Filled.readable_concat hshown
      obtain ⟨hw', -⟩ := Filled.readable_concat hshown'
      by_cases hplace : run.buf.tmpBuf.1 = run.buf.memory.1 ∧
          run.buf.tmpBuf.2 + run.buf.readerIndex +
            (Filled.readable ⟨buf, s.memory⟩ ++ data).length + 1 =
            run.buf.memory.2 + (run.buf.offset + run.buf.writerIndex)
      · refine Prod.ext hplace.1 (show run.buf.tmpBuf.2 = run.buf.memory.2 + run.buf.offset from ?_)
        have hend := hplace.2
        dsimp only at hwriter
        omega
      · have hmemory' := hsame (run.buf.tmpBuf.1, run.buf.tmpBuf.2 + run.buf.readerIndex +
          (Filled.readable ⟨buf, s.memory⟩ ++ data).length) (not_and_or.mp hplace)
        rw [hmemory] at hv
        exact absurd ((hw'.symm.trans hmemory').trans hv) hw
  · intro hright
    refine ⟨fun data hlength m s' hstep => ?_, fun errno r s' => readFd_error⟩
    obtain ⟨run, _, hread, hbuffers, hmemory⟩ := readFd_run ht hbuf hstep
    obtain ⟨hm, ⟨q, hq, hwritten⟩, halign⟩ :=
      hformed.readFd_written hcarve ht hbuf haligned hread
    rw [hlength] at hm halign
    have hrep := hwritten.represents
    rw [PoolByteBuf.realigned, (halign.mpr hright).realigned] at hrep
    refine ⟨hm, run.buf, ?_, ?_, hrep.ordered.readerIndex, hrep.ordered.writerIndex⟩
    · rw [hbuffers, hslot]
    · rw [hmemory, ← hq]
      exact hrep.readable

/-- A call of `readFd` that returns a value. -/
theorem exists_of_isOk {x : Option (Except Unit (Except ℤ ℕ) × BufferPool)}
    (h : x.map (fun p => p.1.isOk) = some true) : ∃ m s', x = some (.ok m, s') := by
  obtain ⟨⟨r, s'⟩, rfl, hok⟩ := Option.map_eq_some_iff.mp h
  cases r with
  | ok m => exact ⟨m, s', rfl⟩
  | error _ => cases hok

/-- One thread makes a buffer of 16 bytes. -/
def oneMade : List FdTurn := [.turn ⟨0, true, .poolBuffer 16 1000 (.initUnpool 0 0)⟩]

/-- The state after this call. -/
def afterOneMade : BufferPool :=
  (oneMade.foldlM (nextFd PoolConfig.default.sizeClass) beforeFewTurns).getD beforeFewTurns

theorem afterOneMade_eq :
    oneMade.foldlM (nextFd PoolConfig.default.sizeClass) beforeFewTurns = some afterOneMade := by
  have hsome : (oneMade.foldlM (nextFd PoolConfig.default.sizeClass) beforeFewTurns).isSome =
      true := by
    decide +kernel
  rw [afterOneMade, Option.getD_of_ne_none (Option.isSome_iff_ne_none.mp hsome)]

theorem readsAll_iff_servesRight_oneMade :
    ∃ buf, (afterOneMade.buffers[0]?).join = some buf ∧
      afterOneMade.ReadsAll PoolConfig.default.sizeClass 0 0 true buf 20 := by
  have hs : (fdMachine .default 1).Reachable afterOneMade :=
    .of_foldlM (.of_init ⟨_, rfl⟩) afterOneMade_eq
  obtain ⟨t, ht⟩ : ∃ t, afterOneMade.caches[0]? = some t :=
    Option.isSome_iff_exists.mp (by decide +kernel)
  obtain ⟨buf, hbuf⟩ : ∃ buf, (afterOneMade.buffers[0]?).join = some buf :=
    Option.isSome_iff_exists.mp (by decide +kernel)
  have hright : ∀ t ∈ afterOneMade.caches[0]?, ∀ b ∈ (afterOneMade.buffers[0]?).join,
      b.toRegion.Aligned ∧ ∀ m ∈ b.readTarget 20, afterOneMade.arena.ServesRight .default t m := by
    decide +kernel
  have hreturns := exists_of_isOk (show (afterOneMade.readFd PoolConfig.default.sizeClass 0 0 true
    (.ok (List.replicate 20 7))).map (fun p => p.1.isOk) = some true by decide +kernel)
  obtain ⟨haligned, hserves⟩ := hright t ht buf hbuf
  obtain ⟨m, s', hstep⟩ := hreturns
  exact ⟨buf, hbuf, (readsAll_iff_servesRight hs ht hbuf haligned
    ⟨_, m, s', List.length_replicate, hstep⟩).mpr hserves⟩

/-- A buffer of 16 bytes, and two larger ones that are deallocated. -/
def twoFreed : List FdTurn :=
  [.turn ⟨0, true, .poolBuffer 16 1000 (.initUnpool 0 0)⟩,
    .turn ⟨0, true, .poolBuffer 70000 100000 (.initUnpool 0 0)⟩,
    .turn ⟨0, true, .poolBuffer 70000 100000 (.initUnpool 0 0)⟩,
    .turn ⟨0, true, .deallocate 1⟩, .turn ⟨0, true, .deallocate 2⟩]

/-- Of 20 bytes that arrive for the buffer of 16 none is read. -/
theorem not_readsAll : ¬ ∀ s, (fdMachine .default 1).Reachable s → ∀ (i : ℕ) buf memoryLeft n,
    (s.buffers[i]?).join = some buf → buf.tmpBuf = buf.memory.add buf.offset →
      s.ReadsAll PoolConfig.default.sizeClass 0 i memoryLeft buf n := by
  intro hall
  have hshown : ((twoFreed.foldlM (nextFd PoolConfig.default.sizeClass) beforeFewTurns).bind
      fun s => ((s.buffers[0]?).join).bind fun buf =>
        (s.readFd PoolConfig.default.sizeClass 0 0 true (.ok (List.replicate 20 7))).bind fun p =>
          ((p.2.buffers[0]?).join).map fun buf' =>
            (decide buf.toRegion.Aligned, p.1.isOk, Filled.readable ⟨buf, s.memory⟩,
              Filled.readable ⟨buf', p.2.memory⟩)) =
      some (true, true, [], List.replicate 20 0) := by
    decide +kernel
  obtain ⟨s, hs, hshown⟩ := Option.bind_eq_some_iff.mp hshown
  obtain ⟨buf, hbuf, hshown⟩ := Option.bind_eq_some_iff.mp hshown
  obtain ⟨⟨r, s'⟩, hstep, hshown⟩ := Option.bind_eq_some_iff.mp hshown
  obtain ⟨buf', hbuf', hshown⟩ := Option.map_eq_some_iff.mp hshown
  simp only [Prod.mk.injEq, decide_eq_true_eq] at hshown
  obtain ⟨haligned, hok, hold, hnew⟩ := hshown
  have hreachable : (fdMachine .default 1).Reachable s := .of_foldlM (.of_init ⟨_, rfl⟩) hs
  cases r with
  | error _ => cases hok
  | ok m =>
    obtain ⟨-, b, hb, hreadable, -⟩ := (hall s hreachable 0 buf true 20 hbuf haligned).appends
      _ List.length_replicate m s' hstep
    rw [show (s'.buffers[0]?).join = some buf' from hbuf'] at hb
    cases hb
    rw [hold, show Filled.readable ⟨buf', s'.memory⟩ = List.replicate 20 0 from hnew] at hreadable
    revert hreadable
    decide

end BufferPool

end DuoDuo.Buffer
