import DuoDuo.Buffer.ReadFd

/-!
# What buffers hold that read from descriptors

The kernel writes through the read pointer. While every buffer reads where it writes, what
arrives for one buffer is appended to its queue, and no other buffer is touched. The pool
stays sound, and the pointers stay right when the requests are served right.
-/

namespace DuoDuo.Buffer

open Library Library.Machine Library.Throws PoolArena

variable {k : PoolConfig}

namespace BufferPool

variable {s s' : BufferPool} {t : PoolThreadCache} {buf buf' : PoolByteBuf} {i thread : ℕ}
  {memoryLeft : Bool}

/-- The regions stay handed out when a buffer changes in its region. -/
theorem Inv.reindex (h : Inv k s) (hbuf : (s.buffers[i]?).join = some buf)
    (hregion : buf'.toRegion = buf.toRegion) (memory : Memory) (queues : List ByteQueue) :
    Inv k { s with memory, buffers := s.buffers.set i (some buf'), queues } where
  handsOut := h.handsOut.perm
    (List.Perm.append_left _ (collect_set_same hbuf (by rw [hregion])))
    (collect_set_same hbuf (by rw [hregion]))
  placed := by
    refine placed_set h.placed ?_
    rintro _ ⟨⟩
    rw [hregion]
    exact h.placed buf (List.mem_of_getElem? (Option.join_eq_some_iff.mp hbuf))
  held := h.held

/-- The pool in which data has arrived in the room of a buffer, through its read pointer. -/
def scatter (s : BufferPool) (i : ℕ) (buf : PoolByteBuf) (data : List UInt8) : BufferPool :=
  { s with
    memory := BlockMemory.write s.memory (buf.tmpBuf.add buf.writerIndex) data
    buffers := s.buffers.set i (some { buf with writerIndex := buf.writerIndex + data.length })
    queues := s.queues.modify i (·.append data) }

/-- Data that arrives in the room of a buffer makes a sound pool of a sound one. -/
theorem Sound.scatter (h : Sound k s) (hbuf : (s.buffers[i]?).join = some buf)
    (haligned : buf.toRegion.Aligned) {data : List UInt8}
    (hroom : data.length ≤ buf.writableBytes) : Sound k (s.scatter i buf data) := by
  obtain ⟨q, hq, hwritten⟩ := h.exists_queue hbuf
  have hrep := hwritten.represents
  have hsame : buf.realigned = buf := by
    rw [PoolByteBuf.realigned, haligned.realigned]
  rw [hsame] at hrep
  let grown : PoolByteBuf := { buf with writerIndex := buf.writerIndex + data.length }
  have hgrown : grown.toRegion = buf.toRegion := rfl
  have hinv : Inv k (s.scatter i buf data) := h.inv.reindex hbuf hgrown _ _
  refine ⟨hinv, h.placed, h.filed, ?_, slots_set ?_ ?_⟩
  · rw [BufferPool.scatter, List.length_modify, List.length_set]
    exact h.length
  · intro j buf₁ q₁ hji hbuf₁ hq₁
    have hother := h.written j buf₁ q₁ hbuf₁ hq₁
    have hapart := h.inv.separate hbuf₁ hbuf hji hother.based hwritten.based
    refine hother.frame fun x hx => BlockMemory.write_outside _ fun hmem => ?_
    obtain ⟨hblock, hstart, hend⟩ := hmem
    -- the room of the buffer lies within its region
    refine hapart.not_covers hx ?_
    have hcapacity : buf.writerIndex ≤ buf.length := hrep.capacity
    have hmaxLength : buf.length ≤ buf.maxLength := hrep.maxLength
    have hroom' : data.length ≤ buf.length - buf.writerIndex := hroom
    have htmpBuf : buf.tmpBuf = buf.memory.add buf.offset := haligned
    rw [htmpBuf] at hblock hstart hend
    dsimp only [Addr.add] at hblock hstart hend
    refine ⟨hblock, ?_, ?_⟩
    · omega
    · omega
  · rintro _ q₁ ⟨⟩ hq₁
    rw [hq] at hq₁
    cases hq₁
    refine ⟨hwritten.based, hwritten.classed, hwritten.maxCapacity, ?_⟩
    rw [PoolByteBuf.realigned, haligned.realigned]
    exact hrep.scatter hroom

/-- `readFd` has its request, if it makes one, served with the right pointer. -/
def ReadServedRight (k : PoolConfig) (s : BufferPool) (thread i n : ℕ) : Prop :=
  ∀ t ∈ s.caches[thread]?, ∀ buf ∈ (s.buffers[i]?).join, ∀ m ∈ buf.readTarget n,
    s.arena.ServesRight k t m

instance (k : PoolConfig) (s : BufferPool) (thread i n : ℕ) :
    Decidable (ReadServedRight k s thread i n) :=
  inferInstanceAs (Decidable (∀ t ∈ _, ∀ buf ∈ _, ∀ m ∈ _, _))

/-- Data that arrives in two parts arrives as a whole. -/
theorem scatter_resume {thread : ℕ} {run : Running} {data : List UInt8} {n : ℕ} :
    ((s.scatter i buf (data.take n)).resume thread run).setBuffer i (some run.buf)
      (Growth.apply (.writeBytes (data.drop n) 0 (data.length - n))) =
    (s.resume thread run).setBuffer i (some run.buf) (·.append data) := by
  have happly : Growth.apply (.writeBytes (data.drop n) 0 (data.length - n)) ∘
      (ByteQueue.append · (data.take n)) = (ByteQueue.append · data) := by
    funext q
    rw [Function.comp_apply, Growth.apply, List.drop_zero,
      List.take_of_length_le (List.length_drop).le, ByteQueue.append, ByteQueue.append,
      ByteQueue.append, List.append_assoc, List.take_append_drop]
  dsimp only [resume, setBuffer, BufferPool.scatter]
  rw [List.set_set, List.modify_modify_eq, happly]

/-- What `readFd` has done when it returns: an error leaves the pool as it was; data that has
room is there, and of more data the room is filled and the rest is written. -/
theorem Sound.readFd_ok (h : Sound k s) {received : Except ℤ (List UInt8)} {m : Except ℤ ℕ}
    (hstep : s.readFd k.sizeClass thread i memoryLeft received = some (.ok m, s')) :
    (∃ errno, received = .error errno ∧ m = .error errno ∧ s' = s) ∨
    ∃ t buf data, s.caches[thread]? = some t ∧ (s.buffers[i]?).join = some buf ∧
      received = .ok data ∧ m = .ok data.length ∧
      (data.length ≤ buf.writableBytes ∧ s' = s.scatter i buf data ∨
        buf.writableBytes < data.length ∧ buf.writerIndex + buf.writableBytes = buf.length ∧
          (s.scatter i buf (data.take buf.writableBytes)).next k.sizeClass ⟨thread, memoryLeft,
            .grow i (.writeBytes (data.drop buf.writableBytes) 0
              (data.length - buf.writableBytes))⟩ = some (.ok (), s')) := by
  obtain ⟨t, ht, hstep⟩ := Option.bind_eq_some_iff.mp hstep
  obtain ⟨buf, hbuf, hstep⟩ := Option.bind_eq_some_iff.mp hstep
  split_ifs at hstep
  obtain ⟨⟨r, run⟩, hread, hstep⟩ := Option.bind_eq_some_iff.mp hstep
  have hcaches : s.caches.set thread t = s.caches := by
    obtain ⟨hj, rfl⟩ := List.getElem?_eq_some_iff.mp ht
    exact List.set_getElem_self hj
  obtain ⟨hi, hslot⟩ := List.getElem?_eq_some_iff.mp (Option.join_eq_some_iff.mp hbuf)
  rcases Running.readFd_eq hread with ⟨errno, rfl, rfl, rfl⟩ | ⟨data, rfl, hfits, rfl, rfl⟩ |
    ⟨data, r', rfl, hover, hwrite, rfl⟩
  · cases hstep
    refine .inl ⟨errno, rfl, rfl, ?_⟩
    have hqueues : s.queues.modify i (fun q => q.append []) = s.queues := by
      have hid : (fun q : ByteQueue => q.append []) = id := by
        funext q
        rw [ByteQueue.append, List.append_nil]
        rfl
      rw [hid, List.modify_id]
    dsimp only [resume, setBuffer, running, delivered]
    rw [hcaches, hqueues, ← hslot, List.set_getElem_self]
  · cases hstep
    have hfits' : data.length ≤ buf.writableBytes := hfits
    refine .inr ⟨t, buf, data, ht, hbuf, rfl, rfl, .inl ⟨hfits', ?_⟩⟩
    dsimp only [resume, setBuffer, running, delivered, Running.advance, Running.scattered,
      BufferPool.scatter]
    rw [hcaches, List.take_of_length_le hfits']
  · cases r' with
    | error _ => cases hstep
    | ok _ =>
      cases hstep
      obtain ⟨_, _, hwritten⟩ := h.exists_queue hbuf
      have hend : buf.writerIndex + buf.writableBytes = buf.length :=
        Nat.add_sub_cancel' hwritten.represents.capacity
      refine .inr ⟨t, buf, data, ht, hbuf, rfl, rfl, .inr ⟨hover, hend, ?_⟩⟩
      have hlength : (data.take buf.writableBytes).length = buf.writableBytes :=
        List.length_take_of_le (Nat.le_of_lt hover)
      have hfull : (((s.scatter i buf (data.take buf.writableBytes)).buffers)[i]?).join =
          some { buf with writerIndex := buf.length } := by
        rw [BufferPool.scatter, List.getElem?_set_self hi, hlength, hend]
        rfl
      have hgrow : Growth.run k.sizeClass memoryLeft
          (.writeBytes (data.drop buf.writableBytes) 0 (data.length - buf.writableBytes))
          ((s.scatter i buf (data.take buf.writableBytes)).running t
            { buf with writerIndex := buf.length }) = some (.ok (), run) := hwrite
      have hcache : (s.scatter i buf (data.take buf.writableBytes)).caches[thread]? = some t := ht
      simp only [BufferPool.next, hcache, hfull, hgrow, Option.bind_eq_bind, Option.bind_some,
        scatter_resume]
      rfl

/-- While all buffers read where they write, `readFd` makes a sound pool of a sound one, and
they still do exactly when its request is served right. -/
theorem Sound.readFd (h : Sound k s) (hcarve : k.Carvable)
    (haligned : ∀ buf, some buf ∈ s.buffers → buf.toRegion.Aligned)
    {received : Except ℤ (List UInt8)} {m : Except ℤ ℕ}
    (hstep : s.readFd k.sizeClass thread i memoryLeft received = some (.ok m, s')) :
    Sound k s' ∧ ((∀ buf, some buf ∈ s'.buffers → buf.toRegion.Aligned) ↔
      ReadServedRight k s thread i (delivered received).length) := by
  rcases h.readFd_ok hstep with ⟨errno, rfl, -, rfl⟩ | ⟨t, buf, data, ht, hbuf, rfl, -, hdata⟩
  · refine ⟨h, iff_of_true haligned fun t _ buf _ m hm => ?_⟩
    rw [delivered, List.length_nil, PoolByteBuf.readTarget, if_pos (Nat.zero_le _)] at hm
    cases hm
  have hold := haligned buf (List.mem_of_getElem? (Option.join_eq_some_iff.mp hbuf))
  have hfilled : ∀ {part : List UInt8}, part.length ≤ buf.writableBytes →
      Sound k (s.scatter i buf part) ∧
        ∀ b, some b ∈ (s.scatter i buf part).buffers → b.toRegion.Aligned := fun hroom =>
    ⟨h.scatter hbuf hold hroom, (aligned_set_iff haligned hbuf).mpr hold⟩
  have hserved : ReadServedRight k s thread i data.length ↔
      ∀ n ∈ buf.readTarget data.length, s.arena.ServesRight k t n := by
    rw [ReadServedRight, ht, hbuf]
    exact ⟨fun hall => hall t rfl buf rfl, by rintro hall _ ⟨⟩ _ ⟨⟩; exact hall⟩
  rw [delivered, hserved, PoolByteBuf.readTarget]
  rcases hdata with ⟨hfits, rfl⟩ | ⟨hover, hend, hnext⟩
  · rw [if_pos hfits]
    exact ⟨(hfilled hfits).1, iff_of_true (hfilled hfits).2 (by rintro _ ⟨⟩)⟩
  · have hpart : (data.take buf.writableBytes).length = buf.writableBytes :=
      List.length_take_of_le (Nat.le_of_lt hover)
    obtain ⟨hsound, haligned'⟩ := hfilled hpart.le
    refine ⟨hsound.next hcarve hnext, (hsound.aligned_next_iff haligned' hnext).trans ?_⟩
    have hi := (List.getElem?_eq_some_iff.mp (Option.join_eq_some_iff.mp hbuf)).1
    have hfull : (((s.scatter i buf (data.take buf.writableBytes)).buffers)[i]?).join =
        some { buf with writerIndex := buf.length } := by
      rw [BufferPool.scatter, List.getElem?_set_self hi, hpart, hend]
      rfl
    have hcache : (s.scatter i buf (data.take buf.writableBytes)).caches[thread]? = some t := ht
    rw [servedRight_iff hcache, request, hfull, if_neg (not_le.mpr hover)]
    exact Iff.rfl

end BufferPool

end DuoDuo.Buffer
