import DuoDuo.Http.PooledServer

/-!
# What the buffers of a server show

While every request to the arena is served with the right pointer, a live buffer shows the
bytes of its queue. A call changes what one buffer shows, and leaves the others alone.
-/

namespace DuoDuo.Http

open Library Library.Machine Buffer Buffer.BufferPool

/-- The pool is sound, and every live buffer reads where it writes. -/
structure PoolServed (pool : BufferPool) : Prop where
  sound : Sound .default pool
  aligned : ∀ buf, some buf ∈ pool.buffers → buf.toRegion.Aligned

/-- The buffer in a place of the pool is live, and its bytes are these. -/
def Shows (pool : BufferPool) (i : ℕ) (bytes : Bytes) : Prop :=
  ∃ buf q, (pool.buffers[i]?).join = some buf ∧ pool.queues[i]? = some q ∧ q.bytes = bytes

namespace Shows

variable {pool pool' : BufferPool} {i : ℕ} {bytes : Bytes}

theorem lt (h : Shows pool i bytes) : i < pool.buffers.length := by
  obtain ⟨buf, q, hbuf, -⟩ := h
  exact (List.getElem?_eq_some_iff.mp (Option.join_eq_some_iff.mp hbuf)).1

/-- What a buffer shows is what it holds. -/
theorem readable (h : Shows pool i bytes) (hpool : PoolServed pool) {buf : PoolByteBuf}
    (hbuf : (pool.buffers[i]?).join = some buf) : Filled.readable ⟨buf, pool.memory⟩ = bytes := by
  obtain ⟨_, q, _, hq, rfl⟩ := h
  exact (hpool.sound.readsOwn hpool.aligned).readable i buf q hbuf hq

/-- Another buffer has another place. -/
theorem set (h : Shows pool i bytes) {j : ℕ} (hne : j ≠ i) {slot : Option PoolByteBuf}
    {f : ByteQueue → ByteQueue} (hbuffers : pool'.buffers = pool.buffers.set j slot)
    (hqueues : pool'.queues = pool.queues.modify j f) : Shows pool' i bytes := by
  obtain ⟨buf, q, hbuf, hq, hbytes⟩ := h
  refine ⟨buf, q, ?_, ?_, hbytes⟩
  · rw [hbuffers, List.getElem?_set_ne hne]
    exact hbuf
  · rw [hqueues, List.getElem?_modify_ne f _ hne]
    exact hq

/-- The buffer that changes shows the change. -/
theorem set_self (h : Shows pool i bytes) {buf : PoolByteBuf} {f : ByteQueue → ByteQueue}
    {bytes' : Bytes} (hf : ∀ q : ByteQueue, q.bytes = bytes → (f q).bytes = bytes')
    (hbuffers : pool'.buffers = pool.buffers.set i (some buf))
    (hqueues : pool'.queues = pool.queues.modify i f) : Shows pool' i bytes' := by
  have hi := h.lt
  obtain ⟨_, q, _, hq, hbytes⟩ := h
  refine ⟨buf, f q, ?_, ?_, hf q hbytes⟩
  · rw [hbuffers, List.getElem?_set_self hi]
    rfl
  · rw [hqueues, List.getElem?_modify_eq, hq]
    rfl

/-- A call leaves the other buffers as they are. -/
theorem next (h : Shows pool i bytes) {sc : SizeClass} {turn : Turn} {r : Except Unit Unit}
    (hstep : pool.next sc turn = some (r, pool'))
    (hne : ∀ j ∈ PooledServer.slot turn.call, j ≠ i) : Shows pool' i bytes := by
  obtain ⟨t, ht, hstep⟩ := Option.bind_eq_some_iff.mp hstep
  cases hcall : turn.call with
  | poolBuffer initCapacity maxCapacity recycled =>
    rw [hcall] at hstep
    have hi := h.lt
    obtain ⟨buf, q, hbuf, hq, hbytes⟩ := h
    dsimp only at hstep
    split_ifs at hstep
    · cases hstep
      exact ⟨buf, q, hbuf, hq, hbytes⟩
    · obtain ⟨⟨r', run⟩, -, hstep⟩ := Option.bind_eq_some_iff.mp hstep
      cases r' with
      | error _ =>
        cases hstep
        exact ⟨buf, q, hbuf, hq, hbytes⟩
      | ok _ =>
        cases hstep
        have hj := (List.getElem?_eq_some_iff.mp hq).1
        have hbuffers : (pool.buffers ++ [some run.buf])[i]? = pool.buffers[i]? :=
          List.getElem?_append_left hi
        have hqueues : (pool.queues ++ [({} : ByteQueue)])[i]? = pool.queues[i]? :=
          List.getElem?_append_left hj
        exact ⟨buf, q, (congrArg Option.join hbuffers).trans hbuf, hqueues.trans hq, hbytes⟩
  | grow j growth =>
    rw [hcall] at hstep hne
    obtain ⟨buf, hbuf, hstep⟩ := Option.bind_eq_some_iff.mp hstep
    obtain ⟨⟨r', run⟩, -, hstep⟩ := Option.bind_eq_some_iff.mp hstep
    cases hstep
    exact h.set (hne j rfl) rfl rfl
  | retrieve j len =>
    rw [hcall] at hstep hne
    obtain ⟨buf, -, hstep⟩ := Option.bind_eq_some_iff.mp hstep
    obtain ⟨buf', -, hstep⟩ := Option.bind_eq_some_iff.mp hstep
    cases hstep
    exact h.set (hne j rfl) rfl rfl
  | deallocate j =>
    rw [hcall] at hstep hne
    obtain ⟨buf, -, hstep⟩ := Option.bind_eq_some_iff.mp hstep
    obtain ⟨⟨r', run⟩, -, hstep⟩ := Option.bind_eq_some_iff.mp hstep
    cases hstep
    exact h.set (hne j rfl) rfl rfl

/-- `writeBytes` appends. -/
theorem writeBytes (h : Shows pool i bytes) {thread : ℕ} {memoryLeft : Bool} {string : Bytes}
    (hcall : PooledServer.call pool ⟨thread, memoryLeft,
      .grow i (.writeBytes string 0 string.length)⟩ = some pool') :
    Shows pool' i (bytes ++ string) := by
  have hstep := PooledServer.next_of_call hcall
  obtain ⟨t, ht, hstep⟩ := Option.bind_eq_some_iff.mp hstep
  obtain ⟨buf, -, hstep⟩ := Option.bind_eq_some_iff.mp hstep
  obtain ⟨⟨r', run⟩, -, hstep⟩ := Option.bind_eq_some_iff.mp hstep
  cases hstep
  refine h.set_self (f := Growth.apply (.writeBytes string 0 string.length)) ?_ rfl rfl
  rintro q rfl
  rw [Growth.apply, List.drop_zero, List.take_length]
  rfl

/-- `retrieve` drops what is retrieved. -/
theorem retrieve (h : Shows pool i bytes) {thread : ℕ} {memoryLeft : Bool} {len : ℕ}
    (hcall : PooledServer.call pool ⟨thread, memoryLeft, .retrieve i len⟩ = some pool') :
    Shows pool' i (bytes.drop len) := by
  have hstep := PooledServer.next_of_call hcall
  obtain ⟨t, ht, hstep⟩ := Option.bind_eq_some_iff.mp hstep
  obtain ⟨buf, -, hstep⟩ := Option.bind_eq_some_iff.mp hstep
  obtain ⟨buf', -, hstep⟩ := Option.bind_eq_some_iff.mp hstep
  cases hstep
  refine h.set_self (f := (·.retrieve len)) ?_ rfl rfl
  rintro q rfl
  rw [ByteQueue.retrieve]
  split_ifs with hlen
  · rfl
  · exact (List.drop_eq_nil_of_le (not_lt.mp hlen)).symm

/-- What `readFd` delivers is appended. -/
theorem readFd (h : Shows pool i bytes) {sc : SizeClass} {thread : ℕ} {memoryLeft : Bool}
    {received : Except ℤ Bytes} {m : Except ℤ ℕ}
    (hstep : pool.readFd sc thread i memoryLeft received = some (.ok m, pool')) :
    Shows pool' i (bytes ++ delivered received) ∧
      ∀ {j : ℕ} {bytes' : Bytes}, i ≠ j → Shows pool j bytes' → Shows pool' j bytes' := by
  obtain ⟨t, ht, hstep⟩ := Option.bind_eq_some_iff.mp hstep
  obtain ⟨buf, hbuf, hstep⟩ := Option.bind_eq_some_iff.mp hstep
  split_ifs at hstep
  obtain ⟨⟨r, run⟩, -, hstep⟩ := Option.bind_eq_some_iff.mp hstep
  cases hstep
  refine ⟨h.set_self (f := (·.append (delivered received))) ?_ rfl rfl, fun hne hother =>
    hother.set hne rfl rfl⟩
  rintro q rfl
  rfl

end Shows

namespace PoolServed

variable {pool pool' : BufferPool}

/-- A call that is served right. -/
theorem next (h : PoolServed pool) {turn : Turn} {r : Except Unit Unit}
    (hserved : BufferPool.ServedRight .default pool turn)
    (hstep : pool.next PoolConfig.default.sizeClass turn = some (r, pool')) : PoolServed pool' :=
  ⟨h.sound.next PoolConfig.carvable_default hstep,
    (h.sound.aligned_next_iff h.aligned hstep).mpr hserved⟩

/-- A call that asks the arena for nothing. -/
theorem call (h : PoolServed pool) {turn : Turn} (hrequest : pool.request turn.call = none)
    (hcall : PooledServer.call pool turn = some pool') : PoolServed pool' :=
  h.next (servedRight_of_request hrequest) (PooledServer.next_of_call hcall)

/-- A read that is served right. -/
theorem readFd (h : PoolServed pool) {thread i : ℕ} {memoryLeft : Bool}
    {received : Except ℤ Bytes} {m : Except ℤ ℕ}
    (hserved : ReadServedRight .default pool thread i (delivered received).length)
    (hstep : pool.readFd PoolConfig.default.sizeClass thread i memoryLeft received =
      some (.ok m, pool')) : PoolServed pool' := by
  obtain ⟨hsound, haligned⟩ := h.sound.readFd PoolConfig.carvable_default h.aligned hstep
  exact ⟨hsound, haligned.mpr hserved⟩

/-- `Buffer(16384)` makes an empty buffer behind the others. -/
theorem newBuffer (h : PoolServed pool) {thread : ℕ} {memoryLeft : Bool} {recycled : Region}
    (hcall : PooledServer.call pool (PooledServer.newBuffer thread memoryLeft recycled) =
      some pool') : Shows pool' pool.buffers.length [] := by
  have hstep := PooledServer.next_of_call hcall
  obtain ⟨t, ht, hstep⟩ := Option.bind_eq_some_iff.mp hstep
  obtain ⟨⟨r', run⟩, -, hstep⟩ := Option.bind_eq_some_iff.mp hstep
  cases r' with
  | error _ => cases hstep
  | ok _ =>
    cases hstep
    refine ⟨run.buf, {}, ?_, ?_, rfl⟩
    · have hbuffers : (pool.buffers ++ [some run.buf])[pool.buffers.length]? =
          some (some run.buf) := List.getElem?_concat_length
      exact congrArg Option.join hbuffers
    · have hqueues : (pool.queues ++ [({} : ByteQueue)])[pool.queues.length]? = some {} :=
        List.getElem?_concat_length
      rw [← h.sound.length]
      exact hqueues

end PoolServed

end DuoDuo.Http
