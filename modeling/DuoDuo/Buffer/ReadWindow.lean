import DuoDuo.Buffer.FailedGrowth
import DuoDuo.Buffer.PoolContents

/-!
# Reading where one has written

`peek` reads from `m_tmpBuf`, which comes from the caller of `init0`, while `setBytes`
writes from `m_memory + m_offset`. A freed region may leave its pointer in
`m_cachedBuffers` of its chunk, which goes to the next region that is carved there. All
buffers read where they write throughout a run exactly when every request is served with
the right pointer, and one of them does exactly when the last request for it was.
-/

namespace DuoDuo.Buffer

open Library Library.Machine PoolArena

variable {k : PoolConfig}

/-- A region that reads where it writes is left as it is. -/
theorem Region.Aligned.realigned {r : Region} (h : r.Aligned) : r.realigned = r := by
  rw [Region.realigned, ← h]

/-- A request that throws would have been served right. -/
theorem Running.Fruitless.servesRight {a a' : PoolArena} {t t' : PoolThreadCache}
    {rest : List Grant} {reqCapacity : ℕ} (howns : Owns k a (t.grants ++ rest))
    (h : Fruitless k.sizeClass reqCapacity a t t' a') : a.ServesRight k t reqCapacity := by
  have hcarves : ∀ {a₁ a₂ : PoolArena} {owned : List Grant} {sizeIdx : ℕ}, Owns k a₁ owned →
      PoolArena.allocateLists k.sizeClass reqCapacity sizeIdx true a₁
        [.q50, .q25, .q00, .qInit, .q75] = some (none, a₂) → a₁.CarvesRight k sizeIdx := by
    intro a₁ a₂ owned sizeIdx howns₁ hlists
    rcases howns₁.allocateLists_begins hlists with ⟨-, hnone⟩ | ⟨_, _, _, ⟨⟩, _⟩
    rw [PoolArena.CarvesRight, carving, hnone]
    rintro _ ⟨⟩
  rw [PoolArena.ServesRight]
  cases h with
  | small hidx hsmall hcache hpool hlists =>
    subst hidx
    rw [if_pos hsmall]
    rcases howns.cacheAllocate_nextEntry hcache with ⟨-, hnext⟩ | ⟨_, _, ⟨⟩, _⟩
    obtain ⟨-, ⟨-, howns₁⟩ | ⟨_, _, ⟨⟩, _⟩⟩ := howns.cacheAllocate hcache
    rcases howns₁.pooledAllocate hpool with ⟨-, rfl⟩ | ⟨_, _, ⟨⟩, _⟩
    exact (asksRight_iff hnext hcache).mpr (.inr (hcarves howns₁ hlists))
  | normal hidx hlarge hlt hcache hlists =>
    subst hidx
    rw [if_neg hlarge]
    intro _
    rcases howns.cacheAllocate_nextEntry hcache with ⟨-, hnext⟩ | ⟨_, _, ⟨⟩, _⟩
    obtain ⟨-, ⟨-, howns₁⟩ | ⟨_, _, ⟨⟩, _⟩⟩ := howns.cacheAllocate hcache
    exact (asksRight_iff hnext hcache).mpr (.inr (hcarves howns₁ hlists))
  | huge hlarge hhuge =>
    rw [if_neg hlarge]
    exact fun hlt => absurd hlt hhuge

/-- After a call that may move a buffer, the buffer reads where it writes exactly when the
request for its new region, if there is one, is served right. -/
theorem Running.Effect.aligned_iff {s s' : Running} {f : Region → Option Filled}
    {target : Option ℕ} {r : Except Unit Unit} {rest : List Grant}
    (heffect : Effect k.sizeClass f s target r s') (haligned : s.buf.toRegion.Aligned)
    (howns : Owns k s.heap.arena (s.heap.threadCache.grants ++ rest)) :
    s'.buf.toRegion.Aligned ↔
      ∀ n ∈ target, s.heap.arena.ServesRight k s.heap.threadCache n := by
  cases heffect with
  | kept hkept =>
    refine iff_of_true ?_ nofun
    rw [hkept.toRegion]
    exact haligned
  | moved hmoved =>
    obtain ⟨_, _, halloc, _⟩ := hmoved.found
    rw [howns.aligned_allocate_iff halloc]
    constructor
    · rintro hright _ ⟨⟩
      exact hright
    · intro hright
      exact hright _ rfl
  | thrown hfruitless =>
    refine iff_of_true haligned ?_
    rintro _ ⟨⟩
    exact hfruitless.servesRight howns

namespace BufferPool

/-- The capacity for which a call asks the arena, if it does. -/
def request (s : BufferPool) : Call → Option ℕ
  | .poolBuffer initCapacity maxCapacity _ =>
    if initCapacity = 0 ∧ maxCapacity = 0 then none else some initCapacity
  | .grow i growth => ((s.buffers[i]?).join).bind growth.target
  | .retrieve _ _ => none
  | .deallocate _ => none

/-- What a call asks the arena for is served with the right pointer. -/
def ServedRight (k : PoolConfig) (s : BufferPool) (turn : Turn) : Prop :=
  ∀ t ∈ s.caches[turn.thread]?, ∀ n ∈ s.request turn.call, s.arena.ServesRight k t n

instance (k : PoolConfig) (s : BufferPool) (turn : Turn) : Decidable (ServedRight k s turn) :=
  inferInstanceAs (Decidable (∀ t ∈ _, ∀ n ∈ _, _))

/-- The slot of the buffer on which a call works. -/
def slot (s : BufferPool) : Call → ℕ
  | .poolBuffer _ _ _ => s.buffers.length
  | .grow i _ => i
  | .retrieve i _ => i
  | .deallocate i => i

/-- The call gives the buffer in a slot its region: it asks the arena for one, and returns. -/
structure Serves (k : PoolConfig) (s : BufferPool) (turn : Turn) (i : ℕ) : Prop where
  slot : s.slot turn.call = i
  request : s.request turn.call ≠ none
  returns : ∃ s', s.next k.sizeClass turn = some (.ok (), s')

instance (k : PoolConfig) (s : BufferPool) (turn : Turn) (i : ℕ) :
    Decidable (Serves k s turn i) :=
  decidable_of_iff (s.slot turn.call = i ∧ s.request turn.call ≠ none ∧
      (s.next k.sizeClass turn).map (fun p => p.1.isOk) = some true) <| by
    constructor
    · rintro ⟨hslot, hrequest, hok⟩
      obtain ⟨⟨_ | _, s'⟩, hnext, hok⟩ := Option.map_eq_some_iff.mp hok
      · cases hok
      · exact ⟨hslot, hrequest, s', hnext⟩
    · rintro ⟨hslot, hrequest, s', hnext⟩
      exact ⟨hslot, hrequest, by rw [hnext]; rfl⟩

/-- Of the calls that gave the buffer in a slot its region the last one was served with the
right pointer. -/
def ServedRightLast (k : PoolConfig) (trace : List (BufferPool × Turn)) (i : ℕ) : Prop :=
  ∃ p ∈ (trace.filter fun p => Serves k p.1 p.2 i).getLast?, ServedRight k p.1 p.2

instance (k : PoolConfig) (trace : List (BufferPool × Turn)) (i : ℕ) :
    Decidable (ServedRightLast k trace i) :=
  inferInstanceAs (Decidable
    (∃ p ∈ (trace.filter fun p => Serves k p.1 p.2 i).getLast?, ServedRight k p.1 p.2))

/-- A buffer reads where it writes, shows the bytes that were written to it, and reads no
byte of another one. -/
structure ReadsOwnAt (s : BufferPool) (i : ℕ) (buf : PoolByteBuf) : Prop where
  aligned : buf.tmpBuf = buf.memory.add buf.offset
  readable : ∀ q, s.queues[i]? = some q → Filled.readable ⟨buf, s.memory⟩ = q.bytes
  apart : ∀ (j : ℕ) buf', i ≠ j → (s.buffers[j]?).join = some buf' →
    ∀ n < buf.readableBytes, ¬ buf'.toRegion.Covers (buf.peek.add n)

/-- Every live buffer reads where it writes, shows the bytes that were written to it, and
reads no byte of another one. -/
structure ReadsOwn (s : BufferPool) : Prop where
  aligned : ∀ buf, some buf ∈ s.buffers → buf.tmpBuf = buf.memory.add buf.offset
  readable : ∀ (i : ℕ) buf q, (s.buffers[i]?).join = some buf → s.queues[i]? = some q →
    Filled.readable ⟨buf, s.memory⟩ = q.bytes
  apart : ∀ (i j : ℕ) buf buf', i ≠ j → (s.buffers[i]?).join = some buf →
    (s.buffers[j]?).join = some buf' → ∀ n < buf.readableBytes,
      ¬ buf'.toRegion.Covers (buf.peek.add n)

variable {s s' : BufferPool} {t : PoolThreadCache} {buf buf' : PoolByteBuf} {i j : ℕ}

/-- In a sound pool the bytes that a buffer reads are right where its pointer is. -/
theorem Sound.readsOwnAt (h : Sound k s) (hi : (s.buffers[i]?).join = some buf)
    (halign : buf.toRegion.Aligned) : ReadsOwnAt s i buf := by
  have hrep : ∀ {q}, s.queues[i]? = some q → (⟨buf, s.memory⟩ : Filled).Represents q := by
    intro q hq
    have hsame : buf.realigned = buf := by
      rw [PoolByteBuf.realigned, halign.realigned]
    have hwritten := (h.written i buf q hi hq).represents
    rwa [hsame] at hwritten
  refine ⟨halign, fun q hq => (hrep hq).readable, ?_⟩
  intro j buf' hne hj n hn
  obtain ⟨q, hq, hwritten⟩ := h.exists_queue hi
  obtain ⟨_, _, hwritten'⟩ := h.exists_queue hj
  have hapart := h.inv.separate hi hj hne hwritten.based hwritten'.based
  have hbuf := hrep hq
  have hcapacity := hbuf.capacity
  have hmaxLength := hbuf.maxLength
  have hpeek : buf.peek.add n =
      (buf.memory.1, buf.memory.2 + buf.offset + buf.readerIndex + n) := by
    rw [PoolByteBuf.peek, hbuf.tmpBuf]
    rfl
  rw [PoolByteBuf.readableBytes] at hn
  refine hapart.not_covers ?_
  rw [hpeek]
  refine ⟨rfl, ?_, ?_⟩
  · dsimp only
    omega
  · dsimp only at hcapacity hmaxLength ⊢
    omega

/-- In a sound pool the bytes that are read are right where the pointers are. -/
theorem Sound.readsOwn (h : Sound k s)
    (haligned : ∀ buf, some buf ∈ s.buffers → buf.toRegion.Aligned) : ReadsOwn s := by
  have hat : ∀ {i : ℕ} {buf}, (s.buffers[i]?).join = some buf → ReadsOwnAt s i buf := by
    intro i buf hbuf
    exact h.readsOwnAt hbuf
      (haligned buf (List.mem_of_getElem? (Option.join_eq_some_iff.mp hbuf)))
  exact ⟨haligned, fun i buf q hbuf hq => (hat hbuf).readable q hq,
    fun i j buf buf' hne hi hj => (hat hi).apart j buf' hne hj⟩

/-- A thread asks for nothing in a call for which no request is made. -/
theorem servedRight_of_request {turn : Turn} (h : s.request turn.call = none) :
    ServedRight k s turn := by
  intro _ _ n hn
  rw [h] at hn
  cases hn

theorem servedRight_iff {turn : Turn} (ht : s.caches[turn.thread]? = some t) :
    ServedRight k s turn ↔ ∀ n ∈ s.request turn.call, s.arena.ServesRight k t n := by
  rw [ServedRight, ht]
  constructor
  · intro h
    exact h t rfl
  · rintro h _ ⟨⟩
    exact h

/-- All buffers read where they write when the one in a slot does and the others do. -/
theorem aligned_set_iff (haligned : ∀ buf, some buf ∈ s.buffers → buf.toRegion.Aligned)
    (hbuf : (s.buffers[i]?).join = some buf) :
    (∀ b, some b ∈ s.buffers.set i (some buf') → b.toRegion.Aligned) ↔
      buf'.toRegion.Aligned := by
  constructor
  · intro h
    have hi := (List.getElem?_eq_some_iff.mp (Option.join_eq_some_iff.mp hbuf)).1
    exact h buf' (List.mem_of_getElem? (List.getElem?_set_self hi))
  · intro h
    exact placed_set haligned (by rintro _ ⟨⟩; exact h)

/-- After a call all buffers read where they write exactly when the call is served right. -/
theorem Sound.aligned_next_iff (h : Sound k s)
    (haligned : ∀ buf, some buf ∈ s.buffers → buf.toRegion.Aligned) {turn : Turn}
    {r : Except Unit Unit} (hstep : s.next k.sizeClass turn = some (r, s')) :
    (∀ buf, some buf ∈ s'.buffers → buf.toRegion.Aligned) ↔ ServedRight k s turn := by
  obtain ⟨t, ht, hstep⟩ := Option.bind_eq_some_iff.mp hstep
  have hfocus := (h.inv.focus ht).owns
  cases hcall : turn.call with
  | poolBuffer initCapacity maxCapacity recycled =>
    rw [servedRight_iff ht, hcall, request]
    rw [hcall] at hstep
    dsimp only at hstep
    split_ifs at hstep ⊢ with hzero
    · cases hstep
      exact iff_of_true haligned nofun
    · obtain ⟨⟨r', run⟩, hcall, hstep⟩ := Option.bind_eq_some_iff.mp hstep
      rcases Running.allocate_eq hcall with ⟨region, t', a, rfl, halloc, rfl⟩ |
        ⟨t', a, rfl, hfruitless, rfl⟩
      · cases hstep
        have halign := Owns.aligned_allocate_iff hfocus halloc
        constructor
        · rintro hall _ ⟨⟩
          exact halign.mp (hall _ (List.mem_append_right _ List.mem_cons_self))
        · intro hright buf hbuf
          rcases List.mem_append.mp hbuf with hbuf | hbuf
          · exact haligned buf hbuf
          · cases List.mem_singleton.mp hbuf
            exact halign.mpr (hright _ rfl)
      · cases hstep
        refine iff_of_true haligned ?_
        rintro _ ⟨⟩
        exact hfruitless.servesRight hfocus
  | grow i growth =>
    rw [servedRight_iff ht, hcall, request]
    rw [hcall] at hstep
    obtain ⟨buf, hbuf, hstep⟩ := Option.bind_eq_some_iff.mp hstep
    obtain ⟨⟨r', run⟩, hgrow, hstep⟩ := Option.bind_eq_some_iff.mp hstep
    cases hstep
    have hold := haligned buf (List.mem_of_getElem? (Option.join_eq_some_iff.mp hbuf))
    rw [hbuf, Option.bind_some]
    exact (aligned_set_iff haligned hbuf).trans
      ((Running.growth_effect hgrow).aligned_iff hold hfocus)
  | retrieve i len =>
    rw [hcall] at hstep
    obtain ⟨buf, hbuf, hstep⟩ := Option.bind_eq_some_iff.mp hstep
    obtain ⟨buf', hretrieve, hstep⟩ := Option.bind_eq_some_iff.mp hstep
    cases hstep
    have hold := haligned buf (List.mem_of_getElem? (Option.join_eq_some_iff.mp hbuf))
    refine iff_of_true ((aligned_set_iff haligned hbuf).mpr ?_)
      (servedRight_of_request (by rw [hcall, request]))
    rw [PoolByteBuf.toRegion_retrieve hretrieve]
    exact hold
  | deallocate i =>
    rw [hcall] at hstep
    obtain ⟨buf, hbuf, hstep⟩ := Option.bind_eq_some_iff.mp hstep
    obtain ⟨⟨r', run⟩, hfree, hstep⟩ := Option.bind_eq_some_iff.mp hstep
    cases hstep
    exact iff_of_true (placed_set haligned nofun)
      (servedRight_of_request (by rw [hcall, request]))

/-- A call that throws gives no buffer a region. -/
theorem not_serves_of_error {turn : Turn} (h : s.next k.sizeClass turn = some (.error (), s')) :
    ¬ Serves k s turn i := by
  rintro ⟨-, -, s'', hok⟩
  rw [h] at hok
  cases hok

/-- The buffer that is in a slot which has just been set. -/
theorem slot_set_self {slot : Option PoolByteBuf} (hbuf : (s.buffers[i]?).join = some buf)
    (hbuf' : ((s.buffers.set i slot)[i]?).join = some buf') : slot = some buf' := by
  have hlt := (List.getElem?_eq_some_iff.mp (Option.join_eq_some_iff.mp hbuf)).1
  rwa [List.getElem?_set_self hlt] at hbuf'

/-- What a call means for the buffer that is in a slot afterwards. Either the call has given
the buffer its region, and the buffer reads where it writes exactly when the call has been
served right; or the buffer was there before, and reads where it writes exactly when it did. -/
def Settles (k : PoolConfig) (s : BufferPool) (turn : Turn) (i : ℕ) (buf' : PoolByteBuf) : Prop :=
  Serves k s turn i ∧ (buf'.toRegion.Aligned ↔ ServedRight k s turn) ∨
    ¬ Serves k s turn i ∧ ∃ buf, (s.buffers[i]?).join = some buf ∧
      (buf'.toRegion.Aligned ↔ buf.toRegion.Aligned)

/-- A call on a buffer in another slot leaves the buffer as it was. -/
theorem settles_of_slot_ne {turn : Turn} {slot : Option PoolByteBuf}
    (hbuffers : s'.buffers = s.buffers.set j slot) (hslot : s.slot turn.call = j) (hne : j ≠ i)
    (hbuf' : (s'.buffers[i]?).join = some buf') : Settles k s turn i buf' := by
  rw [hbuffers, List.getElem?_set_ne hne] at hbuf'
  exact .inr ⟨fun hserves => hne (hslot.symm.trans hserves.slot), buf', hbuf', Iff.rfl⟩

/-- A call that has asked the arena for a region and got it is served right exactly when the
region reads where it writes. -/
theorem aligned_iff_servedRight {turn : Turn} {n : ℕ} {region : Region}
    (ht : s.caches[turn.thread]? = some t) (hrequest : s.request turn.call = some n)
    (halign : region.Aligned ↔ s.arena.ServesRight k t n) :
    region.Aligned ↔ ServedRight k s turn := by
  rw [servedRight_iff ht, hrequest, halign]
  simp

/-- What `poolBuffer` means for the buffer in a slot. -/
theorem Sound.settles_poolBuffer (h : Sound k s) {turn : Turn} {r : Except Unit Unit}
    {initCapacity maxCapacity : ℕ} {recycled : Region}
    (hcall : turn.call = .poolBuffer initCapacity maxCapacity recycled)
    (hnext : s.next k.sizeClass turn = some (r, s')) (hbuf' : (s'.buffers[i]?).join = some buf') :
    Settles k s turn i buf' := by
  obtain ⟨t, ht, hstep⟩ := Option.bind_eq_some_iff.mp hnext
  rw [hcall] at hstep
  dsimp only at hstep
  split_ifs at hstep with hzero
  · cases hstep
    refine .inr ⟨fun hserves => hserves.request ?_, buf', hbuf', Iff.rfl⟩
    rw [hcall, request, if_pos hzero]
  · obtain ⟨⟨r', run⟩, hcalled, hstep⟩ := Option.bind_eq_some_iff.mp hstep
    rcases Running.allocate_eq hcalled with ⟨region, t', a, rfl, halloc, rfl⟩ |
      ⟨t', a, rfl, -, rfl⟩
    · cases hstep
      have hadded : ((s.buffers ++ [some _])[i]?).join = some buf' := hbuf'
      by_cases hi : s.buffers.length = i
      · subst hi
        rw [List.getElem?_concat_length, Option.join_some, Option.some.injEq] at hadded
        have hrequest : s.request turn.call = some initCapacity := by
          rw [hcall]
          exact if_neg hzero
        refine .inl ⟨⟨by rw [hcall]; rfl, ?_, _, hnext⟩, ?_⟩
        · rw [hrequest]
          exact Option.some_ne_none _
        · rw [← hadded]
          exact aligned_iff_servedRight ht hrequest
            (Owns.aligned_allocate_iff (h.inv.focus ht).owns halloc)
      · refine .inr ⟨fun hserves => hi ?_, ?_⟩
        · rw [← hserves.slot, hcall]
          rfl
        · rcases Nat.lt_or_gt_of_ne hi with hgt | hlt
          · rw [List.getElem?_eq_none (by rw [List.length_append]; exact hgt)] at hadded
            cases hadded
          · rw [List.getElem?_append_left hlt] at hadded
            exact ⟨buf', hadded, Iff.rfl⟩
    · cases hstep
      exact .inr ⟨not_serves_of_error hnext, buf', hbuf', Iff.rfl⟩

/-- What a call that may move its buffer means for the buffer in a slot. -/
theorem Sound.settles_grow (h : Sound k s) {turn : Turn} {r : Except Unit Unit}
    {growth : Growth} (hcall : turn.call = .grow j growth)
    (hnext : s.next k.sizeClass turn = some (r, s')) (hbuf' : (s'.buffers[i]?).join = some buf') :
    Settles k s turn i buf' := by
  obtain ⟨t, ht, hstep⟩ := Option.bind_eq_some_iff.mp hnext
  rw [hcall] at hstep
  obtain ⟨buf, hbuf, hstep⟩ := Option.bind_eq_some_iff.mp hstep
  obtain ⟨⟨r', run⟩, hgrow, hstep⟩ := Option.bind_eq_some_iff.mp hstep
  cases hstep
  by_cases hi : j = i
  · subst hi
    cases slot_set_self hbuf hbuf'
    have hrequest : s.request turn.call = growth.target buf := by
      rw [hcall, request, hbuf, Option.bind_some]
    have heffect := Running.growth_effect hgrow
    change Running.Effect _ _ _ (growth.target buf) _ _ at heffect
    generalize growth.target buf = target at heffect hrequest
    cases heffect with
    | kept hkept =>
      refine .inr ⟨fun hserves => hserves.request hrequest, buf, hbuf, ?_⟩
      rw [hkept.toRegion]
      exact Iff.rfl
    | moved hmoved =>
      obtain ⟨_, _, halloc, _⟩ := hmoved.found
      refine .inl ⟨⟨by rw [hcall]; rfl, ?_, _, hnext⟩, ?_⟩
      · rw [hrequest]
        exact Option.some_ne_none _
      · exact aligned_iff_servedRight ht hrequest
          (Owns.aligned_allocate_iff (h.inv.focus ht).owns halloc)
    | thrown => exact .inr ⟨not_serves_of_error hnext, buf, hbuf, Iff.rfl⟩
  · exact settles_of_slot_ne rfl (by rw [hcall]; rfl) hi hbuf'

/-- What a call means for the buffer that is in a slot afterwards. -/
theorem Sound.settles (h : Sound k s) {turn : Turn} {r : Except Unit Unit}
    (hnext : s.next k.sizeClass turn = some (r, s')) (hbuf' : (s'.buffers[i]?).join = some buf') :
    Settles k s turn i buf' := by
  cases hcall : turn.call with
  | poolBuffer initCapacity maxCapacity recycled => exact h.settles_poolBuffer hcall hnext hbuf'
  | grow j growth => exact h.settles_grow hcall hnext hbuf'
  | retrieve j len =>
    obtain ⟨t, ht, hstep⟩ := Option.bind_eq_some_iff.mp hnext
    rw [hcall] at hstep
    obtain ⟨buf, hbuf, hstep⟩ := Option.bind_eq_some_iff.mp hstep
    obtain ⟨kept, hretrieve, hstep⟩ := Option.bind_eq_some_iff.mp hstep
    cases hstep
    by_cases hi : j = i
    · subst hi
      cases slot_set_self hbuf hbuf'
      refine .inr ⟨fun hserves => hserves.request (by rw [hcall, request]), buf, hbuf, ?_⟩
      rw [PoolByteBuf.toRegion_retrieve hretrieve]
    · exact settles_of_slot_ne rfl (by rw [hcall]; rfl) hi hbuf'
  | deallocate j =>
    obtain ⟨t, ht, hstep⟩ := Option.bind_eq_some_iff.mp hnext
    rw [hcall] at hstep
    obtain ⟨buf, hbuf, hstep⟩ := Option.bind_eq_some_iff.mp hstep
    obtain ⟨⟨r', run⟩, hfree, hstep⟩ := Option.bind_eq_some_iff.mp hstep
    cases hstep
    by_cases hi : j = i
    · subst hi
      cases slot_set_self hbuf hbuf'
    · exact settles_of_slot_ne rfl (by rw [hcall]; rfl) hi hbuf'

/-- In every run every live buffer reads where it writes, the bytes that were written to
it, and none of another buffer, exactly when every call is served with the right pointer. -/
theorem readsOwn_iff_servedRight {threads : ℕ} {s u : BufferPool} {trace : List (BufferPool × Turn)}
    (hs : (machine .default threads).init s) (hrun : (machine .default threads).Run s trace u) :
    (∀ s ∈ visited trace u, ReadsOwn s) ↔ ∀ p ∈ trace, ServedRight .default p.1 p.2 := by
  have hcarve := PoolConfig.carvable_default
  have hnext : ∀ {s : BufferPool} {turn : Turn} {s' : BufferPool},
      (machine .default threads).step s turn s' →
        ∃ r, s.next PoolConfig.default.sizeClass turn = some (r, s') := by
    intro s turn s' hstep
    obtain ⟨⟨r, s₁⟩, hnext, rfl⟩ := Option.map_eq_some_iff.mp hstep
    exact ⟨r, hnext⟩
  refine hrun.forall_visited_iff (P := ReadsOwn)
    (I := fun s => Sound .default s ∧ ∀ buf, some buf ∈ s.buffers → buf.toRegion.Aligned)
    (fun s hI => hI.1.readsOwn hI.2) ?_ ?_ ?_
  · rintro s turn s' ⟨hsound, haligned⟩ hright hstep
    obtain ⟨r, hnext⟩ := hnext hstep
    exact ⟨hsound.next hcarve hnext, (hsound.aligned_next_iff haligned hnext).mpr hright⟩
  · rintro s turn s' ⟨hsound, haligned⟩ hwrong hstep hreads
    obtain ⟨r, hnext⟩ := hnext hstep
    exact hwrong ((hsound.aligned_next_iff haligned hnext).mp hreads.aligned)
  · obtain ⟨memory, rfl⟩ := hs
    exact ⟨sound_init .default threads memory, nofun⟩

/-- A further call gives a buffer its region, or the last call that gave it is one of those
before. -/
theorem servedRightLast_concat {trace : List (BufferPool × Turn)} {p : BufferPool × Turn} :
    ServedRightLast k (trace ++ [p]) i ↔
      Serves k p.1 p.2 i ∧ ServedRight k p.1 p.2 ∨
        ¬ Serves k p.1 p.2 i ∧ ServedRightLast k trace i := by
  rw [ServedRightLast, List.filter_append, List.filter_singleton]
  by_cases hserves : Serves k p.1 p.2 i
  · simp [hserves]
  · simp [hserves, ServedRightLast]

/-- A run ends in a sound pool. -/
theorem sound_of_run {threads : ℕ} {u : BufferPool} {trace : List (BufferPool × Turn)}
    (hs : (machine .default threads).init s) (hrun : (machine .default threads).Run s trace u) :
    Sound .default u := by
  have hreachable : (machine .default threads).Reachable u :=
    hrun.reachableWhere (.of_init hs) fun _ _ => trivial
  exact sound_of_reachable PoolConfig.carvable_default hreachable

/-- At the end of a run a buffer reads where it writes exactly when the last call that gave
it its region was served right. -/
theorem aligned_iff_servedRightLast {threads : ℕ} {u : BufferPool}
    {trace : List (BufferPool × Turn)} (hs : (machine .default threads).init s)
    (hrun : (machine .default threads).Run s trace u) (hbuf : (u.buffers[i]?).join = some buf) :
    buf.toRegion.Aligned ↔ ServedRightLast .default trace i := by
  induction trace using List.reverseRecOn generalizing u buf with
  | nil =>
    obtain ⟨memory, rfl⟩ := hs
    cases hrun
    simp [init] at hbuf
  | append_singleton trace p ih =>
    obtain ⟨v, hearlier, hlast⟩ := hrun.of_append
    cases hlast with
    | cons hstep hnil =>
      cases hnil
      have hsound := sound_of_run hs hearlier
      obtain ⟨⟨r, u⟩, hnext, rfl⟩ := Option.map_eq_some_iff.mp hstep
      rw [servedRightLast_concat]
      rcases hsound.settles hnext hbuf with
        ⟨hserves, halign⟩ | ⟨hnot, before, hbefore, halign⟩
      · rw [halign]
        exact ⟨fun hright => .inl ⟨hserves, hright⟩,
          fun h => h.elim And.right fun h => absurd hserves h.1⟩
      · rw [halign, ih hearlier hbefore]
        exact ⟨fun hright => .inr ⟨hnot, hright⟩,
          fun h => h.elim (fun h => absurd h.1 hnot) And.right⟩

/-- A buffer is deallocated, another one of the same size is made in its place, and written
to. -/
def sameReuse : List Turn :=
  [⟨0, true, .poolBuffer 70000 100000 (.initUnpool 0 0)⟩, ⟨0, true, .deallocate 0⟩,
    ⟨0, true, .poolBuffer 70000 100000 (.initUnpool 0 0)⟩,
    ⟨0, true, .grow 1 (.writeBytes [1, 2, 3] 0 3)⟩]

/-- The next state of the pool of one thread. -/
def turnOf (s : BufferPool) (turn : Turn) : Option BufferPool :=
  (s.next PoolConfig.default.sizeClass turn).map Prod.snd

/-- The state after `sameReuse`. -/
def afterSameReuse : BufferPool := (sameReuse.foldlM turnOf beforeFewTurns).getD beforeFewTurns

theorem afterSameReuse_eq : sameReuse.foldlM turnOf beforeFewTurns = some afterSameReuse := by
  have hsome : (sameReuse.foldlM turnOf beforeFewTurns).isSome = true := by
    decide +kernel
  rw [afterSameReuse, Option.getD_of_ne_none (Option.isSome_iff_ne_none.mp hsome)]

theorem readsOwn_iff_servedRight_sameReuse :
    sameReuse.foldlM turnOf beforeFewTurns = some afterSameReuse ∧
      ∀ s ∈ visited (traceOf turnOf beforeFewTurns sameReuse) afterSameReuse, ReadsOwn s := by
  have hrun : (machine .default 1).Run beforeFewTurns (traceOf turnOf beforeFewTurns sameReuse)
      afterSameReuse := .of_foldlM afterSameReuse_eq
  exact ⟨afterSameReuse_eq, (readsOwn_iff_servedRight ⟨_, rfl⟩ hrun).mpr (by decide +kernel)⟩

/-- A buffer is deallocated, and a larger one is made in another place of its chunk. -/
def largerReuse : List Turn :=
  [⟨0, true, .poolBuffer 70000 100000 (.initUnpool 0 0)⟩,
    ⟨0, true, .poolBuffer 70000 100000 (.initUnpool 0 0)⟩, ⟨0, true, .deallocate 0⟩,
    ⟨0, true, .poolBuffer 100000 100000 (.initUnpool 0 0)⟩]

/-- The larger buffer reads where the deallocated one was. -/
theorem not_readsOwn : ¬ ∀ s, (machine .default 1).Reachable s → ReadsOwn s := by
  intro hall
  have hlast : ((largerReuse.foldlM turnOf beforeFewTurns).bind fun s => (s.buffers[2]?).join).map
      (fun buf => (buf.memory, buf.offset, buf.tmpBuf)) =
        some ((.pooled 0, 0), 163840, (.pooled 0, 0)) := by
    decide +kernel
  obtain ⟨buf, hbuf, hfields⟩ := Option.map_eq_some_iff.mp hlast
  obtain ⟨s, hs, hbuf⟩ := Option.bind_eq_some_iff.mp hbuf
  have hreachable : (machine .default 1).Reachable s := .of_foldlM (.of_init ⟨_, rfl⟩) hs
  have haligned := (hall s hreachable).aligned buf
    (List.mem_of_getElem? (Option.join_eq_some_iff.mp hbuf))
  obtain ⟨hmemory, hoffset, htmpBuf⟩ : buf.memory = (.pooled 0, 0) ∧ buf.offset = 163840 ∧
      buf.tmpBuf = (.pooled 0, 0) := by simpa using hfields
  rw [hmemory, hoffset, htmpBuf] at haligned
  cases haligned

/-- Two threads write to buffers of their own. The first buffer grows and is moved, the second
one is deallocated, and a third one is made in its place and written to. -/
def writtenAndMoved : List Turn :=
  [⟨0, true, .poolBuffer 16 100000 (.initUnpool 0 0)⟩,
    ⟨1, true, .poolBuffer 16 100000 (.initUnpool 0 0)⟩,
    ⟨0, true, .grow 0 (.writeBytes [1, 2, 3] 0 3)⟩, ⟨1, true, .grow 1 (.writeBytes [4, 5] 0 2)⟩,
    ⟨0, true, .grow 0 (.writeBytes (List.replicate 20 6) 0 20)⟩, ⟨1, true, .deallocate 1⟩,
    ⟨1, true, .poolBuffer 16 100000 (.initUnpool 0 0)⟩,
    ⟨1, true, .grow 2 (.writeBytes [7] 0 1)⟩, ⟨0, true, .retrieve 0 1⟩]

end BufferPool

end DuoDuo.Buffer
