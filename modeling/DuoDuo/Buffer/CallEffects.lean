import DuoDuo.Buffer.BufferCalls
import DuoDuo.Buffer.HugeChunks

/-!
# What a call on a buffer does

A call does what the functions of the arena do, or it throws after the cache was asked and
before anything is handed out. A call that resizes a buffer keeps its region, or it moves
the buffer to the region that the arena finds, or it throws.
-/

namespace DuoDuo.Buffer

open Library Library.Machine Library.Throws ChunkListName

namespace Running

variable {sc : SizeClass} {memoryLeft : Bool} {s s' : Running} {α β : Type}
  {r : Except Unit β} {reqCapacity sizeIdx : ℕ} {cache : Bool}

/-- Another cache and another arena. -/
def setArena (s : Running) (t : PoolThreadCache) (a : PoolArena) : Running :=
  { s with heap := { s.heap with threadCache := t, arena := a } }

/-- The buffer has another region. -/
def setRegion (s : Running) (region : Region) : Running :=
  { s with buf := { s.buf with toRegion := region } }

theorem onArena_eq {f : PoolArena → Option (β × PoolArena)} (h : onArena f s = some (r, s')) :
    ∃ x a, r = .ok x ∧ f s.heap.arena = some (x, a) ∧ s' = s.setArena s.heap.threadCache a := by
  obtain ⟨x, hr, h⟩ := lift_eq h
  obtain ⟨⟨x', a⟩, hf, h⟩ := Option.map_eq_some_iff.mp h
  cases h
  exact ⟨x', a, hr, hf, rfl⟩

theorem onArena_bind {f : PoolArena → Option (α × PoolArena)} {g : α → Throws Running β}
    (h : (onArena f >>= g) s = some (r, s')) :
    ∃ x a, f s.heap.arena = some (x, a) ∧ g x (s.setArena s.heap.threadCache a) = some (r, s') := by
  obtain ⟨x, s₁, hlift, h⟩ := lift_bind h
  obtain ⟨⟨x', a⟩, hf, hs⟩ := Option.map_eq_some_iff.mp hlift
  cases hs
  exact ⟨x', a, hf, h⟩

theorem onCache_bind {g : α → Throws Running β}
    {f : PoolArena → PoolThreadCache → Option (α × PoolThreadCache × PoolArena)}
    (h : (onCache f >>= g) s = some (r, s')) :
    ∃ x t a, f s.heap.arena s.heap.threadCache = some (x, t, a) ∧
      g x (s.setArena t a) = some (r, s') := by
  obtain ⟨x, s₁, hlift, h⟩ := lift_bind h
  obtain ⟨⟨x', t, a⟩, hf, hs⟩ := Option.map_eq_some_iff.mp hlift
  cases hs
  exact ⟨x', t, a, hf, h⟩

theorem onBuf_eq {f : PoolByteBuf → PoolByteBuf} {r : Except Unit Unit}
    (h : onBuf f s = some (r, s')) : r = .ok () ∧ s' = { s with buf := f s.buf } := by
  cases h
  exact ⟨rfl, rfl⟩

theorem onBuf_bind {f : PoolByteBuf → PoolByteBuf} {g : Unit → Throws Running β}
    (h : (onBuf f >>= g) s = some (r, s')) : g () { s with buf := f s.buf } = some (r, s') := h

theorem onMemory_bind {f : PoolByteBuf → Memory → Memory} {g : Unit → Throws Running β}
    (h : (onMemory f >>= g) s = some (r, s')) :
    g () { s with heap := { s.heap with memory := f s.buf s.heap.memory } } = some (r, s') := h

/-- In a scope the mutex is held, and after it is not. -/
theorem locked_eq {l : Mutex} {x : Throws Running β} (h : locked l x s = some (r, s')) :
    ∃ s₂, s.held l = false ∧ x { s with held := Function.update s.held l true } = some (r, s₂) ∧
      s' = unlock l s₂ := by
  obtain ⟨s₁, s₂, hlock, hx, hs'⟩ := scope_eq h
  rw [lock] at hlock
  split_ifs at hlock with hheld
  cases hlock
  exact ⟨s₂, Bool.not_eq_true _ ▸ hheld, hx, hs'⟩

/-- A scope that leaves the mutexes alone gives the state without it. -/
theorem unlock_held {l : Mutex} (hfree : s.held l = false)
    (hheld : s'.held = Function.update s.held l true) :
    unlock l s' = { s' with held := s.held } := by
  rw [unlock, hheld, Function.update_idem, ← hfree, Function.update_eq_self]

/-- `newChunk` throws, or makes a chunk. -/
theorem newChunk_bind {g : ℕ → Throws Running β}
    (h : (newChunk sc memoryLeft >>= g) s = some (r, s')) :
    (memoryLeft = false ∧ r = .error () ∧ s' = s) ∨
      g s.heap.arena.store.nextChunk (s.setArena s.heap.threadCache
        (s.heap.arena.setStore (s.heap.arena.store.newChunk sc))) = some (r, s') := by
  have hsize : (0 : ℤ) ≤ sc.chunkSize := Int.natCast_nonneg _
  cases memoryLeft with
  | false =>
    cases h
    exact .inl ⟨rfl, rfl, rfl⟩
  | true =>
    have hmemory : defaultAllocate true sc.chunkSize = pure () := if_pos ⟨rfl, hsize⟩
    rw [newChunk, hmemory] at h
    exact .inr h

/-- A request to the chunks is answered as by `PoolArena::allocateNormal`, or throws before a
chunk is made. -/
theorem allocateNormal_eq {r : Except Unit Unit}
    (h : allocateNormal sc memoryLeft reqCapacity sizeIdx cache s = some (r, s')) :
    (∃ region a, r = .ok () ∧
      s.heap.arena.allocateNormal sc reqCapacity sizeIdx cache = some (region, a) ∧
      s' = (s.setArena s.heap.threadCache a).setRegion region) ∨
    ∃ a, r = .error () ∧ memoryLeft = false ∧ PoolArena.allocateLists sc reqCapacity sizeIdx cache
        s.heap.arena [q50, q25, q00, qInit, q75] = some (none, a) ∧
      s' = s.setArena s.heap.threadCache a := by
  obtain ⟨found, a, hlists, h⟩ := onArena_bind h
  rw [PoolArena.allocateNormal, hlists]
  cases found with
  | some region =>
    obtain ⟨rfl, rfl⟩ := onBuf_eq h
    exact .inl ⟨region, a, rfl, rfl, rfl⟩
  | none =>
    rcases newChunk_bind h with ⟨hmemory, rfl, rfl⟩ | h
    · exact .inr ⟨a, rfl, hmemory, rfl, rfl⟩
    · obtain ⟨found, a₁, halloc, h⟩ := onArena_bind h
      obtain ⟨⟨found', store⟩, hchunk, hpair⟩ := Option.map_eq_some_iff.mp halloc
      cases hpair
      cases found' with
      | none => cases h
      | some region =>
        obtain ⟨_, a₂, rfl, hadd, rfl⟩ := onArena_eq (onBuf_bind h)
        obtain ⟨a₃, hadd, hpair⟩ := Option.map_eq_some_iff.mp hadd
        cases hpair
        have hchunk' : (a.store.newChunk sc).allocate sc a.store.nextChunk reqCapacity sizeIdx
            cache = some (some region, store) := hchunk
        have hadd' : (a.setStore store).add sc a.store.nextChunk PoolArena.listFuel qInit =
            some a₂ := hadd
        refine .inl ⟨region, a₂, rfl, ?_, rfl⟩
        rw [Option.bind_eq_bind, Option.bind_some]
        dsimp only
        rw [hchunk']
        change ((a.setStore store).add sc a.store.nextChunk PoolArena.listFuel qInit).bind
          (fun a => some (region, a)) = some (region, a₂)
        rw [hadd', Option.bind_some]

/-- A request to the chunks under the lock of the arena. -/
theorem locked_allocateNormal_eq {l : Mutex} {r : Except Unit Unit}
    (h : locked l (allocateNormal sc memoryLeft reqCapacity sizeIdx cache) s = some (r, s')) :
    (∃ region a, r = .ok () ∧
      s.heap.arena.allocateNormal sc reqCapacity sizeIdx cache = some (region, a) ∧
      s' = (s.setArena s.heap.threadCache a).setRegion region) ∨
    ∃ a, r = .error () ∧ memoryLeft = false ∧ PoolArena.allocateLists sc reqCapacity sizeIdx cache
        s.heap.arena [q50, q25, q00, qInit, q75] = some (none, a) ∧
      s' = s.setArena s.heap.threadCache a := by
  obtain ⟨s₂, hfree, hx, rfl⟩ := locked_eq h
  rcases allocateNormal_eq hx with ⟨region, a, rfl, halloc, rfl⟩ | ⟨a, rfl, hmemory, hlists, rfl⟩
  · exact .inl ⟨region, a, rfl, halloc, unlock_held hfree rfl⟩
  · exact .inr ⟨a, rfl, hmemory, hlists, unlock_held hfree rfl⟩

/-- A request to a pool under the lock of its head. -/
theorem locked_pooledAllocate_bind {l : Mutex} {g : Bool → Throws Running β}
    (h : (locked l (pooledAllocate sc reqCapacity sizeIdx) >>= g) s = some (r, s')) :
    (∃ region a, s.heap.arena.pooledAllocate sc reqCapacity sizeIdx = some (some region, a) ∧
      g true ((s.setArena s.heap.threadCache a).setRegion region) = some (r, s')) ∨
    ∃ a, s.heap.arena.pooledAllocate sc reqCapacity sizeIdx = some (none, a) ∧
      g false (s.setArena s.heap.threadCache a) = some (r, s') := by
  rcases bind_eq h with ⟨done, s₁, hscope, h⟩ | ⟨hscope, -⟩
  · obtain ⟨s₂, hfree, hinside, rfl⟩ := locked_eq hscope
    obtain ⟨found, a, hpool, hrest⟩ := onArena_bind hinside
    cases found with
    | some region =>
      cases hrest
      refine .inl ⟨region, a, hpool, ?_⟩
      rwa [unlock_held hfree rfl] at h
    | none =>
      cases hrest
      refine .inr ⟨a, hpool, ?_⟩
      rwa [unlock_held hfree rfl] at h
  · obtain ⟨s₂, -, hpool, -⟩ := locked_eq hscope
    obtain ⟨found, a, -, hrest⟩ := onArena_bind hpool
    cases found with
    | some region => cases hrest
    | none => cases hrest

/-- How a request that throws changes the cache and the arena: the cache was asked, and
perhaps trimmed, a pool and the lists were searched in vain, and nothing was handed out. -/
inductive Fruitless (sc : SizeClass) (reqCapacity : ℕ) (a : PoolArena) (t : PoolThreadCache) :
    PoolThreadCache → PoolArena → Prop
  | small {t₁ : PoolThreadCache} {a₁ a₂ a₃ : PoolArena} {sizeIdx : ℕ} :
      sc.size2sizeIdx reqCapacity = sizeIdx → sizeIdx ≤ sc.smallMaxSizeIdx →
      a.cacheAllocate sc t .small reqCapacity sizeIdx = some (none, t₁, a₁) →
      a₁.pooledAllocate sc reqCapacity sizeIdx = some (none, a₂) →
      PoolArena.allocateLists sc reqCapacity sizeIdx true a₂ [q50, q25, q00, qInit, q75] =
        some (none, a₃) → Fruitless sc reqCapacity a t t₁ a₃
  | normal {t₁ : PoolThreadCache} {a₁ a₂ : PoolArena} {sizeIdx : ℕ} :
      sc.size2sizeIdx reqCapacity = sizeIdx → ¬sizeIdx ≤ sc.smallMaxSizeIdx →
      sizeIdx < sc.nSizes →
      a.cacheAllocate sc t .normal reqCapacity sizeIdx = some (none, t₁, a₁) →
      PoolArena.allocateLists sc reqCapacity sizeIdx true a₁ [q50, q25, q00, qInit, q75] =
        some (none, a₂) → Fruitless sc reqCapacity a t t₁ a₂
  | huge : ¬sc.size2sizeIdx reqCapacity ≤ sc.smallMaxSizeIdx →
      ¬sc.size2sizeIdx reqCapacity < sc.nSizes → Fruitless sc reqCapacity a t t a

/-- A request is answered as by `PoolArena::allocate`, or it throws and was fruitless. -/
theorem allocate_eq {r : Except Unit Unit}
    (h : allocate sc memoryLeft reqCapacity s = some (r, s')) :
    (∃ region t a, r = .ok () ∧
      s.heap.arena.allocate sc s.heap.threadCache reqCapacity = some (region, t, a) ∧
      s' = (s.setArena t a).setRegion region) ∨
    ∃ t a, r = .error () ∧ Fruitless sc reqCapacity s.heap.arena s.heap.threadCache t a ∧
      s' = s.setArena t a := by
  rw [allocate] at h
  rw [PoolArena.allocate]
  dsimp only at h ⊢
  split_ifs at h ⊢ with hsmall hnormal
  · obtain ⟨found, t, a, hcache, h⟩ := onCache_bind h
    rw [PoolArena.tcacheAllocateSmall, hcache]
    cases found with
    | some region =>
      obtain ⟨rfl, rfl⟩ := onBuf_eq h
      exact .inl ⟨region, t, a, rfl, rfl, rfl⟩
    | none =>
      rw [Option.bind_eq_bind, Option.bind_some]
      dsimp only
      rcases locked_pooledAllocate_bind h with ⟨region, a₁, hpool, h⟩ | ⟨a₁, hpool, h⟩
      · cases h
        have hpool' : a.pooledAllocate sc reqCapacity (sc.size2sizeIdx reqCapacity) =
          some (some region, a₁) := hpool
        refine .inl ⟨region, t, a₁, rfl, ?_, rfl⟩
        rw [hpool']
        rfl
      · have hpool' : a.pooledAllocate sc reqCapacity (sc.size2sizeIdx reqCapacity) =
          some (none, a₁) := hpool
        rcases locked_allocateNormal_eq h with
          ⟨region, a₂, rfl, halloc, rfl⟩ | ⟨a₂, rfl, -, hlists, rfl⟩
        · have halloc' : a₁.allocateNormal sc reqCapacity (sc.size2sizeIdx reqCapacity) true =
            some (region, a₂) := halloc
          refine .inl ⟨region, t, a₂, rfl, ?_, rfl⟩
          rw [hpool', Option.bind_eq_bind, Option.bind_some]
          dsimp only
          rw [halloc']
          rfl
        · exact .inr ⟨t, a₂, rfl, .small rfl hsmall hcache hpool hlists, rfl⟩
  · obtain ⟨found, t, a, hcache, h⟩ := onCache_bind h
    rw [PoolArena.tcacheAllocateNormal, hcache]
    cases found with
    | some region =>
      obtain ⟨rfl, rfl⟩ := onBuf_eq h
      exact .inl ⟨region, t, a, rfl, rfl, rfl⟩
    | none =>
      rcases locked_allocateNormal_eq h with
        ⟨region, a₁, rfl, halloc, rfl⟩ | ⟨a₁, rfl, -, hlists, rfl⟩
      · refine .inl ⟨region, t, a₁, rfl, ?_, rfl⟩
        have halloc' : a.allocateNormal sc reqCapacity (sc.size2sizeIdx reqCapacity) true =
            some (region, a₁) := halloc
        rw [Option.bind_eq_bind, Option.bind_some]
        dsimp only
        rw [halloc']
        rfl
      · exact .inr ⟨t, a₁, rfl, .normal rfl hsmall hnormal hcache hlists, rfl⟩
  · by_cases hmemory : memoryLeft = true ∧ 0 ≤ sc.normalizeSize reqCapacity
    · have hthere : defaultAllocate memoryLeft (sc.normalizeSize reqCapacity) = pure () :=
        if_pos hmemory
      rw [allocateHuge, hthere] at h
      obtain ⟨region, a, hhuge, h⟩ := onArena_bind h
      obtain ⟨rfl, rfl⟩ := onBuf_eq h
      rw [hhuge]
      exact .inl ⟨region, _, a, rfl, rfl, rfl⟩
    · have hgone : defaultAllocate memoryLeft (sc.normalizeSize reqCapacity) = .throwNow :=
        if_neg hmemory
      rw [allocateHuge, hgone] at h
      cases h
      exact .inr ⟨_, _, rfl, .huge hsmall hnormal, rfl⟩

/-- `free` does what `PoolArena::free` does. -/
theorem free_eq {region : Region} {cache : Bool} {r : Except Unit Unit}
    (h : free sc region cache s = some (r, s')) :
    ∃ heap, r = .ok () ∧ s.heap.free sc region cache = some heap ∧ s' = { s with heap } := by
  obtain ⟨_, hr, h⟩ := lift_eq h
  obtain ⟨heap, hfree, hpair⟩ := Option.map_eq_some_iff.mp h
  cases hpair
  exact ⟨heap, hr, hfree, rfl⟩

/-- The old region is freed when `reallocate` is told to. -/
theorem release_eq {old : Region} {freeOldMemory : Bool} {r : Except Unit Unit}
    (h : (do if freeOldMemory then free sc old (← .get).buf.cache : Throws Running Unit) s =
      some (r, s')) :
    ∃ buf heap, r = .ok () ∧ s' = ⟨heap, buf, s.held⟩ ∧
      (if freeOldMemory then (s.heap.free sc old s.buf.cache).map (s.buf, ·)
        else some (s.buf, s.heap)) = some (buf, heap) := by
  cases freeOldMemory with
  | true =>
    obtain ⟨heap, hr, hfree, hs'⟩ := free_eq h
    exact ⟨s.buf, heap, hr, hs', by rw [if_pos rfl, hfree, Option.map_some]⟩
  | false =>
    cases h
    exact ⟨_, _, rfl, rfl, rfl⟩

/-- `reallocate` does what `PoolArena::reallocate` does, or it throws and was fruitless. -/
theorem reallocate_eq {newCapacity : ℕ} {freeOldMemory : Bool} {r : Except Unit Unit}
    (h : reallocate sc memoryLeft newCapacity freeOldMemory s = some (r, s')) :
    (∃ buf heap, r = .ok () ∧
      s.heap.reallocate sc s.buf newCapacity freeOldMemory = some (buf, heap) ∧
      s' = ⟨heap, buf, s.held⟩) ∨
    ∃ t a, r = .error () ∧ Fruitless sc newCapacity s.heap.arena s.heap.threadCache t a ∧
      s' = s.setArena t a := by
  rw [reallocate, get_bind] at h
  rw [Heap.reallocate]
  dsimp only at h
  by_cases hmax : s.buf.maxCapacity < newCapacity
  · rw [if_pos hmax] at h
    cases h
  by_cases hsame : s.buf.length = newCapacity
  · rw [if_neg hmax, if_pos hsame] at h
    cases h
    exact .inl ⟨_, _, rfl, by rw [if_neg hmax, if_pos hsame], rfl⟩
  rw [if_neg hmax, if_neg hsame] at h
  rw [if_neg hmax, if_neg hsame]
  rcases bind_eq h with ⟨_, s₁, halloc, h⟩ | ⟨halloc, rfl⟩
  · rcases allocate_eq halloc with ⟨region, t, a, -, halloc', rfl⟩ | ⟨_, _, ⟨⟩, _⟩
    rw [halloc', Option.bind_eq_bind, Option.bind_some]
    dsimp only
    by_cases hgrows : s.buf.length < newCapacity
    · rw [if_pos hgrows] at h
      obtain ⟨buf, heap, hr, hs', hfree⟩ := release_eq (onMemory_bind h)
      have hmoved : s.buf.moveTo region newCapacity = { s.buf with toRegion := region } :=
        if_pos hgrows
      rw [hmoved, if_pos hgrows]
      exact .inl ⟨buf, heap, hr, hfree, hs'⟩
    · rw [if_neg hgrows] at h
      obtain ⟨buf, heap, hr, hs', hfree⟩ := release_eq (onMemory_bind (onBuf_bind h))
      have hmoved : s.buf.moveTo region newCapacity =
          ({ s.buf with toRegion := region } : PoolByteBuf).trimIndicesToCapacity newCapacity :=
        if_neg hgrows
      rw [hmoved, if_neg hgrows]
      exact .inl ⟨buf, heap, hr, hfree, hs'⟩
  · rcases allocate_eq halloc with ⟨_, _, _, ⟨⟩, _⟩ | ⟨t, a, -, hfruitless, rfl⟩
    exact .inr ⟨t, a, rfl, hfruitless, rfl⟩

end Running

/-- The region with the pointer to its own beginning. -/
def Region.realigned (r : Region) : Region := { r with tmpBuf := r.memory.add r.offset }

/-- The buffer as it would read if it read where it writes. -/
def PoolByteBuf.realigned (buf : PoolByteBuf) : PoolByteBuf :=
  { buf with toRegion := buf.toRegion.realigned }

namespace PoolByteBuf

theorem realigned_trimIndicesToCapacity (buf : PoolByteBuf) (newCapacity : ℕ) :
    buf.realigned.trimIndicesToCapacity newCapacity =
      (buf.trimIndicesToCapacity newCapacity).realigned := by
  rw [trimIndicesToCapacity, trimIndicesToCapacity]
  by_cases hn : newCapacity < buf.writerIndex
  · rw [if_pos hn]
    exact if_pos hn
  · rw [if_neg hn]
    exact if_neg hn

theorem realigned_moveTo (buf : PoolByteBuf) (region : Region) (newCapacity : ℕ) :
    buf.realigned.moveTo region.realigned newCapacity =
      (buf.moveTo region newCapacity).realigned := by
  rw [moveTo, moveTo]
  by_cases hn : buf.length < newCapacity
  · rw [if_pos hn]
    exact if_pos hn
  · rw [if_neg hn, ← realigned_trimIndicesToCapacity]
    exact if_neg hn

theorem realigned_resize (buf : PoolByteBuf) (newCapacity : ℕ) :
    buf.realigned.resize newCapacity = (buf.resize newCapacity).map realigned := by
  have hlength : buf.realigned.length = buf.length := rfl
  have hmaxLength : buf.realigned.maxLength = buf.maxLength := rfl
  rw [resize, resize, hlength, hmaxLength]
  split_ifs
  · rfl
  · rfl
  · rfl
  · rw [Option.map_some, ← realigned_trimIndicesToCapacity]
    rfl
  · rfl

end PoolByteBuf

/-- The capacity for which `capacity` asks the arena, if it does. -/
def PoolByteBuf.capacityTarget (buf : PoolByteBuf) (newCapacity : ℕ) : Option ℕ :=
  if (buf.resize newCapacity).isNone then some newCapacity else none

/-- `resize` changes nothing of the region but its length. -/
theorem PoolByteBuf.toRegion_resize {buf resized : PoolByteBuf} {newCapacity : ℕ}
    (h : buf.resize newCapacity = some resized) :
    resized.toRegion = { buf.toRegion with length := resized.length } := by
  rw [resize] at h
  split_ifs at h
  · cases h
    rfl
  · cases h
    rfl
  · cases h
    rw [toRegion_trimIndicesToCapacity]

theorem PoolByteBuf.maxCapacity_trimIndicesToCapacity (buf : PoolByteBuf) (newCapacity : ℕ) :
    (buf.trimIndicesToCapacity newCapacity).maxCapacity = buf.maxCapacity := by
  rw [trimIndicesToCapacity]
  split <;> rfl

theorem PoolByteBuf.maxCapacity_moveTo (buf : PoolByteBuf) (region : Region) (newCapacity : ℕ) :
    (buf.moveTo region newCapacity).maxCapacity = buf.maxCapacity := by
  rw [moveTo]
  split
  · rfl
  · exact maxCapacity_trimIndicesToCapacity _ _

theorem PoolByteBuf.maxCapacity_resize {buf resized : PoolByteBuf} {newCapacity : ℕ}
    (h : buf.resize newCapacity = some resized) : resized.maxCapacity = buf.maxCapacity := by
  rw [resize] at h
  split_ifs at h
  · cases h
    rfl
  · cases h
    rfl
  · cases h
    exact maxCapacity_trimIndicesToCapacity _ _

/-- The capacity for which `ensureWritable` asks the arena, if it does. -/
def PoolByteBuf.writableTarget (buf : PoolByteBuf) (minWritableBytes : ℕ) : Option ℕ :=
  if buf.length < buf.writerIndex + minWritableBytes then
    (buf.grownCapacity minWritableBytes).bind buf.capacityTarget
  else none

/-- Within the maximum there is a capacity to grow to. -/
theorem PoolByteBuf.exists_grownCapacity {buf : PoolByteBuf} {minWritableBytes : ℕ}
    (hmax : buf.writerIndex + minWritableBytes ≤ buf.maxCapacity) :
    ∃ newCapacity, buf.grownCapacity minWritableBytes = some newCapacity := by
  rw [grownCapacity, calculateNewCapacity, if_neg (Nat.not_lt.mpr hmax)]
  split_ifs
  · exact ⟨_, rfl⟩
  · exact ⟨_, rfl⟩
  · dsimp only
    split_ifs
    · exact ⟨_, rfl⟩
    · exact ⟨_, rfl⟩
  · exact ⟨_, rfl⟩

/-- The capacity for which a call asks the arena, if it does. -/
def Growth.target (buf : PoolByteBuf) : Growth → Option ℕ
  | .writeBytes _ _ length => buf.writableTarget length
  | .ensureWritable minWritableBytes => buf.writableTarget minWritableBytes
  | .capacity newCapacity => buf.capacityTarget newCapacity

/-- The call on a buffer when the region is known that the arena finds. -/
def Growth.toCall (region : Region) : Growth → BufferCall
  | .writeBytes src srcIndex length => .writeBytes src srcIndex length region
  | .ensureWritable minWritableBytes => .ensureWritable minWritableBytes region
  | .capacity newCapacity => .capacity newCapacity region

namespace Filled

variable {s : Filled} {newCapacity : ℕ} {region : Region}

theorem capacity_of_resize {buf : PoolByteBuf}
    (hmax : ¬(newCapacity ≠ s.buf.length ∧ s.buf.maxCapacity < newCapacity))
    (hresize : s.buf.resize newCapacity = some buf) :
    s.capacity newCapacity region = some { s with buf } := by
  rw [capacity, if_neg hmax, hresize]

theorem capacity_of_serves
    (hmax : ¬(newCapacity ≠ s.buf.length ∧ s.buf.maxCapacity < newCapacity))
    (hresize : s.buf.resize newCapacity = none)
    (hserves : region.Serves s.buf.toRegion newCapacity) :
    s.capacity newCapacity region = some (s.reallocate newCapacity region) := by
  rw [capacity, if_neg hmax, hresize]
  exact if_pos hserves

end Filled

namespace Running

variable {sc : SizeClass} {memoryLeft : Bool} {s s' : Running}

/-- The buffer with the memory, as it would read if it read where it writes. -/
def written (s : Running) : Filled := ⟨s.buf.realigned, s.heap.memory⟩

/-- What a call does that keeps the region, where `f` is its effect on the buffer. -/
structure Kept (f : Region → Option Filled) (s s' : Running) : Prop where
  arena : s'.heap.arena = s.heap.arena
  threadCache : s'.heap.threadCache = s.heap.threadCache
  held : s'.held = s.held
  toRegion : s'.buf.toRegion = { s.buf.toRegion with length := s'.buf.length }
  maxCapacity : s'.buf.maxCapacity = s.buf.maxCapacity
  written : ∀ region, f region = some s'.written

/-- What a call does that moves the buffer to the region that is found for a capacity. -/
structure Moved (sc : SizeClass) (f : Region → Option Filled) (newCapacity : ℕ)
    (s s' : Running) : Prop where
  found : ∃ t a,
    s.heap.arena.allocate sc s.heap.threadCache newCapacity = some (s'.buf.toRegion, t, a) ∧
    a.free sc t s.buf.chunk s.buf.tmpBuf s.buf.handle s.buf.maxLength s'.buf.cache =
      some (s'.heap.threadCache, s'.heap.arena)
  held : s'.held = s.held
  le : newCapacity ≤ s.buf.maxCapacity
  maxCapacity : s'.buf.maxCapacity = s.buf.maxCapacity
  written : s'.buf.toRegion.realigned.Serves s.buf.toRegion newCapacity →
    f s'.buf.toRegion.realigned = some s'.written

/-- What a call does that may move the buffer. -/
inductive Effect (sc : SizeClass) (f : Region → Option Filled) (s : Running) :
    Option ℕ → Except Unit Unit → Running → Prop
  | kept {s' : Running} : Kept f s s' → Effect sc f s none (.ok ()) s'
  | moved {s' : Running} {newCapacity : ℕ} :
      Moved sc f newCapacity s s' → Effect sc f s (some newCapacity) (.ok ()) s'
  | thrown {newCapacity : ℕ} {t : PoolThreadCache} {a : PoolArena} :
      Fruitless sc newCapacity s.heap.arena s.heap.threadCache t a →
      Effect sc f s (some newCapacity) (.error ()) (s.setArena t a)

/-- `capacity` keeps the region, or moves the buffer, or throws. -/
theorem capacity_effect {newCapacity : ℕ} {r : Except Unit Unit}
    (h : capacity sc memoryLeft newCapacity s = some (r, s')) :
    Effect sc (fun region => s.written.capacity newCapacity region) s
      (s.buf.capacityTarget newCapacity) r s' := by
  rw [capacity, get_bind] at h
  by_cases hmax : newCapacity ≠ s.buf.length ∧ s.buf.maxCapacity < newCapacity
  · rw [if_pos hmax] at h
    cases h
  rw [if_neg hmax] at h
  rw [PoolByteBuf.capacityTarget]
  cases hresize : s.buf.resize newCapacity with
  | some resized =>
    rw [hresize] at h
    obtain ⟨rfl, rfl⟩ := onBuf_eq h
    refine .kept ⟨rfl, rfl, rfl, ?_, ?_, fun region => ?_⟩
    · exact PoolByteBuf.toRegion_resize hresize
    · exact PoolByteBuf.maxCapacity_resize hresize
    · refine Filled.capacity_of_resize hmax ?_
      change s.buf.realigned.resize newCapacity = some resized.realigned
      rw [PoolByteBuf.realigned_resize, hresize, Option.map_some]
  | none =>
    rw [hresize] at h
    rcases reallocate_eq h with ⟨buf, heap, rfl, hmove, rfl⟩ | ⟨t, a, rfl, hfruitless, rfl⟩
    · obtain ⟨hle, ⟨hsame, -, -⟩ | ⟨region, t, a, _, halloc, rfl, hmemory, hfree⟩⟩ :=
        Heap.reallocate_cases hmove
      · rw [PoolByteBuf.resize, if_pos hsame.symm] at hresize
        cases hresize
      · have hregion := PoolByteBuf.toRegion_moveTo s.buf region newCapacity
        refine .moved ⟨⟨t, a, ?_, ?_⟩, rfl, hle, PoolByteBuf.maxCapacity_moveTo _ _ _,
          fun hserves => ?_⟩
        · dsimp only
          rw [hregion]
          exact halloc
        · dsimp only
          rw [hregion]
          exact hfree
        · dsimp only at hserves ⊢
          rw [hregion] at hserves ⊢
          have hnone : s.written.buf.resize newCapacity = none := by
            rw [written, PoolByteBuf.realigned_resize, hresize, Option.map_none]
          have hcapacity : s.written.capacity newCapacity region.realigned =
              some (s.written.reallocate newCapacity region.realigned) :=
            Filled.capacity_of_serves hmax hnone hserves
          have hmin : (if s.buf.length < newCapacity then s.buf.length else newCapacity) =
              min s.buf.length newCapacity := by
            split <;> omega
          have hbuf := PoolByteBuf.realigned_moveTo s.buf region newCapacity
          rw [← hmin] at hmemory
          rw [hcapacity]
          exact congrArg some (congrArg₂ Filled.mk hbuf hmemory.symm)
    · exact .thrown hfruitless

/-- `ensureWritable` does what `capacity` does, or nothing. -/
theorem ensureWritable_effect {minWritableBytes : ℕ} {r : Except Unit Unit}
    (h : ensureWritable sc memoryLeft minWritableBytes s = some (r, s')) :
    Effect sc (fun region => s.written.ensureWritable minWritableBytes region) s
      (s.buf.writableTarget minWritableBytes) r s' := by
  rw [ensureWritable, get_bind] at h
  by_cases hmax : s.buf.maxCapacity < s.buf.writerIndex + minWritableBytes
  · rw [if_pos hmax] at h
    cases h
  rw [if_neg hmax] at h
  rw [PoolByteBuf.writableTarget]
  have hensure : ∀ region, s.written.ensureWritable minWritableBytes region =
      if s.buf.length < s.buf.writerIndex + minWritableBytes then
        (s.buf.grownCapacity minWritableBytes).bind fun n => s.written.capacity n region
      else some s.written := fun region => if_neg hmax
  simp only [hensure]
  by_cases hroom : s.buf.length < s.buf.writerIndex + minWritableBytes
  · rw [if_pos hroom] at h ⊢
    obtain ⟨newCapacity, hgrown⟩ := PoolByteBuf.exists_grownCapacity (Nat.not_lt.mp hmax)
    rw [hgrown] at h ⊢
    simp only [if_pos hroom, Option.bind_some]
    exact capacity_effect h
  · rw [if_neg hroom] at h ⊢
    cases h
    exact .kept ⟨rfl, rfl, rfl, rfl, rfl, fun region => if_neg hroom⟩

/-- `writeBytes` does what `ensureWritable` does, and writes when that has returned. -/
theorem writeBytes_effect {src : List UInt8} {srcIndex length : ℕ} {r : Except Unit Unit}
    (h : writeBytes sc memoryLeft src srcIndex length s = some (r, s')) :
    Effect sc (fun region => s.written.writeBytes src srcIndex length region) s
      (s.buf.writableTarget length) r s' := by
  rw [writeBytes] at h
  split_ifs at h with hsrc
  · cases h
  have hwrite : ∀ region, s.written.writeBytes src srcIndex length region =
      (s.written.ensureWritable length region).bind fun s =>
        some { s.setBytes s.buf.writerIndex src srcIndex length with
          buf := { s.buf with writerIndex := s.buf.writerIndex + length } } :=
    fun region => if_neg hsrc
  simp only [hwrite]
  rcases bind_eq h with ⟨_, s₁, hensure, h⟩ | ⟨hensure, rfl⟩
  · obtain ⟨rfl, rfl⟩ := onBuf_eq (onMemory_bind h)
    have heffect := ensureWritable_effect hensure
    generalize s.buf.writableTarget length = target at heffect ⊢
    cases heffect with
    | kept hkept =>
      obtain ⟨harena, hcache, hheld, hregion, hmax, hwritten⟩ := hkept
      exact .kept ⟨harena, hcache, hheld, hregion, hmax, fun region => by rw [hwritten]; rfl⟩
    | moved hmoved =>
      obtain ⟨hfound, hheld, hle, hmax, hwritten⟩ := hmoved
      exact .moved ⟨hfound, hheld, hle, hmax, fun hserves => by rw [hwritten hserves]; rfl⟩
  · have heffect := ensureWritable_effect hensure
    generalize s.buf.writableTarget length = target at heffect ⊢
    cases heffect with
    | thrown hfruitless => exact .thrown hfruitless

/-- Every call that may move the buffer keeps its region, or moves it, or throws. -/
theorem growth_effect {growth : Growth} {r : Except Unit Unit}
    (h : growth.run sc memoryLeft s = some (r, s')) :
    Effect sc (fun region => s.written.call (growth.toCall region)) s (growth.target s.buf) r
      s' := by
  cases growth with
  | writeBytes src srcIndex length => exact writeBytes_effect h
  | ensureWritable minWritableBytes => exact ensureWritable_effect h
  | capacity newCapacity => exact capacity_effect h

end Running

end DuoDuo.Buffer
