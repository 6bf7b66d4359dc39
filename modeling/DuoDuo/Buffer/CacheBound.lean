import DuoDuo.Buffer.CacheOwnership
import DuoDuo.Library.Machine

/-!
# The number of entries in the cache of a thread

A `MemoryRegionCache` has a size, but `add` does not compare the number of its entries
with it, and never refuses one. The caches keep to their sizes, and `PoolArena::free`
returns what a full cache refuses, exactly in the runs in which no region is offered to a
full cache.
-/

namespace DuoDuo.Buffer

open Library PoolArena Machine

/-- Or-ing a number with its shift doubles the reach of its bits. -/
theorem testBit_or_shiftRight {x v w : ℕ}
    (h : ∀ i, x.testBit i = true ↔ ∃ j < w, v.testBit (i + j) = true) (i : ℕ) :
    (x ||| x >>> w).testBit i = true ↔ ∃ j < 2 * w, v.testBit (i + j) = true := by
  rw [Nat.testBit_or, Nat.testBit_shiftRight, Bool.or_eq_true, h, h]
  constructor
  · rintro (⟨j, hj, hbit⟩ | ⟨j, hj, hbit⟩)
    · exact ⟨j, by omega, hbit⟩
    · exact ⟨w + j, by omega, by rwa [show i + (w + j) = w + i + j by omega]⟩
  · rintro ⟨j, hj, hbit⟩
    rcases Nat.lt_or_ge j w with hlow | hhigh
    · exact Or.inl ⟨j, hlow, hbit⟩
    · exact Or.inr ⟨j - w, by omega, by rwa [show w + i + (j - w) = i + j by omega]⟩

/-- `nextPowerofTwo` is the least power of two that is not below its argument. -/
theorem MathUtils.nextPowerofTwo_eq {n : ℕ} (hn : 0 < n) (hlt : n < 2 ^ 32) :
    nextPowerofTwo n = 2 ^ Nat.clog 2 n := by
  have h₁ := testBit_or_shiftRight (x := n - 1) (v := n - 1) (w := 1) fun i => by simp
  have h₃₂ := testBit_or_shiftRight (testBit_or_shiftRight (testBit_or_shiftRight
    (testBit_or_shiftRight h₁)))
  have hbits : nextPowerofTwo n - 1 = 2 ^ Nat.clog 2 n - 1 := by
    refine Nat.eq_of_testBit_eq fun i => ?_
    rw [Nat.testBit_two_pow_sub_one, Bool.eq_iff_iff, decide_eq_true_iff,
      Nat.lt_clog_iff_pow_lt (by decide)]
    refine (h₃₂ i).trans ⟨fun ⟨j, _, hbit⟩ => ?_, fun hpow => ?_⟩
    · have hle := Nat.ge_two_pow_of_testBit hbit
      have hpow := Nat.pow_le_pow_right (n := 2) (by decide) (Nat.le_add_right i j)
      omega
    · obtain ⟨j, hj, hbit⟩ := Nat.exists_ge_and_testBit_of_ge_two_pow (x := n - 1) (n := i)
        (by omega)
      have hsmall : j < 32 := by
        by_contra hge
        have hle := Nat.ge_two_pow_of_testBit hbit
        have hpow := Nat.pow_le_pow_right (n := 2) (by decide) (not_lt.mp hge)
        omega
      exact ⟨j - i, by omega, by rwa [Nat.add_sub_cancel' hj]⟩
  have hpos := Nat.two_pow_pos (Nat.clog 2 n)
  have hnext : 0 < nextPowerofTwo n := Nat.succ_pos _
  omega

/-- `MemoryRegionCache::add`, with its result. -/
def MemoryRegionCache.add (m : MemoryRegionCache) (entry : Entry) : Bool × MemoryRegionCache :=
  (true, { m with queue := m.queue ++ [entry] })

/-- A cache holds no more entries than its size. -/
def MemoryRegionCache.Bounded (m : MemoryRegionCache) : Prop := m.queue.length ≤ m.size

/-- A cache is full. -/
def MemoryRegionCache.Full (m : MemoryRegionCache) : Prop := m.size ≤ m.queue.length

/-- The caches of a thread hold no more entries than their sizes. -/
def PoolThreadCache.Bounded (t : PoolThreadCache) : Prop :=
  ∀ type, ∀ m ∈ t.caches type, m.Bounded

/-- The caches of a thread have just been made, each for a positive size. -/
def PoolThreadCache.Made (t : PoolThreadCache) : Prop :=
  ∀ type, ∀ m ∈ t.caches type, ∃ size, 0 < size ∧ m = .new size

/-- A thread's cache, with the arena that the thread shares with others. -/
structure CachedArena where
  arena : PoolArena
  threadCache : PoolThreadCache

/-- An operation on the caches of a thread, or on its arena. -/
inductive CacheAction
  /-- `MemoryRegionCache::add` -/
  | add (type : SizeClassType) (idx : ℕ) (entry : Entry)
  /-- `MemoryRegionCache::allocate` -/
  | take (type : SizeClassType) (idx reqCapacity : ℕ)
  /-- `MemoryRegionCache::trim` -/
  | trimOne (type : SizeClassType) (idx : ℕ)
  /-- `PoolArena::free`, with the cache of the thread -/
  | free (chunk : ChunkPtr) (buffer : Addr) (handle normCapacity : ℕ)
  /-- `PoolThreadCache::allocateSmall` and `allocateNormal` -/
  | allocate (type : SizeClassType) (reqCapacity sizeIdx : ℕ)
  /-- `PoolThreadCache::trim` -/
  | trim
  /-- whatever this and other threads do to the arena besides -/
  | others (arena : PoolArena)

namespace CachedArena

/-- One operation. -/
def next (sc : SizeClass) (s : CachedArena) : CacheAction → Option CachedArena
  | .add type idx entry => do
    let m ← (s.threadCache.caches type)[idx]?
    let (added, m) := m.add entry
    some (if added then { s with threadCache := s.threadCache.setCache type idx m } else s)
  | .take type idx reqCapacity => do
    let m ← (s.threadCache.caches type)[idx]?
    let (_, m) ← s.arena.regionCacheAllocate sc type m reqCapacity
    some { s with threadCache := s.threadCache.setCache type idx m }
  | .trimOne type idx => do
    let m ← (s.threadCache.caches type)[idx]?
    let (m, arena) ← s.arena.trimRegionCache sc m
    some ⟨arena, s.threadCache.setCache type idx m⟩
  | .free chunk buffer handle normCapacity => do
    let (t, arena) ← s.arena.free sc s.threadCache chunk buffer handle normCapacity true
    some ⟨arena, t⟩
  | .allocate type reqCapacity sizeIdx => do
    let (_, t, arena) ← s.arena.cacheAllocate sc s.threadCache type reqCapacity sizeIdx
    some ⟨arena, t⟩
  | .trim => do
    let (t, arena) ← s.arena.trim sc s.threadCache
    some ⟨arena, t⟩
  | .others arena => some { s with arena }

/-- The operations on caches that have just been made. -/
def machine (sc : SizeClass) : Machine CachedArena CacheAction :=
  ofNext (fun s => s.threadCache.Made) (next sc)

/-- The cache at a position is full. -/
def FullAt (s : CachedArena) (type : SizeClassType) (idx : ℕ) : Prop :=
  ∃ m, (s.threadCache.caches type)[idx]? = some m ∧ m.Full

/-- The operation offers a region to a full cache. -/
def OffersToFull (sc : SizeClass) (s : CachedArena) : CacheAction → Prop
  | .add type idx _ => s.FullAt type idx
  | .free (.pooled _) _ handle normCapacity =>
    ∃ idx, PoolThreadCache.cacheFor sc (getSizeClassType handle) (sc.size2sizeIdx normCapacity) =
      some idx ∧ s.FullAt (getSizeClassType handle) idx
  | _ => False

/-- A region that is offered to a full cache is refused, and `PoolArena::free` returns it to
its chunk. -/
def Refuses (sc : SizeClass) (s : CachedArena) (action : CacheAction) : Prop :=
  s.OffersToFull sc action →
    (∀ type idx entry, action = .add type idx entry → s.next sc action = some s) ∧
    ∀ id buffer handle normCapacity, action = .free (.pooled id) buffer handle normCapacity →
      s.next sc action = (s.arena.freeChunk sc ⟨id, handle, normCapacity⟩ buffer).map
        fun arena => { s with arena }

end CachedArena

variable {sc : SizeClass} {a a' : PoolArena} {t t' : PoolThreadCache} {m m' : MemoryRegionCache}
  {type : SizeClassType} {idx : ℕ}

/-- Freeing entries leaves fewer. -/
theorem length_freeEntries {n : ℕ} {queue queue' : List Entry}
    (h : freeEntries sc n a queue = some (queue', a')) : queue'.length ≤ queue.length := by
  induction n generalizing a queue with
  | zero =>
    cases h
    exact le_rfl
  | succ n ih =>
    cases queue with
    | nil =>
      cases h
      exact le_rfl
    | cons e queue =>
      obtain ⟨a₁, -, hrest⟩ := Option.bind_eq_some_iff.mp h
      exact (ih hrest).trans (Nat.le_succ _)

/-- Trimming a cache keeps it within its size. -/
theorem MemoryRegionCache.Bounded.trim (h : m.Bounded)
    (hstep : trimRegionCache sc a m = some (m', a')) : m'.Bounded := by
  obtain ⟨⟨queue, a₁⟩, hfree, hrest⟩ := Option.bind_eq_some_iff.mp hstep
  cases hrest
  exact (length_freeEntries hfree).trans h

/-- Taking an entry keeps a cache within its size. -/
theorem MemoryRegionCache.Bounded.take (h : m.Bounded) {reqCapacity : ℕ} {region : Option Region}
    (hstep : a.regionCacheAllocate sc type m reqCapacity = some (region, m')) : m'.Bounded := by
  rw [regionCacheAllocate] at hstep
  split at hstep
  · cases hstep
    exact h
  · next entry queue hqueue =>
    obtain ⟨region', -, hrest⟩ := Option.bind_eq_some_iff.mp hstep
    cases hrest
    rw [MemoryRegionCache.Bounded, hqueue] at h
    exact (Nat.le_succ _).trans h

/-- Trimming a vector of caches keeps them within their sizes. -/
theorem bounded_trimCaches {ms ms' : List MemoryRegionCache} (h : ∀ m ∈ ms, m.Bounded)
    (hstep : trimCaches sc a ms = some (ms', a')) : ∀ m ∈ ms', m.Bounded := by
  induction ms generalizing a ms' with
  | nil =>
    cases hstep
    exact h
  | cons m ms ih =>
    obtain ⟨⟨m₁, a₁⟩, htrim, hrest⟩ := Option.bind_eq_some_iff.mp hstep
    obtain ⟨⟨ms₁, a₂⟩, hcaches, hrest⟩ := Option.bind_eq_some_iff.mp hrest
    cases hrest
    rw [List.forall_mem_cons] at h ⊢
    exact ⟨h.1.trim htrim, ih h.2 hcaches⟩

namespace PoolThreadCache

/-- One cache changes to another one within its size. -/
theorem Bounded.setCache (h : t.Bounded) (hm : m.Bounded) : (t.setCache type idx m).Bounded := by
  intro type' m' hm'
  by_cases htype : type' = type
  · rw [htype, caches_setCache_self] at hm'
    rcases List.mem_or_eq_of_mem_set hm' with hold | rfl
    · exact h type m' hold
    · exact hm
  · rw [caches_setCache_of_ne t htype] at hm'
    exact h type' m' hm'

/-- The caches of one type change to others within their sizes. -/
theorem Bounded.setCaches (h : t.Bounded) {ms : List MemoryRegionCache}
    (hms : ∀ m ∈ ms, m.Bounded) : (t.setCaches type ms).Bounded := by
  intro type' m' hm'
  by_cases htype : type' = type
  · subst htype
    rw [PoolThreadCache.setCaches] at hm'
    dsimp only at hm'
    rw [Function.update_self] at hm'
    exact hms m' hm'
  · rw [PoolThreadCache.setCaches] at hm'
    dsimp only at hm'
    rw [Function.update_of_ne htype] at hm'
    exact h type' m' hm'

/-- A trim keeps the caches within their sizes. -/
theorem Bounded.trim (h : t.Bounded) (hstep : a.trim sc t = some (t', a')) : t'.Bounded := by
  obtain ⟨⟨small, a₁⟩, hsmall, hrest⟩ := Option.bind_eq_some_iff.mp hstep
  obtain ⟨⟨normal, a₂⟩, hnormal, hrest⟩ := Option.bind_eq_some_iff.mp hrest
  cases hrest
  exact (h.setCaches (bounded_trimCaches (h .small) hsmall)).setCaches
    (bounded_trimCaches (h .normal) hnormal)

/-- A request keeps the caches within their sizes. -/
theorem Bounded.cacheAllocate (h : t.Bounded) {reqCapacity sizeIdx : ℕ} {region : Option Region}
    (hstep : a.cacheAllocate sc t type reqCapacity sizeIdx = some (region, t', a')) :
    t'.Bounded := by
  rw [PoolArena.cacheAllocate] at hstep
  split at hstep
  · cases hstep
    exact h
  · next idx m hfound =>
    obtain ⟨idx', -, hfound⟩ := Option.bind_eq_some_iff.mp hfound
    obtain ⟨m', hm, hfound⟩ := Option.map_eq_some_iff.mp hfound
    cases hfound
    obtain ⟨⟨region', m₁⟩, htake, hrest⟩ := Option.bind_eq_some_iff.mp hstep
    obtain ⟨⟨t₁, a₁⟩, hcount, hrest⟩ := Option.bind_eq_some_iff.mp hrest
    cases hrest
    have hset : (t.setCache type idx m₁).Bounded :=
      h.setCache ((h type m (List.mem_of_getElem? hm)).take htake)
    rw [countAllocation] at hcount
    split_ifs at hcount
    · exact Bounded.trim (t := (t.setCache type idx m₁).setAllocations 0) hset hcount
    · cases hcount
      exact hset

/-- Caches that have just been made hold nothing. -/
theorem Made.bounded (h : t.Made) : t.Bounded := by
  intro type m hm
  obtain ⟨size, -, rfl⟩ := h type m hm
  exact Nat.zero_le _

/-- The caches of a thread are made for positive sizes. -/
theorem made_new (sc : SizeClass) : (PoolThreadCache.new sc).Made := by
  intro type m hm
  cases type with
  | small => exact ⟨defaultSmallCacheSize, by decide, List.eq_of_mem_replicate hm⟩
  | normal =>
    obtain ⟨i, -, rfl⟩ := List.mem_map.mp hm
    exact ⟨defaultNormalCacheSize, by decide, rfl⟩

end PoolThreadCache

namespace CachedArena

variable {s s' u : CachedArena}

/-- A region that has been added to a full cache is one too many. -/
theorem FullAt.not_bounded (h : s.FullAt type idx) {entry : Entry}
    (hm : (s.threadCache.caches type)[idx]? = some m) :
    ¬(s.threadCache.setCache type idx (m.add entry).2).Bounded := by
  obtain ⟨m', hm', hfull⟩ := h
  obtain rfl : m' = m := Option.some.inj (hm'.symm.trans hm)
  obtain ⟨hlt, -⟩ := List.getElem?_eq_some_iff.mp hm
  intro hbounded
  have hle := hbounded type (m'.add entry).2 (by
    rw [PoolThreadCache.caches_setCache_self]
    exact List.mem_set hlt _)
  have hlength : (m'.add entry).2.queue.length = m'.queue.length + 1 :=
    List.length_append
  rw [MemoryRegionCache.Bounded, hlength] at hle
  rw [MemoryRegionCache.Full] at hfull
  exact absurd (hle.trans hfull) (Nat.not_succ_le_self _)

/-- A cache that is not full has room for one more entry. -/
theorem bounded_add (h : s.threadCache.Bounded) {entry : Entry}
    (hm : (s.threadCache.caches type)[idx]? = some m) (hroom : ¬s.FullAt type idx) :
    (s.threadCache.setCache type idx (m.add entry).2).Bounded := by
  refine h.setCache ?_
  have hnot : ¬m.Full := fun hfull => hroom ⟨m, hm, hfull⟩
  have hlength : (m.add entry).2.queue.length = m.queue.length + 1 := List.length_append
  rw [MemoryRegionCache.Bounded, hlength]
  exact not_le.mp hnot

/-- `PoolArena::free` adds the region to the cache that is in charge of it, if there is one. -/
theorem next_free {id handle normCapacity : ℕ} {buffer : Addr}
    (hstep : s.next sc (.free (.pooled id) buffer handle normCapacity) = some s') :
    (∃ idx m, PoolThreadCache.cacheFor sc (getSizeClassType handle)
        (sc.size2sizeIdx normCapacity) = some idx ∧
      (s.threadCache.caches (getSizeClassType handle))[idx]? = some m ∧
      s'.threadCache = s.threadCache.setCache (getSizeClassType handle) idx
        (m.add ⟨⟨id, handle, normCapacity⟩, buffer⟩).2) ∨
    s'.threadCache = s.threadCache ∧
      ¬s.OffersToFull sc (.free (.pooled id) buffer handle normCapacity) := by
  obtain ⟨⟨t, a⟩, hfree, hrest⟩ := Option.bind_eq_some_iff.mp hstep
  cases hrest
  rw [PoolArena.free] at hfree
  dsimp only at hfree
  rw [if_pos rfl] at hfree
  split at hfree
  · next t₁ hadd =>
    cases hfree
    obtain ⟨idx, hidx, hadd⟩ := Option.bind_eq_some_iff.mp hadd
    obtain ⟨m, hm, hadd⟩ := Option.bind_eq_some_iff.mp hadd
    cases hadd
    exact Or.inl ⟨idx, m, hidx, hm, rfl⟩
  · next hadd =>
    obtain ⟨a₁, -, hrest⟩ := Option.bind_eq_some_iff.mp hfree
    cases hrest
    refine Or.inr ⟨rfl, ?_⟩
    rintro ⟨idx, hidx, m, hm, -⟩
    rw [PoolThreadCache.add, hidx, Option.bind_eq_bind, Option.bind_some, hm] at hadd
    cases hadd

/-- Unless a region is offered to a full cache, the caches keep to their sizes. -/
theorem bounded_next (h : s.threadCache.Bounded) {action : CacheAction}
    (hroom : ¬s.OffersToFull sc action) (hstep : s.next sc action = some s') :
    s'.threadCache.Bounded := by
  cases action with
  | add type idx entry =>
    obtain ⟨m, hm, hrest⟩ := Option.bind_eq_some_iff.mp hstep
    cases hrest
    exact bounded_add h hm hroom
  | take type idx reqCapacity =>
    obtain ⟨m, hm, hrest⟩ := Option.bind_eq_some_iff.mp hstep
    obtain ⟨⟨region, m'⟩, htake, hrest⟩ := Option.bind_eq_some_iff.mp hrest
    cases hrest
    exact h.setCache ((h type m (List.mem_of_getElem? hm)).take htake)
  | trimOne type idx =>
    obtain ⟨m, hm, hrest⟩ := Option.bind_eq_some_iff.mp hstep
    obtain ⟨⟨m', arena⟩, htrim, hrest⟩ := Option.bind_eq_some_iff.mp hrest
    cases hrest
    exact h.setCache ((h type m (List.mem_of_getElem? hm)).trim htrim)
  | free chunk buffer handle normCapacity =>
    cases chunk with
    | pooled id =>
      rcases next_free hstep with ⟨idx, m, hidx, hm, hset⟩ | ⟨hsame, -⟩
      · rw [hset]
        exact bounded_add h hm fun hfull => hroom ⟨idx, hidx, hfull⟩
      · rwa [hsame]
    | unpooled id =>
      cases hstep
      exact h
  | allocate type reqCapacity sizeIdx =>
    obtain ⟨⟨region, t, arena⟩, hallocate, hrest⟩ := Option.bind_eq_some_iff.mp hstep
    cases hrest
    exact h.cacheAllocate hallocate
  | trim =>
    obtain ⟨⟨t, arena⟩, htrim, hrest⟩ := Option.bind_eq_some_iff.mp hstep
    cases hrest
    exact h.trim htrim
  | others arena =>
    cases hstep
    exact h

/-- A region that is offered to a full cache is added to it. -/
theorem not_bounded_next {action : CacheAction} (hoffer : s.OffersToFull sc action)
    (hstep : s.next sc action = some s') : ¬s'.threadCache.Bounded := by
  cases action with
  | add type idx entry =>
    obtain ⟨m, hm, hrest⟩ := Option.bind_eq_some_iff.mp hstep
    cases hrest
    exact FullAt.not_bounded hoffer hm
  | free chunk buffer handle normCapacity =>
    cases chunk with
    | pooled id =>
      rcases next_free hstep with ⟨idx, m, hidx, hm, hset⟩ | ⟨-, hnot⟩
      · obtain ⟨idx', hidx', hfull⟩ := hoffer
        obtain rfl : idx' = idx := Option.some.inj (hidx'.symm.trans hidx)
        rw [hset]
        exact hfull.not_bounded hm
      · exact absurd hoffer hnot
    | unpooled id => exact hoffer.elim
  | take type idx reqCapacity => exact hoffer.elim
  | trimOne type idx => exact hoffer.elim
  | allocate type reqCapacity sizeIdx => exact hoffer.elim
  | trim => exact hoffer.elim
  | others arena => exact hoffer.elim

/-- In every run, the caches keep to their sizes and regions that are offered to full caches
go back to their chunks if and only if no region is ever offered to a full cache. -/
theorem bounded_iff {trace : List (CachedArena × CacheAction)}
    (h : (machine sc).Run s trace u) (hs : (machine sc).init s) :
    ((∀ t ∈ visited trace u, t.threadCache.Bounded) ∧ ∀ p ∈ trace, p.1.Refuses sc p.2) ↔
      ∀ p ∈ trace, ¬p.1.OffersToFull sc p.2 := by
  have hvisited := h.forall_visited_iff (C := fun s action => ¬s.OffersToFull sc action)
    (I := fun s => s.threadCache.Bounded) (P := fun s => s.threadCache.Bounded) (fun _ h => h)
    (fun _ _ _ hI hC hstep => bounded_next hI hC hstep)
    (fun _ _ _ _ hC hstep => not_bounded_next (not_not.mp hC) hstep)
    (PoolThreadCache.Made.bounded hs)
  rw [hvisited]
  exact ⟨And.left, fun hnot => ⟨hnot, fun p hp hoffer => absurd hoffer (hnot p hp)⟩⟩

/-- Where no cache is full, nothing is offered to a full cache. -/
theorem not_offersToFull (h : ∀ type, ∀ m ∈ s.threadCache.caches type, ¬m.Full)
    (action : CacheAction) : ¬s.OffersToFull sc action := by
  have hnot {type : SizeClassType} {idx : ℕ} : ¬s.FullAt type idx := by
    rintro ⟨m, hm, hfull⟩
    exact h type m (List.mem_of_getElem? hm) hfull
  cases action with
  | add type idx entry => exact hnot
  | free chunk buffer handle normCapacity =>
    cases chunk with
    | pooled id =>
      rintro ⟨idx, -, hfull⟩
      exact hnot hfull
    | unpooled => exact id
  | take type idx reqCapacity => exact id
  | trimOne type idx => exact id
  | allocate type reqCapacity sizeIdx => exact id
  | trim => exact id
  | others arena => exact id

/-- The handle of an element of sixteen bytes in the first page of a chunk. -/
def elementHandle (i : ℕ) : ℕ := (PoolSubpage.construct 0 13 0 8192 16).toHandle i

/-- An arena that has handed out three elements of sixteen bytes, and caches that have just
been made. -/
def threeElements : CachedArena :=
  let sc := PoolConfig.default.sizeClass
  let arena := do
    let (_, t, a) ← PoolArena.empty.tcacheAllocateSmall sc (.new sc) 16 0
    let (_, t, a) ← a.tcacheAllocateSmall sc t 16 0
    let (_, _, a) ← a.tcacheAllocateSmall sc t 16 0
    some a
  ⟨arena.getD .empty, .new sc⟩

/-- The three elements are freed into the cache, two of them are taken from it, one of these
is freed again, and the cache is trimmed. -/
def freedAndTaken : List CacheAction :=
  [.free (.pooled 0) (.pooled 0, 0) (elementHandle 0) 16,
    .free (.pooled 0) (.pooled 0, 0) (elementHandle 1) 16,
    .add .small 0 ⟨⟨0, elementHandle 2, 16⟩, (.pooled 0, 0)⟩,
    .allocate .small 16 0, .take .small 0 16,
    .free (.pooled 0) (.pooled 0, 0) (elementHandle 0) 16, .trim]

/-- The states of that run keep within the size of the cache, which is emptied in the end. -/
theorem bounded_iff_freedAndTaken :
    ∃ u, freedAndTaken.foldlM (next PoolConfig.default.sizeClass) threeElements = some u ∧
      (visited (traceOf (next PoolConfig.default.sizeClass) threeElements freedAndTaken) u).map
        (fun s => ((s.threadCache.caches .small)[0]?).map (·.queue.length)) =
          [some 0, some 1, some 2, some 3, some 2, some 1, some 2, some 0] ∧
      (∀ t ∈ visited (traceOf (next PoolConfig.default.sizeClass) threeElements freedAndTaken) u,
        t.threadCache.Bounded) ∧
      ∀ p ∈ traceOf (next PoolConfig.default.sizeClass) threeElements freedAndTaken,
        p.1.Refuses PoolConfig.default.sizeClass p.2 := by
  have hlengths : (freedAndTaken.foldlM (next PoolConfig.default.sizeClass) threeElements).map
      (fun u => (visited (traceOf (next PoolConfig.default.sizeClass) threeElements
        freedAndTaken) u).map fun s => ((s.threadCache.caches .small)[0]?).map (·.queue.length)) =
      some [some 0, some 1, some 2, some 3, some 2, some 1, some 2, some 0] := by
    decide +kernel
  obtain ⟨u, hrun, hlengths⟩ := Option.map_eq_some_iff.mp hlengths
  have hnone : ∀ p ∈ traceOf (next PoolConfig.default.sizeClass) threeElements freedAndTaken,
      (∀ m ∈ p.1.threadCache.caches .small, m.queue.length < m.size) ∧
        ∀ m ∈ p.1.threadCache.caches .normal, m.queue.length < m.size := by
    decide +kernel
  refine ⟨u, hrun, hlengths, (bounded_iff (.of_foldlM hrun) (PoolThreadCache.made_new _)).mpr ?_⟩
  refine fun p hp => not_offersToFull (fun type m hm => ?_) p.2
  cases type with
  | small => exact ((hnone p hp).1 m hm).not_ge
  | normal => exact ((hnone p hp).2 m hm).not_ge

/-- Regions of one class that are freed one after another all go to the same cache. -/
theorem foldlM_free (hm : (s.threadCache.caches type)[idx]? = some m) {handle : ℕ → ℕ}
    {normCapacity : ℕ} (htype : ∀ i, getSizeClassType (handle i) = type)
    (hidx : PoolThreadCache.cacheFor sc type (sc.size2sizeIdx normCapacity) = some idx)
    (buffer : ℕ → Addr) (n : ℕ) :
    ∃ u m', ((List.range n).map fun i =>
        CacheAction.free (.pooled 0) (buffer i) (handle i) normCapacity).foldlM (next sc) s =
          some u ∧
      (u.threadCache.caches type)[idx]? = some m' ∧ m'.size = m.size ∧
      m'.queue.length = m.queue.length + n := by
  induction n with
  | zero => exact ⟨s, m, rfl, hm, rfl, rfl⟩
  | succ n ih =>
    obtain ⟨u, m', hrun, hm', hsize, hlength⟩ := ih
    obtain ⟨hlt, -⟩ := List.getElem?_eq_some_iff.mp hm'
    obtain ⟨entry, hentry⟩ : ∃ e : Entry, e = ⟨⟨0, handle n, normCapacity⟩, buffer n⟩ := ⟨_, rfl⟩
    have hadd : u.threadCache.add sc (getSizeClassType (handle n)) entry =
        some (u.threadCache.setCache type idx (m'.add entry).2) := by
      rw [htype n, PoolThreadCache.add, hentry, hidx, Option.bind_eq_bind, Option.bind_some, hm']
      rfl
    have hstep : u.next sc (.free (.pooled 0) (buffer n) (handle n) normCapacity) =
        some ⟨u.arena, u.threadCache.setCache type idx (m'.add entry).2⟩ := by
      rw [next, PoolArena.free]
      dsimp only
      rw [if_pos rfl, ← hentry, hadd]
      rfl
    refine ⟨⟨u.arena, u.threadCache.setCache type idx (m'.add entry).2⟩, (m'.add entry).2, ?_, ?_,
      hsize, ?_⟩
    · rw [List.range_succ, List.map_append, List.foldlM_append, hrun, Option.bind_eq_bind,
        Option.bind_some, List.map_singleton, List.foldlM_cons, hstep]
      rfl
    · rw [PoolThreadCache.caches_setCache_self, List.getElem?_set_self hlt]
    · have hadded : (m'.add entry).2.queue.length = m'.queue.length + 1 := List.length_append
      rw [hadded, hlength, add_assoc]

/-- The cache for sixteen bytes has room for 256 of them, and takes 257. -/
theorem not_bounded_elements : ∃ u, ((List.range 257).map fun i =>
      CacheAction.free (.pooled 0) (.pooled 0, 16 * i) (elementHandle i) 16).foldlM
        (next PoolConfig.default.sizeClass) ⟨.empty, .new PoolConfig.default.sizeClass⟩ = some u ∧
    ¬u.threadCache.Bounded := by
  have hidx : PoolConfig.default.sizeClass.size2sizeIdx 16 = 0 := by
    rw [PoolConfig.size2sizeIdx_eq _ (by decide) (by decide)]
    rfl
  have htype (i : ℕ) : getSizeClassType (elementHandle i) = .small := by
    rw [getSizeClassType, PoolChunk.isSubpage_eq_testBit, elementHandle, PoolSubpage.toHandle,
      Nat.testBit_or]
    exact if_pos rfl
  have hcache : (((⟨.empty, .new PoolConfig.default.sizeClass⟩ : CachedArena).threadCache.caches
      .small)[0]?) = some (.new defaultSmallCacheSize) := by
    refine (List.getElem?_replicate ..).trans (if_pos ?_)
    rw [PoolConfig.nSubpages_sizeClass]
    decide
  obtain ⟨u, m', hrun, hm', hsize, hlength⟩ := foldlM_free hcache htype
    (congrArg some hidx) (fun i => (.pooled 0, 16 * i)) 257
  refine ⟨u, hrun, fun hbounded => ?_⟩
  have hle := hbounded .small m' (List.mem_of_getElem? hm')
  rw [MemoryRegionCache.Bounded, hsize, hlength] at hle
  exact absurd hle (by decide)

end CachedArena

end DuoDuo.Buffer
