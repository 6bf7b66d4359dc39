import DuoDuo.Buffer.CacheProgress

/-!
# The capacity of a new buffer

A request that fits into a chunk gets a buffer of the length that was asked for. A larger
one gets a chunk of its own, of the normal size, which is rounded up to a number with
three significant bits and may exceed the capacity that the caller allows, or the range
of an `int`.
-/

namespace DuoDuo.Buffer

open Library PoolArena

/-- The normal size of a request: the rung above its number of sixteen bytes. -/
def roundUp (size : ℕ) : ℕ := 16 * ladder (ladderIdx ((size - 1) / 16 + 1))

/-- The normal size is not below the request. -/
theorem le_roundUp (size : ℕ) : size ≤ roundUp size := by
  have hrung := (ladderIdx_spec (show 0 < (size - 1) / 16 + 1 by omega)).1
  rw [roundUp]
  omega

/-- A rung is a number below nine, shifted. -/
theorem exists_shift_eq_ladder (i : ℕ) : ∃ m e, m ≤ 8 ∧ ladder i = m * 2 ^ e := by
  rcases Nat.lt_or_ge i 4 with hi | hi
  · exact ⟨i + 1, 0, by omega, by rw [ladder_of_lt hi, pow_zero, mul_one]⟩
  · obtain ⟨g, m, hm, rfl⟩ := exists_group hi
    exact ⟨m + 5, g, by omega, by rw [ladder_group g m hm, mul_comm]⟩

/-- The normal size is a number below nine, shifted. -/
theorem exists_shift_eq_roundUp (size : ℕ) : ∃ m e, m ≤ 8 ∧ roundUp size = m * 2 ^ e := by
  obtain ⟨m, e, hm, he⟩ := exists_shift_eq_ladder (ladderIdx ((size - 1) / 16 + 1))
  exact ⟨m, e + 4, hm, by rw [roundUp, he, pow_add]; ring⟩

/-- The first eight rungs are the first numbers. -/
theorem ladder_pred {m : ℕ} (hpos : 0 < m) (hm : m ≤ 8) : ladder (m - 1) = m := by
  interval_cases m <;> decide

/-- The normal size is the least of these numbers that is not below the request. -/
theorem roundUp_le {size m e : ℕ} (hsize : 2 ^ 24 < size) (hm : m ≤ 8) (hle : size ≤ m * 2 ^ e) :
    roundUp size ≤ m * 2 ^ e := by
  have hexp : 21 < e := by
    by_contra hlt
    have hpow : 2 ^ e ≤ 2 ^ 21 := Nat.pow_le_pow_right (by decide) (by omega)
    have hmul := Nat.mul_le_mul hm hpow
    omega
  have hpos : 0 < m := Nat.pos_of_ne_zero (by rintro rfl; omega)
  obtain ⟨d, rfl⟩ : ∃ d, e = d + 4 := ⟨e - 4, by omega⟩
  obtain ⟨i, hi⟩ := exists_ladder_eq_mul d (m - 1) (by omega)
  rw [ladder_pred hpos hm] at hi
  have hscale : m * 2 ^ (d + 4) = 16 * ladder i := by
    rw [hi, pow_add]
    ring
  rw [hscale] at hle ⊢
  have hidx := (ladderIdx_le_iff (show 0 < (size - 1) / 16 + 1 by omega) i).mpr (by omega)
  exact Nat.mul_le_mul_left 16 (ladder_strictMono.monotone hidx)

/-- The normal size of an `int` is at most the first number beyond its range. -/
theorem roundUp_le_two_pow {size : ℕ} (hmax : size < 2 ^ 31) : roundUp size ≤ 2 ^ 31 := by
  have hrung := ladder_two_pow 27
  have hidx := (ladderIdx_le_iff (show 0 < (size - 1) / 16 + 1 by omega) (ladderIdx (2 ^ 27))).mpr
    (by rw [hrung]; omega)
  have hle := ladder_strictMono.monotone hidx
  rw [hrung] at hle
  rw [roundUp]
  omega

variable {k : PoolConfig}

/-- `normalizeSize` computes the normal size within the range of an `int`. -/
theorem normalizeSize_eq {size : ℕ} (hlt : k.chunkSize < size) (hmax : size < 2 ^ 31) :
    k.sizeClass.normalizeSize size = (roundUp size : ℤ).bmod (2 ^ 32) := by
  have hchunk : 2 ^ 12 ≤ k.chunkSize :=
    Nat.pow_le_pow_right (by decide) (k.minPageSize.trans (Nat.le_add_right _ _))
  obtain ⟨x, hx⟩ : ∃ x, x = Nat.log2 (2 * size - 1) := ⟨_, rfl⟩
  have hlog : MathUtils.log2 (size <<< 1 - 1) = x := by
    rw [show size <<< 1 - 1 = 2 * size - 1 by rw [Nat.shiftLeft_eq]; omega, hx]
    exact MathUtils.log2_eq (by omega) (by omega)
  have hround := ladder_eq_shift (q := 4) (by omega) hx
  rw [SizeClass.normalizeSize, if_neg (by omega), k.searchMaxSize_sizeClass, if_neg (by omega)]
  unfold SizeClass.normalizeSizeCompute
  simp only [hlog]
  rw [Nat.shiftRight_eq_div_pow, Nat.shiftLeft_eq, Nat.shiftLeft_eq, one_mul, roundUp]
  exact congrArg (fun n : ℕ => (n : ℤ).bmod (2 ^ 32)) hround

/-- The normal size of a request that fits into no chunk, while it is an `int`. -/
theorem normalizeSize_of_lt {size : ℕ} (hlt : k.chunkSize < size) (hmax : size < 2 ^ 31)
    (hint : roundUp size < 2 ^ 31) : k.sizeClass.normalizeSize size = roundUp size := by
  rw [normalizeSize_eq hlt hmax, Int.bmod_eq_of_le (by omega) (by omega)]

/-- A normal size beyond the range of an `int` becomes negative. -/
theorem normalizeSize_of_eq {size : ℕ} (hlt : k.chunkSize < size) (hmax : size < 2 ^ 31)
    (hover : roundUp size = 2 ^ 31) : k.sizeClass.normalizeSize size < 0 := by
  rw [normalizeSize_eq hlt hmax, hover]
  decide

/-- `poolBuffer` of the running thread, where `nullptr` is `none` and a failure has no
result. -/
def Heap.poolBuffer (sc : SizeClass) (h : Heap) (initCapacity maxCapacity : ℤ) :
    Option (Option PoolByteBuf × Heap) :=
  if initCapacity = 0 ∧ maxCapacity = 0 then some (none, h)
  else if 0 ≤ initCapacity ∧ initCapacity ≤ maxCapacity then do
    let (buf, h) ← h.allocate sc initCapacity.toNat maxCapacity.toNat
    some (some buf, h)
  else none

/-- `poolBuffer` returns a buffer whose capacity is not below the request and neither
exceeds the maximum capacity nor the bytes that the buffer has. -/
def Heap.BoundsCapacity (sc : SizeClass) (h : Heap) (initCapacity maxCapacity : ℤ) : Prop :=
  ∃ buf h', h.poolBuffer sc initCapacity maxCapacity = some (some buf, h') ∧
    initCapacity ≤ buf.length ∧ buf.length ≤ buf.maxCapacity ∧ buf.length ≤ buf.maxLength

namespace Client

/-- The buffers and the cache hold regions of classes, and all chunks are placed. -/
structure Orderly (k : PoolConfig) (s : Client) : Prop where
  inv : Inv k s
  placed : Placed k s.heap.arena
  filed : s.heap.threadCache.Filed k
  classed : ∀ buf, some buf ∈ s.buffers → buf.toRegion.Classed k

theorem orderly_init (k : PoolConfig) (memory : Memory) : Orderly k (init k.sizeClass memory) where
  inv := inv_init k memory
  placed := (ChunkLists.inv_empty k).placed
  filed := PoolThreadCache.filed_new k
  classed := fun _ hbuf => by cases hbuf

/-- A buffer in one of the slots of the client. -/
theorem classed_set {buffers : List (Option PoolByteBuf)} {i : ℕ} {slot : Option PoolByteBuf}
    (hclass : ∀ buf, some buf ∈ buffers → buf.toRegion.Classed k)
    (hslot : ∀ buf, slot = some buf → buf.toRegion.Classed k) (buf : PoolByteBuf)
    (hbuf : some buf ∈ buffers.set i slot) : buf.toRegion.Classed k := by
  rcases List.mem_or_eq_of_mem_set hbuf with h | h
  · exact hclass buf h
  · exact hslot buf h.symm

/-- Every call keeps the client orderly. -/
theorem Orderly.next (hcarve : k.Carvable) {s s' : Client} {call : Call} (h : Orderly k s)
    (hstep : next k.sizeClass s call = some s') : Orderly k s' := by
  have hinv := h.inv.next hstep
  obtain ⟨⟨⟨leaked, howns⟩, _⟩, hplaced, hfiled, hclass⟩ := h
  cases call with
  | allocate reqCapacity maxCapacity =>
    obtain ⟨⟨buf, heap⟩, halloc, hrest⟩ := Option.bind_eq_some_iff.mp hstep
    obtain ⟨⟨region, t, a⟩, hregion, hbuf⟩ := Option.bind_eq_some_iff.mp halloc
    cases hbuf
    cases hrest
    obtain ⟨hplaced', hfiled', hregionClass⟩ := hplaced.allocate howns hfiled hcarve hregion
    refine ⟨hinv, hplaced', hfiled', fun buf hbuf => ?_⟩
    rcases List.mem_append.mp hbuf with h | h
    · exact hclass buf h
    · cases List.mem_singleton.mp h
      exact hregionClass
  | reallocate i newCapacity freeOldMemory =>
    obtain ⟨buf, hbuf, hrest⟩ := Option.bind_eq_some_iff.mp hstep
    obtain ⟨⟨buf', heap⟩, hrealloc, hrest⟩ := Option.bind_eq_some_iff.mp hrest
    cases hrest
    have hold : buf.toRegion.Classed k :=
      hclass buf (List.mem_of_getElem? (Option.join_eq_some_iff.mp hbuf))
    obtain ⟨_, ⟨_, rfl, rfl⟩ | ⟨region, t, a, _, halloc, rfl, _, hfree⟩⟩ :=
      Heap.reallocate_cases hrealloc
    · exact ⟨hinv, hplaced, hfiled, classed_set hclass (by rintro _ ⟨⟩; exact hold)⟩
    · obtain ⟨hplaced₁, hfiled₁, hregionClass⟩ := hplaced.allocate howns hfiled hcarve halloc
      have hmoved := grants_set hbuf (some (buf.moveTo region newCapacity)) leaked
      rw [Option.elim_some, PoolByteBuf.toRegion_moveTo] at hmoved
      have howns₁ := (allocate_placed howns halloc).2.perm (hmoved.append_left _)
      have hclass' : ∀ b, some b ∈ s.buffers.set i (some (buf.moveTo region newCapacity)) →
          b.toRegion.Classed k :=
        classed_set hclass (by rintro _ ⟨⟩; rw [PoolByteBuf.toRegion_moveTo]; exact hregionClass)
      split at hfree
      · obtain ⟨hplaced', hfiled'⟩ := hplaced₁.free howns₁ hfiled₁ hold hfree
        exact ⟨hinv, hplaced', hfiled', hclass'⟩
      · obtain ⟨ht, ha⟩ := hfree
        exact ⟨hinv, ha ▸ hplaced₁, ht ▸ hfiled₁, hclass'⟩
  | free i cache =>
    obtain ⟨buf, hbuf, hrest⟩ := Option.bind_eq_some_iff.mp hstep
    obtain ⟨heap, hheap, hrest⟩ := Option.bind_eq_some_iff.mp hrest
    obtain ⟨⟨t, a⟩, hfree, hheap⟩ := Option.bind_eq_some_iff.mp hheap
    cases hheap
    cases hrest
    have hold : buf.toRegion.Classed k :=
      hclass buf (List.mem_of_getElem? (Option.join_eq_some_iff.mp hbuf))
    obtain ⟨hplaced', hfiled'⟩ :=
      hplaced.free (howns.perm ((grants_set hbuf none leaked).append_left _)) hfiled hold hfree
    exact ⟨hinv, hplaced', hfiled', classed_set hclass (by rintro _ ⟨⟩)⟩

/-- The client is orderly after every sequence of calls. -/
theorem orderly_of_reachable (hcarve : k.Carvable) {s : Client} (hs : (machine k).Reachable s) :
    Orderly k s := by
  refine hs.invariant ?_ fun s call t h hstep => h.next hcarve hstep
  rintro _ ⟨memory, rfl⟩
  exact orderly_init k memory

variable {s : Client}

/-- A request that fits into a chunk gets a buffer of the length that was asked for. -/
theorem Orderly.allocate_of_le (h : Orderly k s) (hcarve : k.Carvable) {reqCapacity : ℕ}
    (hle : reqCapacity ≤ k.chunkSize) (maxCapacity : ℕ) :
    ∃ buf h', s.heap.allocate k.sizeClass reqCapacity maxCapacity = some (buf, h') ∧
      buf.maxCapacity = maxCapacity ∧ buf.length = reqCapacity ∧ reqCapacity ≤ buf.maxLength := by
  obtain ⟨⟨leaked, howns⟩, _⟩ := h.inv
  obtain ⟨r, t', a', halloc, _, _, hfits⟩ := h.placed.allocate_total howns h.filed hcarve hle
  obtain ⟨g, _, _, hmax, hof⟩ := hfits.grant
  refine ⟨.newInstance maxCapacity r, ⟨a', t', s.heap.memory⟩, ?_, rfl, hfits.length, ?_⟩
  · rw [Heap.allocate, halloc]
    rfl
  · change reqCapacity ≤ r.maxLength
    rw [hmax, hof.normCapacity]
    exact (k.size2sizeIdx_spec hle).2

/-- A request that fits into no chunk gets a buffer of the normal size, while that is an
`int`. -/
theorem allocate_of_lt (h : Heap) {reqCapacity : ℕ} (hlt : k.chunkSize < reqCapacity)
    (hmax : reqCapacity < 2 ^ 31) (maxCapacity : ℕ) :
    (roundUp reqCapacity < 2 ^ 31 ∧ ∃ buf h',
      h.allocate k.sizeClass reqCapacity maxCapacity = some (buf, h') ∧
        buf.maxCapacity = maxCapacity ∧ buf.length = roundUp reqCapacity ∧
        buf.maxLength = roundUp reqCapacity) ∨
      (roundUp reqCapacity = 2 ^ 31 ∧ h.allocate k.sizeClass reqCapacity maxCapacity = none) := by
  rw [Heap.allocate, allocate_huge h.arena h.threadCache hlt]
  rcases (roundUp_le_two_pow hmax).lt_or_eq with hint | hover
  · refine Or.inl ⟨hint, .newInstance maxCapacity (.initUnpool h.arena.nextUnpooled
      (roundUp reqCapacity)), { h with arena := h.arena.newUnpoolChunk (roundUp reqCapacity) }, ?_,
      rfl, rfl, rfl⟩
    rw [normalizeSize_of_lt hlt hmax hint, allocateHuge, if_pos (Int.natCast_nonneg _),
      Int.toNat_natCast]
    rfl
  · refine Or.inr ⟨hover, ?_⟩
    rw [allocateHuge, if_neg (not_le.mpr (normalizeSize_of_eq hlt hmax hover))]
    rfl

/-- After every sequence of calls, and for all capacities of an `int`, a new buffer has a
capacity between the two exactly when the request fits into a chunk, or when a number
below nine, shifted, lies between the two. -/
theorem boundsCapacity_iff (hs : (machine .default).Reachable s) {initCapacity maxCapacity : ℤ}
    (hinit : 0 ≤ initCapacity) (hle : initCapacity ≤ maxCapacity) (hmax : maxCapacity ≤ 2 ^ 31 - 1)
    (hzero : ¬(initCapacity = 0 ∧ maxCapacity = 0)) :
    s.heap.BoundsCapacity PoolConfig.default.sizeClass initCapacity maxCapacity ↔
      initCapacity ≤ 2 ^ 24 ∨
        ∃ m e : ℕ, m ≤ 8 ∧ initCapacity ≤ m * 2 ^ e ∧ (m * 2 ^ e : ℤ) ≤ maxCapacity := by
  obtain ⟨size, rfl⟩ := Int.eq_ofNat_of_zero_le hinit
  obtain ⟨bound, rfl⟩ := Int.eq_ofNat_of_zero_le (hinit.trans hle)
  have hchunk : PoolConfig.default.chunkSize = 2 ^ 24 := rfl
  have hcall : s.heap.poolBuffer PoolConfig.default.sizeClass size bound =
      (s.heap.allocate PoolConfig.default.sizeClass size bound).map fun p => (some p.1, p.2) := by
    rw [Heap.poolBuffer, if_neg hzero, if_pos ⟨hinit, hle⟩, Int.toNat_natCast, Int.toNat_natCast]
    cases s.heap.allocate PoolConfig.default.sizeClass size bound <;> rfl
  rw [Heap.BoundsCapacity, hcall]
  rcases Nat.lt_or_ge (2 ^ 24) size with hlt | hfits
  · have hlarge : ¬(size : ℤ) ≤ 2 ^ 24 := by omega
    have hrange : size < 2 ^ 31 := by omega
    rw [or_iff_right hlarge]
    rcases allocate_of_lt s.heap (hchunk ▸ hlt) hrange bound with
      ⟨_, buf, h', halloc, hcap, hlength, hbytes⟩ | ⟨hover, halloc⟩
    · rw [halloc]
      constructor
      · rintro ⟨_, _, ⟨⟩, _, hcapacity, _⟩
        obtain ⟨m, e, hm, hround⟩ := exists_shift_eq_roundUp size
        have hlow := le_roundUp size
        rw [hlength, hcap, hround] at hcapacity
        rw [hround] at hlow
        exact ⟨m, e, hm, by exact_mod_cast hlow, by exact_mod_cast hcapacity⟩
      · rintro ⟨m, e, hm, hlow, hhigh⟩
        have hround := roundUp_le hlt hm (by exact_mod_cast hlow)
        have hbound : m * 2 ^ e ≤ bound := by exact_mod_cast hhigh
        refine ⟨buf, h', rfl, ?_, ?_, ?_⟩
        · rw [hlength]
          exact_mod_cast le_roundUp size
        · rw [hlength, hcap]
          exact hround.trans hbound
        · rw [hlength, hbytes]
    · rw [halloc]
      constructor
      · rintro ⟨_, _, ⟨⟩, _⟩
      · rintro ⟨m, e, hm, hlow, hhigh⟩
        have hround := roundUp_le hlt hm (by exact_mod_cast hlow)
        have hbound : m * 2 ^ e ≤ bound := by exact_mod_cast hhigh
        omega
  · obtain ⟨buf, h', halloc, hcap, hlength, hbytes⟩ :=
      (orderly_of_reachable PoolConfig.carvable_default hs).allocate_of_le
        PoolConfig.carvable_default (hchunk ▸ hfits) bound
    rw [halloc]
    refine iff_of_true ⟨buf, h', rfl, ?_, ?_, ?_⟩ (Or.inl (by exact_mod_cast hfits))
    · rw [hlength]
    · rw [hlength, hcap]
      exact_mod_cast hle
    · rw [hlength]
      exact hbytes

theorem boundsCapacity_iff_fewCalls :
    afterFewCalls.heap.BoundsCapacity PoolConfig.default.sizeClass 20000000 20971520 := by
  have hs : (machine .default).Reachable afterFewCalls :=
    .of_foldlM (.of_init ⟨_, rfl⟩) afterFewCalls_eq
  exact (boundsCapacity_iff hs (by decide) (by decide) (by decide) (by decide)).mpr
    (Or.inr ⟨5, 22, by decide, by decide, by decide⟩)

/-- A request of one byte more than a chunk has gets more than it may have. -/
theorem not_boundsCapacity :
    ¬(init PoolConfig.default.sizeClass fun _ => 0).heap.BoundsCapacity
      PoolConfig.default.sizeClass 16777217 16777217 := by
  have hlength : ((init PoolConfig.default.sizeClass fun _ => 0).heap.poolBuffer
      PoolConfig.default.sizeClass 16777217 16777217).map
        (fun p => p.1.map fun buf => (buf.length, buf.maxCapacity)) =
          some (some (20971520, 16777217)) := by
    decide +kernel
  rintro ⟨buf, h', hcall, _, hcapacity, _⟩
  rw [hcall] at hlength
  have hpair : (buf.length, buf.maxCapacity) = (20971520, 16777217) :=
    Option.some.inj (Option.some.inj hlength)
  rw [Prod.mk.injEq] at hpair
  omega

end Client

end DuoDuo.Buffer
