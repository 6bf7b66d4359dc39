import DuoDuo.Buffer.ChunkRegions
import DuoDuo.Library.Machine

/-!
# Chunks, pools and the regions handed out

The chunks of an arena share the pools of subpages. The invariant says that the
regions in use are exactly the ones that were handed out and not given back.
-/

namespace DuoDuo.Buffer

open Library PoolChunk PoolSubpage

/-- A region that is handed out: its chunk, its handle and the size it is kept under. -/
@[ext]
structure Grant where
  chunk : ℕ
  handle : ℕ
  normCapacity : ℕ
  deriving DecidableEq, Repr

/-- The chunks of an arena and the pools they share. -/
structure ChunkStore where
  chunks : ℕ → Option PoolChunk
  nextChunk : ℕ
  pools : Pools

namespace ChunkStore

/-- The store before the first chunk. -/
def empty : ChunkStore := ⟨fun _ => none, 0, fun _ => []⟩

/-- A chunk and the pools after one of its operations. -/
def setChunk (s : ChunkStore) (id : ℕ) (c : PoolChunk) (pools : Pools) : ChunkStore :=
  { s with chunks := Function.update s.chunks id (some c), pools }

/-- `newChunk`. -/
def newChunk (sc : SizeClass) (s : ChunkStore) : ChunkStore :=
  { s with
    chunks := Function.update s.chunks s.nextChunk (some (PoolChunk.new sc))
    nextChunk := s.nextChunk + 1 }

/-- `destroyChunk`. -/
def destroyChunk (s : ChunkStore) (id : ℕ) : ChunkStore :=
  { s with chunks := Function.update s.chunks id none }

/-- `allocateRun` of a chunk. -/
def allocateRun (sc : SizeClass) (s : ChunkStore) (id runSize : ℕ) :
    Option (Option ℕ × ChunkStore) := do
  let c ← s.chunks id
  let (handle, c) ← c.allocateRun sc runSize
  some (handle, s.setChunk id c s.pools)

/-- `allocateSubpage` of a chunk. -/
def allocateSubpage (sc : SizeClass) (s : ChunkStore) (id sizeIdx : ℕ) :
    Option (Option ℕ × ChunkStore) := do
  let c ← s.chunks id
  let (handle, c, pools) ← c.allocateSubpage sc id s.pools sizeIdx
  some (handle, s.setChunk id c pools)

/-- An element of the first subpage of a pool, as `tcacheAllocateSmall` takes it. -/
def allocatePooled (sc : SizeClass) (s : ChunkStore) (sizeIdx : ℕ) :
    Option (Option (ℕ × ℕ) × ChunkStore) :=
  match s.pools sizeIdx with
  | [] => some (none, s)
  | ref :: _ => do
    let c ← s.chunks ref.1
    let sp ← c.subpages ref.2
    if sp.dontRelease ∧ sp.elemSize = sc.sizeIdx2size sizeIdx then
      let (handle, sp, pools) ← sp.allocate s.pools
      let handle ← handle
      some (some (ref.1, handle), s.setChunk ref.1 (c.setSubpage ref.2 (some sp)) pools)
    else none

/-- `free` of a chunk. -/
def free (sc : SizeClass) (s : ChunkStore) (g : Grant) (buffer : Option Addr) :
    Option ChunkStore := do
  let c ← s.chunks g.chunk
  let (c, pools) ← c.free sc s.pools g.handle g.normCapacity buffer
  some (s.setChunk g.chunk c pools)

@[simp] theorem chunks_setChunk_self (s : ChunkStore) (id : ℕ) (c : PoolChunk) (pools : Pools) :
    (s.setChunk id c pools).chunks id = some c :=
  Function.update_self _ _ _

theorem chunks_setChunk_of_ne (s : ChunkStore) {id id' : ℕ} (h : id' ≠ id) (c : PoolChunk)
    (pools : Pools) : (s.setChunk id c pools).chunks id' = s.chunks id' :=
  Function.update_of_ne h _ _

@[simp] theorem chunks_newChunk_self (sc : SizeClass) (s : ChunkStore) :
    (s.newChunk sc).chunks s.nextChunk = some (PoolChunk.new sc) :=
  Function.update_self _ _ _

theorem chunks_newChunk_of_ne (sc : SizeClass) (s : ChunkStore) {id : ℕ} (h : id ≠ s.nextChunk) :
    (s.newChunk sc).chunks id = s.chunks id :=
  Function.update_of_ne h _ _

@[simp] theorem chunks_destroyChunk_self (s : ChunkStore) (id : ℕ) :
    (s.destroyChunk id).chunks id = none :=
  Function.update_self _ _ _

theorem chunks_destroyChunk_of_ne (s : ChunkStore) {id id' : ℕ} (h : id' ≠ id) :
    (s.destroyChunk id).chunks id' = s.chunks id' :=
  Function.update_of_ne h _ _

/-- The pool in which a subpage is linked. -/
def link (s : ChunkStore) (ref : SubpageRef) : Option ℕ :=
  (s.chunks ref.1).bind fun c => (c.subpages ref.2).bind PoolSubpage.pool

end ChunkStore

/-- The chunks, the pools and the regions handed out agree. -/
structure StoreInv (k : PoolConfig) (s : ChunkStore) (blocks : ℕ → ℕ → Option ℕ)
    (owned : List Grant) : Prop where
  chunk : ∀ {id c}, s.chunks id = some c → ChunkInv k id c (blocks id)
  fresh : ∀ {id c}, s.chunks id = some c → id < s.nextChunk
  pools : PoolsMatch s.link s.pools
  owned_iff : ∀ g, g ∈ owned ↔
    ∃ c, s.chunks g.chunk = some c ∧ Holds k c (blocks g.chunk) g.handle g.normCapacity
  nodup : owned.Nodup

variable {k : PoolConfig} {s s' : ChunkStore} {blocks : ℕ → ℕ → Option ℕ} {owned : List Grant}

/-- There is nothing in the empty store. -/
theorem storeInv_empty (k : PoolConfig) (blocks : ℕ → ℕ → Option ℕ) :
    StoreInv k .empty blocks [] where
  chunk := by rintro id c ⟨⟩
  fresh := by rintro id c ⟨⟩
  pools := ⟨fun i ref => by simp [ChunkStore.empty, ChunkStore.link], fun _ => List.nodup_nil⟩
  owned_iff := fun g => by simp [ChunkStore.empty]
  nodup := List.nodup_nil

/-- The order of the regions handed out does not matter. -/
theorem StoreInv.perm (h : StoreInv k s blocks owned) {owned' : List Grant}
    (hperm : owned.Perm owned') : StoreInv k s blocks owned' where
  chunk := h.chunk
  fresh := h.fresh
  pools := h.pools
  owned_iff := fun g => by rw [← hperm.mem_iff, h.owned_iff]
  nodup := hperm.nodup_iff.mp h.nodup

/-- The rule of all operations on one chunk. -/
theorem StoreInv.setChunk (h : StoreInv k s blocks owned) {id : ℕ} {c c' : PoolChunk}
    {pools : Pools} {blocks' : ℕ → Option ℕ} {link' : SubpageRef → Option ℕ}
    {owned' : List Grant} (hid : s.chunks id = some c) (hc : ChunkInv k id c' blocks')
    (hpools : PoolsMatch link' pools)
    (hlink : ∀ o, link' (id, o) = (c'.subpages o).bind PoolSubpage.pool)
    (hother : ∀ ref : SubpageRef, ref.1 ≠ id → link' ref = s.link ref)
    (howned : ∀ g, g ∈ owned' ↔
      if g.chunk = id then Holds k c' blocks' g.handle g.normCapacity else g ∈ owned)
    (hnodup : owned'.Nodup) :
    StoreInv k (s.setChunk id c' pools) (Function.update blocks id blocks') owned' where
  chunk := by
    intro id' c₁ hc₁
    by_cases hne : id' = id
    · rw [hne, ChunkStore.chunks_setChunk_self] at hc₁
      cases hc₁
      rw [hne, Function.update_self]
      exact hc
    · rw [ChunkStore.chunks_setChunk_of_ne s hne] at hc₁
      rw [Function.update_of_ne hne]
      exact h.chunk hc₁
  fresh := by
    intro id' c₁ hc₁
    by_cases hne : id' = id
    · rw [hne]
      exact h.fresh hid
    · rw [ChunkStore.chunks_setChunk_of_ne s hne] at hc₁
      exact h.fresh hc₁
  pools := by
    have hsame : (s.setChunk id c' pools).link = link' := by
      funext ref
      by_cases hne : ref.1 = id
      · obtain ⟨id', o⟩ := ref
        obtain rfl : id' = id := hne
        rw [hlink, ChunkStore.link, ChunkStore.chunks_setChunk_self, Option.bind_some]
      · rw [hother ref hne, ChunkStore.link, ChunkStore.link,
          ChunkStore.chunks_setChunk_of_ne s hne]
    rw [hsame]
    exact hpools
  owned_iff := by
    intro g
    rw [howned]
    by_cases hne : g.chunk = id
    · rw [if_pos hne, hne, ChunkStore.chunks_setChunk_self, Function.update_self]
      constructor
      · intro hholds
        exact ⟨c', rfl, hholds⟩
      · rintro ⟨c₁, heq, hholds⟩
        cases heq
        exact hholds
    · rw [if_neg hne, h.owned_iff, ChunkStore.chunks_setChunk_of_ne s hne,
        Function.update_of_ne hne]
  nodup := hnodup

/-- An operation that hands out one more region of a chunk. -/
theorem StoreInv.handOut (h : StoreInv k s blocks owned) {id handle cap : ℕ} {c c' : PoolChunk}
    {pools : Pools} {blocks' : ℕ → Option ℕ} {link' : SubpageRef → Option ℕ}
    (hid : s.chunks id = some c) (hc : ChunkInv k id c' blocks') (hpools : PoolsMatch link' pools)
    (hlink : ∀ o, link' (id, o) = (c'.subpages o).bind PoolSubpage.pool)
    (hother : ∀ ref : SubpageRef, ref.1 ≠ id → link' ref = s.link ref)
    (hholds : ∀ h cap', Holds k c' blocks' h cap' ↔
      Holds k c (blocks id) h cap' ∨ (h = handle ∧ cap' = cap))
    (hfresh : ¬Holds k c (blocks id) handle cap) :
    StoreInv k (s.setChunk id c' pools) (Function.update blocks id blocks')
      (⟨id, handle, cap⟩ :: owned) := by
  have hmem : ∀ h cap', (⟨id, h, cap'⟩ : Grant) ∈ owned ↔ Holds k c (blocks id) h cap' := by
    intro h' cap'
    rw [h.owned_iff]
    constructor
    · rintro ⟨c₁, hc₁, hold⟩
      rw [hid] at hc₁
      cases hc₁
      exact hold
    · intro hold
      exact ⟨c, hid, hold⟩
  refine h.setChunk hid hc hpools hlink hother (fun g => ?_) ?_
  · obtain ⟨id', h', cap'⟩ := g
    rw [List.mem_cons]
    by_cases hne : id' = id
    · subst hne
      rw [if_pos rfl, hholds, hmem]
      simp only [Grant.mk.injEq, true_and]
      tauto
    · rw [if_neg hne]
      simp [hne]
  · rw [List.nodup_cons, hmem]
    exact ⟨hfresh, h.nodup⟩

/-- In a chunk that is one available run, nothing is in use. -/
theorem not_holds_of_single {c : PoolChunk} {id : ℕ} {bs : ℕ → Option ℕ} {run : ℕ}
    (hc : ChunkInv k id c bs) (hfree : isUsed run = false)
    (hsingle : ∀ o, bs o = if o = 0 then some run else none) (handle cap : ℕ) :
    ¬Holds k c bs handle cap := by
  intro hholds
  obtain ⟨run', hb, hused, _⟩ := hholds.block hc
  rw [hsingle] at hb
  split_ifs at hb
  cases hb
  rw [hfree] at hused
  cases hused

/-- A new chunk carries no subpage and no pointer, and is in no list. -/
theorem new_rest (k : PoolConfig) :
    (PoolChunk.new k.sizeClass).subpages = (fun _ => none) ∧
      (PoolChunk.new k.sizeClass).cachedBuffers = [] ∧
      (PoolChunk.new k.sizeClass).offset = 0 ∧ (PoolChunk.new k.sizeClass).parent = none ∧
      (PoolChunk.new k.sizeClass).freeBytes = k.chunkSize := by
  obtain ⟨hrest, hbytes⟩ := sameRest_insertAvailRun k.sizeClass
    { runsAvailMap := fun _ => none
      runsAvail := fun _ => []
      subpages := fun _ => none
      cachedBuffers := []
      offset := 0
      freeBytes := k.sizeClass.chunkSize
      parent := none } 0 (k.sizeClass.chunkSize >>> k.sizeClass.pageShifts)
    ((k.sizeClass.chunkSize >>> k.sizeClass.pageShifts) <<< 34)
  exact ⟨hrest.subpages, hrest.cachedBuffers, hrest.offset, hrest.parent,
    hbytes.trans (by rw [k.chunkSize_sizeClass])⟩

/-- A new chunk satisfies the invariant. -/
theorem chunkInv_new (k : PoolConfig) (id : ℕ) :
    ChunkInv k id (PoolChunk.new k.sizeClass)
      (fun o => if o = 0 then some (toRunHandle 0 k.chunkPages 0) else none) := by
  obtain ⟨hsubs, _, hoff, _⟩ := new_rest k
  refine ⟨runs_new k, hoff, fun o sp hsp => ?_⟩
  rw [hsubs] at hsp
  cases hsp

/-- The next chunk is not there yet. -/
theorem StoreInv.chunks_nextChunk (h : StoreInv k s blocks owned) :
    s.chunks s.nextChunk = none := by
  rcases hc : s.chunks s.nextChunk with _ | c
  · rfl
  · exact absurd (h.fresh hc) (lt_irrefl _)

/-- `newChunk` adds a chunk in which nothing is in use. -/
theorem StoreInv.newChunk (h : StoreInv k s blocks owned) :
    StoreInv k (s.newChunk k.sizeClass) (Function.update blocks s.nextChunk
      (fun o => if o = 0 then some (toRunHandle 0 k.chunkPages 0) else none)) owned := by
  have hnew := chunkInv_new k s.nextChunk
  obtain ⟨hsubs, _⟩ := new_rest k
  have hmax := k.chunkPages_lt
  have hnone := h.chunks_nextChunk
  have hfree : isUsed (toRunHandle 0 k.chunkPages 0) = false := by
    rw [isUsed_toRunHandle (by omega) (by omega)]
    rfl
  constructor
  · intro id c hc
    by_cases hne : id = s.nextChunk
    · rw [hne, ChunkStore.chunks_newChunk_self] at hc
      cases hc
      rw [hne, Function.update_self]
      exact hnew
    · rw [ChunkStore.chunks_newChunk_of_ne _ s hne] at hc
      rw [Function.update_of_ne hne]
      exact h.chunk hc
  · intro id c hc
    by_cases hne : id = s.nextChunk
    · rw [hne]
      exact Nat.lt_succ_self _
    · rw [ChunkStore.chunks_newChunk_of_ne _ s hne] at hc
      exact (h.fresh hc).trans (Nat.lt_succ_self _)
  · have hsame : (s.newChunk k.sizeClass).link = s.link := by
      funext ref
      rw [ChunkStore.link, ChunkStore.link]
      by_cases hne : ref.1 = s.nextChunk
      · rw [hne, ChunkStore.chunks_newChunk_self, hnone, Option.bind_some, hsubs]
        rfl
      · rw [ChunkStore.chunks_newChunk_of_ne _ s hne]
    rw [hsame]
    exact h.pools
  · intro g
    rw [h.owned_iff]
    by_cases hne : g.chunk = s.nextChunk
    · rw [hne, hnone, ChunkStore.chunks_newChunk_self, Function.update_self]
      constructor
      · rintro ⟨c, hc, _⟩
        cases hc
      · rintro ⟨c, hc, hholds⟩
        cases hc
        exact absurd hholds (not_holds_of_single hnew hfree (fun _ => rfl) _ _)
    · rw [ChunkStore.chunks_newChunk_of_ne _ s hne, Function.update_of_ne hne]
  · exact h.nodup

/-- `allocateRun` hands out a run of the chunk, or changes nothing. -/
theorem StoreInv.allocateRun (h : StoreInv k s blocks owned) {id runSize : ℕ} {r : Option ℕ}
    (hstep : s.allocateRun k.sizeClass id runSize = some (r, s')) :
    ∃ blocks', match r with
      | none => StoreInv k s' blocks' owned
      | some handle => StoreInv k s' blocks'
          (⟨id, handle, PoolChunk.runSize k.pageShifts handle⟩ :: owned) := by
  unfold ChunkStore.allocateRun at hstep
  obtain ⟨c, hid, hstep⟩ := Option.bind_eq_some_iff.mp hstep
  obtain ⟨⟨r', c'⟩, hrun, hstep⟩ := Option.bind_eq_some_iff.mp hstep
  cases hstep
  cases r with
  | none =>
    have hsame : s.setChunk id c' s.pools = s := by
      rcases allocateRun_cases hrun with ⟨_, rfl⟩ | ⟨_, _, _, _, _, _, _, hres, _⟩
      · rw [ChunkStore.setChunk, ← hid, Function.update_eq_self]
      · cases hres
    exact ⟨blocks, by rw [hsame]; exact h⟩
  | some handle =>
    obtain ⟨blocks', hc', hsub, _, _, _, _, _, _, hholds, hfresh⟩ :=
      (h.chunk hid).allocateRun hrun
    refine ⟨_, h.handOut hid hc' h.pools ?_ (fun _ _ => rfl) ?_ (hfresh handle _ rfl)⟩
    · intro o
      rw [hsub, ChunkStore.link, hid, Option.bind_some]
    · intro h' cap'
      rw [hholds, PoolChunk.runSize, Nat.shiftLeft_eq]
      rfl

/-- A chunk that differs in its bookkeeping only. -/
theorem StoreInv.retouch (h : StoreInv k s blocks owned) {id : ℕ} {c c' : PoolChunk}
    (hid : s.chunks id = some c) (hmap : c'.runsAvailMap = c.runsAvailMap)
    (hqueue : c'.runsAvail = c.runsAvail) (hsub : c'.subpages = c.subpages)
    (hoff : c'.offset = c.offset) (hbytes : c'.freeBytes = c.freeBytes) :
    StoreInv k (s.setChunk id c' s.pools) blocks owned := by
  have hc := h.chunk hid
  have hc' : ChunkInv k id c' (blocks id) := by
    refine ⟨⟨hc.runs.tiling, hc.runs.coalesced, hc.runs.offset, hc.runs.isRun,
      hc.runs.filed.congr hmap hqueue, hbytes.trans hc.runs.freeBytes⟩, hoff.trans hc.offset, ?_⟩
    rw [hsub]
    exact hc.subpage
  have hset := h.setChunk hid hc' h.pools ?_ (fun _ _ => rfl) ?_ h.nodup
  · rwa [Function.update_eq_self] at hset
  · intro o
    rw [hsub, ChunkStore.link, hid, Option.bind_some]
  · intro g
    split
    · next hne =>
      rw [h.owned_iff, hne]
      constructor
      · rintro ⟨c₁, hc₁, hholds⟩
        rw [hid] at hc₁
        cases hc₁
        exact hholds.congr hsub
      · intro hholds
        exact ⟨c, hid, hholds.congr hsub.symm⟩
    · rfl

/-- `allocateSubpage` hands out an element of a new subpage, or changes nothing. -/
theorem StoreInv.allocateSubpage (h : StoreInv k s blocks owned) {id sizeIdx : ℕ} {r : Option ℕ}
    (hstep : s.allocateSubpage k.sizeClass id sizeIdx = some (r, s')) :
    ∃ blocks', match r with
      | none => StoreInv k s' blocks' owned
      | some handle => StoreInv k s' blocks'
          (⟨id, handle, k.sizeClass.sizeIdx2size sizeIdx⟩ :: owned) := by
  unfold ChunkStore.allocateSubpage at hstep
  obtain ⟨c, hid, hstep⟩ := Option.bind_eq_some_iff.mp hstep
  obtain ⟨⟨r', c', pools⟩, hsubpage, hstep⟩ := Option.bind_eq_some_iff.mp hstep
  cases hstep
  have hlink : ∀ o, s.link (id, o) = (c.subpages o).bind PoolSubpage.pool := by
    intro o
    rw [ChunkStore.link, hid, Option.bind_some]
  rcases (h.chunk hid).allocateSubpage h.pools (fun o hnone => by rw [hlink, hnone]; rfl) hsubpage with
    ⟨rfl, rfl, rfl⟩ | ⟨o, sp, i, blocks', rfl, hnone, hc', hsub, _, _, hp', helem, hholds, hfresh⟩
  · have hsame : s.setChunk id c' s.pools = s := by
      rw [ChunkStore.setChunk, ← hid, Function.update_eq_self]
    exact ⟨blocks, by rw [hsame]; exact h⟩
  · rw [← helem]
    refine ⟨_, h.handOut hid hc' hp' ?_ ?_ hholds (hfresh _)⟩
    · intro o'
      rw [hsub]
      by_cases ho : o' = o
      · rw [ho, Function.update_self, Function.update_self, Option.bind_some]
      · rw [Function.update_of_ne (by simpa using ho), Function.update_of_ne ho, hlink]
    · intro ref hne
      exact Function.update_of_ne (fun heq => hne (congrArg Prod.fst heq)) _ _

/-- The subpage of which `allocatePooled` takes an element. -/
theorem allocatePooled_cases {sc : SizeClass} {sizeIdx : ℕ} {r : Option (ℕ × ℕ)}
    (hstep : s.allocatePooled sc sizeIdx = some (r, s')) :
    (r = none ∧ s' = s ∧ s.pools sizeIdx = []) ∨
      ∃ id o c sp handle sp' pools', r = some (id, handle) ∧ (id, o) ∈ s.pools sizeIdx ∧
        s.chunks id = some c ∧ c.subpages o = some sp ∧ sp.elemSize = sc.sizeIdx2size sizeIdx ∧
        sp.allocate s.pools = some (some handle, sp', pools') ∧
        s' = s.setChunk id (c.setSubpage o (some sp')) pools' := by
  rw [ChunkStore.allocatePooled] at hstep
  split at hstep
  · next hpool =>
    cases hstep
    exact Or.inl ⟨rfl, rfl, hpool⟩
  · next ref rest hpool =>
    obtain ⟨c, hid, hstep⟩ := Option.bind_eq_some_iff.mp hstep
    obtain ⟨sp, hsp, hstep⟩ := Option.bind_eq_some_iff.mp hstep
    split_ifs at hstep with hguard
    obtain ⟨⟨r', sp', pools'⟩, halloc, hstep⟩ := Option.bind_eq_some_iff.mp hstep
    obtain ⟨handle, hr, hstep⟩ := Option.bind_eq_some_iff.mp hstep
    cases hr
    cases hstep
    exact Or.inr ⟨ref.1, ref.2, c, sp, handle, sp', pools', rfl, by rw [hpool]; simp, hid, hsp,
      hguard.2, halloc, rfl⟩

/-- A pool hands out an element of its first subpage. -/
theorem StoreInv.allocatePooled (h : StoreInv k s blocks owned) {sizeIdx id handle : ℕ}
    (hstep : s.allocatePooled k.sizeClass sizeIdx = some (some (id, handle), s')) :
    StoreInv k s' blocks (⟨id, handle, k.sizeClass.sizeIdx2size sizeIdx⟩ :: owned) := by
  obtain ⟨hr, _⟩ | ⟨_, o, c, sp, _, sp', pools', hr, hpool, hid, hsp, helem, halloc, rfl⟩ :=
    allocatePooled_cases hstep
  · cases hr
  cases hr
  have hc := h.chunk hid
  have hat := hc.subpage o sp hsp
  have hlink : s.link (id, o) = sp.pool := by
    rw [ChunkStore.link, hid, Option.bind_some, hsp, Option.bind_some]
  have havail : 0 < sp.numAvail := by
    rw [← hat.inv.linked, ← hlink, (h.pools.1 sizeIdx (id, o)).mp hpool]
    rfl
  obtain ⟨i, sp'', pools'', halloc', hat', hsame, hset, hrelink, hc', hholds, hfresh⟩ :=
    hc.allocateElement hsp havail s.pools
  rw [halloc] at halloc'
  cases halloc'
  have href : sp.ref = (id, o) := by rw [PoolSubpage.ref, hat.chunk, hat.runOffset]
  have hp' := h.pools.relink (by rw [href, hlink]) hrelink
  rw [href] at hp'
  have hout := h.handOut hid hc' hp' ?_ ?_ hholds (hfresh sp.elemSize)
  · rw [Function.update_eq_self, helem] at hout
    exact hout
  · intro o'
    by_cases ho : o' = o
    · rw [ho, Function.update_self, subpages_setSubpage_self, Option.bind_some]
    · rw [Function.update_of_ne (by simpa using ho), subpages_setSubpage_of_ne c ho,
        ChunkStore.link, hid, Option.bind_some]
  · intro ref hne
    exact Function.update_of_ne (fun heq => hne (congrArg Prod.fst heq)) _ _

/-- `free` takes back any region that was handed out. -/
theorem StoreInv.free (h : StoreInv k s blocks owned) {g : Grant} (hg : g ∈ owned)
    (buffer : Option Addr) :
    ∃ s' blocks', s.free k.sizeClass g buffer = some s' ∧
      StoreInv k s' blocks' (owned.erase g) := by
  obtain ⟨c, hid, hholds⟩ := (h.owned_iff g).mp hg
  obtain ⟨c', pools', blocks', link', hfree, hc', _, hp', hlink', hother, hiff⟩ :=
    (h.chunk hid).free h.pools (fun o => by rw [ChunkStore.link, hid, Option.bind_some]) hholds
      buffer
  refine ⟨s.setChunk g.chunk c' pools', Function.update blocks g.chunk blocks', ?_,
    h.setChunk hid hc' hp' hlink' hother (fun g' => ?_) (h.nodup.erase g)⟩
  · rw [ChunkStore.free, hid, Option.bind_eq_bind, Option.bind_some, hfree]
    rfl
  · rw [h.nodup.mem_erase_iff]
    split
    · next hne =>
      rw [hiff, h.owned_iff, hne]
      constructor
      · rintro ⟨hneg, c₁, hc₁, hold⟩
        rw [hid] at hc₁
        cases hc₁
        refine ⟨hold, fun heq => hneg ?_⟩
        refine Grant.ext hne heq ?_
        rw [heq] at hold
        exact hold.cap_unique (h.chunk hid) hholds
      · rintro ⟨hold, hneh⟩
        exact ⟨fun heq => hneh (congrArg Grant.handle heq), c, hid, hold⟩
    · next hne =>
      constructor
      · exact And.right
      · intro hmem
        exact ⟨fun heq => hne (congrArg Grant.chunk heq), hmem⟩

/-- A chunk that is free as a whole is one available run. -/
theorem ChunkInv.single {id : ℕ} {c : PoolChunk} {bs : ℕ → Option ℕ} (hc : ChunkInv k id c bs)
    (hfree : c.freeBytes = k.chunkSize) :
    ∃ run, isUsed run = false ∧ calculateRunPages run = k.chunkPages ∧
      ∀ o, bs o = if o = 0 then some run else none := by
  have htotal : total calculateRunPages k.chunkPages (unused isUsed bs) = k.chunkPages := by
    have hbytes := hc.runs.freeBytes
    rw [hfree, PoolConfig.chunkSize_eq, mul_comm k.chunkPages, Nat.cast_inj] at hbytes
    exact (Nat.eq_of_mul_eq_mul_left (Nat.two_pow_pos _) hbytes).symm
  exact hc.runs.tiling.eq_single_of_total_unused hc.runs.coalesced k.chunkPages_pos htotal

/-- No more bytes are free than the chunk has. -/
theorem ChunkInv.freeBytes_le {id : ℕ} {c : PoolChunk} {bs : ℕ → Option ℕ}
    (hc : ChunkInv k id c bs) : 0 ≤ c.freeBytes ∧ c.freeBytes ≤ k.chunkSize := by
  have hle := hc.runs.tiling.total_unused_le isUsed
  rw [hc.runs.freeBytes, PoolConfig.chunkSize_eq, mul_comm k.chunkPages]
  exact ⟨Int.natCast_nonneg _, by exact_mod_cast Nat.mul_le_mul_left _ hle⟩

/-- A chunk whose usage is zero is free as a whole. -/
theorem ChunkInv.freeBytes_of_usage {id : ℕ} {c : PoolChunk} {bs : ℕ → Option ℕ}
    (hc : ChunkInv k id c bs) (husage : c.usage k.sizeClass = 0) : c.freeBytes = k.chunkSize := by
  obtain ⟨hpos, hle⟩ := hc.freeBytes_le
  have hsize : (0 : ℤ) < k.chunkSize := by
    rw [PoolConfig.chunkSize_eq]
    exact_mod_cast Nat.mul_pos k.chunkPages_pos (Nat.two_pow_pos _)
  rw [PoolChunk.usage, k.chunkSize_sizeClass, Int.tdiv_eq_ediv_of_nonneg (by omega)] at husage
  dsimp only at husage
  split_ifs at husage
  · omega
  · omega
  · have hdiv : 100 ≤ c.freeBytes * 100 / k.chunkSize := by omega
    rw [Int.le_ediv_iff_mul_le hsize] at hdiv
    omega

/-- Destroying a chunk that is free as a whole. -/
theorem StoreInv.destroyChunk (h : StoreInv k s blocks owned) {id : ℕ} {c : PoolChunk}
    (hid : s.chunks id = some c) (hfree : c.freeBytes = k.chunkSize) :
    StoreInv k (s.destroyChunk id) blocks owned := by
  have hc := h.chunk hid
  obtain ⟨run, hrun, _, hsingle⟩ := hc.single hfree
  constructor
  · intro id' c₁ hc₁
    by_cases hne : id' = id
    · rw [hne, ChunkStore.chunks_destroyChunk_self] at hc₁
      cases hc₁
    · rw [ChunkStore.chunks_destroyChunk_of_ne s hne] at hc₁
      exact h.chunk hc₁
  · intro id' c₁ hc₁
    by_cases hne : id' = id
    · rw [hne, ChunkStore.chunks_destroyChunk_self] at hc₁
      cases hc₁
    · rw [ChunkStore.chunks_destroyChunk_of_ne s hne] at hc₁
      exact h.fresh hc₁
  · have hsame : (s.destroyChunk id).link = s.link := by
      funext ref
      rw [ChunkStore.link, ChunkStore.link]
      by_cases hne : ref.1 = id
      · rw [hne, ChunkStore.chunks_destroyChunk_self, hid]
        rcases hsp : c.subpages ref.2 with _ | sp
        · rw [Option.bind_some, hsp]
          rfl
        · obtain ⟨run', hb, hused, _⟩ := (hc.subpage ref.2 sp hsp).run
          rw [hsingle] at hb
          split_ifs at hb
          cases hb
          rw [hrun] at hused
          cases hused
      · rw [ChunkStore.chunks_destroyChunk_of_ne s hne]
    rw [hsame]
    exact h.pools
  · intro g
    rw [h.owned_iff]
    by_cases hne : g.chunk = id
    · rw [hne, hid, ChunkStore.chunks_destroyChunk_self]
      constructor
      · rintro ⟨c₁, hc₁, hholds⟩
        cases hc₁
        exact absurd hholds (not_holds_of_single hc hrun hsingle _ _)
      · rintro ⟨c₁, hc₁, _⟩
        cases hc₁
    · rw [ChunkStore.chunks_destroyChunk_of_ne s hne]
  · exact h.nodup

end DuoDuo.Buffer
