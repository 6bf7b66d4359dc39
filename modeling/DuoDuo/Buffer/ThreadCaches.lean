import DuoDuo.Buffer.Threads

/-!
# Where the caches of threads are used

A thread gets its cache when it creates its first buffer. It may however be the first to
grow a buffer that another thread has created, and then `threadCache` finds none. And a
region returns to the cache of the thread that has grown or created the buffer last,
whichever thread frees it.
-/

namespace DuoDuo.Buffer

open Library

namespace Threads

variable {T : Type} [DecidableEq T] {k : PoolConfig} {s s' : Threads T} {t : T}
  {call : ThreadCall}

/-- A call makes a cache for its thread if it creates a buffer, and no other cache. -/
theorem caches_next (h : next k s (t, call) = some s') (u : T) :
    (s'.caches u).isSome = true ↔
      (s.caches u).isSome = true ∨ (t = u ∧ ∃ size answer, call = .create size answer) := by
  rcases next_cases h with ⟨size, answer, rfl, hfollows, hsome⟩ | ⟨i, b, rfl, -, rfl⟩ |
    ⟨-, -, hcreate, buffers, rfl⟩ | ⟨hout, hrealloc⟩
  · by_cases hu : t = u
    · subst hu
      exact iff_of_true hsome (.inr ⟨rfl, size, answer, rfl⟩)
    · have hsame : (s.ALLOCATOR k.sizeClass t).caches u = s.caches u := by
        rw [ALLOCATOR]
        split
        · exact Function.update_of_ne (Ne.symm hu) ..
        · rfl
      rw [hfollows.caches u, hsame, or_iff_left fun hcreate => hu hcreate.1]
  · have hsame : ((s.deallocate k t i b).caches u).isSome = (s.caches u).isSome := by
      rw [deallocate]
      rcases free_cases k (s.setBuffer i none) t b.owner b.buf.toRegion with heq | ⟨c, hc, heq⟩
      · rw [heq]
        rfl
      · rw [heq]
        show (Function.update s.caches b.owner (some c) u).isSome = _
        by_cases hu : u = b.owner
        · rw [hu, Function.update_self]
          exact hc.symm
        · rw [Function.update_of_ne hu]
    rw [hsame, or_iff_left]
    rintro ⟨-, size, answer, ⟨⟩⟩
  · rw [or_iff_left]
    rintro ⟨-, size, answer, hcall⟩
    exact hcreate size answer hcall
  · have hnot : ¬ ∃ size answer, call = .create size answer := by
      rintro ⟨size, answer, rfl⟩
      exact hout
    rw [or_iff_left fun hcreate => hnot hcreate.2]
    rcases hrealloc with ⟨-, buffers, rfl⟩ | ⟨-, hfollows⟩
    · exact Iff.rfl
    · rw [hfollows.caches u]

/-- A thread has a cache after a run if it had one, or has created a buffer. -/
theorem caches_of_run {trace : List (Threads T × T × ThreadCall)}
    (h : (machine T k).Run s trace s') (u : T) : (s'.caches u).isSome = true ↔
      (s.caches u).isSome = true ∨
        ∃ p ∈ trace, p.2.1 = u ∧ ∃ size answer, p.2.2 = .create size answer := by
  induction h with
  | nil s => simp
  | @cons s s₁ s' a trace hstep hrun ih =>
    rw [ih, caches_next hstep u, or_assoc, List.exists_mem_cons_iff]

/-- Every evaluation of `threadCache` was on a thread with a cache. -/
def CachesExist (s : Threads T) : Prop := ∀ p ∈ s.evaluations, p.2 = true

/-- Before a thread takes a buffer out of its region it has created a buffer itself. -/
def CreatesFirst (trace : List (Threads T × T × ThreadCall)) : Prop :=
  ∀ before p after, trace = before ++ p :: after → p.1.Outgrows p.2.2 →
    ∃ q ∈ before, q.2.1 = p.2.1 ∧ ∃ size answer, q.2.2 = .create size answer

/-- A thread that takes a buffer out of its region has a cache. -/
def HasCache (s : Threads T) (a : T × ThreadCall) : Prop :=
  s.Outgrows a.2 → (s.caches a.1).isSome = true

omit [DecidableEq T] in
/-- What a thread with a cache does keeps the record. -/
theorem CachesExist.follows (h : s.CachesExist) (hsome : (s.caches t).isSome = true)
    (hfollows : s.Follows t s') : s'.CachesExist := by
  obtain ⟨l, hl, hall⟩ := hfollows.evaluations
  rw [CachesExist, hl]
  refine List.forall_mem_append.mpr ⟨h, fun p hp => ?_⟩
  rw [hall p hp]
  exact hsome

/-- A call under the condition evaluates `threadCache` on threads with a cache only. -/
theorem CachesExist.next (h : s.CachesExist) (hcond : s.HasCache (t, call))
    (hstep : next k s (t, call) = some s') : s'.CachesExist := by
  rcases next_cases hstep with ⟨size, answer, rfl, hfollows, hsome⟩ | ⟨i, b, rfl, -, rfl⟩ |
    ⟨-, -, -, buffers, rfl⟩ | ⟨hout, ⟨hnone, -⟩ | ⟨hsome, hfollows⟩⟩
  · have hready : (s.ALLOCATOR k.sizeClass t).CachesExist := by
      rw [ALLOCATOR]
      split
      · exact h
      · exact h
    exact hready.follows ((hfollows.caches t).symm.trans hsome) hfollows
  · rw [deallocate]
    rcases free_cases k (s.setBuffer i none) t b.owner b.buf.toRegion with heq | ⟨c, -, heq⟩
    · rw [heq]
      exact h
    · rw [heq]
      exact h
  · exact h
  · have hsome := hcond hout
    rw [hnone] at hsome
    cases hsome
  · exact h.follows hsome hfollows

/-- A call that violates the condition evaluates `threadCache` on a thread without a cache. -/
theorem not_cachesExist_next (hcond : ¬ s.HasCache (t, call))
    (hstep : next k s (t, call) = some s') : ¬ s'.CachesExist := by
  rw [HasCache, Classical.not_imp] at hcond
  obtain ⟨hout, hnone⟩ := hcond
  rcases next_cases hstep with ⟨size, answer, rfl, -⟩ | ⟨i, b, rfl, -⟩ | ⟨hnot, -⟩ |
    ⟨-, ⟨hnone', buffers, rfl⟩ | ⟨hsome, -⟩⟩
  · exact absurd hout id
  · exact absurd hout id
  · exact absurd hout hnot
  · intro h
    have hlast := h (t, (s.caches t).isSome) (List.mem_append_right _ (List.mem_singleton.mpr rfl))
    rw [hnone'] at hlast
    cases hlast
  · exact absurd hsome hnone

/-- `threadCache` is evaluated on threads with a cache throughout a run exactly when every
thread has created a buffer before it takes one out of its region. -/
theorem cachesExist_iff_createsFirst {trace : List (Threads T × T × ThreadCall)}
    (h : (machine T k).Run {} trace s) :
    (∀ s' ∈ Machine.visited trace s, s'.CachesExist) ↔ CreatesFirst trace := by
  rw [h.forall_visited_iff (C := HasCache) (I := CachesExist) (fun _ hs => hs)
    (fun _ _ _ hs hcond hstep => hs.next hcond hstep)
    (fun _ _ _ _ hcond hstep => not_cachesExist_next hcond hstep) (by simp [CachesExist])]
  constructor
  · rintro hall before p after rfl hout
    obtain ⟨s₁, hbefore, hrest⟩ := h.of_append
    cases hrest with
    | cons hstep hafter =>
      have hcache := hall _ (List.mem_append_right _ List.mem_cons_self) hout
      exact ((caches_of_run hbefore _).mp hcache).resolve_left (by simp)
  · intro hcreates p hp hout
    obtain ⟨before, after, rfl⟩ := List.append_of_mem hp
    obtain ⟨s₁, hbefore, hrest⟩ := h.of_append
    cases hrest with
    | cons hstep hafter =>
      exact (caches_of_run hbefore _).mpr (.inr (hcreates before _ after rfl hout))

/-- A region of the first chunk: some pages from `runOffset` on, which are a run or the only
element of a subpage. -/
def nextAnswer (runOffset pages : ℕ) (small : Bool) : Answer :=
  ⟨⟨0, runOffset <<< 49 + pages <<< 34 + 1 <<< 33 + (if small then 1 <<< 32 else 0),
    pages * 8192⟩, none⟩

/-- Two threads create a buffer each. The second one is handed the buffer of the first one,
reads more into it than fits, and frees it; then it frees its own, and the first one creates
a buffer again and frees it. -/
def twoThreads : List (ℕ × ThreadCall) :=
  [(0, .create 16384 (nextAnswer 0 2 true)), (1, .create 16384 (nextAnswer 2 2 true)),
    (1, .readFd 0 20000 (nextAnswer 4 4 false)), (1, .deallocate 0), (1, .deallocate 1),
    (0, .create 16384 (nextAnswer 8 2 true)), (0, .deallocate 2)]

/-- The state after the calls of the two threads. -/
def afterTwoThreads : Threads ℕ := (twoThreads.foldlM (next .default) {}).getD {}

/-- The calls can be made. -/
theorem afterTwoThreads_eq : twoThreads.foldlM (next .default) {} = some afterTwoThreads := by
  have hsome : (twoThreads.foldlM (next .default) {}).isSome = true := by decide +kernel
  exact (Option.getD_of_ne_none (Option.isSome_iff_ne_none.mp hsome) _).symm

/-- The calls of the two threads are a run. -/
theorem run_twoThreads :
    (machine ℕ .default).Run {} (Machine.traceOf (next .default) {} twoThreads) afterTwoThreads :=
  .of_foldlM afterTwoThreads_eq

/-- Each of the two threads has its cache whenever it asks for it, the second one also for the
buffer that it has not created. -/
theorem cachesExist_iff_createsFirst_twoThreads :
    afterTwoThreads.evaluations = [(1, true), (1, true)] ∧
      ∀ s ∈ Machine.visited (Machine.traceOf (next .default) {} twoThreads) afterTwoThreads,
        s.CachesExist := by
  refine ⟨by decide +kernel, (cachesExist_iff_createsFirst run_twoThreads).mpr ?_⟩
  intro before p after htrace hout
  have hactions : before.map Prod.snd ++ p.2 :: after.map Prod.snd = twoThreads := by
    rw [← Machine.map_snd_traceOf afterTwoThreads_eq, htrace, List.map_append, List.map_cons]
  have hthread : p.2.1 = 0 ∨ p.2.1 = 1 := by
    have hthreads : ∀ a ∈ twoThreads, a.1 = 0 ∨ a.1 = 1 := by decide
    exact hthreads _ (hactions ▸ List.mem_append_right _ List.mem_cons_self)
  rw [twoThreads] at hactions
  -- neither of the first two calls takes a buffer out of its region
  rcases before with _ | ⟨q, _ | ⟨q', before⟩⟩
  · obtain ⟨hp, -⟩ := List.cons.inj hactions
    rw [hp] at hout
    exact absurd hout id
  · obtain ⟨-, hactions⟩ := List.cons.inj hactions
    obtain ⟨hp, -⟩ := List.cons.inj hactions
    rw [hp] at hout
    exact absurd hout id
  · obtain ⟨hq, hactions⟩ := List.cons.inj hactions
    obtain ⟨hq', -⟩ := List.cons.inj hactions
    rcases hthread with hfirst | hsecond
    · exact ⟨q, List.mem_cons_self, by rw [hq, hfirst], 16384, nextAnswer 0 2 true, by rw [hq]⟩
    · exact ⟨q', List.mem_cons_of_mem _ List.mem_cons_self, by rw [hq', hsecond], 16384,
        nextAnswer 2 2 true, by rw [hq']⟩

/-- A thread that has not created a buffer reads more than fits into the buffer that another
thread has created for it. -/
def otherThread : List (ℕ × ThreadCall) :=
  [(0, .create 16384 (nextAnswer 0 2 true)), (1, .readFd 0 20000 (nextAnswer 2 4 false))]

/-- A thread without a cache asks for it. -/
theorem not_cachesExist : ∃ s, (machine ℕ .default).Reachable s ∧ s.evaluations = [(1, false)] ∧
    s.aborted = true ∧ ¬ s.CachesExist := by
  have hcalls : (otherThread.foldlM (next .default) {}).map
      (fun s => (s.evaluations, s.aborted)) = some ([(1, false)], true) := by decide +kernel
  obtain ⟨s, hs, hrecord⟩ := Option.map_eq_some_iff.mp hcalls
  obtain ⟨hevaluations, haborted⟩ := Prod.mk.inj hrecord
  have hinit : (machine ℕ .default).Reachable {} := .of_init rfl
  refine ⟨s, hinit.of_foldlM hs, hevaluations, haborted, fun h => ?_⟩
  rw [CachesExist, hevaluations, List.forall_mem_singleton] at h
  cases h

/-- Every use of the queues of a cache was by the thread whose cache it is. -/
def Confined (s : Threads T) : Prop := ∀ p ∈ s.accesses, p.1 = p.2

/-- The cache of a buffer takes its region when the buffer is freed: the region is one of a
chunk, and the cache has a queue for its class. -/
def Files (k : PoolConfig) (s : Threads T) (b : SharedBuf T) : Prop :=
  ∃ id c c', b.buf.chunk = .pooled id ∧ b.buf.cache = true ∧ s.caches b.owner = some c ∧
    c.add k.sizeClass (PoolArena.getSizeClassType b.buf.handle)
      ⟨⟨id, b.buf.handle, b.buf.maxLength⟩, b.buf.tmpBuf⟩ = some c'

/-- A thread frees a buffer whose region goes to a cache only if that is its own cache. -/
def ReturnsHome (k : PoolConfig) (s : Threads T) (a : T × ThreadCall) : Prop :=
  ∀ i b, a.2 = .deallocate i → s.buffer i = some b → s.Files k b → b.owner = a.1

/-- What freeing a buffer does with the caches: a use of that of the buffer if it takes the
region, and else nothing. -/
theorem deallocate_cases (k : PoolConfig) (s : Threads T) (t : T) (i : ℕ) (b : SharedBuf T) :
    (s.Files k b ∧ (s.deallocate k t i b).accesses = s.accesses ++ [(t, b.owner)]) ∨
      (¬ s.Files k b ∧ (s.deallocate k t i b).accesses = s.accesses) := by
  rw [deallocate, free]
  split
  · next id hchunk =>
    refine .inr ⟨?_, rfl⟩
    rintro ⟨id', c, c', hchunk', -⟩
    rw [hchunk] at hchunk'
    cases hchunk'
  · next id hchunk =>
    dsimp only
    split
    · next hcache =>
      split
      · next c' hadd =>
        obtain ⟨c, hc, hadd⟩ := Option.bind_eq_some_iff.mp hadd
        exact .inl ⟨⟨id, c, c', hchunk, hcache, hc, hadd⟩, rfl⟩
      · next hadd =>
        refine .inr ⟨?_, rfl⟩
        rintro ⟨id', c, c', hchunk', -, hc, hadd'⟩
        obtain rfl := ChunkPtr.pooled.inj (hchunk.symm.trans hchunk')
        rw [Option.bind_eq_none_iff] at hadd
        rw [hadd c hc] at hadd'
        cases hadd'
    · next hcache =>
      refine .inr ⟨?_, rfl⟩
      rintro ⟨id', c, c', -, hcache', -⟩
      exact hcache hcache'

omit [DecidableEq T] in
/-- Uses of a thread's own cache. -/
theorem Confined.follows (h : s.Confined) (hfollows : s.Follows t s') : s'.Confined := by
  obtain ⟨l, hl, hall⟩ := hfollows.accesses
  rw [Confined, hl]
  refine List.forall_mem_append.mpr ⟨h, fun p hp => ?_⟩
  rw [hall p hp]

/-- A call under the condition uses the cache of its own thread only. -/
theorem Confined.next (h : s.Confined) (hcond : s.ReturnsHome k (t, call))
    (hstep : next k s (t, call) = some s') : s'.Confined := by
  rcases next_cases hstep with ⟨size, answer, rfl, hfollows, -⟩ | ⟨i, b, rfl, hb, rfl⟩ |
    ⟨-, -, -, buffers, rfl⟩ | ⟨-, ⟨-, buffers, rfl⟩ | ⟨-, hfollows⟩⟩
  · have hready : (s.ALLOCATOR k.sizeClass t).Confined := by
      rw [ALLOCATOR]
      split
      · exact h
      · exact h
    exact hready.follows hfollows
  · rw [Confined]
    rcases deallocate_cases k s t i b with ⟨hfiles, haccesses⟩ | ⟨-, haccesses⟩
    · rw [haccesses]
      refine List.forall_mem_append.mpr ⟨h, List.forall_mem_singleton.mpr ?_⟩
      exact (hcond i b rfl hb hfiles).symm
    · rw [haccesses]
      exact h
  · exact h
  · exact h
  · exact h.follows hfollows

/-- A call that violates the condition uses the cache of another thread. -/
theorem not_confined_next (hcond : ¬ s.ReturnsHome k (t, call))
    (hstep : next k s (t, call) = some s') : ¬ s'.Confined := by
  simp only [ReturnsHome, not_forall, exists_prop] at hcond
  obtain ⟨i, b, hcall, hb, hfiles, hforeign⟩ := hcond
  subst hcall
  have hs' : s' = s.deallocate k t i b := by
    rcases next_cases hstep with ⟨size, answer, ⟨⟩, -⟩ | ⟨i', b', hcall, hb', rfl⟩ |
      ⟨-, hne, -⟩ | ⟨hout, -⟩
    · obtain rfl := ThreadCall.deallocate.inj hcall
      obtain rfl := Option.some.inj (hb.symm.trans hb')
      rfl
    · exact absurd rfl (hne i)
    · exact absurd hout id
  intro h
  rcases deallocate_cases k s t i b with ⟨-, haccesses⟩ | ⟨hnot, -⟩
  · rw [Confined, hs', haccesses] at h
    exact hforeign (h _ (List.mem_append_right _ (List.mem_singleton.mpr rfl))).symm
  · exact hnot hfiles

/-- The caches are confined to their threads throughout a run exactly when no thread frees a
buffer whose region goes to the cache of another thread. -/
theorem confined_iff_returnsHome {trace : List (Threads T × T × ThreadCall)}
    (h : (machine T k).Run {} trace s) :
    (∀ s' ∈ Machine.visited trace s, s'.Confined) ↔ ∀ p ∈ trace, p.1.ReturnsHome k p.2 :=
  h.forall_visited_iff (C := ReturnsHome k) (I := Confined) (fun _ hs => hs)
    (fun _ _ _ hs hcond hstep => hs.next hcond hstep)
    (fun _ _ _ _ hcond hstep => not_confined_next hcond hstep) (by simp [Confined])

/-- The buffer that a call frees. -/
def freed : ThreadCall → Option ℕ
  | .deallocate i => some i
  | _ => none

/-- Each of the two threads uses its own cache only: the second one has grown the buffer of the
first one that it frees. -/
theorem confined_iff_returnsHome_twoThreads :
    afterTwoThreads.accesses =
        [(0, 0), (1, 1), (1, 1), (1, 1), (1, 1), (1, 1), (0, 0), (0, 0)] ∧
      ∀ s ∈ Machine.visited (Machine.traceOf (next .default) {} twoThreads) afterTwoThreads,
        s.Confined := by
  have howners : ∀ p ∈ Machine.traceOf (next .default) {} twoThreads,
      ∀ i ∈ freed p.2.2, (p.1.buffer i).all (·.owner = p.2.1) = true := by decide +kernel
  refine ⟨by decide +kernel, (confined_iff_returnsHome run_twoThreads).mpr ?_⟩
  intro p hp i b hcall hb _
  have howner := howners p hp i (by rw [hcall]; rfl)
  rw [hb] at howner
  simpa using howner

/-- A thread frees the buffer that another thread has created. -/
theorem not_confined : ∃ s, (machine ℕ .default).Reachable s ∧ s.accesses = [(0, 0), (1, 0)] ∧
    ¬ s.Confined := by
  have hcalls : ([(0, .create 16384 (nextAnswer 0 2 true)), (1, .deallocate 0)].foldlM (next .default)
      ({} : Threads ℕ)).map (·.accesses) = some [(0, 0), (1, 0)] := by decide +kernel
  obtain ⟨s, hs, haccesses⟩ := Option.map_eq_some_iff.mp hcalls
  have hinit : (machine ℕ .default).Reachable {} := .of_init rfl
  refine ⟨s, hinit.of_foldlM hs, haccesses, fun h => ?_⟩
  rw [Confined, haccesses] at h
  exact absurd (h (1, 0) (by simp)) (by decide)

end Threads

end DuoDuo.Buffer
