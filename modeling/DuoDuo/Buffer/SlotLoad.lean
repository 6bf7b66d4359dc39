import DuoDuo.Buffer.LongAddr
import DuoDuo.Buffer.CacheBound

/-!
# The threads in the slots of the adders

Every adder counts in `m_nthArray` how many threads use a slot of its table. A thread is
counted when `chooseCell` binds it and when it initialises a table, and the `CallBack`
objects of the thread take it back when the thread ends. The slot of a thread and its two
`CallBack` objects are `thread_local`: all adders share them.

A binding holds `m_spinLock` and an initialisation holds `m_cellBusy`, and each of them is
one step. The sums are the subject of `LongAddr`, so the cells have no values here.
-/

namespace DuoDuo.Buffer

open Library Library.Machine
open LongAddr (Slot slotOf)

namespace SlotLoad

/-- An adder: its table and the numbers of threads in the slots. -/
structure MetaConcurrent where
  /-- `NCPUS`, after it was rounded up. -/
  ncpus : ℕ
  cells : Option (List Slot) := none
  nCells : ℕ := 0
  nthArray : List ℤ := List.replicate ncpus 0

namespace MetaConcurrent

/-- The constructor, where `NCPUS` processors are configured. -/
def new (processors : ℕ) : MetaConcurrent :=
  { ncpus := MathUtils.nextPowerofTwo processors }

/-- The number of threads in slot `i` changes by `d`. -/
def addThreads (m : MetaConcurrent) (i : ℕ) (d : ℤ) : MetaConcurrent :=
  { m with nthArray := m.nthArray.modify i (· + d) }

/-- The loop of `chooseCell`, with `k` slots left from slot `i` on. -/
def chooseLoop (m : MetaConcurrent) : ℕ → ℕ → BitVec 32 → Option (BitVec 32)
  | 0, _, chosenIdx => some chosenIdx
  | k + 1, i, chosenIdx => do
    let cell ← m.cells.bind (·[i]?)
    let nth ← m.nthArray[i]?
    if cell = none ∧ nth = 0 then
      let chosenIdx := BitVec.ofNat 32 i
      return if chosenIdx = -1 then BitVec.ofNat 32 (m.nCells - 1) else chosenIdx
    else
      let least ← m.nthArray[slotOf chosenIdx m.nCells]?
      m.chooseLoop k (i + 1) (if nth ≤ least then BitVec.ofNat 32 i else chosenIdx)

/-- `chooseCell`, by a thread with `chosenIdx`. -/
def chooseCell (m : MetaConcurrent) (chosenIdx : BitVec 32) :
    Option (BitVec 32 × MetaConcurrent) := do
  let chosenIdx ← if 1 < m.nCells then m.chooseLoop m.nCells 0 chosenIdx else some 0
  return (chosenIdx,
    if m.cells = none then m else m.addThreads (slotOf chosenIdx m.nCells) 1)

end MetaConcurrent

/-- A thread, with its `thread_local` variables. -/
structure Thread (C : Type) where
  chosenIdx : BitVec 32 := -1
  /-- The adder and the slot of the `CallBack` that the first binding constructs. -/
  bindCallBack : Option (C × ℕ) := none
  /-- The adder and the slot of the `CallBack` that the first initialisation constructs. -/
  initCallBack : Option (C × ℕ) := none
  /-- The adder that the thread adds to, and the `n` of the loop. -/
  loop : Option (C × ℕ) := none
  /-- The adders and the slots into which the thread was counted. -/
  counted : List (C × ℕ) := []
  /-- The number of tables that the thread has initialised. -/
  initialised : ℕ := 0

/-- What a thread does. An addition that goes to the base, or to a cell that there is, does
not change what is modelled here. -/
inductive Action (T C : Type)
  | start (t : T)
  /-- `metaAccumulate` binds the thread. -/
  | bind (t : T) (c : C)
  /-- The loop loads `nCells`. -/
  | load (t : T) (c : C)
  /-- The table is initialised, where the memory holds `slots`, with a new cell. -/
  | initTable (t : T) (c : C) (slots : List Slot) (cell : ℕ)
  | createCell (t : T) (c : C) (cell : ℕ)
  /-- The table is doubled, where the memory after the copied slots holds `slots`. -/
  | extend (t : T) (slots : List Slot)
  | exit (t : T)

/-- The adders and the threads. -/
structure System (T C : Type) where
  adder : C → MetaConcurrent
  live : Finset T := ∅
  thread : T → Thread C := fun _ => {}

namespace System

variable {T C : Type} [DecidableEq T] [DecidableEq C]

/-- A thread goes on. -/
def goTo (s : System T C) (t : T) (th : Thread C) : System T C :=
  { s with thread := Function.update s.thread t th }

/-- An adder changes. -/
def setAdder (s : System T C) (c : C) (m : MetaConcurrent) : System T C :=
  { s with adder := Function.update s.adder c m }

/-- The destructor of a `CallBack`. -/
def callBack (s : System T C) : Option (C × ℕ) → System T C
  | none => s
  | some (c, i) => s.setAdder c ((s.adder c).addThreads i (-1))

/-- The initialisation of a table in `metaAccumulate`. -/
def initTable (s : System T C) (t : T) (c : C) (slots : List Slot) (cell : ℕ) : System T C :=
  let th := s.thread t
  let nCells := 2
  let j := slotOf th.chosenIdx nCells
  let chosenIdx := BitVec.ofNat 32 j
  let m := { (s.adder c).addThreads j 1 with
    nCells := nCells, cells := some (slots.set j (some cell)) }
  -- A `static` object is constructed once.
  (s.setAdder c m).goTo t { th with
    chosenIdx := chosenIdx
    initCallBack := th.initCallBack.or (some (c, slotOf chosenIdx nCells))
    counted := th.counted ++ [(c, j)]
    initialised := th.initialised + 1 }

/-- A thread ends. -/
def exit (s : System T C) (t : T) : System T C :=
  let th := s.thread t
  { adder := ((s.callBack th.initCallBack).callBack th.bindCallBack).adder
    live := s.live.erase t
    thread := s.thread }

/-- The next step. -/
def next (s : System T C) : Action T C → Option (System T C)
  | .start t =>
    if t ∈ s.live then none else some ({ s with live := insert t s.live }.goTo t {})
  | .bind t c =>
    let th := s.thread t
    if t ∈ s.live ∧ (s.adder c).cells ≠ none ∧ th.chosenIdx = -1 then do
      let (chosenIdx, m) ← (s.adder c).chooseCell th.chosenIdx
      let slot := slotOf chosenIdx m.nCells
      return (s.setAdder c m).goTo t { th with
        chosenIdx := chosenIdx
        bindCallBack := th.bindCallBack.or (some (c, slot))
        counted := th.counted ++ [(c, slot)] }
    else none
  | .load t c =>
    if t ∈ s.live ∧ (s.adder c).cells ≠ none then
      some (s.goTo t { s.thread t with loop := some (c, (s.adder c).nCells) })
    else none
  | .initTable t c slots cell =>
    if t ∈ s.live ∧ (s.adder c).cells = none ∧ slots.length = 2 then
      some (s.initTable t c slots cell)
    else none
  | .createCell t c cell => do
    let m := s.adder c
    let l ← m.cells
    let j := slotOf (s.thread t).chosenIdx m.nCells
    if t ∈ s.live ∧ l[j]? = some none then
      return s.setAdder c { m with cells := some (l.set j (some cell)) }
    else none
  | .extend t slots => do
    let (c, n) ← (s.thread t).loop
    let m := s.adder c
    let l ← m.cells
    -- `n` may be older than `m_cells`.
    if t ∈ s.live ∧ n < m.ncpus ∧ (l.take n ++ slots).length = 2 * n then
      return s.setAdder c { m with cells := some (l.take n ++ slots), nCells := 2 * n }
    else none
  | .exit t => if t ∈ s.live then some (s.exit t) else none

/-- The adders and their threads, from the first thread on. -/
def machine (T C : Type) [DecidableEq T] [DecidableEq C] (processors : ℕ) :
    Machine (System T C) (Action T C) :=
  ofNext (fun s => s = { adder := fun _ => .new processors }) next

/-- The number of live threads that were counted into slot `i` of an adder. -/
def load (s : System T C) (c : C) (i : ℕ) : ℕ :=
  {t ∈ s.live | (c, i) ∈ (s.thread t).counted}.card

/-- Every slot has a number, which is that of the live threads that were counted into it. -/
structure Accounted (s : System T C) : Prop where
  inRange : ∀ c, (s.adder c).nCells ≤ (s.adder c).nthArray.length
  load_eq : ∀ c (i : ℕ) (x : ℤ), (s.adder c).nthArray[i]? = some x → x = s.load c i
  nonneg : ∀ c, ∀ x ∈ (s.adder c).nthArray, 0 ≤ x

/-- A binding chooses a slot with the least number of threads. -/
def PicksLeast (s : System T C) : Action T C → Prop
  | .bind t c =>
    let m := s.adder c
    ∃ chosenIdx m' x, m.chooseCell (s.thread t).chosenIdx = some (chosenIdx, m') ∧
      m.nthArray[slotOf chosenIdx m.nCells]? = some x ∧
      ∀ j < m.nCells, ∃ y, m.nthArray[j]? = some y ∧ x ≤ y
  | _ => True

/-- A thread that ends has not initialised two tables, and a table that is initialised has
two slots in `m_nthArray`. -/
def Pairs (s : System T C) : Action T C → Prop
  | .exit t => (s.thread t).initialised ≤ 1
  | .initTable _ c _ _ => 1 < (s.adder c).ncpus
  | _ => True

instance (s : System T C) (a : Action T C) : Decidable (s.Pairs a) :=
  match a with
  | .exit t => inferInstanceAs (Decidable ((s.thread t).initialised ≤ 1))
  | .initTable _ c _ _ => inferInstanceAs (Decidable (1 < (s.adder c).ncpus))
  | .start _ | .bind _ _ | .load _ _ | .createCell _ _ _ | .extend _ _ =>
    inferInstanceAs (Decidable True)

end System

/-! ### The choice of a slot -/

namespace MetaConcurrent

/-- The slot of a thread in a table with a power of two of slots. -/
theorem slotOf_two_pow (chosenIdx : BitVec 32) (k : ℕ) :
    slotOf chosenIdx (2 ^ k) = chosenIdx.toNat % 2 ^ k :=
  Nat.and_two_pow_sub_one_eq_mod _ k

/-- A slot of the table is the slot of a thread that has chosen it. -/
theorem slotOf_ofNat {i k : ℕ} (hi : i < 2 ^ k) (hk : k ≤ 31) :
    slotOf (BitVec.ofNat 32 i) (2 ^ k) = i := by
  have hpow : 2 ^ k ≤ 2 ^ 31 := Nat.pow_le_pow_right (by decide) hk
  rw [slotOf_two_pow, BitVec.toNat_ofNat, Nat.mod_eq_of_lt (b := 2 ^ 32) (by omega),
    Nat.mod_eq_of_lt hi]

/-- A slot is not `-1`. -/
theorem ofNat_ne_neg_one {i k : ℕ} (hi : i < 2 ^ k) (hk : k ≤ 31) :
    BitVec.ofNat 32 i ≠ -1 := by
  have hpow : 2 ^ k ≤ 2 ^ 31 := Nat.pow_le_pow_right (by decide) hk
  intro heq
  have hnat := congrArg BitVec.toNat heq
  rw [BitVec.toNat_ofNat, Nat.mod_eq_of_lt (by omega)] at hnat
  have hneg : (-1 : BitVec 32).toNat = 2 ^ 32 - 1 := rfl
  omega

/-- A thread without a slot is taken to be in the last one. -/
theorem slotOf_neg_one {k : ℕ} (hk : k ≤ 31) : slotOf (-1) (2 ^ k) = 2 ^ k - 1 := by
  have hpow : 2 ^ k ≤ 2 ^ 31 := Nat.pow_le_pow_right (by decide) hk
  have hneg : (-1 : BitVec 32).toNat = 2 ^ 32 - 1 := rfl
  rw [slotOf, hneg, Nat.and_comm, Nat.and_two_pow_sub_one_eq_mod, Nat.mod_eq_of_lt (by omega)]

/-- An adder whose table has at most `2 ^ b` slots, where `m_nthArray` has `2 ^ b`. -/
structure Sound (m : MetaConcurrent) (b : ℕ) : Prop where
  ncpus : m.ncpus = 2 ^ b
  length : m.nthArray.length = 2 ^ b
  unset : m.cells = none → m.nCells = 0
  table : ∀ l, m.cells = some l → l.length = m.nCells ∧ ∃ k < b, m.nCells = 2 ^ (k + 1)

variable {m : MetaConcurrent} {b i j k : ℕ} {chosenIdx : BitVec 32} {x y d : ℤ}

/-- The loop of `chooseCell` ends with a slot that no slot of the table falls below. -/
theorem chooseLoop_spec (hcells : ∃ l, m.cells = some l ∧ l.length = m.nCells)
    (hsize : m.nCells = 2 ^ k) (hk : k ≤ 31) (hlength : m.nCells ≤ m.nthArray.length)
    (hnonneg : ∀ x ∈ m.nthArray, 0 ≤ x) {n : ℕ} (hn : i + n = m.nCells)
    (hchosen : (chosenIdx = -1 ∧ i < m.nCells) ∨
      ∃ c < m.nCells, chosenIdx = BitVec.ofNat 32 c)
    (hleast : ∀ j < i, ∀ x y, m.nthArray[slotOf chosenIdx m.nCells]? = some x →
      m.nthArray[j]? = some y → x ≤ y) :
    ∃ c < m.nCells, m.chooseLoop n i chosenIdx = some (BitVec.ofNat 32 c) ∧
      ∀ j < m.nCells, ∀ x y, m.nthArray[c]? = some x → m.nthArray[j]? = some y → x ≤ y := by
  obtain ⟨l, hl, hlen⟩ := hcells
  have hslot {c : ℕ} (hc : c < m.nCells) : slotOf (BitVec.ofNat 32 c) m.nCells = c := by
    rw [hsize] at hc ⊢
    exact slotOf_ofNat hc hk
  induction n generalizing i chosenIdx with
  | zero =>
    rcases hchosen with ⟨-, hi⟩ | ⟨c, hc, rfl⟩
    · omega
    · rw [hslot hc] at hleast
      exact ⟨c, hc, rfl, fun j hj => hleast j (by omega)⟩
  | succ n ih =>
    have hi : i < m.nCells := by omega
    obtain ⟨cell, hcell⟩ : ∃ cell, l[i]? = some cell :=
      ⟨_, List.getElem?_eq_getElem (hlen.symm ▸ hi)⟩
    obtain ⟨nth, hnth⟩ : ∃ nth, m.nthArray[i]? = some nth :=
      ⟨_, List.getElem?_eq_getElem (hi.trans_le hlength)⟩
    rw [chooseLoop, hl, Option.bind_some, hcell, hnth]
    simp only [Option.bind_eq_bind, Option.bind_some]
    split_ifs with hempty hneg
    · rw [hsize] at hi
      exact absurd hneg (ofNat_ne_neg_one hi hk)
    · refine ⟨i, hi, rfl, fun j _ x y hx hy => ?_⟩
      rw [hnth] at hx
      obtain rfl : nth = x := Option.some.inj hx
      exact hempty.2.trans_le (hnonneg y (List.mem_of_getElem? hy))
    · -- the slot that is compared lies in the table, also for a thread without a slot
      have hbound : slotOf chosenIdx m.nCells < m.nCells := LongAddr.slotOf_lt (by omega)
      obtain ⟨least, hread⟩ : ∃ least, m.nthArray[slotOf chosenIdx m.nCells]? = some least :=
        ⟨_, List.getElem?_eq_getElem (hbound.trans_le hlength)⟩
      rw [hread, Option.bind_some]
      split_ifs with hle
      · refine ih (by omega) (.inr ⟨i, hi, rfl⟩) fun j hj x y hx hy => ?_
        rw [hslot hi, hnth] at hx
        obtain rfl : nth = x := Option.some.inj hx
        rcases Nat.lt_succ_iff_lt_or_eq.mp hj with hj | rfl
        · exact hle.trans (hleast j hj least y hread hy)
        · exact (Option.some.inj (hnth.symm.trans hy)).le
      · refine ih (by omega) ?_ fun j hj x y hx hy => ?_
        · rcases hchosen with ⟨rfl, -⟩ | hchosen
          · refine .inl ⟨rfl, ?_⟩
            by_contra hlast
            -- in the last slot the thread compares the slot with itself
            have heq : slotOf (-1) m.nCells = i := by
              rw [hsize, slotOf_neg_one hk]
              omega
            rw [heq, hnth] at hread
            exact hle (Option.some.inj hread).le
          · exact .inr hchosen
        · rcases Nat.lt_succ_iff_lt_or_eq.mp hj with hj | rfl
          · exact hleast j hj x y hx hy
          · rw [hread] at hx
            obtain rfl : least = x := Option.some.inj hx
            rw [hnth] at hy
            obtain rfl : nth = y := Option.some.inj hy
            exact (not_le.mp hle).le

/-- `chooseCell` binds a thread to a slot that no slot of the table falls below. -/
theorem Sound.chooseCell_eq (h : m.Sound b) (hb : b ≤ 31) (hcells : m.cells ≠ none)
    (hnonneg : ∀ x ∈ m.nthArray, 0 ≤ x) :
    ∃ c < m.nCells, m.chooseCell (-1) = some (BitVec.ofNat 32 c, m.addThreads c 1) ∧
      slotOf (BitVec.ofNat 32 c) m.nCells = c ∧ BitVec.ofNat 32 c ≠ -1 ∧
      ∀ j < m.nCells, ∀ x y, m.nthArray[c]? = some x → m.nthArray[j]? = some y → x ≤ y := by
  obtain ⟨l, hl⟩ := Option.ne_none_iff_exists'.mp hcells
  obtain ⟨hlen, k, hk, hsize⟩ := h.table l hl
  have hle : m.nCells ≤ m.nthArray.length := by
    rw [hsize, h.length]
    exact Nat.pow_le_pow_right Nat.two_pos hk
  have htwo : 1 < m.nCells := by
    rw [hsize]
    exact Nat.one_lt_two_pow k.succ_ne_zero
  have hnone : (-1 : BitVec 32) = -1 ∧ 0 < m.nCells := ⟨rfl, by omega⟩
  obtain ⟨c, hc, hloop, hleast⟩ := chooseLoop_spec ⟨l, hl, hlen⟩ hsize (by omega) hle hnonneg
    (Nat.zero_add _) (.inl hnone) (fun j hj => by omega)
  have hpow : c < 2 ^ (k + 1) := hsize ▸ hc
  have hslot : slotOf (BitVec.ofNat 32 c) m.nCells = c := by
    rw [hsize]
    exact slotOf_ofNat hpow (by omega)
  refine ⟨c, hc, ?_, hslot, ofNat_ne_neg_one hpow (by omega), hleast⟩
  rw [chooseCell, if_pos htwo, hloop, Option.bind_eq_bind, Option.bind_some]
  dsimp only
  rw [if_neg hcells, hslot]
  rfl

/-- The number of threads in a slot, after that of one slot has changed. -/
theorem getElem?_addThreads (m : MetaConcurrent) (i j : ℕ) (d : ℤ) :
    (m.addThreads j d).nthArray[i]? =
      m.nthArray[i]?.map fun x => if j = i then x + d else x := by
  rw [addThreads, List.getElem?_modify]
  split_ifs with hij <;> simp

theorem length_addThreads (m : MetaConcurrent) (j : ℕ) (d : ℤ) :
    (m.addThreads j d).nthArray.length = m.nthArray.length :=
  List.length_modify _ _ _

/-- The number of threads in a slot changes. -/
theorem Sound.addThreads (h : m.Sound b) (j : ℕ) (d : ℤ) : (m.addThreads j d).Sound b where
  ncpus := h.ncpus
  length := (m.length_addThreads j d).trans h.length
  unset := h.unset
  table := h.table

/-- A table with a power of two of slots, not more than `m_nthArray` has. -/
theorem Sound.setTable (h : m.Sound b) {l : List Slot} {n : ℕ} (hlength : l.length = n)
    (hsize : ∃ k < b, n = 2 ^ (k + 1)) : { m with cells := some l, nCells := n }.Sound b where
  ncpus := h.ncpus
  length := h.length
  unset := nofun
  table l' hl' := by
    obtain rfl : l = l' := Option.some.inj hl'
    exact ⟨hlength, hsize⟩

/-- The constructor makes an adder without a table. -/
theorem sound_new {processors : ℕ} (hpos : 0 < processors) (hle : processors ≤ 2 ^ 30) :
    ∃ b ≤ 30, (new processors).Sound b := by
  have hnext := MathUtils.nextPowerofTwo_eq hpos (by omega)
  refine ⟨Nat.clog 2 processors, ?_, ?_⟩
  · rw [Nat.clog_le_iff_le_pow (by decide)]
    exact hle
  · exact
      { ncpus := hnext
        length := List.length_replicate.trans hnext
        unset := fun _ => rfl
        table := nofun }

end MetaConcurrent

/-! ### The number of threads that were counted -/

/-- A thread keeps its slots where the adders keep their tables. -/
structure Thread.Sound {C : Type} (adder : C → MetaConcurrent) (th : Thread C) : Prop where
  /-- The `CallBack` objects point to the slot of the binding and to that of the first
  initialisation. -/
  callBacks : ∃ inits, th.counted = th.bindCallBack.toList ++ inits ∧
    th.initCallBack = inits.head? ∧ inits.length = th.initialised
  /-- A thread is counted once by every adder. -/
  distinct : (th.counted.map Prod.fst).Nodup
  unbound : th.chosenIdx = -1 → th.counted = []
  inRange : ∀ p ∈ th.counted,
    (adder p.1).cells ≠ none ∧ p.2 < (adder p.1).nthArray.length
  loop : ∀ c n, th.loop = some (c, n) → ∃ k, n = 2 ^ (k + 1)

/-- The adders keep their tables. -/
def Keeps {C : Type} (adder adder' : C → MetaConcurrent) : Prop :=
  ∀ c, ((adder c).cells ≠ none → (adder' c).cells ≠ none) ∧
    (adder' c).nthArray.length = (adder c).nthArray.length

/-- A new thread has no slots. -/
theorem Thread.Sound.new {C : Type} (adder : C → MetaConcurrent) :
    Thread.Sound adder {} where
  callBacks := ⟨[], rfl, rfl, rfl⟩
  distinct := List.nodup_nil
  unbound _ := rfl
  inRange := nofun
  loop := nofun

/-- The slots of a thread stay where the adders keep their tables. -/
theorem Thread.Sound.keeps {C : Type} {adder adder' : C → MetaConcurrent} {th : Thread C}
    (h : th.Sound adder) (hkeeps : Keeps adder adder') : th.Sound adder' where
  callBacks := h.callBacks
  distinct := h.distinct
  unbound := h.unbound
  inRange p hp := by
    obtain ⟨hcells, hlt⟩ := h.inRange p hp
    exact ⟨(hkeeps p.1).1 hcells, hlt.trans_eq (hkeeps p.1).2.symm⟩
  loop := h.loop

namespace System

variable {T C : Type} [DecidableEq T] [DecidableEq C] {s s' : System T C} {t : T} {c : C}
  {th : Thread C} {m : MetaConcurrent} {i j : ℕ} {b : ℕ}

omit [DecidableEq T] in
theorem adder_setAdder_self : (s.setAdder c m).adder c = m := Function.update_self _ _ _

omit [DecidableEq T] in
theorem adder_setAdder_of_ne {c' : C} (hc : c' ≠ c) :
    (s.setAdder c m).adder c' = s.adder c' :=
  Function.update_of_ne hc _ _

omit [DecidableEq C] in
theorem thread_goTo_self : (s.goTo t th).thread t = th := Function.update_self _ _ _

omit [DecidableEq C] in
theorem thread_goTo_of_ne {u : T} (hut : u ≠ t) : (s.goTo t th).thread u = s.thread u :=
  Function.update_of_ne hut _ _

/-- What a thread contributes to the number of a slot. -/
def share (c : C) (i : ℕ) (th : Thread C) : ℕ := if (c, i) ∈ th.counted then 1 else 0

omit [DecidableEq T] in
/-- The live threads of a slot are counted one by one. -/
theorem load_eq_sum (s : System T C) (c : C) (i : ℕ) :
    s.load c i = ∑ t ∈ s.live, share c i (s.thread t) :=
  Finset.card_filter _ _

/-- A live thread that goes on exchanges its share. -/
theorem load_goTo_add (ht : t ∈ s.live) (th : Thread C) (c : C) (i : ℕ) :
    (s.goTo t th).load c i + share c i (s.thread t) = s.load c i + share c i th := by
  rw [load_eq_sum, load_eq_sum]
  exact sum_update_add ht (share c i) s.thread th

/-- A thread starts with no slots. -/
theorem load_start (ht : t ∉ s.live) (c : C) (i : ℕ) :
    (({ s with live := insert t s.live } : System T C).goTo t {}).load c i = s.load c i := by
  rw [load_eq_sum, load_eq_sum]
  refine (Finset.sum_insert ht).trans ?_
  have hnew : share c i ({} : Thread C) = 0 := if_neg List.not_mem_nil
  rw [thread_goTo_self, hnew, zero_add]
  refine Finset.sum_congr rfl fun u hu => ?_
  have hne : u ≠ t := fun heq => ht (heq ▸ hu)
  rw [thread_goTo_of_ne hne]

/-- A thread that ends takes its share with it. -/
theorem load_exit_add (ht : t ∈ s.live) (c : C) (i : ℕ) :
    (s.exit t).load c i + share c i (s.thread t) = s.load c i := by
  rw [load_eq_sum, load_eq_sum, add_comm]
  exact Finset.add_sum_erase s.live (fun u => share c i (s.thread u)) ht

/-- What holds of the adders and the threads in every state. -/
structure Inv (b : ℕ) (s : System T C) : Prop where
  adders : ∀ c, (s.adder c).Sound b
  threads : ∀ t ∈ s.live, (s.thread t).Sound s.adder
  load_eq : ∀ c (i : ℕ) (x : ℤ), (s.adder c).nthArray[i]? = some x → x = s.load c i

omit [DecidableEq T] in
/-- The numbers of threads are not negative. -/
theorem Inv.nonneg (h : s.Inv b) (c : C) : ∀ x ∈ (s.adder c).nthArray, 0 ≤ x := by
  intro x hx
  obtain ⟨i, hi⟩ := List.mem_iff_getElem?.mp hx
  rw [h.load_eq c i x hi]
  exact Int.natCast_nonneg _

omit [DecidableEq T] in
/-- The invariant accounts for the threads. -/
theorem Inv.accounted (h : s.Inv b) : s.Accounted where
  inRange c := by
    have hsound := h.adders c
    cases hcells : (s.adder c).cells with
    | none => exact (hsound.unset hcells).trans_le (Nat.zero_le _)
    | some l =>
      obtain ⟨-, k, hk, hsize⟩ := hsound.table l hcells
      rw [hsize, hsound.length]
      exact Nat.pow_le_pow_right Nat.two_pos hk
  load_eq := h.load_eq
  nonneg := h.nonneg

/-- One adder changes, and keeps its table and the length of `m_nthArray`. -/
theorem keeps_update {adder : C → MetaConcurrent} (hcells : (adder c).cells ≠ none → m.cells ≠ none)
    (hlength : m.nthArray.length = (adder c).nthArray.length) :
    Keeps adder (Function.update adder c m) := by
  intro c'
  by_cases hc : c' = c
  · rw [hc, Function.update_self]
    exact ⟨hcells, hlength⟩
  · rw [Function.update_of_ne hc]
    exact ⟨id, rfl⟩

/-- A live thread goes on and changes an adder: what the adder counts is what the thread
has got in addition. -/
theorem Inv.step (h : s.Inv b) (ht : t ∈ s.live) (hm : m.Sound b)
    (hkeeps : Keeps s.adder (Function.update s.adder c m))
    (hth : th.Sound (Function.update s.adder c m))
    (hcount : ∀ c' (i : ℕ) (x : ℤ), (Function.update s.adder c m c').nthArray[i]? = some x →
      x + share c' i (s.thread t) = s.load c' i + share c' i th) :
    ((s.setAdder c m).goTo t th).Inv b where
  adders := (Function.forall_update_iff s.adder fun _ m => m.Sound b).mpr
    ⟨hm, fun c' _ => h.adders c'⟩
  threads u hu := by
    by_cases hut : u = t
    · rw [hut, thread_goTo_self]
      exact hth
    · rw [thread_goTo_of_ne hut]
      exact (h.threads u hu).keeps hkeeps
  load_eq c' i x hx := by
    have hnew := @load_goTo_add _ _ _ _ (s.setAdder c m) t ht th c' i
    have hold := hcount c' i x hx
    have hshare : (s.setAdder c m).load c' i = s.load c' i := rfl
    rw [hshare] at hnew
    have hthread : (s.setAdder c m).thread t = s.thread t := rfl
    rw [hthread] at hnew
    omega

/-- A thread that starts has no slots. -/
theorem Inv.start (h : s.Inv b) (ht : t ∉ s.live) :
    (({ s with live := insert t s.live } : System T C).goTo t {}).Inv b where
  adders := h.adders
  threads u hu := by
    by_cases hut : u = t
    · rw [hut, thread_goTo_self]
      exact .new s.adder
    · rw [thread_goTo_of_ne hut]
      exact h.threads u ((Finset.mem_insert.mp hu).resolve_left hut)
  load_eq c i x hx := by
    rw [load_start ht]
    exact h.load_eq c i x hx

/-- The share of a thread that was counted into one more slot. -/
theorem share_append (hnot : c ∉ th.counted.map Prod.fst) {th' : Thread C}
    (hcounted : th'.counted = th.counted ++ [(c, j)]) (c' : C) (i : ℕ) :
    share c' i th' = share c' i th + if c' = c ∧ i = j then 1 else 0 := by
  rw [share, share, hcounted]
  by_cases hnew : c' = c ∧ i = j
  · obtain ⟨rfl, rfl⟩ := hnew
    have hold : (c', i) ∉ th.counted := fun hmem => hnot (List.mem_map_of_mem hmem)
    rw [if_pos (List.mem_append_right _ List.mem_cons_self), if_neg hold,
      if_pos ⟨rfl, rfl⟩]
  · rw [if_neg hnew, add_zero]
    refine if_congr ?_ rfl rfl
    rw [List.mem_append, List.mem_singleton, Prod.mk.injEq, or_iff_left hnew]

/-- A thread is counted into a slot. -/
theorem Inv.count (h : s.Inv b) (ht : t ∈ s.live) (hm : m.Sound b)
    (harray : m.nthArray = ((s.adder c).addThreads j 1).nthArray)
    (hcells : m.cells ≠ none) (hth : th.Sound (Function.update s.adder c m))
    (hcounted : th.counted = (s.thread t).counted ++ [(c, j)]) :
    ((s.setAdder c m).goTo t th).Inv b := by
  have hnot : c ∉ (s.thread t).counted.map Prod.fst := by
    have hdistinct := hth.distinct
    rw [hcounted, List.map_append, List.nodup_append] at hdistinct
    exact fun hmem => hdistinct.2.2 c hmem c List.mem_cons_self rfl
  have hlength : m.nthArray.length = (s.adder c).nthArray.length := by
    rw [harray, MetaConcurrent.length_addThreads]
  refine h.step ht hm (keeps_update (fun _ => hcells) hlength) hth fun c' i x hx => ?_
  rw [share_append hnot hcounted]
  by_cases hc : c' = c
  · subst hc
    rw [Function.update_self, harray, MetaConcurrent.getElem?_addThreads] at hx
    obtain ⟨y, hy, rfl⟩ := Option.map_eq_some_iff.mp hx
    have hload := h.load_eq c' i y hy
    by_cases hij : j = i
    · rw [if_pos hij, if_pos ⟨rfl, hij.symm⟩]
      push_cast
      omega
    · rw [if_neg hij, if_neg (fun heq => hij heq.2.symm)]
      push_cast
      omega
  · rw [Function.update_of_ne hc] at hx
    have hload := h.load_eq c' i x hx
    rw [if_neg (fun heq => hc heq.1)]
    push_cast
    omega

omit [DecidableEq T] in
/-- A thread that is counted keeps its slots. -/
theorem Inv.sound_count (h : s.Inv b) (ht : t ∈ s.live) (hcells : m.cells ≠ none)
    (hlength : m.nthArray.length = (s.adder c).nthArray.length) (hj : j < m.nthArray.length)
    (hnot : c ∉ (s.thread t).counted.map Prod.fst)
    (hcounted : th.counted = (s.thread t).counted ++ [(c, j)])
    (hcallBacks : ∃ inits, th.counted = th.bindCallBack.toList ++ inits ∧
      th.initCallBack = inits.head? ∧ inits.length = th.initialised)
    (hchosen : th.chosenIdx ≠ -1) (hloop : th.loop = (s.thread t).loop) :
    th.Sound (Function.update s.adder c m) := by
  have hold := (h.threads t ht).keeps (keeps_update (fun _ => hcells) hlength)
  exact
    { callBacks := hcallBacks
      distinct := by
        rw [hcounted, List.map_append, List.nodup_append]
        refine ⟨hold.distinct, List.nodup_singleton _, fun a ha a' ha' heq => ?_⟩
        obtain rfl : a' = c := List.mem_singleton.mp ha'
        exact hnot (heq ▸ ha)
      unbound := fun heq => absurd heq hchosen
      inRange := by
        intro p hp
        rw [hcounted, List.mem_append, List.mem_singleton] at hp
        rcases hp with hp | rfl
        · exact hold.inRange p hp
        · rw [Function.update_self]
          exact ⟨hcells, hj⟩
      loop := hloop ▸ hold.loop }

/-- A binding counts the thread once. -/
theorem Inv.next_bind (h : s.Inv b) (hb : b ≤ 31) (hstep : s.next (.bind t c) = some s') :
    s'.Inv b := by
  rw [next] at hstep
  split_ifs at hstep with hguard
  obtain ⟨ht, hcells, hchosen⟩ := hguard
  obtain ⟨j, hj, hchoose, hslot, hne, -⟩ :=
    (h.adders c).chooseCell_eq hb hcells (h.nonneg c)
  obtain ⟨⟨chosenIdx, m⟩, hpair, hrest⟩ := Option.bind_eq_some_iff.mp hstep
  rw [hchosen, hchoose] at hpair
  cases hpair
  have hsound := h.threads t ht
  -- a thread that has no slot was not counted, so the `static` object is constructed now
  have hcounted := hsound.unbound hchosen
  obtain ⟨inits, hinits, hinit, hnumber⟩ := hsound.callBacks
  rw [hcounted] at hinits
  obtain ⟨hbind, rfl⟩ := List.append_eq_nil_iff.mp hinits.symm
  have hlt : j < ((s.adder c).addThreads j 1).nthArray.length := by
    rw [MetaConcurrent.length_addThreads]
    exact hj.trans_le (h.accounted.inRange c)
  cases hrest
  refine h.count ht ((h.adders c).addThreads j 1) rfl hcells ?_
    (congrArg (fun i => _ ++ [(c, i)]) hslot)
  refine h.sound_count ht hcells (MetaConcurrent.length_addThreads _ _ _) hlt ?_
    (congrArg (fun i => _ ++ [(c, i)]) hslot) ?_ hne rfl
  · rw [hcounted]
    exact List.not_mem_nil
  · refine ⟨[], ?_, hinit, hnumber⟩
    rw [hcounted, Option.toList_eq_nil_iff.mp hbind]
    rfl

/-- An initialisation counts the thread once. -/
theorem Inv.next_initTable (h : s.Inv b) {slots : List Slot} {cell : ℕ}
    (hncpus : 1 < (s.adder c).ncpus) (hstep : s.next (.initTable t c slots cell) = some s') :
    s'.Inv b := by
  rw [next] at hstep
  split_ifs at hstep with hguard
  obtain ⟨ht, hcells, hslots⟩ := hguard
  cases hstep
  rw [(h.adders c).ncpus] at hncpus
  have hb : 0 < b := Nat.pos_of_ne_zero fun hzero => by
    rw [hzero, pow_zero] at hncpus
    exact absurd hncpus (lt_irrefl 1)
  rw [initTable]
  set j := slotOf (s.thread t).chosenIdx 2 with hj
  have hlt : j < 2 := LongAddr.slotOf_lt Nat.two_pos
  have hslot : slotOf (BitVec.ofNat 32 j) 2 = j :=
    MetaConcurrent.slotOf_ofNat (k := 1) hlt (by decide)
  have hm := ((h.adders c).addThreads j 1).setTable (l := slots.set j (some cell))
    ((List.length_set ..).trans hslots) ⟨0, hb, rfl⟩
  have hlength : ((s.adder c).addThreads j 1).nthArray.length = 2 ^ b :=
    ((h.adders c).addThreads j 1).length
  have hsound := h.threads t ht
  have hnot : c ∉ (s.thread t).counted.map Prod.fst := by
    intro hmem
    obtain ⟨p, hp, rfl⟩ := List.mem_map.mp hmem
    exact (hsound.inRange p hp).1 hcells
  obtain ⟨inits, hinits, hinit, hnumber⟩ := hsound.callBacks
  refine h.count ht hm rfl nofun ?_ rfl
  refine h.sound_count ht nofun (MetaConcurrent.length_addThreads _ _ _) ?_ hnot rfl ?_
    (MetaConcurrent.ofNat_ne_neg_one (k := 1) hlt (by decide)) rfl
  · exact hlt.trans_le (hncpus.trans_eq hlength.symm)
  · refine ⟨inits ++ [(c, j)], ?_, ?_, ?_⟩
    · dsimp only
      rw [hinits, List.append_assoc]
    · dsimp only
      rw [hslot, hinit, List.head?_append, List.head?_cons]
    · rw [List.length_append, hnumber, List.length_singleton]

omit [DecidableEq T] in
/-- A step that changes the table of an adder only. -/
theorem Inv.setAdder (h : s.Inv b) (hm : m.Sound b) (hcells : m.cells ≠ none)
    (harray : m.nthArray = (s.adder c).nthArray) : (s.setAdder c m).Inv b where
  adders := (Function.forall_update_iff s.adder fun _ m => m.Sound b).mpr
    ⟨hm, fun c' _ => h.adders c'⟩
  threads u hu :=
    (h.threads u hu).keeps (keeps_update (fun _ => hcells) (congrArg List.length harray))
  load_eq c' i x hx := by
    refine h.load_eq c' i x ?_
    by_cases hc : c' = c
    · subst hc
      rwa [adder_setAdder_self, harray] at hx
    · rwa [adder_setAdder_of_ne hc] at hx

/-- The loop loads a size of the table. -/
theorem Inv.next_load (h : s.Inv b) (hstep : s.next (.load t c) = some s') : s'.Inv b := by
  rw [next] at hstep
  split_ifs at hstep with hguard
  obtain ⟨ht, hcells⟩ := hguard
  cases hstep
  have hsound := h.threads t ht
  have hadder : Function.update s.adder c (s.adder c) = s.adder := Function.update_eq_self _ _
  have hsame : s.setAdder c (s.adder c) = s := by rw [System.setAdder, hadder]
  rw [← hsame]
  refine h.step ht (h.adders c) (keeps_update id rfl) ?_ fun c' i x hx => ?_
  · rw [hadder, hsame]
    exact
      { callBacks := hsound.callBacks
        distinct := hsound.distinct
        unbound := hsound.unbound
        inRange := hsound.inRange
        loop := by
          intro c' n hloop
          cases hloop
          obtain ⟨l, hl⟩ := Option.ne_none_iff_exists'.mp hcells
          obtain ⟨-, k, -, hsize⟩ := (h.adders c).table l hl
          exact ⟨k, hsize⟩ }
  · rw [hadder] at hx
    rw [h.load_eq c' i x hx, hsame]
    rfl

/-- A cell is created in a slot of the table. -/
theorem Inv.next_createCell (h : s.Inv b) {cell : ℕ}
    (hstep : s.next (.createCell t c cell) = some s') : s'.Inv b := by
  obtain ⟨l, hl, hrest⟩ := Option.bind_eq_some_iff.mp hstep
  dsimp only at hrest
  split_ifs at hrest
  cases hrest
  obtain ⟨hlength, hsize⟩ := (h.adders c).table l hl
  exact h.setAdder ((h.adders c).setTable ((List.length_set ..).trans hlength) hsize) nofun rfl

/-- A table is doubled, and `m_nthArray` has enough slots. -/
theorem Inv.next_extend (h : s.Inv b) {slots : List Slot}
    (hstep : s.next (.extend t slots) = some s') : s'.Inv b := by
  obtain ⟨⟨c, n⟩, hloop, hrest⟩ := Option.bind_eq_some_iff.mp hstep
  obtain ⟨l, hl, hrest⟩ := Option.bind_eq_some_iff.mp hrest
  split_ifs at hrest with hguard
  obtain ⟨ht, hn, hlength⟩ := hguard
  cases hrest
  obtain ⟨k, rfl⟩ := (h.threads t ht).loop c n hloop
  rw [(h.adders c).ncpus] at hn
  have hk : k + 1 < b := (Nat.pow_lt_pow_iff_right (by decide)).mp hn
  exact h.setAdder ((h.adders c).setTable hlength ⟨k + 1, hk, (pow_succ' 2 (k + 1)).symm⟩)
    nofun rfl

omit [DecidableEq T] in
/-- The destructor of a `CallBack` takes one thread from its slot. -/
theorem getElem?_callBack (s : System T C) (p : Option (C × ℕ)) (c : C) (i : ℕ) :
    ((s.callBack p).adder c).nthArray[i]? =
      (s.adder c).nthArray[i]?.map fun x => x - if p = some (c, i) then 1 else 0 := by
  match p with
  | none => simp [callBack]
  | some (c', j) =>
    rw [callBack]
    by_cases hc : c = c'
    · subst hc
      rw [adder_setAdder_self, MetaConcurrent.getElem?_addThreads]
      congr 1
      funext x
      by_cases hj : j = i
      · rw [if_pos hj, if_pos (by rw [hj])]
        rfl
      · rw [if_neg hj, if_neg (fun heq => hj (Prod.ext_iff.mp (Option.some.inj heq)).2), sub_zero]
    · have hne : some (c', j) ≠ some (c, i) :=
        fun heq => hc (Prod.ext_iff.mp (Option.some.inj heq)).1.symm
      rw [adder_setAdder_of_ne hc, if_neg hne]
      simp

/-- A thread that ends takes one thread from the slots of its two `CallBack` objects. -/
theorem getElem?_exit (s : System T C) (t : T) (c : C) (i : ℕ) :
    ((s.exit t).adder c).nthArray[i]? = (s.adder c).nthArray[i]?.map fun x =>
      x - (((if (s.thread t).initCallBack = some (c, i) then 1 else 0) +
        if (s.thread t).bindCallBack = some (c, i) then 1 else 0 : ℕ) : ℤ) := by
  rw [exit]
  dsimp only
  rw [getElem?_callBack, getElem?_callBack, Option.map_map]
  congr 1
  funext x
  push_cast
  exact sub_sub _ _ _

omit [DecidableEq T] in
/-- The destructor of a `CallBack` keeps the tables. -/
theorem keeps_callBack (s : System T C) (p : Option (C × ℕ)) :
    Keeps s.adder (s.callBack p).adder := by
  match p with
  | none => exact fun c => ⟨id, rfl⟩
  | some (c', j) => exact keeps_update id (MetaConcurrent.length_addThreads _ _ _)

omit [DecidableEq T] in
/-- The destructor of a `CallBack` changes a number in `m_nthArray` only. -/
theorem sound_callBack {p : Option (C × ℕ)} (h : ∀ c, (s.adder c).Sound b) (c : C) :
    ((s.callBack p).adder c).Sound b := by
  match p with
  | none => exact h c
  | some (c', j) =>
    exact (Function.forall_update_iff s.adder fun _ m => m.Sound b).mpr
      ⟨(h c').addThreads j (-1), fun c _ => h c⟩ c

/-- A `CallBack` points to its slot only. -/
theorem count_toList (p : Option (C × ℕ)) (q : C × ℕ) :
    p.toList.count q = if p = some q then 1 else 0 := by
  cases p with
  | none => rfl
  | some p =>
    rw [Option.toList_some, List.count_singleton]
    exact if_congr (by rw [beq_iff_eq, Option.some.injEq, eq_comm]) rfl rfl

omit [DecidableEq T] in
/-- The `CallBack` objects of a thread that has not initialised two tables point to all its
slots. -/
theorem share_eq_callBacks {adder : C → MetaConcurrent} (h : th.Sound adder)
    (hle : th.initialised ≤ 1) (c : C) (i : ℕ) :
    share c i th = (if th.initCallBack = some (c, i) then 1 else 0) +
      if th.bindCallBack = some (c, i) then 1 else 0 := by
  obtain ⟨inits, hinits, hinit, hnumber⟩ := h.callBacks
  have hlist : inits = th.initCallBack.toList := by
    rw [hinit]
    match inits with
    | [] => rfl
    | [p] => rfl
    | p :: q :: rest =>
      rw [List.length_cons, List.length_cons] at hnumber
      omega
  have hcount : share c i th = th.counted.count (c, i) := (h.distinct.of_map _).count.symm
  rw [hcount, hinits, hlist, List.count_append, count_toList, count_toList, add_comm]

/-- A thread that has not initialised two tables takes itself from all its slots. -/
theorem Inv.next_exit (h : s.Inv b) (hle : (s.thread t).initialised ≤ 1)
    (hstep : s.next (.exit t) = some s') : s'.Inv b := by
  rw [next] at hstep
  split_ifs at hstep with ht
  cases hstep
  exact
    { adders := sound_callBack (sound_callBack h.adders)
      threads := fun u hu =>
        ((h.threads u (Finset.mem_of_mem_erase hu)).keeps
          (keeps_callBack s (s.thread t).initCallBack)).keeps
            (keeps_callBack _ (s.thread t).bindCallBack)
      load_eq := by
        intro c i x hx
        obtain ⟨z, hz, rfl⟩ := Option.map_eq_some_iff.mp ((getElem?_exit s t c i).symm.trans hx)
        have hload := load_exit_add ht c i
        have hbefore := h.load_eq c i z hz
        rw [← share_eq_callBacks (h.threads t ht) hle c i]
        omega }

/-- A step that meets the condition keeps the invariant. -/
theorem Inv.next (h : s.Inv b) (hb : b ≤ 31) {a : Action T C} (hpairs : s.Pairs a)
    (hstep : s.next a = some s') : s'.Inv b := by
  cases a with
  | start t =>
    rw [System.next] at hstep
    split_ifs at hstep with ht
    cases hstep
    exact h.start ht
  | bind t c => exact h.next_bind hb hstep
  | load t c => exact h.next_load hstep
  | initTable t c slots cell => exact h.next_initTable hpairs hstep
  | createCell t c cell => exact h.next_createCell hstep
  | extend t slots => exact h.next_extend hstep
  | exit t => exact h.next_exit hpairs hstep

/-- A thread that ends and has initialised two tables stays in the number of a slot, and a
table with two slots needs two numbers. -/
theorem Inv.not_accounted (h : s.Inv b) {a : Action T C} (hpairs : ¬s.Pairs a)
    (hstep : s.next a = some s') : ¬s'.Accounted := by
  intro haccounted
  cases a with
  | initTable t c slots cell =>
    rw [System.next] at hstep
    split_ifs at hstep
    cases hstep
    have hrange := haccounted.inRange c
    rw [initTable, goTo] at hrange
    dsimp only at hrange
    rw [adder_setAdder_self, MetaConcurrent.length_addThreads, (h.adders c).length,
      ← (h.adders c).ncpus] at hrange
    exact hpairs hrange
  | exit t =>
    rw [System.next] at hstep
    split_ifs at hstep with ht
    cases hstep
    have hsound := h.threads t ht
    obtain ⟨inits, hinits, hinit, hnumber⟩ := hsound.callBacks
    -- the second table that the thread has initialised
    match inits with
    | [] => exact hpairs (hnumber.symm.trans_le (Nat.zero_le 1))
    | [p] => exact hpairs hnumber.symm.le
    | p :: (c, i) :: rest =>
      have hmem : (c, i) ∈ (s.thread t).counted := by
        rw [hinits]
        exact List.mem_append_right _ (List.mem_cons_of_mem _ List.mem_cons_self)
      have hdistinct := hsound.distinct
      rw [hinits, List.map_append, List.nodup_append] at hdistinct
      obtain ⟨-, hnodup, hapart⟩ := hdistinct
      have hfirst : (s.thread t).initCallBack ≠ some (c, i) := by
        rw [hinit, List.head?_cons]
        rintro ⟨⟩
        exact (List.nodup_cons.mp hnodup).1 List.mem_cons_self
      have hbind : (s.thread t).bindCallBack ≠ some (c, i) := by
        intro hbind
        rw [hbind] at hapart
        exact hapart c List.mem_cons_self c (List.mem_cons_of_mem _ List.mem_cons_self) rfl
      obtain ⟨-, hlt⟩ := hsound.inRange _ hmem
      obtain ⟨x, hx⟩ : ∃ x, (s.adder c).nthArray[i]? = some x := ⟨_, List.getElem?_eq_getElem hlt⟩
      have hafter := haccounted.load_eq c i x
      rw [getElem?_exit, if_neg hfirst, if_neg hbind, hx] at hafter
      have hnew := hafter (by rw [Option.map_some, Nat.cast_zero, sub_zero])
      have hold := h.load_eq c i x hx
      have hload := load_exit_add ht c i
      have hshare : share c i (s.thread t) = 1 := if_pos hmem
      omega
  | start t => exact hpairs trivial
  | bind t c => exact hpairs trivial
  | load t c => exact hpairs trivial
  | createCell t c cell => exact hpairs trivial
  | extend t slots => exact hpairs trivial

/-- A binding chooses a slot with the least number. -/
theorem Inv.picksLeast (h : s.Inv b) (hb : b ≤ 31) {a : Action T C} (hstep : s.next a = some s') :
    s.PicksLeast a := by
  cases a with
  | bind t c =>
    rw [System.next] at hstep
    split_ifs at hstep with hguard
    obtain ⟨ht, hcells, hchosen⟩ := hguard
    obtain ⟨j, hj, hchoose, hslot, -, hleast⟩ :=
      (h.adders c).chooseCell_eq hb hcells (h.nonneg c)
    have hread {i : ℕ} (hi : i < (s.adder c).nCells) :
        ∃ x, (s.adder c).nthArray[i]? = some x :=
      ⟨_, List.getElem?_eq_getElem (hi.trans_le (h.accounted.inRange c))⟩
    obtain ⟨x, hx⟩ := hread hj
    refine ⟨BitVec.ofNat 32 j, _, x, hchosen ▸ hchoose, hslot.symm ▸ hx, fun i hi => ?_⟩
    obtain ⟨y, hy⟩ := hread hi
    exact ⟨y, hy, hleast i hi x y hx hy⟩
  | start t => exact trivial
  | load t c => exact trivial
  | initTable t c slots cell => exact trivial
  | createCell t c cell => exact trivial
  | extend t slots => exact trivial
  | exit t => exact trivial

omit [DecidableEq T] in
/-- Before the first thread starts, nothing is counted. -/
theorem inv_initial {processors : ℕ} (hsound : (MetaConcurrent.new processors).Sound b) :
    ({ adder := fun _ => .new processors } : System T C).Inv b where
  adders _ := hsound
  threads _ ht := absurd ht (Finset.notMem_empty _)
  load_eq c i x hx := by
    obtain rfl : x = 0 := List.eq_of_mem_replicate (List.mem_of_getElem? hx)
    rfl

/-- In every run, the numbers of the slots are those of the live threads that were counted
into them, and bindings choose the least number, if and only if no thread ends that has
initialised two tables, and tables are initialised where `NCPUS` is at least two. -/
theorem accounted_iff {processors : ℕ} (hpos : 0 < processors) (hle : processors ≤ 2 ^ 30)
    {s u : System T C} {trace : List (System T C × Action T C)}
    (h : (machine T C processors).Run s trace u) (hs : (machine T C processors).init s) :
    ((∀ v ∈ visited trace u, v.Accounted) ∧ ∀ p ∈ trace, p.1.PicksLeast p.2) ↔
      ∀ p ∈ trace, p.1.Pairs p.2 := by
  obtain ⟨b, hb, hsound⟩ := MetaConcurrent.sound_new hpos hle
  have hinv : s.Inv b := hs ▸ inv_initial hsound
  have hkeep (s : System T C) (a : Action T C) (s' : System T C) (hI : s.Inv b)
      (hpairs : s.Pairs a) (hstep : s.next a = some s') : s'.Inv b :=
    hI.next (by omega) hpairs hstep
  have hvisited := h.forall_visited_iff (C := fun s a => s.Pairs a) (I := fun s => s.Inv b)
    (P := fun s => s.Accounted) (fun _ hI => hI.accounted) hkeep
    (fun _ _ _ hI hpairs hstep => hI.not_accounted hpairs hstep) hinv
  rw [hvisited]
  refine ⟨And.left, fun hpairs => ⟨hpairs, ?_⟩⟩
  exact h.forall_steps (C := fun s a => s.Pairs a) (I := fun s => s.Inv b) hkeep
    (fun _ _ _ hI _ hstep => hI.picksLeast (by omega) hstep) hinv hpairs

/-- A thread makes the table of an adder, and two others are bound to its slots: the second
thread to the empty slot, for which it makes a cell, and the third one to a slot of one thread.
Then the first thread ends. -/
def oneTable : List (Action ℕ Bool) :=
  [.start 0, .initTable 0 false [none, none] 0, .start 1, .bind 1 false, .createCell 1 false 1,
    .start 2, .bind 2 false, .exit 0]

/-- The numbers of that adder are right throughout, and the bindings choose the least ones. -/
theorem accounted_iff_oneTable : ∃ u,
    oneTable.foldlM next { adder := fun _ => .new 4 } = some u ∧
    (u.thread 1).counted = [(false, 0)] ∧ (u.thread 2).counted = [(false, 1)] ∧
    (u.adder false).nthArray = [1, 1, 0, 0] ∧
    (∀ v ∈ visited (traceOf next { adder := fun _ => .new 4 } oneTable) u, v.Accounted) ∧
    ∀ p ∈ traceOf next { adder := fun _ => .new 4 } oneTable, p.1.PicksLeast p.2 := by
  have hend : (oneTable.foldlM next { adder := fun _ => .new 4 }).map (fun u =>
      ((u.thread 1).counted, (u.thread 2).counted, (u.adder false).nthArray)) =
        some ([(false, 0)], [(false, 1)], [1, 1, 0, 0]) := by
    decide +kernel
  obtain ⟨u, hu, hend⟩ := Option.map_eq_some_iff.mp hend
  simp only [Prod.mk.injEq] at hend
  obtain ⟨hfirst, hsecond, hnth⟩ := hend
  have hpos : 0 < 4 := by decide
  refine ⟨u, hu, hfirst, hsecond, hnth,
    (accounted_iff hpos (by decide) (.of_foldlM hu) rfl).mpr ?_⟩
  decide +kernel

/-- A thread makes the tables of two adders and ends: the second adder still counts it. -/
theorem not_accounted_twoTables : ∃ u,
    [.start 0, .initTable 0 false [none, none] 0, .initTable 0 true [none, none] 0,
      .exit 0].foldlM next ({ adder := fun _ => .new 4 } : System ℕ Bool) = some u ∧
    ¬u.Accounted :=
  ⟨_, rfl, fun h => absurd (h.load_eq true 1 1 rfl) (by decide)⟩

end System

end SlotLoad

end DuoDuo.Buffer
