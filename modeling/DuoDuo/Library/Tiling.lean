import Mathlib.Algebra.BigOperators.Group.Finset.Basic
import Mathlib.Algebra.Order.BigOperators.Group.Finset
import Mathlib.Order.Interval.Finset.Nat
import Mathlib.Tactic

/-!
# Tilings of an interval by blocks

A tiling cuts the units `0, …, N - 1` into consecutive blocks. A map from offsets
gives the block that begins there, and any type with a size may stand for blocks.
Blocks are cut in two and fused, and a tiling whose free blocks are coalesced is
free as a whole only as one block.
-/

namespace DuoDuo.Library

variable {β : Type*} {size : β → ℕ} {N : ℕ} {blocks : ℕ → Option β}

/-- The blocks, by the offsets at which they begin, tile the units below `N`. -/
structure Tiling (size : β → ℕ) (N : ℕ) (blocks : ℕ → Option β) : Prop where
  pos : ∀ {o b}, blocks o = some b → 0 < size b
  bounded : ∀ {o b}, blocks o = some b → o + size b ≤ N
  disjoint : ∀ {o b o' b'}, blocks o = some b → blocks o' = some b' → o < o' → o + size b ≤ o'
  cover : ∀ {p}, p < N → ∃ o b, blocks o = some b ∧ o ≤ p ∧ p < o + size b

namespace Tiling

/-- One block is a tiling. -/
theorem single {b : β} (hpos : 0 < N) (hsize : size b = N) :
    Tiling size N (fun o => if o = 0 then some b else none) where
  pos := by
    intro o b' hb
    split at hb
    · cases hb
      omega
    · cases hb
  bounded := by
    intro o b' hb
    split at hb
    · cases hb
      omega
    · cases hb
  disjoint := by
    intro o b₁ o' b₂ _ hb' hlt
    rw [if_neg (by omega)] at hb'
    cases hb'
  cover := fun hp => ⟨0, b, if_pos rfl, by omega, by omega⟩

variable (ht : Tiling size N blocks)
include ht

/-- A block lies below the end. -/
theorem lt_of_block {o : ℕ} {b : β} (hb : blocks o = some b) : o < N := by
  have hpos := ht.pos hb
  have hbounded := ht.bounded hb
  omega

/-- Two blocks that share a unit are one. -/
theorem offset_eq {o o' p : ℕ} {b b' : β} (hb : blocks o = some b) (hb' : blocks o' = some b')
    (hp : o ≤ p ∧ p < o + size b) (hp' : o' ≤ p ∧ p < o' + size b') : o = o' := by
  rcases Nat.lt_trichotomy o o' with hlt | heq | hgt
  · have hdis := ht.disjoint hb hb' hlt
    omega
  · exact heq
  · have hdis := ht.disjoint hb' hb hgt
    omega

/-- A block ends where another begins, or at the end. -/
theorem next {o : ℕ} {b : β} (hb : blocks o = some b) :
    o + size b = N ∨ ∃ b', blocks (o + size b) = some b' := by
  rcases (ht.bounded hb).eq_or_lt with hend | hlt
  · exact Or.inl hend
  · obtain ⟨o', b', hb', hle, hgt⟩ := ht.cover hlt
    rcases Nat.lt_trichotomy o' (o + size b) with hbefore | heq | hafter
    · rcases Nat.lt_trichotomy o' o with h | h | h
      · have hdis := ht.disjoint hb' hb h
        omega
      · rw [h, hb] at hb'
        cases hb'
        omega
      · have hdis := ht.disjoint hb hb' h
        omega
    · exact Or.inr ⟨b', heq ▸ hb'⟩
    · omega

/-- No block begins inside another. -/
theorem eq_none_of_mem {o p : ℕ} {b : β} (hb : blocks o = some b) (hp : o < p)
    (hp' : p < o + size b) : blocks p = none := by
  rcases hbp : blocks p with _ | b'
  · rfl
  · have hdis := ht.disjoint hb hbp hp
    omega

end Tiling

/-- The blocks from `a` up to `e` become the block `m`. -/
def fuse (blocks : ℕ → Option β) (a e : ℕ) (m : β) (o : ℕ) : Option β :=
  if o = a then some m else if a < o ∧ o < e then none else blocks o

/-- Fusing consecutive blocks keeps the tiling. -/
theorem Tiling.fuse (ht : Tiling size N blocks) {a e : ℕ} {b m : β} (hb : blocks a = some b)
    (hae : a < e) (he : e = N ∨ ∃ b', blocks e = some b') (hm : size m = e - a) :
    Tiling size N (fuse blocks a e m) := by
  have hend : e ≤ N := by
    rcases he with rfl | ⟨b', hb'⟩
    · exact le_rfl
    · exact (ht.lt_of_block hb').le
  have hinv : ∀ {o c}, Library.fuse blocks a e m o = some c →
      (o = a ∧ c = m) ∨ ((o < a ∨ e ≤ o) ∧ blocks o = some c) := by
    intro o c hc
    unfold Library.fuse at hc
    split_ifs at hc with hoa hmid
    · cases hc
      exact Or.inl ⟨hoa, rfl⟩
    · exact Or.inr ⟨by omega, hc⟩
  -- A block that begins before `a` ends there at the latest, and one that begins before `e`
  -- ends by `e`.
  have hbefore : ∀ {o c}, blocks o = some c → o < a → o + size c ≤ a :=
    fun hc hlt => ht.disjoint hc hb hlt
  have hinside : ∀ {o c}, blocks o = some c → o < e → o + size c ≤ e := by
    intro o c hc hlt
    rcases he with rfl | ⟨b', hb'⟩
    · exact ht.bounded hc
    · exact ht.disjoint hc hb' hlt
  constructor
  · intro o c hc
    rcases hinv hc with ⟨_, rfl⟩ | ⟨_, hc'⟩
    · omega
    · exact ht.pos hc'
  · intro o c hc
    rcases hinv hc with ⟨rfl, rfl⟩ | ⟨_, hc'⟩
    · omega
    · exact ht.bounded hc'
  · intro o c o' c' hc hc' hlt
    rcases hinv hc with ⟨rfl, rfl⟩ | ⟨hout, hcb⟩ <;>
      rcases hinv hc' with ⟨rfl, rfl⟩ | ⟨hout', hcb'⟩
    · omega
    · omega
    · exact hbefore hcb hlt
    · exact ht.disjoint hcb hcb' hlt
  · intro p hp
    rcases Nat.lt_or_ge p a with hpa | hpa
    · obtain ⟨o, c, hc, hle, hgt⟩ := ht.cover hp
      refine ⟨o, c, ?_, hle, hgt⟩
      rw [Library.fuse, if_neg (by omega), if_neg (by omega)]
      exact hc
    · rcases Nat.lt_or_ge p e with hpe | hpe
      · exact ⟨a, m, if_pos rfl, hpa, by omega⟩
      · obtain ⟨o, c, hc, hle, hgt⟩ := ht.cover hp
        have hoe : e ≤ o := by
          by_contra hlt
          have hstop := hinside hc (by omega)
          omega
        refine ⟨o, c, ?_, hle, hgt⟩
        rw [Library.fuse, if_neg (by omega), if_neg (by omega)]
        exact hc

/-- The block at `o` is cut into `b₁` and, from `p` on, `b₂`. -/
def cut (blocks : ℕ → Option β) (o p : ℕ) (b₁ b₂ : β) (x : ℕ) : Option β :=
  if x = o then some b₁ else if x = p then some b₂ else blocks x

/-- Cutting a block in two keeps the tiling. -/
theorem Tiling.cut (ht : Tiling size N blocks) {o p : ℕ} {b b₁ b₂ : β} (hb : blocks o = some b)
    (h₁ : 0 < size b₁) (h₂ : 0 < size b₂) (hp : p = o + size b₁)
    (hsum : size b₁ + size b₂ = size b) : Tiling size N (cut blocks o p b₁ b₂) := by
  have hbound := ht.bounded hb
  have hinv : ∀ {x c}, Library.cut blocks o p b₁ b₂ x = some c →
      (x = o ∧ c = b₁) ∨ (x = p ∧ c = b₂) ∨ ((x < o ∨ o + size b ≤ x) ∧ blocks x = some c) := by
    intro x c hc
    unfold Library.cut at hc
    split_ifs at hc with hxo hxp
    · cases hc
      exact Or.inl ⟨hxo, rfl⟩
    · cases hc
      exact Or.inr (Or.inl ⟨hxp, rfl⟩)
    · refine Or.inr (Or.inr ⟨?_, hc⟩)
      by_contra hmid
      have hnone := ht.eq_none_of_mem hb (p := x) (by omega) (by omega)
      rw [hnone] at hc
      cases hc
  constructor
  · intro x c hc
    rcases hinv hc with ⟨_, rfl⟩ | ⟨_, rfl⟩ | ⟨_, hc'⟩
    · exact h₁
    · exact h₂
    · exact ht.pos hc'
  · intro x c hc
    rcases hinv hc with ⟨rfl, rfl⟩ | ⟨rfl, rfl⟩ | ⟨_, hc'⟩
    · omega
    · omega
    · exact ht.bounded hc'
  · intro x c x' c' hc hc' hlt
    have hbefore : ∀ {y d}, blocks y = some d → y < o → y + size d ≤ o :=
      fun hd hlt => ht.disjoint hd hb hlt
    rcases hinv hc with ⟨rfl, rfl⟩ | ⟨rfl, rfl⟩ | ⟨hout, hcb⟩ <;>
      rcases hinv hc' with ⟨rfl, rfl⟩ | ⟨rfl, rfl⟩ | ⟨hout', hcb'⟩
    · omega
    · omega
    · omega
    · omega
    · omega
    · omega
    · exact hbefore hcb hlt
    · rcases hout with hout | hout
      · have hstop := hbefore hcb hout
        omega
      · omega
    · exact ht.disjoint hcb hcb' hlt
  · intro q hq
    by_cases hin : o ≤ q ∧ q < o + size b
    · rcases Nat.lt_or_ge q p with hqp | hqp
      · exact ⟨o, b₁, if_pos rfl, hin.1, by omega⟩
      · refine ⟨p, b₂, ?_, hqp, by omega⟩
        rw [Library.cut, if_neg (by omega), if_pos rfl]
    · obtain ⟨x, c, hc, hle, hgt⟩ := ht.cover hq
      have hxo : x ≠ o := by
        rintro rfl
        rw [hb] at hc
        cases hc
        omega
      have hxp : x ≠ p := by
        rintro rfl
        have hnone := ht.eq_none_of_mem hb (p := x) (by omega) (by omega)
        rw [hnone] at hc
        cases hc
      refine ⟨x, c, ?_, hle, hgt⟩
      rw [Library.cut, if_neg hxo, if_neg hxp]
      exact hc

/-- No two consecutive blocks are both unused. -/
def Coalesced (size : β → ℕ) (used : β → Bool) (blocks : ℕ → Option β) : Prop :=
  ∀ o b b', blocks o = some b → blocks (o + size b) = some b' → used b = true ∨ used b' = true

/-- Fusing keeps the coalescing when the new block is used, or its neighbours are. -/
theorem Coalesced.fuse {used : β → Bool} (hc : Coalesced size used blocks) {a e : ℕ} {m : β}
    (hm : size m = e - a) (hae : a < e)
    (hprev : ∀ {o b}, blocks o = some b → o + size b = a → used b = true ∨ used m = true)
    (hnext : ∀ {b}, blocks e = some b → used m = true ∨ used b = true) :
    Coalesced size used (fuse blocks a e m) := by
  intro o b b' hb hb'
  unfold Library.fuse at hb hb'
  split_ifs at hb with hoa hmid
  · cases hb
    rw [if_neg (by omega), if_neg (by omega), show o + size m = e by omega] at hb'
    exact hnext hb'
  · split_ifs at hb' with hoa' hmid'
    · cases hb'
      exact hprev hb hoa'
    · exact hc _ _ _ hb hb'

/-- Cutting a free block keeps the coalescing when its first part becomes used. -/
theorem Coalesced.cut {used : β → Bool} (hc : Coalesced size used blocks)
    (ht : Tiling size N blocks) {o p : ℕ} {b b₁ b₂ : β} (hb : blocks o = some b)
    (hfree : used b = false) (h₁ : used b₁ = true) (h₁pos : 0 < size b₁) (h₂ : 0 < size b₂)
    (hp : p = o + size b₁) (hsum : size b₁ + size b₂ = size b) :
    Coalesced size used (cut blocks o p b₁ b₂) := by
  intro x c c' hx hx'
  unfold Library.cut at hx hx'
  split_ifs at hx with hxo hxp
  · cases hx
    exact Or.inl h₁
  · cases hx
    rw [if_neg (by omega), if_neg (by omega), show x + size b₂ = o + size b by omega] at hx'
    rcases hc _ _ _ hb hx' with h | h
    · rw [hfree] at h
      cases h
    · exact Or.inr h
  · split_ifs at hx' with hxo' hxp'
    · cases hx'
      exact Or.inr h₁
    · have hpos := ht.pos hx
      have heq := ht.offset_eq hx hb (p := p - 1) (by omega) (by omega)
      exact absurd heq hxo
    · exact hc _ _ _ hx hx'

/-- The units of the blocks of a map. -/
def total (size : β → ℕ) (N : ℕ) (blocks : ℕ → Option β) : ℕ :=
  ∑ o ∈ Finset.range N, (blocks o).elim 0 size

/-- A new block adds its units. -/
theorem total_insert {o : ℕ} (ho : o < N) (hnone : blocks o = none) (b : β) :
    total size N (Function.update blocks o (some b)) = total size N blocks + size b := by
  have hmem := Finset.mem_range.mpr ho
  have hrest : ∀ x ∈ (Finset.range N).erase o,
      (Function.update blocks o (some b) x).elim 0 size = (blocks x).elim 0 size := by
    intro x hx
    rw [Function.update_of_ne (Finset.ne_of_mem_erase hx)]
  rw [total, total, ← Finset.add_sum_erase _ _ hmem, ← Finset.add_sum_erase (Finset.range N)
    (fun o => (blocks o).elim 0 size) hmem, Finset.sum_congr rfl hrest, Function.update_self, hnone]
  dsimp only [Option.elim]
  omega

/-- Removing a block takes its units away. -/
theorem total_erase {o : ℕ} (ho : o < N) {b : β} (hb : blocks o = some b) :
    total size N (Function.update blocks o none) + size b = total size N blocks := by
  have hback : Function.update (Function.update blocks o none) o (some b) = blocks := by
    rw [Function.update_idem, ← hb, Function.update_eq_self]
  have hinsert : total size N (Function.update (Function.update blocks o none) o (some b)) =
      total size N (Function.update blocks o none) + size b :=
    total_insert ho (Function.update_self o none blocks) b
  rw [hback] at hinsert
  exact hinsert.symm

/-- The blocks of a tiling hold all units. -/
theorem Tiling.total_eq (ht : Tiling size N blocks) : total size N blocks = N := by
  have hunion : (Finset.range N).biUnion
      (fun o => Finset.Ico o (o + (blocks o).elim 0 size)) = Finset.range N := by
    ext p
    simp only [Finset.mem_biUnion, Finset.mem_range, Finset.mem_Ico]
    constructor
    · rintro ⟨o, ho, hle, hlt⟩
      rcases hb : blocks o with _ | b
      · rw [hb] at hlt
        dsimp only [Option.elim] at hlt
        omega
      · rw [hb] at hlt
        have hbounded := ht.bounded hb
        dsimp only [Option.elim] at hlt
        omega
    · intro hp
      obtain ⟨o, b, hb, hle, hlt⟩ := ht.cover hp
      exact ⟨o, ht.lt_of_block hb, hle, by rw [hb]; exact hlt⟩
  have hcard := Finset.card_biUnion (s := Finset.range N)
    (t := fun o => Finset.Ico o (o + (blocks o).elim 0 size)) ?_
  · rw [hunion, Finset.card_range] at hcard
    simp only [Nat.card_Ico, Nat.add_sub_cancel_left] at hcard
    exact hcard.symm
  · intro o _ o' _ hne
    apply Finset.disjoint_left.mpr
    intro p hp hp'
    rw [Finset.mem_Ico] at hp hp'
    rcases hb : blocks o with _ | b
    · rw [hb] at hp
      dsimp only [Option.elim] at hp
      omega
    · rcases hb' : blocks o' with _ | b'
      · rw [hb'] at hp'
        dsimp only [Option.elim] at hp'
        omega
      · rw [hb] at hp
        rw [hb'] at hp'
        exact hne (ht.offset_eq hb hb' hp hp')

/-- The unused blocks of a map. -/
def unused (used : β → Bool) (blocks : ℕ → Option β) (o : ℕ) : Option β :=
  (blocks o).filter fun b => !used b

theorem unused_eq_some {used : β → Bool} {o : ℕ} {b : β} :
    unused used blocks o = some b ↔ blocks o = some b ∧ used b = false := by
  rw [unused, Option.filter_eq_some_iff, Bool.not_eq_true']

/-- Cutting a used part off leaves the rest unused. -/
theorem unused_cut {used : β → Bool} {o p : ℕ} {b₁ b₂ : β} (h₁ : used b₁ = true)
    (h₂ : used b₂ = false) (hp : p ≠ o) :
    unused used (cut blocks o p b₁ b₂) =
      Function.update (Function.update (unused used blocks) o none) p (some b₂) := by
  funext x
  by_cases hxp : x = p
  · rw [hxp, Function.update_self, unused, cut, if_neg hp, if_pos rfl]
    simp [h₂]
  · rw [Function.update_of_ne hxp]
    by_cases hxo : x = o
    · rw [hxo, Function.update_self, unused, cut, if_pos rfl]
      simp [h₁]
    · rw [Function.update_of_ne hxo, unused, cut, if_neg hxo, if_neg hxp, unused]

/-- A block that becomes used is no longer among the unused ones. -/
theorem Tiling.unused_fuse_self {used : β → Bool} (ht : Tiling size N blocks) {o : ℕ} {b m : β}
    (hb : blocks o = some b) (hm : used m = true) :
    unused used (Library.fuse blocks o (o + size b) m) = Function.update (unused used blocks) o none := by
  funext x
  by_cases hxo : x = o
  · rw [hxo, Function.update_self, unused, Library.fuse, if_pos rfl]
    simp [hm]
  · rw [Function.update_of_ne hxo, unused, Library.fuse, if_neg hxo]
    split
    · next hmid => rw [unused, ht.eq_none_of_mem hb hmid.1 hmid.2]
    · rfl

/-- An unused block counts as much as among all blocks. -/
theorem unused_elim_le (used : β → Bool) (size : β → ℕ) (blocks : ℕ → Option β) (o : ℕ) :
    (unused used blocks o).elim 0 size ≤ (blocks o).elim 0 size := by
  rcases hb : unused used blocks o with _ | b
  · exact Nat.zero_le _
  · rw [(unused_eq_some.mp hb).1]

/-- The unused blocks hold at most all units. -/
theorem Tiling.total_unused_le (used : β → Bool) (ht : Tiling size N blocks) :
    total size N (unused used blocks) ≤ N := by
  calc total size N (unused used blocks) ≤ total size N blocks :=
        Finset.sum_le_sum fun o _ => unused_elim_le used size blocks o
    _ = N := ht.total_eq

/-- When the unused blocks hold all units, a coalesced tiling is one unused block. -/
theorem Tiling.eq_single_of_total_unused {used : β → Bool} (ht : Tiling size N blocks)
    (hc : Coalesced size used blocks) (hN : 0 < N)
    (htotal : total size N (unused used blocks) = N) :
    ∃ b, used b = false ∧ size b = N ∧ ∀ o, blocks o = if o = 0 then some b else none := by
  have hle : ∀ o ∈ Finset.range N,
      (unused used blocks o).elim 0 size ≤ (blocks o).elim 0 size :=
    fun o _ => unused_elim_le used size blocks o
  have hall : ∀ {o b}, blocks o = some b → used b = false := by
    intro o b hb
    have heq := (Finset.sum_eq_sum_iff_of_le hle).mp
      (show total size N (unused used blocks) = total size N blocks by rw [htotal, ht.total_eq])
    have ho := heq o (Finset.mem_range.mpr (ht.lt_of_block hb))
    rw [hb] at ho
    have hpos := ht.pos hb
    rcases hu : unused used blocks o with _ | b'
    · rw [hu] at ho
      dsimp only [Option.elim] at ho
      omega
    · have hsome := unused_eq_some.mp hu
      rw [hb] at hsome
      cases hsome.1
      exact hsome.2
  obtain ⟨o, b, hb, hle0, _⟩ := ht.cover hN
  obtain rfl : o = 0 := by omega
  have hsize : size b = N := by
    rcases ht.next hb with hend | ⟨b', hb'⟩
    · omega
    · rcases hc _ _ _ hb hb' with h | h
      · rw [hall hb] at h
        cases h
      · rw [hall hb'] at h
        cases h
  refine ⟨b, hall hb, hsize, fun o => ?_⟩
  split
  · next h => rw [h, hb]
  · next h =>
    rcases hbo : blocks o with _ | b'
    · rfl
    · have hlt := ht.lt_of_block hbo
      have hdis := ht.disjoint hb hbo (by omega)
      omega

end DuoDuo.Library
