import DuoDuo.Buffer.ByteQueue

/-!
# How much a buffer says it can take

`ensureWritable` checks the writer index against the maximal capacity.
`maxWritableBytes`, which is to tell callers how much may still be written, takes the
room behind the writer index away from the maximal capacity instead of the index. The
two agree on a request exactly when it does not lie between the two bounds.
-/

namespace DuoDuo.Buffer

/-- `maxWritableBytes`. -/
def PoolByteBuf.maxWritableBytes (buf : PoolByteBuf) : ℕ := buf.maxCapacity - buf.writableBytes

namespace Filled

variable {s s' : Filled} {minWritableBytes : ℕ} {region : Region}

/-- Growing keeps the writer index, and provides the capacity. -/
theorem capacity_grows {newCapacity : ℕ} (hgrows : s.buf.length < newCapacity)
    (hcall : s.capacity newCapacity region = some s') :
    s'.buf.writerIndex = s.buf.writerIndex ∧ newCapacity ≤ s'.buf.length := by
  unfold Filled.capacity at hcall
  split at hcall
  · cases hcall
  · unfold PoolByteBuf.resize at hcall
    rw [if_neg (by omega), if_pos hgrows] at hcall
    split at hcall
    · next buf hresize =>
      rw [Option.ite_none_right_eq_some, Option.some.injEq] at hresize
      obtain ⟨-, rfl⟩ := hresize
      obtain rfl := Option.some.inj hcall
      exact ⟨rfl, le_rfl⟩
    · rw [Option.ite_none_right_eq_some, Option.some.injEq] at hcall
      obtain ⟨hserves, rfl⟩ := hcall
      rw [Filled.reallocate, PoolByteBuf.moveTo, if_pos hgrows]
      exact ⟨rfl, hserves.2.1⟩

/-- Growing to a capacity within the maximum passes its assertions. -/
theorem isSome_capacity {newCapacity : ℕ} (hmax : newCapacity ≤ s.buf.maxCapacity)
    (hserves : region.Serves s.buf.toRegion newCapacity) :
    (s.capacity newCapacity region).isSome = true := by
  unfold Filled.capacity
  rw [if_neg fun h => absurd h.2 (by omega)]
  split
  · rfl
  · rw [if_pos hserves]
    rfl

/-- After `ensureWritable` the room that was asked for is there. -/
theorem le_writableBytes (hcall : s.ensureWritable minWritableBytes region = some s') :
    minWritableBytes ≤ s'.buf.writableBytes := by
  unfold Filled.ensureWritable at hcall
  rw [PoolByteBuf.writableBytes]
  split at hcall
  · cases hcall
  · split at hcall
    · next hgrows =>
      obtain ⟨newCapacity, hgrown, hcall⟩ := Option.bind_eq_some_iff.mp hcall
      have hle := PoolByteBuf.le_of_grownCapacity hgrown
      obtain ⟨hwriter, hlength⟩ := capacity_grows (by omega) hcall
      omega
    · obtain rfl := Option.some.inj hcall
      omega

/-- With a region that serves the growth, `ensureWritable` passes its assertions exactly
when the written bytes stay within the maximal capacity. -/
theorem isSome_ensureWritable_iff (hwriter : s.buf.writerIndex ≤ s.buf.length)
    (hregion : ∀ newCapacity, s.buf.grownCapacity minWritableBytes = some newCapacity →
      region.Serves s.buf.toRegion newCapacity) :
    (s.ensureWritable minWritableBytes region).isSome = true ↔
      s.buf.writerIndex + minWritableBytes ≤ s.buf.maxCapacity := by
  unfold Filled.ensureWritable
  split
  · next hover => simpa using hover
  · next hfits =>
    refine iff_of_true ?_ (by omega)
    split
    · next hgrows =>
      have hroom : ¬ minWritableBytes ≤ s.buf.writableBytes := by
        rw [PoolByteBuf.writableBytes]
        omega
      obtain ⟨newCapacity, hnew⟩ : ∃ newCapacity,
          calculateNewCapacity (s.buf.writerIndex + minWritableBytes) s.buf.maxCapacity =
            some newCapacity := by
        unfold calculateNewCapacity
        rw [if_neg (by omega)]
        dsimp only
        split_ifs <;> exact ⟨_, rfl⟩
      have hgrown : s.buf.grownCapacity minWritableBytes = some newCapacity := by
        rw [PoolByteBuf.grownCapacity, if_neg hroom, hnew]
      rw [hgrown]
      exact isSome_capacity (le_of_calculateNewCapacity hnew).2 (hregion _ hgrown)
    · rfl

/-- `maxWritableBytes` tells for which requests `ensureWritable` passes its assertions, and
a request that passes them is granted. -/
def WritesUpToMax (s : Filled) (minWritableBytes : ℕ) (region : Region) : Prop :=
  ((s.ensureWritable minWritableBytes region).isSome = true ↔
      minWritableBytes ≤ s.buf.maxWritableBytes) ∧
    ∀ s', s.ensureWritable minWritableBytes region = some s' →
      minWritableBytes ≤ s'.buf.writableBytes

/-- `maxWritableBytes` is right about a request exactly when the request is within the
maximal capacity less the larger of the written and the writable bytes, or above the
maximal capacity less the smaller of the two. -/
theorem writesUpToMax_iff (hwriter : s.buf.writerIndex ≤ s.buf.length)
    (hlength : s.buf.length ≤ s.buf.maxCapacity)
    (hregion : ∀ newCapacity, s.buf.grownCapacity minWritableBytes = some newCapacity →
      region.Serves s.buf.toRegion newCapacity) :
    s.WritesUpToMax minWritableBytes region ↔
      minWritableBytes ≤
          s.buf.maxCapacity - max s.buf.writerIndex (s.buf.length - s.buf.writerIndex) ∨
        s.buf.maxCapacity - min s.buf.writerIndex (s.buf.length - s.buf.writerIndex) <
          minWritableBytes := by
  have hgranted : ∀ s', s.ensureWritable minWritableBytes region = some s' →
      minWritableBytes ≤ s'.buf.writableBytes := fun _ => le_writableBytes
  rw [WritesUpToMax, and_iff_left hgranted, isSome_ensureWritable_iff hwriter hregion,
    PoolByteBuf.maxWritableBytes, PoolByteBuf.writableBytes]
  omega

/-- A buffer of 16 bytes, half of them written. -/
def halfFull : Filled :=
  ⟨{ PoolByteBuf.newInstance 1024 (regionAt 0 16 16) with writerIndex := 8 }, fun _ => 0⟩

/-- Of a half-full buffer `maxWritableBytes` is right. -/
theorem writesUpToMax_iff_halfFull : halfFull.WritesUpToMax 100 (regionAt 128 128 128) :=
  (writesUpToMax_iff (by decide) (by decide) fun newCapacity hgrown => by
    obtain rfl : newCapacity = 128 := by simpa using hgrown.symm.trans (by decide : _ = some 128)
    decide).mpr (by decide)

/-- An empty buffer of 16 bytes may grow to 1024, and says that it takes 1008. -/
theorem not_writesUpToMax : ¬ ∀ (s : Filled) (minWritableBytes : ℕ) (region : Region),
    s.buf.readerIndex ≤ s.buf.writerIndex → s.buf.writerIndex ≤ s.buf.length →
    s.buf.length ≤ s.buf.maxCapacity →
    (∀ newCapacity, s.buf.grownCapacity minWritableBytes = some newCapacity →
      region.Serves s.buf.toRegion newCapacity) →
    s.WritesUpToMax minWritableBytes region := by
  intro hall
  have hserves : ∀ newCapacity, (emptyBuffer.1).buf.grownCapacity 1020 = some newCapacity →
      (regionAt 1024 1024 1024).Serves emptyBuffer.1.buf.toRegion newCapacity := by
    intro newCapacity hgrown
    obtain rfl : 1024 = newCapacity := Option.some.inj
      ((by decide : some 1024 = (emptyBuffer.1).buf.grownCapacity 1020).trans hgrown)
    decide
  have h := hall emptyBuffer.1 1020 (regionAt 1024 1024 1024) (by decide) (by decide) (by decide)
    hserves
  exact absurd (h.1.mp (by decide)) (by decide)

end Filled

end DuoDuo.Buffer
