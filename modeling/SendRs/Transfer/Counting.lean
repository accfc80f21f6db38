/-
**Counting the bytes of a transfer.**

`done_size` adds up the chunks whose bits are set, `execute_local_transfer` adds a chunk when it has
copied it and subtracts one whose bit was wrong. `pendingSize` is what the bits from chunk `k` on
promise; the counter is exact because each round of the chunk loop takes its chunk out of that sum
(`pendingSize_step`) and no round looks at the bit of another one (`pendingSize_congr`).

The sums are `u64` sums; they are exact as long as the whole transfer is smaller than `2 ^ 64`
(`sumU64_eq`).
-/

import SendRs.Transfer.Manifest

namespace SendRs

/-! ### Sums of `u64` values -/

theorem sumU64_mod (values : List Nat) : sumU64 values = values.sum % 2 ^ 64 := by
  have general : ∀ start, values.foldl (fun sum value => (sum + value) % 2 ^ 64) (start % 2 ^ 64) =
      (start + values.sum) % 2 ^ 64 := by
    induction values with
    | nil => exact fun _ => rfl
    | cons value values ih =>
      intro start
      rw [List.foldl_cons, Nat.mod_add_mod, ih, List.sum_cons, Nat.add_assoc]
  have whole := general 0
  rwa [Nat.zero_mod, Nat.zero_add] at whole

/-- A sum that fits is exact. -/
theorem sumU64_eq {values : List Nat} (fits : values.sum < 2 ^ 64) : sumU64 values = values.sum := by
  rw [sumU64_mod, Nat.mod_eq_of_lt fits]

/-! ### The chunks that are still to be looked at -/

/-- The sizes of the chunks from `k` on whose bits are set, of `n` chunks. -/
def pendingSize (size : Nat → Nat) (bits : Nat → Bool) (n k : Nat) : Nat :=
  (((List.range n).drop k).filterMap fun idx => if bits idx then some (size idx) else none).sum

section Pending

variable {size : Nat → Nat} {bits : Nat → Bool} {n k : Nat}

/-- The first of the chunks to be looked at, and the others. -/
theorem pendingSize_step (inside : k < n) :
    pendingSize size bits n k = (if bits k then size k else 0) + pendingSize size bits n (k + 1) := by
  have split : (List.range n).drop k = k :: (List.range n).drop (k + 1) := by
    rw [List.drop_eq_getElem_cons (by rwa [List.length_range]), List.getElem_range]
  unfold pendingSize
  rw [split, List.filterMap_cons]
  cases bits k with
  | true => exact List.sum_cons
  | false => exact (Nat.zero_add _).symm

/-- When all chunks are done, none is left. -/
theorem pendingSize_done (size : Nat → Nat) (bits : Nat → Bool) (n : Nat) :
    pendingSize size bits n n = 0 := by
  rw [pendingSize, List.drop_eq_nil_of_le (Nat.le_of_eq List.length_range)]
  rfl

/-- Bits before `k` do not matter. -/
theorem pendingSize_congr {bits' : Nat → Bool} (same : ∀ idx, k ≤ idx → bits idx = bits' idx) :
    pendingSize size bits n k = pendingSize size bits' n k := by
  unfold pendingSize
  congr 1
  refine List.filterMap_congr fun idx member => ?_
  have later : k ≤ idx := by
    obtain ⟨i, inside, rfl⟩ := List.getElem_of_mem member
    rw [List.getElem_drop, List.getElem_range]
    exact Nat.le_add_right k i
  rw [same idx later]

end Pending

/-! ### The chunks of a file -/

/-- The size of the `idx`-th piece of `length` bytes. -/
def pieceSize (chunkSize length idx : Nat) : Nat := min (length - idx * chunkSize) chunkSize

/-- One more piece makes a longer part of the file. -/
theorem min_add_pieceSize (chunkSize length k : Nat) :
    min (k * chunkSize) length + pieceSize chunkSize length k = min ((k + 1) * chunkSize) length := by
  rw [pieceSize, Nat.succ_mul]
  omega

/-- The pieces make the file, as far as they reach. -/
theorem sum_pieceSize (chunkSize length n : Nat) :
    ∑ k ∈ Finset.range n, pieceSize chunkSize length k = min (n * chunkSize) length := by
  induction n with
  | zero =>
    rw [Finset.sum_range_zero, Nat.zero_mul, Nat.zero_min]
  | succ n ih => rw [Finset.sum_range_succ, ih, min_add_pieceSize]

/-- The chunks whose bits are set, as a sum over all chunks. -/
theorem pendingSize_zero (size : Nat → Nat) (bits : Nat → Bool) (n : Nat) :
    pendingSize size bits n 0 = ∑ k ∈ Finset.range n, if bits k then size k else 0 := by
  unfold pendingSize
  rw [List.drop_zero]
  induction n with
  | zero => rfl
  | succ n ih =>
    rw [List.range_succ, List.filterMap_append, List.sum_append, ih, Finset.sum_range_succ]
    cases set : bits n with
    | true =>
      rw [List.filterMap_cons, set]
      rfl
    | false =>
      rw [List.filterMap_cons, set]
      rfl

/-- What the bits promise is part of what is left of the file. -/
theorem pendingSize_le (chunkSize length : Nat) (bits : Nat → Bool) {n k : Nat} (inside : k ≤ n) :
    pendingSize (pieceSize chunkSize length) bits n k ≤ length - k * chunkSize := by
  induction inside using Nat.decreasingInduction with
  | self => exact (pendingSize_done _ _ _).symm ▸ Nat.zero_le _
  | of_succ k inside ih =>
    rw [Nat.succ_mul] at ih
    have first : (if bits k then pieceSize chunkSize length k else 0) ≤
        min (length - k * chunkSize) chunkSize := by
      split
      · exact Nat.le_refl _
      · exact Nat.zero_le _
    rw [pendingSize_step inside]
    omega

/-- An offset that a `usize` can hold is exact. -/
theorem chunkLen_eq {platform : Platform} {length idx chunkSize : Nat}
    (fits : idx * chunkSize < 2 ^ platform.pointerWidth) :
    chunkLen platform length idx chunkSize = pieceSize chunkSize length idx := by
  rw [chunkLen, chunkOffset, Nat.mod_eq_of_lt fits, pieceSize]

/-- What `done_size` counts for an entry whose offsets fit. -/
theorem doneSizeEntry_eq {platform : Platform} {chunkSize : Nat} {entry : ManifestEntry}
    (small : entry.size < 2 ^ 64)
    (fits : ∀ idx < entry.chunkCount, idx * chunkSize < 2 ^ platform.pointerWidth) :
    doneSizeEntry platform chunkSize entry =
      pendingSize (pieceSize chunkSize entry.size) (isChunkDone entry) entry.chunkCount 0 := by
  have sizes : ((List.range entry.chunkCount).filterMap fun idx =>
      if isChunkDone entry idx then some (chunkLen platform entry.size idx chunkSize) else none) =
      ((List.range entry.chunkCount).drop 0).filterMap fun idx =>
        if isChunkDone entry idx then some (pieceSize chunkSize entry.size idx) else none := by
    rw [List.drop_zero]
    exact List.filterMap_congr fun idx member => by rw [chunkLen_eq (fits idx (List.mem_range.mp member))]
  have bound := pendingSize_le chunkSize entry.size (isChunkDone entry) (Nat.zero_le entry.chunkCount)
  rw [doneSizeEntry, sizes]
  exact sumU64_eq (by unfold pendingSize at bound; omega)

end SendRs
