/-
**A list in pieces of a fixed length, and writes into a list.**

`piece c l k` is the `k`-th window of length `c`; only the last one may be shorter. `patch` is a
write at an offset of a list that grows as needed. Copying the pieces of `source` one after the
other into a list of the same length makes it agree with `source` on a longer and longer prefix
(`take_patch_piece`), until it is `source`.

`parts c grants l` is what comes out when `l` is taken in turns of which each hands out as much as
it likes, at most `c`. The parts are the pieces if and only if every turn takes all it can
(`parts_eq_pieces_iff`).
-/

import Mathlib.Data.List.TakeDrop

namespace Pieces

variable {α : Type}

/-- The `k`-th piece of length `c`. -/
def piece (c : Nat) (l : List α) (k : Nat) : List α := (l.drop (k * c)).take c

/-- The number of pieces of length `c` that make `n`: `n / c`, rounded up. -/
def pieceCount (c n : Nat) : Nat := (n + (c - 1)) / c

/-- The pieces in order. -/
def pieces (c : Nat) (l : List α) : List (List α) :=
  (List.range (pieceCount c l.length)).map (piece c l)

/-- Write `new` at `offset`; a gap is filled with `fill`. -/
def patch (fill : α) (l : List α) (offset : Nat) (new : List α) : List α :=
  l.takeD offset fill ++ new ++ l.drop (offset + new.length)

/-! ### Pieces -/

@[simp] theorem length_piece (c : Nat) (l : List α) (k : Nat) :
    (piece c l k).length = min c (l.length - k * c) := by
  simp [piece]

theorem piece_zero (c : Nat) (l : List α) : piece c l 0 = l.take c := by
  simp [piece]

theorem piece_succ (c : Nat) (l : List α) (k : Nat) : piece c l (k + 1) = piece c (l.drop c) k := by
  rw [piece, piece, List.drop_drop, Nat.succ_mul, Nat.add_comm]

theorem pieceCount_zero {c : Nat} (positive : 0 < c) : pieceCount c 0 = 0 := by
  rw [pieceCount, Nat.zero_add]
  exact Nat.div_eq_of_lt (by omega)

/-- Taking one piece off lowers the count by one. -/
theorem pieceCount_pos {c n : Nat} (positive : 0 < c) (nonempty : 0 < n) :
    pieceCount c n = pieceCount c (n - c) + 1 := by
  unfold pieceCount
  rw [← Nat.add_div_right _ positive]
  by_cases fits : c ≤ n
  · congr 1
    omega
  · have left : (n + (c - 1)) / c = 1 := Nat.div_eq_of_lt_le (by omega) (by omega)
    have right : (n - c + (c - 1) + c) / c = 1 := Nat.div_eq_of_lt_le (by omega) (by omega)
    rw [left, right]

/-- The pieces before the last are full: each index is within the list. -/
theorem mul_lt_of_lt_pieceCount {c n k : Nat} (inside : k < pieceCount c n) : k * c < n := by
  unfold pieceCount at inside
  have positive : 0 < c := by
    rcases Nat.eq_zero_or_pos c with zero | positive
    · rw [zero, Nat.div_zero] at inside
      exact absurd inside (Nat.not_lt_zero k)
    · exact positive
  have := (Nat.le_div_iff_mul_le positive).mp (Nat.succ_le_of_lt inside)
  rw [Nat.succ_mul] at this
  omega

/-- The pieces reach the end. -/
theorem le_pieceCount_mul {c : Nat} (positive : 0 < c) (n : Nat) : n ≤ pieceCount c n * c := by
  have := Nat.lt_div_mul_add positive (a := n + (c - 1))
  unfold pieceCount
  omega

@[simp] theorem pieces_nil {c : Nat} (positive : 0 < c) : pieces c ([] : List α) = [] := by
  rw [pieces, List.length_nil, pieceCount_zero positive]
  rfl

/-- The pieces of a list are its head piece and the pieces of the rest. -/
theorem pieces_of_ne_nil {c : Nat} (positive : 0 < c) {l : List α} (nonempty : l ≠ []) :
    pieces c l = l.take c :: pieces c (l.drop c) := by
  have count := pieceCount_pos positive (List.length_pos_iff.mpr nonempty)
  rw [pieces, count, List.range_succ_eq_map, List.map_cons, List.map_map, piece_zero]
  refine congrArg _ ?_
  rw [pieces, List.length_drop]
  exact List.map_congr_left fun k _ => piece_succ c l k

/-! ### Parts of any length -/

/-- How much a turn takes of `left` elements: at least one of them, if there are any. -/
def share (c grant left : Nat) : Nat := min (max 1 grant) (min c left)

/-- The parts into which turns cut a list; there is fuel for so many turns. -/
def parts (c : Nat) : Nat → (Nat → Nat) → List α → List (List α)
  | 0, _, _ => []
  | fuel + 1, grants, l =>
    if share c (grants 0) l.length = 0 then []
    else
      l.take (share c (grants 0) l.length) ::
        parts c fuel (fun j => grants (j + 1)) (l.drop (share c (grants 0) l.length))

/-- Every turn takes all it can of `n` elements. -/
def AllFull (c : Nat) (grants : Nat → Nat) (n : Nat) : Prop :=
  ∀ j < pieceCount c n, min c (n - j * c) ≤ max 1 (grants j)

instance (c : Nat) (grants : Nat → Nat) (n : Nat) : Decidable (AllFull c grants n) :=
  inferInstanceAs (Decidable (∀ j < pieceCount c n, _))

theorem share_eq_zero {c grant left : Nat} (positive : 0 < c) :
    share c grant left = 0 ↔ left = 0 := by
  unfold share
  omega

theorem share_le_left (c grant left : Nat) : share c grant left ≤ left := by
  unfold share
  omega

theorem share_le (c grant left : Nat) : share c grant left ≤ c := by
  unfold share
  omega

/-- All turns are full when the first one is and those that follow are. -/
theorem allFull_step {c : Nat} {grants : Nat → Nat} {n : Nat} (positive : 0 < c) (nonempty : 0 < n) :
    AllFull c grants n ↔
      min c n ≤ max 1 (grants 0) ∧ AllFull c (fun j => grants (j + 1)) (n - c) := by
  have left (j : Nat) : n - (j + 1) * c = n - c - j * c := by
    rw [Nat.succ_mul, Nat.add_comm, Nat.sub_add_eq]
  unfold AllFull
  rw [pieceCount_pos positive nonempty]
  constructor
  · intro full
    refine ⟨?_, fun j inside => ?_⟩
    · have first := full 0 (Nat.zero_lt_succ _)
      rwa [Nat.zero_mul, Nat.sub_zero] at first
    · rw [← left]
      exact full (j + 1) (Nat.succ_lt_succ inside)
  · rintro ⟨first, others⟩ j inside
    cases j with
    | zero => rwa [Nat.zero_mul, Nat.sub_zero]
    | succ j =>
      rw [left]
      exact others j (Nat.lt_of_succ_lt_succ inside)

section Parts

variable {c fuel : Nat} {grants : Nat → Nat} {l : List α}

theorem parts_nil (c fuel : Nat) (grants : Nat → Nat) : parts c fuel grants ([] : List α) = [] := by
  cases fuel with
  | zero => rfl
  | succ fuel =>
    have none : share c (grants 0) ([] : List α).length = 0 := Nat.le_zero.mp (share_le_left _ _ _)
    rw [parts, if_pos none]

/-- The first part, and the parts of the rest. -/
theorem parts_of_ne_nil (positive : 0 < c) (nonempty : l ≠ []) :
    parts c (fuel + 1) grants l = l.take (share c (grants 0) l.length) ::
      parts c fuel (fun j => grants (j + 1)) (l.drop (share c (grants 0) l.length)) := by
  have some : share c (grants 0) l.length ≠ 0 := fun none =>
    nonempty (List.length_eq_zero_iff.mp ((share_eq_zero positive).mp none))
  rw [parts, if_neg some]

/-- The rest is shorter. -/
theorem length_drop_share_lt (positive : 0 < c) (nonempty : l ≠ []) (enough : l.length < fuel + 1) :
    (l.drop (share c (grants 0) l.length)).length < fuel := by
  have some : share c (grants 0) l.length ≠ 0 := fun none =>
    nonempty (List.length_eq_zero_iff.mp ((share_eq_zero positive).mp none))
  have most := share_le_left c (grants 0) l.length
  rw [List.length_drop]
  omega

/-- The parts make the list. -/
theorem flatten_parts (positive : 0 < c) (enough : l.length < fuel) :
    (parts c fuel grants l).flatten = l := by
  induction fuel generalizing grants l with
  | zero => exact absurd enough (Nat.not_lt_zero _)
  | succ fuel ih =>
    by_cases empty : l = []
    · rw [empty, parts_nil, List.flatten_nil]
    · rw [parts_of_ne_nil positive empty, List.flatten_cons,
        ih (length_drop_share_lt positive empty enough), List.take_append_drop]

/-- The parts reach the end. -/
theorem length_le_parts_mul (positive : 0 < c) (enough : l.length < fuel) :
    l.length ≤ (parts c fuel grants l).length * c := by
  induction fuel generalizing grants l with
  | zero => exact absurd enough (Nat.not_lt_zero _)
  | succ fuel ih =>
    by_cases empty : l = []
    · rw [empty]
      exact Nat.zero_le _
    · have shorter : (l.drop (share c (grants 0) l.length)).length < fuel :=
        length_drop_share_lt positive empty enough
      have rest := @ih (fun j => grants (j + 1)) _ shorter
      have most := share_le c (grants 0) l.length
      rw [parts_of_ne_nil positive empty, List.length_cons, Nat.succ_mul]
      rw [List.length_drop] at rest
      omega

/-- **The parts are the pieces if and only if every turn takes all it can.** -/
theorem parts_eq_pieces_iff (positive : 0 < c) (enough : l.length < fuel) :
    parts c fuel grants l = pieces c l ↔ AllFull c grants l.length := by
  induction fuel generalizing grants l with
  | zero => exact absurd enough (Nat.not_lt_zero _)
  | succ fuel ih =>
    by_cases empty : l = []
    · subst empty
      rw [parts_nil, pieces_nil positive]
      refine iff_of_true rfl fun j inside => ?_
      rw [List.length_nil, pieceCount_zero positive] at inside
      exact absurd inside (Nat.not_lt_zero _)
    · have some : 0 < l.length := List.length_pos_iff.mpr empty
      have shorter : (l.drop (share c (grants 0) l.length)).length < fuel :=
        length_drop_share_lt positive empty enough
      have later := @ih (fun j => grants (j + 1)) _ shorter
      rw [parts_of_ne_nil positive empty, pieces_of_ne_nil positive empty, List.cons.injEq,
        allFull_step positive some]
      -- the first part is the first piece when the first turn is full, and then so are the rests
      have first : l.take (share c (grants 0) l.length) = l.take c ↔
          min c l.length ≤ max 1 (grants 0) := by
        rw [List.take_eq_take_iff]
        unfold share
        omega
      refine (and_congr_left' first).trans (and_congr_right fun full => ?_)
      have drops : l.drop (share c (grants 0) l.length) = l.drop c := by
        rw [show share c (grants 0) l.length = min c l.length from Nat.min_eq_right full]
        rcases Nat.le_total c l.length with fits | past
        · rw [Nat.min_eq_left fits]
        · rw [Nat.min_eq_right past, List.drop_length, List.drop_of_length_le past]
      rw [drops] at later ⊢
      rwa [List.length_drop] at later

end Parts

/-! ### Writes -/

@[simp] theorem length_patch {fill : α} {l new : List α} {offset : Nat}
    (inside : offset + new.length ≤ l.length) : (patch fill l offset new).length = l.length := by
  simp only [patch, List.length_append, List.takeD_length, List.length_drop]
  omega

/-- After a write, the list starts with what was before the offset and what was written. -/
theorem take_patch {fill : α} {l new : List α} {offset : Nat} (inside : offset ≤ l.length) :
    (patch fill l offset new).take (offset + new.length) = l.take offset ++ new := by
  rw [patch, List.takeD_eq_take _ inside]
  exact List.take_left' (by simp [inside])

/-- A write leaves what is before it alone. -/
theorem take_patch_before {fill : α} {l new : List α} {offset n : Nat} (inside : offset ≤ l.length)
    (before : n ≤ offset) : (patch fill l offset new).take n = l.take n := by
  rw [patch, List.takeD_eq_take _ inside, List.append_assoc,
    List.take_append_of_le_length (by simp; omega), List.take_take, Nat.min_eq_left before]

/-- A write leaves what is after it alone. -/
theorem drop_patch_after {fill : α} {l new : List α} {offset n : Nat}
    (after : offset + new.length ≤ n) :
    (patch fill l offset new).drop n = l.drop n := by
  have length : (l.takeD offset fill ++ new).length = offset + new.length := by simp
  rw [patch, List.drop_append, length, List.drop_of_length_le (by omega), List.nil_append,
    List.drop_drop, Nat.add_sub_cancel' after]

/-- A write within a list leaves the windows beside it alone. -/
theorem window_patch_beside {fill : α} {l new : List α} {offset start len : Nat}
    (inside : offset + new.length ≤ l.length)
    (beside : start + len ≤ offset ∨ offset + new.length ≤ start) :
    ((patch fill l offset new).drop start).take len = (l.drop start).take len := by
  rcases beside with before | after
  · rw [List.take_drop, List.take_drop, take_patch_before (by omega) (by omega)]
  · rw [drop_patch_after after]

/-- What was written is there. -/
theorem window_patch_self {fill : α} {l new : List α} {offset : Nat} (inside : offset ≤ l.length) :
    ((patch fill l offset new).drop offset).take new.length = new := by
  rw [List.take_drop, take_patch inside]
  exact List.drop_left' (by simp [inside])

/-- Windows are equal when they are so at every index. -/
theorem window_eq_iff {l l' : List α} {start len : Nat} :
    (l.drop start).take len = (l'.drop start).take len ↔
      ∀ i, start ≤ i → i < start + len → l[i]? = l'[i]? := by
  constructor
  · intro same i low high
    have here := congrArg (·[i - start]?) same
    simpa [List.getElem?_take, List.getElem?_drop, show i - start < len by omega,
      Nat.add_sub_cancel' low] using here
  · intro same
    refine List.ext_getElem? fun j => ?_
    rw [List.getElem?_take, List.getElem?_take, List.getElem?_drop, List.getElem?_drop]
    split
    · exact same (start + j) (Nat.le_add_right _ _) (by omega)
    · rfl

/-- What is at an index after a write. -/
theorem getElem?_patch {fill : α} {l new : List α} {offset : Nat} (inside : offset ≤ l.length) (i : Nat) :
    (patch fill l offset new)[i]? =
      if offset ≤ i ∧ i < offset + new.length then new[i - offset]? else l[i]? := by
  have front : (l.take offset).length = offset := List.length_take_of_le inside
  rw [patch, List.takeD_eq_take _ inside, List.append_assoc]
  rcases Nat.lt_or_ge i offset with before | past
  · rw [if_neg (by omega), List.getElem?_append_left (by omega), List.getElem?_take, if_pos before]
  · rw [List.getElem?_append_right (by omega), front]
    split
    · rw [List.getElem?_append_left (by omega)]
    · rw [List.getElem?_append_right (by omega), List.getElem?_drop]
      congr 1
      omega

/-- **Writing what the source has at the offset**, or the first part of it, leaves every window alone that
is as in the source. -/
theorem window_patch_source {fill : α} {source l new : List α} {offset start len : Nat}
    (inside : offset ≤ l.length) (isPart : new <+: source.drop offset)
    (same : (l.drop start).take len = (source.drop start).take len) :
    ((patch fill l offset new).drop start).take len = (source.drop start).take len := by
  rw [window_eq_iff] at same ⊢
  intro i low high
  rw [getElem?_patch inside]
  split
  · next within =>
    obtain ⟨rest, split⟩ := isPart
    have there : (source.drop offset)[i - offset]? = new[i - offset]? := by
      rw [← split, List.getElem?_append_left (by omega)]
    rw [← there, List.getElem?_drop, Nat.add_sub_cancel' within.1]
  · exact same i low high

/-- Writing what is there changes nothing. -/
theorem patch_unchanged {fill : α} {l new : List α} {offset : Nat} (inside : offset ≤ l.length)
    (same : new <+: l.drop offset) : patch fill l offset new = l := by
  obtain ⟨rest, split⟩ := same
  have after : l.drop (offset + new.length) = rest := by
    rw [← List.drop_drop, ← split, List.drop_left]
  rw [patch, List.takeD_eq_take _ inside, after, List.append_assoc, split, List.take_append_drop]

/-- Cutting or filling up leaves alone what is in the old and in the new list. -/
theorem take_takeD {fill : α} (l : List α) : ∀ {size n : Nat}, n ≤ l.length → n ≤ size →
    (l.takeD size fill).take n = l.take n := by
  induction l with
  | nil =>
    intro size n old _
    obtain rfl := Nat.le_zero.mp old
    rfl
  | cons a l ih =>
    intro size n old new
    cases n with
    | zero => rfl
    | succ n =>
      obtain ⟨size, rfl⟩ : ∃ less, size = less + 1 := ⟨size - 1, by omega⟩
      rw [List.takeD_succ, List.head?_cons, Option.getD_some, List.tail_cons, List.take_succ_cons,
        List.take_succ_cons, ih (Nat.le_of_succ_le_succ old) (Nat.le_of_succ_le_succ new)]

/-- Cutting or filling up leaves a window alone that is in the old and in the new list. -/
theorem window_takeD {fill : α} {l : List α} {size start len : Nat} (old : start + len ≤ l.length)
    (new : start + len ≤ size) :
    ((l.takeD size fill).drop start).take len = (l.drop start).take len := by
  rw [List.take_drop, List.take_drop, take_takeD l old new]

/-- One more piece of the source makes a longer prefix of it. -/
theorem take_succ_mul (c : Nat) (l : List α) (k : Nat) :
    l.take ((k + 1) * c) = l.take (k * c) ++ piece c l k := by
  rw [piece, Nat.succ_mul, List.take_add]

/-- **Copying the next piece lengthens the prefix on which a list agrees with the source.** -/
theorem take_patch_piece {fill : α} {source l : List α} {c k : Nat}
    (inside : k * c ≤ source.length) (sameLength : l.length = source.length)
    (agree : l.take (k * c) = source.take (k * c)) :
    (patch fill l (k * c) (piece c source k)).take ((k + 1) * c) =
      source.take ((k + 1) * c) := by
  have prefixEq : (patch fill l (k * c) (piece c source k)).take (k * c + (piece c source k).length) =
      source.take ((k + 1) * c) := by
    rw [take_patch (sameLength ▸ inside), agree, take_succ_mul]
  have reach : k * c + (piece c source k).length = min ((k + 1) * c) source.length := by
    rw [length_piece, Nat.succ_mul]
    omega
  have size : (patch fill l (k * c) (piece c source k)).length = source.length := by
    rw [length_patch, sameLength]
    rw [sameLength, reach]
    exact Nat.min_le_right _ _
  rw [reach] at prefixEq
  rcases Nat.le_total ((k + 1) * c) source.length with short | long
  · rwa [Nat.min_eq_left short] at prefixEq
  · rw [Nat.min_eq_right long] at prefixEq
    rw [List.take_of_length_le (by rw [size]; exact long)]
    rwa [List.take_of_length_le (Nat.le_of_eq size)] at prefixEq

/-- A piece that already agrees lengthens the prefix as well. -/
theorem take_succ_mul_congr {source l : List α} {c k : Nat}
    (agree : l.take (k * c) = source.take (k * c)) (same : piece c l k = piece c source k) :
    l.take ((k + 1) * c) = source.take ((k + 1) * c) := by
  rw [take_succ_mul, take_succ_mul, agree, same]

end Pieces
