/-
**Readers of texts.**

A `Reader` reads a value from the front of a text and hands on what is behind it, or fails.

* `bind_of_reads`, `reads_of_bind`: a reader that is made of parts reads them one after the other;
* `Steady`: what a reader has read stays the same when more text is put behind it;
* `exactly` reads given characters and `digits` a number: `digits_padded` reads back a number with any
  zeros before it.
-/

import Mathlib.Data.List.Basic
import Mathlib.Data.Nat.Init

namespace Reading

/-- A program that reads a value from the front of a text. -/
abbrev Reader (α : Type) := StateT (List Char) Option α

variable {α β : Type}

/-- A reader goes on behind what its first part has read. -/
theorem bind_of_reads {reader : Reader α} {rest : α → Reader β} {text behind : List Char} {a : α}
    (reads : reader text = some (a, behind)) : (reader >>= rest) text = rest a behind := by
  show (reader text).bind _ = _
  rw [reads]
  rfl

/-- What the parts of a reader have read. -/
theorem reads_of_bind {reader : Reader α} {rest : α → Reader β} {text behind : List Char} {b : β}
    (reads : (reader >>= rest) text = some (b, behind)) :
    ∃ a between, reader text = some (a, between) ∧ rest a between = some (b, behind) := by
  change (reader text).bind _ = _ at reads
  obtain ⟨⟨a, between⟩, first, second⟩ := Option.bind_eq_some_iff.mp reads
  exact ⟨a, between, first, second⟩

/-! ### Steady readers -/

/-- What is read is read the same whatever text follows. -/
def Steady (reader : Reader α) : Prop :=
  ∀ text a behind more, reader text = some (a, behind) →
    reader (text ++ more) = some (a, behind ++ more)

theorem steady_pure (a : α) : Steady (pure a : Reader α) := by
  intro text b behind more reads
  cases reads
  rfl

theorem steady_failure : Steady (failure : Reader α) := fun _ _ _ _ reads => nomatch reads

theorem Steady.bind {reader : Reader α} {rest : α → Reader β} (first : Steady reader)
    (second : ∀ a, Steady (rest a)) : Steady (reader >>= rest) := by
  intro text b behind more reads
  obtain ⟨a, between, before, after⟩ := reads_of_bind reads
  rw [bind_of_reads (first text a between more before)]
  exact second a between b behind more after

theorem Steady.ite {p : Prop} [Decidable p] {first second : Reader α} (left : Steady first)
    (right : Steady second) : Steady (if p then first else second) := by
  split
  · exact left
  · exact right

/-- Where something is left of a text, the same is left with more text behind it. -/
theorem dropWhile_append_of_cons {p : Char → Bool} {text rest more : List Char} {c : Char}
    (left : text.dropWhile p = c :: rest) : (text ++ more).dropWhile p = c :: (rest ++ more) := by
  rw [List.dropWhile_append, left]
  rfl

/-! ### Characters -/

/-- Characters that have to stand here. -/
def exactly (chars : List Char) : Reader Unit := fun text =>
  if chars <+: text then some ((), text.drop chars.length) else none

theorem exactly_append (chars rest : List Char) : exactly chars (chars ++ rest) = some ((), rest) := by
  rw [exactly, if_pos (List.prefix_append _ _), List.drop_left]

theorem exactly_cons (c : Char) (rest : List Char) : exactly [c] (c :: rest) = some ((), rest) :=
  exactly_append [c] rest

theorem steady_exactly (chars : List Char) : Steady (exactly chars) := by
  intro text a behind more reads
  unfold exactly at reads
  split at reads
  · next front =>
    obtain ⟨rest, rfl⟩ := front
    cases reads
    rw [List.append_assoc, exactly_append, List.drop_left]
  · cases reads

/-! ### Numbers -/

/-- A number, with something behind it that is no digit. -/
def digits : Reader Nat := fun text =>
  match text.dropWhile Char.isDigit with
  | c :: rest =>
    if text.takeWhile Char.isDigit = [] then none
    else some (Nat.ofDigitChars 10 (text.takeWhile Char.isDigit) 0, c :: rest)
  | [] => none

theorem steady_digits : Steady digits := by
  intro text a behind more reads
  unfold digits at reads ⊢
  cases left : text.dropWhile Char.isDigit with
  | nil =>
    rw [left] at reads
    cases reads
  | cons c rest =>
    have same : (text ++ more).takeWhile Char.isDigit = text.takeWhile Char.isDigit := by
      rw [List.takeWhile_append, if_neg]
      intro whole
      have parts := congrArg List.length (List.takeWhile_append_dropWhile (p := Char.isDigit) (l := text))
      rw [List.length_append, left, List.length_cons] at parts
      omega
    rw [dropWhile_append_of_cons left, same]
    rw [left] at reads
    dsimp only at reads ⊢
    split at reads
    · cases reads
    · next some =>
      cases reads
      rw [if_neg some]
      rfl

/-- What may follow a number. -/
def Stops (rest : List Char) : Prop := ∃ c tail, rest = c :: tail ∧ c.isDigit = false

theorem stops_cons {c : Char} (noDigit : c.isDigit = false) (tail : List Char) : Stops (c :: tail) :=
  ⟨c, tail, rfl, noDigit⟩

/-- A number of at least so many digits. -/
def padded (width n : Nat) : List Char :=
  List.replicate (width - (Nat.toDigits 10 n).length) '0' ++ Nat.toDigits 10 n

theorem isDigit_of_mem_padded {width n : Nat} {c : Char} (member : c ∈ padded width n) :
    c.isDigit = true := by
  rcases List.mem_append.mp member with isZero | isDigit
  · rw [List.eq_of_mem_replicate isZero]
    decide
  · exact Nat.isDigit_of_mem_toDigits (by decide) (by decide) isDigit

theorem padded_ne_nil (width n : Nat) : padded width n ≠ [] := by
  intro empty
  exact Nat.toDigits_ne_nil (List.append_eq_nil_iff.mp empty).2

/-- **A number is read back** up to what is no digit. -/
theorem digits_padded (width n : Nat) {rest : List Char} (stops : Stops rest) :
    digits (padded width n ++ rest) = some (n, rest) := by
  obtain ⟨c, tail, rfl, noDigit⟩ := stops
  have all : ∀ d ∈ padded width n, d.isDigit = true := fun _ member => isDigit_of_mem_padded member
  have stop : (c :: tail).takeWhile Char.isDigit = [] := List.takeWhile_cons_of_neg (by simp [noDigit])
  have behind : (c :: tail).dropWhile Char.isDigit = c :: tail :=
    List.dropWhile_cons_of_neg (by simp [noDigit])
  unfold digits
  rw [List.dropWhile_append_of_pos all, behind, List.takeWhile_append_of_pos all, stop,
    List.append_nil]
  dsimp only
  rw [if_neg (padded_ne_nil width n), padded, Nat.ofDigitChars_append, Nat.ofDigitChars_replicate_zero,
    Nat.mul_zero, Nat.ofDigitChars_toDigits (by decide) (by decide)]

/-- A digit is none of the characters with a meaning of their own. -/
theorem ne_of_isDigit {c d : Char} (isDigit : c.isDigit = true) (noDigit : d.isDigit = false) :
    c ≠ d := by
  rintro rfl
  exact absurd (isDigit.symm.trans noDigit) (by decide)

/-- A number begins with a digit. -/
theorem padded_cons (width n : Nat) : ∃ c tail, padded width n = c :: tail ∧ c.isDigit = true := by
  obtain ⟨c, tail, split⟩ := List.exists_cons_of_ne_nil (padded_ne_nil width n)
  have first : c ∈ padded width n := by
    rw [split]
    exact List.mem_cons_self
  exact ⟨c, tail, split, isDigit_of_mem_padded first⟩

/-! No zeros before a number. -/

theorem padded_zero (n : Nat) : padded 0 n = Nat.toDigits 10 n := by
  rw [padded, Nat.zero_sub]
  rfl

theorem digits_toDigits (n : Nat) {rest : List Char} (stops : Stops rest) :
    digits (Nat.toDigits 10 n ++ rest) = some (n, rest) := by
  rw [← padded_zero]
  exact digits_padded 0 n stops

theorem toDigits_cons (n : Nat) : ∃ c tail, Nat.toDigits 10 n = c :: tail ∧ c.isDigit = true := by
  rw [← padded_zero]
  exact padded_cons 0 n

end Reading
