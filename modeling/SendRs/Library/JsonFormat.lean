/-
**Formats of JSON texts.**

A `Format` writes the values of a type, on one line or indented, and reads them back. The format of a
record is put together from the formats of its parts:

* `string`, `nat`, `int`, `bool` and `nullable` for single values;
* `member`, `both` and `object` for the members of an object, which are read in the order they are
  written in;
* `many` for arrays, and for objects whose names are data;
* `as` for values that are written like those of another type, and with it `choice` and `record`.

What is written is read back (`Format.read_write`), and what is read is read the same whatever text
follows (`Format.steady`). A format that says where its text ends (`Format.Closed`) therefore reads
back each whole text (`parse_text`) and no text that is cut short (`parse_cut`).
-/

import Mathlib.Data.List.Basic
import SendRs.Library.Json
import SendRs.Library.Reader

namespace Json

open Reading

variable {α β : Type}

/-! ### Layouts -/

/-- On one line, or over lines that are indented to a depth. -/
inductive Layout where
  | compact
  | indented (depth : Nat)

namespace Layout

/-- The layout of what is inside brackets. -/
def deeper : Layout → Layout
  | compact => compact
  | indented depth => indented (depth + 1)

/-- What stands before each part, and before the closing bracket. -/
def newline : Layout → List Char
  | compact => []
  | indented depth => '\n' :: List.replicate (2 * depth) ' '

/-- What stands behind a colon. -/
def space : Layout → List Char
  | compact => []
  | indented _ => [' ']

end Layout

/-- The characters that may stand between the parts of a text. -/
def blank (c : Char) : Bool := c = ' ' || c = '\n' || c = '\t' || c = '\r'

/-- Nothing but blanks. -/
def Gap (chars : List Char) : Prop := ∀ c ∈ chars, blank c = true

theorem gap_newline (layout : Layout) : Gap layout.newline := by
  cases layout with
  | compact => exact fun c member => nomatch member
  | indented depth =>
    intro c member
    rcases List.mem_cons.mp member with rfl | member
    · rfl
    · rw [List.eq_of_mem_replicate member]
      rfl

theorem gap_space (layout : Layout) : Gap layout.space := by
  cases layout with
  | compact => exact fun c member => nomatch member
  | indented depth =>
    intro c member
    rw [List.mem_singleton.mp member]
    rfl

/-- A gap has no NUL in it. -/
theorem Gap.clean {chars : List Char} (gap : Gap chars) : '\x00' ∉ chars := fun member =>
  absurd (gap _ member) (by decide)

/-! ### Readers that pass over blanks -/

/-- The reader passes over blanks. -/
def Skips (reader : Reader α) : Prop :=
  ∀ c text, blank c = true → reader (c :: text) = reader text

theorem Skips.bind {reader : Reader α} (first : Skips reader) (rest : α → Reader β) :
    Skips (reader >>= rest) := by
  intro c text isBlank
  show (reader (c :: text)).bind _ = (reader text).bind _
  rw [first c text isBlank]

theorem Skips.gap {reader : Reader α} (skips : Skips reader) {chars : List Char} (gap : Gap chars)
    (text : List Char) : reader (chars ++ text) = reader text := by
  induction chars with
  | nil => rfl
  | cons c chars ih =>
    rw [List.cons_append, skips c _ (gap c List.mem_cons_self)]
    exact ih fun other member => gap other (List.mem_cons_of_mem c member)

/-- The next character that is no blank, which stays to be read. -/
def peek : Reader Char := fun text =>
  match text.dropWhile blank with
  | c :: rest => some (c, c :: rest)
  | [] => none

/-- The next character that is no blank. -/
def next : Reader Char := fun text =>
  match text.dropWhile blank with
  | c :: rest => some (c, rest)
  | [] => none

theorem skips_peek : Skips peek := by
  intro c text isBlank
  rw [peek, List.dropWhile_cons_of_pos isBlank, peek]

theorem skips_next : Skips next := by
  intro c text isBlank
  rw [next, List.dropWhile_cons_of_pos isBlank, next]

theorem peek_cons {c : Char} (notBlank : blank c = false) (rest : List Char) :
    peek (c :: rest) = some (c, c :: rest) := by
  rw [peek, List.dropWhile_cons_of_neg (by simp [notBlank])]

theorem next_cons {c : Char} (notBlank : blank c = false) (rest : List Char) :
    next (c :: rest) = some (c, rest) := by
  rw [next, List.dropWhile_cons_of_neg (by simp [notBlank])]

theorem steady_peek : Steady peek := by
  intro text a behind more reads
  unfold peek at reads ⊢
  cases left : text.dropWhile blank with
  | nil =>
    rw [left] at reads
    cases reads
  | cons c rest =>
    rw [left] at reads
    cases reads
    rw [dropWhile_append_of_cons left]
    rfl

theorem steady_next : Steady next := by
  intro text a behind more reads
  unfold next at reads ⊢
  cases left : text.dropWhile blank with
  | nil =>
    rw [left] at reads
    cases reads
  | cons c rest =>
    rw [left] at reads
    cases reads
    rw [dropWhile_append_of_cons left]

/-- One character that has to come next. -/
def token (c : Char) : Reader Unit := do
  let d ← next
  if d = c then pure () else failure

theorem skips_token (c : Char) : Skips (token c) := skips_next.bind _

theorem steady_token (c : Char) : Steady (token c) :=
  steady_next.bind fun _ => (steady_pure _).ite steady_failure

theorem token_cons {c : Char} (notBlank : blank c = false) (rest : List Char) :
    token c (c :: rest) = some ((), rest) := by
  rw [token, bind_of_reads (next_cons notBlank rest), if_pos rfl]
  rfl

theorem stops_newline (layout : Layout) {c : Char} (noDigit : c.isDigit = false) (tail : List Char) :
    Stops (layout.newline ++ c :: tail) := by
  cases layout with
  | compact => exact stops_cons noDigit tail
  | indented depth => exact stops_cons (by decide) _

/-- The characters of a string are read the same whatever text follows. -/
theorem steady_unescape : Steady (unescape : Reader (List Char)) := by
  intro text
  fun_induction unescape text with
  | case1 rest =>
    intro a behind more reads
    cases reads
    rfl
  | case2 high low rest ih =>
    intro a behind more reads
    obtain ⟨⟨chars, rest⟩, inner, same⟩ := Option.map_eq_some_iff.mp reads
    cases same
    have later := ih _ _ more inner
    simp only [List.cons_append, unescape, later, Option.map_some]
  | case3 =>
    intro a behind more reads
    cases reads
  | case4 c rest noCode noEscape ih =>
    intro a behind more reads
    obtain ⟨⟨chars, rest⟩, inner, same⟩ := Option.map_eq_some_iff.mp reads
    cases same
    have later := ih _ _ more inner
    rw [List.cons_append, List.cons_append, unescape.eq_4, later, Option.map_some]
    · exact fun _ _ _ isCode => absurd isCode noEscape
    · exact noEscape
  | case5 c rest noQuote noCode noHalf noEscape ih =>
    intro a behind more reads
    obtain ⟨⟨chars, behind⟩, inner, same⟩ := Option.map_eq_some_iff.mp reads
    cases same
    have later := ih _ _ more inner
    have noSlash : c ≠ '\\' := by
      intro slash
      cases rest with
      | nil => cases inner
      | cons d rest => exact noEscape d rest slash rfl
    rw [List.cons_append, unescape, later, Option.map_some]
    · exact noQuote
    · exact fun _ _ _ slash => absurd slash noSlash
    · exact fun _ slash => absurd slash noSlash
    · exact fun _ _ slash => absurd slash noSlash
  | case6 =>
    intro a behind more reads
    cases reads

/-! ### Formats -/

/-- How the values of a type are written and read. -/
structure Format (α : Type) where
  write : Layout → α → List Char
  read : Reader α
  /-- A text begins with a character that is no blank and closes nothing. -/
  head : ∀ layout a, ∃ c tail, write layout a = c :: tail ∧ blank c = false ∧ c ≠ ']' ∧ c ≠ '\x7d'
  clean : ∀ layout a, '\x00' ∉ write layout a
  read_write : ∀ layout a rest, Stops rest → read (write layout a ++ rest) = some (a, rest)
  skips : Skips read
  steady : Steady read

/-- Where a text ends does not depend on what follows. -/
def Format.Closed (format : Format α) : Prop :=
  ∀ layout a rest, format.read (format.write layout a ++ rest) = some (a, rest)

namespace Format

/-- A string. -/
def string : Format String where
  write _ s := quote s
  read := do
    token '"'
    let chars ← (unescape : Reader (List Char))
    pure (String.ofList chars)
  head _ s := ⟨'"', _, rfl, by decide, by decide, by decide⟩
  clean _ s := notMem_quote s
  read_write layout s rest _ := by
    rw [quote, List.cons_append, bind_of_reads (token_cons (by decide) _), List.append_assoc,
      List.singleton_append, bind_of_reads (unescape_quote _ rest), String.ofList_toList]
    rfl
  skips := (skips_token _).bind _
  steady := (steady_token _).bind fun _ => steady_unescape.bind fun _ => steady_pure _

/-- A digit is no blank. -/
theorem blank_of_isDigit {c : Char} (isDigit : c.isDigit = true) : blank c = false := by
  have apart (d : Char) (noDigit : d.isDigit = false) : decide (c = d) = false :=
    decide_eq_false (ne_of_isDigit isDigit noDigit)
  rw [blank, apart ' ' (by decide), apart '\n' (by decide), apart '\t' (by decide),
    apart '\r' (by decide)]
  rfl

theorem notMem_toDigits (n : Nat) : '\x00' ∉ Nat.toDigits 10 n := fun member =>
  absurd (Nat.isDigit_of_mem_toDigits (by decide) (by decide) member) (by decide)

/-- A number that is not negative. -/
def nat : Format Nat where
  write _ n := Nat.toDigits 10 n
  read := do
    let _ ← peek
    digits
  head _ n := by
    obtain ⟨c, tail, split, isDigit⟩ := toDigits_cons n
    exact ⟨c, tail, split, blank_of_isDigit isDigit, ne_of_isDigit isDigit (by decide),
      ne_of_isDigit isDigit (by decide)⟩
  clean _ n := notMem_toDigits n
  read_write _ n rest stops := by
    obtain ⟨c, tail, split, isDigit⟩ := toDigits_cons n
    rw [split, List.cons_append, bind_of_reads (peek_cons (blank_of_isDigit isDigit) _),
      ← List.cons_append, ← split]
    exact digits_toDigits n stops
  skips := skips_peek.bind _
  steady := steady_peek.bind fun _ => steady_digits

/-- The sign and the digits of a number. -/
def writeInt : Int → List Char
  | .ofNat n => Nat.toDigits 10 n
  | .negSucc n => '-' :: Nat.toDigits 10 (n + 1)

def readInt : Reader Int := do
  let c ← peek
  if c = '-' then do
    let _ ← next
    let n ← digits
    pure (-n)
  else do
    let n ← digits
    pure n

theorem readInt_writeInt (i : Int) {rest : List Char} (stops : Stops rest) :
    readInt (writeInt i ++ rest) = some (i, rest) := by
  cases i with
  | ofNat n =>
    obtain ⟨c, tail, split, isDigit⟩ := toDigits_cons n
    rw [writeInt, split, readInt, List.cons_append,
      bind_of_reads (peek_cons (blank_of_isDigit isDigit) _), if_neg (ne_of_isDigit isDigit (by decide)),
      ← List.cons_append, ← split, bind_of_reads (digits_toDigits n stops)]
    rfl
  | negSucc n =>
    rw [writeInt, readInt, List.cons_append, bind_of_reads (peek_cons (by decide) _), if_pos rfl,
      bind_of_reads (next_cons (by decide) _), bind_of_reads (digits_toDigits (n + 1) stops)]
    rfl

/-- A number. -/
def int : Format Int where
  write _ := writeInt
  read := readInt
  head _ i := by
    cases i with
    | ofNat n => exact nat.head .compact n
    | negSucc n => exact ⟨'-', _, rfl, by decide, by decide, by decide⟩
  clean _ i := by
    cases i with
    | ofNat n => exact notMem_toDigits n
    | negSucc n => exact fun member => notMem_toDigits _ ((List.mem_cons.mp member).resolve_left (by decide))
  read_write _ i rest stops := readInt_writeInt i stops
  skips := skips_peek.bind _
  steady := by
    refine steady_peek.bind fun c => Steady.ite ?_ ?_
    · exact steady_next.bind fun _ => steady_digits.bind fun _ => steady_pure _
    · exact steady_digits.bind fun _ => steady_pure _

def writeBool : Bool → List Char
  | true => ['t', 'r', 'u', 'e']
  | false => ['f', 'a', 'l', 's', 'e']

/-- `true` or `false`. -/
def bool : Format Bool where
  write _ := writeBool
  read := do
    let c ← peek
    if c = 't' then do
      exactly ['t', 'r', 'u', 'e']
      pure true
    else do
      exactly ['f', 'a', 'l', 's', 'e']
      pure false
  head _ b := by
    cases b
    all_goals exact ⟨_, _, rfl, by decide, by decide, by decide⟩
  clean _ b := by cases b <;> decide
  read_write _ b rest _ := by
    cases b with
    | true =>
      rw [writeBool, List.cons_append, bind_of_reads (peek_cons (by decide) _), if_pos rfl,
        ← List.cons_append, bind_of_reads (exactly_append _ rest)]
      rfl
    | false =>
      rw [writeBool, List.cons_append, bind_of_reads (peek_cons (by decide) _), if_neg (by decide),
        ← List.cons_append, bind_of_reads (exactly_append _ rest)]
      rfl
  skips := skips_peek.bind _
  steady := by
    refine steady_peek.bind fun c => Steady.ite ?_ ?_
    all_goals exact (steady_exactly _).bind fun _ => steady_pure _

/-- A value, or `null`. -/
def nullable (format : Format α) (some : ∀ layout a, (format.write layout a).head? ≠ some 'n') :
    Format (Option α) where
  write layout value := value.elim ['n', 'u', 'l', 'l'] (format.write layout)
  read := do
    let c ← peek
    if c = 'n' then do
      exactly ['n', 'u', 'l', 'l']
      pure none
    else do
      let a ← format.read
      pure (.some a)
  head layout value := by
    cases value with
    | none => exact ⟨_, _, rfl, by decide, by decide, by decide⟩
    | some a => exact format.head layout a
  clean layout value := by
    cases value with
    | none => exact (by decide : '\x00' ∉ ['n', 'u', 'l', 'l'])
    | some a => exact format.clean layout a
  read_write layout value rest stops := by
    cases value with
    | none =>
      rw [Option.elim_none, List.cons_append, bind_of_reads (peek_cons (by decide) _), if_pos rfl,
        ← List.cons_append, bind_of_reads (exactly_append _ rest)]
      rfl
    | some a =>
      obtain ⟨c, tail, split, notBlank, _⟩ := format.head layout a
      have notNull : c ≠ 'n' := by
        rintro rfl
        exact some layout a (by rw [split]; rfl)
      have back := format.read_write layout a rest stops
      rw [split, List.cons_append] at back
      rw [Option.elim_some, split, List.cons_append, bind_of_reads (peek_cons notBlank _), if_neg notNull, bind_of_reads back]
      rfl
  skips := skips_peek.bind _
  steady := by
    refine steady_peek.bind fun c => Steady.ite ?_ ?_
    · exact (steady_exactly _).bind fun _ => steady_pure _
    · exact format.steady.bind fun _ => steady_pure _

/-! ### Parts -/

end Format

/-- What stands between two parts: a character, and what follows it. -/
structure Mark where
  char : Char
  behind : Layout → List Char
  notBlank : blank char = false
  noDigit : char.isDigit = false
  clean : char ≠ '\x00'
  gap : ∀ layout, Gap (behind layout)

def colon : Mark := ⟨':', Layout.space, by decide, by decide, by decide, gap_space⟩

def comma : Mark := ⟨',', Layout.newline, by decide, by decide, by decide, gap_newline⟩

/-- The brackets around the parts. -/
inductive Brackets where
  | square
  | curly

namespace Brackets

def opening : Brackets → Char
  | square => '['
  | curly => '\x7b'

def closing : Brackets → Char
  | square => ']'
  | curly => '\x7d'

variable (brackets : Brackets)

theorem opening_spec : blank brackets.opening = false ∧ brackets.opening ≠ ']' ∧
    brackets.opening ≠ '\x7d' ∧ brackets.opening ≠ '\x00' := by
  cases brackets <;> decide

theorem closing_spec : blank brackets.closing = false ∧ brackets.closing.isDigit = false ∧
    brackets.closing ≠ ',' ∧ brackets.closing ≠ '\x00' := by
  cases brackets <;> decide

theorem ne_closing {c : Char} (notSquare : c ≠ ']') (notCurly : c ≠ '\x7d') : c ≠ brackets.closing := by
  cases brackets with
  | square => exact notSquare
  | curly => exact notCurly

end Brackets

namespace Format

/-- Two parts, one behind the other. -/
def pair (mark : Mark) (first : Format α) (second : Format β) : Format (α × β) where
  write layout ab := first.write layout ab.1 ++ mark.char :: (mark.behind layout ++ second.write layout ab.2)
  read := do
    let a ← first.read
    token mark.char
    let b ← second.read
    pure (a, b)
  head layout ab := by
    obtain ⟨c, tail, split, plain⟩ := first.head layout ab.1
    exact ⟨c, _, by rw [split]; rfl, plain⟩
  clean layout ab := by
    simp only [List.mem_append, List.mem_cons, not_or]
    exact ⟨first.clean layout ab.1, mark.clean.symm, (mark.gap layout).clean, second.clean layout ab.2⟩
  read_write layout ab rest stops := by
    rw [List.append_assoc, List.cons_append,
      bind_of_reads (first.read_write layout ab.1 _ (stops_cons mark.noDigit _)),
      bind_of_reads (token_cons mark.notBlank _), List.append_assoc]
    have back : second.read (mark.behind layout ++ (second.write layout ab.2 ++ rest)) = some (ab.2, rest) := by
      rw [second.skips.gap (mark.gap layout)]
      exact second.read_write layout ab.2 rest stops
    rw [bind_of_reads back]
    rfl
  skips := first.skips.bind _
  steady := first.steady.bind fun _ => (steady_token _).bind fun _ => second.steady.bind fun _ =>
    steady_pure _

/-- Members one behind the other. -/
def both (first : Format α) (second : Format β) : Format (α × β) := pair comma first second

/-- Values that are written like those of another type. -/
def as (format : Format α) (back : α → Option β) (forth : β → α) (inverse : ∀ b, back (forth b) = some b) :
    Format β where
  write layout b := format.write layout (forth b)
  read := do
    let a ← format.read
    match back a with
    | some b => pure b
    | none => failure
  head layout b := format.head layout (forth b)
  clean layout b := format.clean layout (forth b)
  read_write layout b rest stops := by
    rw [bind_of_reads (format.read_write layout (forth b) rest stops), inverse]
    rfl
  skips := format.skips.bind _
  steady := by
    refine format.steady.bind fun a => ?_
    cases back a with
    | none => exact steady_failure
    | some b => exact steady_pure b

/-- One of a few values, by its name. -/
def choice (name : α → String) (all : List α) (found : ∀ a, (all.find? fun b => name b = name a) = some a) :
    Format α :=
  string.as (fun s => all.find? fun a => name a = s) name found

/-- A member of an object, with its name. -/
def member (name : String) (format : Format α) : Format α :=
  (pair colon string format).as (fun (found, a) => if found = name then some a else none)
    (fun a => (name, a)) fun _ => if_pos rfl

/-! ### Brackets -/

section Bracketed

variable (format : Format α) (layout : Layout)

def writeObject (a : α) : List Char :=
  Brackets.curly.opening :: (layout.deeper.newline ++ (format.write layout.deeper a ++
    (layout.newline ++ [Brackets.curly.closing])))

def readObject : Reader α := do
  token Brackets.curly.opening
  let a ← format.read
  token Brackets.curly.closing
  pure a

theorem readObject_writeObject (a : α) (rest : List Char) :
    readObject format (writeObject format layout a ++ rest) = some (a, rest) := by
  have inside : format.read (layout.deeper.newline ++ (format.write layout.deeper a ++
      (layout.newline ++ Brackets.curly.closing :: rest))) =
      some (a, layout.newline ++ Brackets.curly.closing :: rest) := by
    rw [format.skips.gap (gap_newline _)]
    exact format.read_write layout.deeper a _ (stops_newline layout (by decide) rest)
  have closes : token Brackets.curly.closing (layout.newline ++ Brackets.curly.closing :: rest) =
      some ((), rest) := by
    rw [(skips_token _).gap (gap_newline layout)]
    exact token_cons (by decide) rest
  simp only [writeObject, List.cons_append, List.append_assoc, List.nil_append]
  rw [readObject, bind_of_reads (token_cons (by decide) _), bind_of_reads inside, bind_of_reads closes]
  rfl

/-- Members between braces. -/
def object : Format α where
  write := writeObject format
  read := readObject format
  head _ _ := ⟨_, _, rfl, by decide, by decide, by decide⟩
  clean layout a := by
    simp only [writeObject, List.mem_append, List.mem_cons, List.not_mem_nil, or_false, not_or]
    exact ⟨by decide, (gap_newline _).clean, format.clean _ a, (gap_newline _).clean, by decide⟩
  read_write layout a rest _ := readObject_writeObject format layout a rest
  skips := (skips_token _).bind _
  steady := (steady_token _).bind fun _ => format.steady.bind fun _ => (steady_token _).bind fun _ =>
    steady_pure _

variable (brackets : Brackets)

/-- What stands behind an item: the items after it, and the closing bracket. -/
def writeItems : List α → List Char
  | [] => layout.newline ++ [brackets.closing]
  | a :: rest => ',' :: (layout.deeper.newline ++ (format.write layout.deeper a ++ writeItems rest))

def writeMany : List α → List Char
  | [] => [brackets.opening, brackets.closing]
  | a :: rest => brackets.opening :: (layout.deeper.newline ++ (format.write layout.deeper a ++
      writeItems format layout brackets rest))

/-- Items up to the closing bracket, with fuel for so many. -/
def readItems : Nat → Reader (List α)
  | 0 => failure
  | fuel + 1 => do
    let a ← format.read
    let c ← next
    if c = ',' then do
      let rest ← readItems fuel
      pure (a :: rest)
    else if c = brackets.closing then pure [a] else failure

def readMany : Reader (List α) := do
  token brackets.opening
  let c ← peek
  if c = brackets.closing then do
    let _ ← next
    pure []
  else fun text => readItems format brackets text.length text

theorem skips_readItems (fuel : Nat) : Skips (readItems format brackets fuel) := by
  cases fuel with
  | zero => exact fun _ _ _ => rfl
  | succ fuel => exact format.skips.bind _

theorem steady_readItems (fuel : Nat) : Steady (readItems format brackets fuel) := by
  induction fuel with
  | zero => exact steady_failure
  | succ fuel ih =>
    refine format.steady.bind fun a => steady_next.bind fun c => Steady.ite ?_ (Steady.ite ?_ ?_)
    · exact ih.bind fun _ => steady_pure _
    · exact steady_pure _
    · exact steady_failure

/-- More fuel changes nothing. -/
theorem readItems_mono {fuel more : Nat} (enough : fuel ≤ more) {text behind : List Char} {items : List α}
    (reads : readItems format brackets fuel text = some (items, behind)) :
    readItems format brackets more text = some (items, behind) := by
  induction fuel generalizing more text behind items with
  | zero => cases reads
  | succ fuel ih =>
    obtain ⟨more, rfl⟩ := Nat.exists_eq_add_of_le' (Nat.lt_of_lt_of_le fuel.succ_pos enough)
    obtain ⟨a, between, first, rest⟩ := reads_of_bind reads
    obtain ⟨c, behindMark, second, rest⟩ := reads_of_bind rest
    rw [readItems, bind_of_reads first, bind_of_reads second]
    split at rest
    · next comma =>
      obtain ⟨others, _, third, last⟩ := reads_of_bind rest
      rw [if_pos comma, bind_of_reads (ih (Nat.le_of_succ_le_succ enough) third)]
      exact last
    · next noComma =>
      rw [if_neg noComma]
      exact rest

theorem length_lt_writeItems (items : List α) :
    items.length < (writeItems format layout brackets items).length := by
  induction items with
  | nil => simp [writeItems]
  | cons a rest ih =>
    simp only [writeItems, List.length_cons, List.length_append]
    omega

theorem readItems_writeItems (a : α) (items : List α) (rest : List Char) :
    ∀ fuel, items.length < fuel →
      readItems format brackets fuel (format.write layout.deeper a ++
        (writeItems format layout brackets items ++ rest)) = some (a :: items, rest) := by
  induction items generalizing a with
  | nil =>
    intro fuel enough
    obtain ⟨fuel, rfl⟩ := Nat.exists_eq_add_of_le' (Nat.one_le_of_lt enough)
    obtain ⟨notBlank, noDigit, noComma, _⟩ := brackets.closing_spec
    have closes : next (layout.newline ++ brackets.closing :: rest) = some (brackets.closing, rest) := by
      rw [skips_next.gap (gap_newline layout)]
      exact next_cons notBlank rest
    rw [writeItems, List.append_assoc, List.singleton_append, readItems,
      bind_of_reads (format.read_write _ a _ (stops_newline layout noDigit rest)), bind_of_reads closes,
      if_neg noComma, if_pos rfl]
    rfl
  | cons b items ih =>
    intro fuel enough
    obtain ⟨fuel, rfl⟩ := Nat.exists_eq_add_of_le' (Nat.one_le_of_lt enough)
    have others := ih b fuel (Nat.lt_of_succ_lt_succ enough)
    rw [← (skips_readItems format brackets _).gap (gap_newline layout.deeper)] at others
    simp only [writeItems, List.cons_append, List.append_assoc]
    rw [readItems, bind_of_reads (format.read_write _ a _ (stops_cons (by decide) _)),
      bind_of_reads (next_cons (by decide) _), if_pos rfl, bind_of_reads others]
    rfl

theorem readMany_writeMany (items : List α) (rest : List Char) :
    readMany format brackets (writeMany format layout brackets items ++ rest) = some (items, rest) := by
  obtain ⟨notBlank, _⟩ := brackets.opening_spec
  cases items with
  | nil =>
    obtain ⟨closes, _⟩ := brackets.closing_spec
    rw [writeMany, List.cons_append, readMany, bind_of_reads (token_cons notBlank _), List.singleton_append,
      bind_of_reads (peek_cons closes rest), if_pos rfl, bind_of_reads (next_cons closes rest)]
    rfl
  | cons a items =>
    obtain ⟨c, tail, split, plain, notSquare, notCurly⟩ := format.head layout.deeper a
    have sees : peek (layout.deeper.newline ++ (format.write layout.deeper a ++
        (writeItems format layout brackets items ++ rest))) =
        some (c, format.write layout.deeper a ++ (writeItems format layout brackets items ++ rest)) := by
      rw [skips_peek.gap (gap_newline _), split]
      exact peek_cons plain _
    have long := length_lt_writeItems format layout brackets items
    simp only [writeMany, List.cons_append, List.append_assoc]
    rw [readMany, bind_of_reads (token_cons notBlank _), bind_of_reads sees,
      if_neg (brackets.ne_closing notSquare notCurly)]
    refine readItems_writeItems format layout brackets a items rest _ ?_
    simp only [List.length_append]
    omega

theorem steady_readMany : Steady (readMany format brackets) := by
  refine (steady_token _).bind fun _ => steady_peek.bind fun c => Steady.ite ?_ ?_
  · exact steady_next.bind fun _ => steady_pure _
  · intro text items behind more reads
    have longer := steady_readItems format brackets text.length text items behind more reads
    refine readItems_mono format brackets ?_ longer
    rw [List.length_append]
    omega

/-- Any number of items between brackets. -/
def many : Format (List α) where
  write layout := writeMany format layout brackets
  read := readMany format brackets
  head layout items := by
    obtain ⟨plain, notSquare, notCurly, _⟩ := brackets.opening_spec
    cases items with
    | nil => exact ⟨_, _, rfl, plain, notSquare, notCurly⟩
    | cons a items => exact ⟨_, _, rfl, plain, notSquare, notCurly⟩
  clean layout items := by
    obtain ⟨_, _, _, notNul⟩ := brackets.opening_spec
    obtain ⟨_, _, _, notNul'⟩ := brackets.closing_spec
    have others (items : List α) : '\x00' ∉ writeItems format layout brackets items := by
      induction items with
      | nil =>
        simp only [writeItems, List.mem_append, List.mem_singleton, not_or]
        exact ⟨(gap_newline _).clean, notNul'.symm⟩
      | cons a items ih =>
        simp only [writeItems, List.mem_append, List.mem_cons, not_or]
        exact ⟨by decide, (gap_newline _).clean, format.clean _ a, ih⟩
    cases items with
    | nil =>
      simp only [writeMany, List.mem_cons, List.not_mem_nil, or_false, not_or]
      exact ⟨notNul.symm, notNul'.symm⟩
    | cons a items =>
      simp only [writeMany, List.mem_append, List.mem_cons, not_or]
      exact ⟨notNul.symm, (gap_newline _).clean, format.clean _ a, others items⟩
  read_write layout items rest _ := readMany_writeMany format layout brackets items rest
  skips := (skips_token _).bind _
  steady := steady_readMany format brackets

/-! ### Whole texts -/

theorem closed_object : (object format).Closed := readObject_writeObject format

theorem closed_many : (many format brackets).Closed := fun layout =>
  readMany_writeMany format layout brackets

end Bracketed

/-- A record: an object with the members that a value has. -/
def record (members : Format α) (back : α → β) (forth : β → α) (inverse : ∀ b, back (forth b) = b) :
    Format β :=
  (object members).as (fun a => some (back a)) forth fun b => congrArg some (inverse b)

theorem Closed.as {format : Format α} (closed : format.Closed) {back : α → Option β} {forth : β → α}
    (inverse : ∀ b, back (forth b) = some b) : (format.as back forth inverse).Closed := by
  intro layout b rest
  show (format.read >>= _) (format.write layout (forth b) ++ rest) = _
  rw [bind_of_reads (closed layout (forth b) rest), inverse]
  rfl

theorem closed_record {members : Format α} {back : α → β} {forth : β → α}
    (inverse : ∀ b, back (forth b) = b) : (record members back forth inverse).Closed :=
  (closed_object members).as _

end Format

/-- The text of a value. -/
def Format.text (format : Format α) (layout : Layout) (a : α) : String :=
  String.ofList (format.write layout a)

/-- The value of a text, with blanks around it. -/
def Format.parse (format : Format α) (text : String) : Option α :=
  match format.read text.toList with
  | some (a, rest) => if rest.all blank then some a else none
  | none => none

/-- **What is written is read back.** -/
theorem parse_text {format : Format α} (closed : format.Closed) (layout : Layout) (a : α) :
    format.parse (format.text layout a) = some a := by
  have back := closed layout a []
  rw [List.append_nil] at back
  rw [Format.parse, Format.text, String.toList_ofList, back]
  rfl

/-- **A text that is cut short is not read.** -/
theorem parse_cut {format : Format α} (closed : format.Closed) {layout : Layout} {a : α} {s : String}
    {more : List Char} (cut : s.toList ++ more = format.write layout a) (some : more ≠ []) :
    format.parse s = none := by
  rw [Format.parse]
  cases reads : format.read s.toList with
  | none => rfl
  | some outcome =>
    -- the whole text would be read up to the same place
    obtain ⟨b, behind⟩ := outcome
    have whole := closed layout a []
    rw [List.append_nil, ← cut, format.steady _ _ _ more reads] at whole
    obtain ⟨_, empty⟩ := Prod.mk.inj (Option.some.inj whole)
    exact absurd (List.append_eq_nil_iff.mp empty).2 some

end Json
