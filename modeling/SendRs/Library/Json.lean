/-
**Flat JSON objects.**

Objects whose values are strings, booleans or null, written without blanks and with the shortest
escapes. `read` reads exactly what `write` writes (`read_write`); it is no reader of all JSON.
-/

import Mathlib.Tactic.Conv
import Mathlib.Tactic.SplitIfs

namespace Json

/-! ### Strings -/

/-- A character of a string, escaped where it has to be. -/
def escape (c : Char) : List Char :=
  if c = '"' then ['\\', '"']
  else if c = '\\' then ['\\', '\\']
  else if c = '\x08' then ['\\', 'b']
  else if c = '\t' then ['\\', 't']
  else if c = '\n' then ['\\', 'n']
  else if c = '\x0c' then ['\\', 'f']
  else if c = '\r' then ['\\', 'r']
  else if c.toNat < 32 then
    ['\\', 'u', '0', '0', Nat.digitChar (c.toNat / 16), Nat.digitChar (c.toNat % 16)]
  else [c]

/-- A JSON string. -/
def quote (s : String) : List Char := '"' :: (s.toList.flatMap escape ++ ['"'])

/-- Control characters are escaped, so that no NUL is left. -/
theorem notMem_escape (c : Char) : '\x00' ∉ escape c := by
  unfold escape
  split_ifs with quote slash backspace tab newline feed ret control
  · decide
  · decide
  · decide
  · decide
  · decide
  · decide
  · decide
  · have digits : ∀ n < 32, '\x00' ∉ ['\\', 'u', '0', '0', Nat.digitChar (n / 16),
        Nat.digitChar (n % 16)] := by decide
    exact digits _ control
  · intro member
    rw [← List.mem_singleton.mp member] at control
    exact control (by decide)

theorem notMem_quote (s : String) : '\x00' ∉ quote s := by
  intro member
  rcases List.mem_cons.mp member with isQuote | member
  · exact absurd isQuote (by decide)
  · rcases List.mem_append.mp member with isChar | isQuote
    · obtain ⟨c, _, escaped⟩ := List.mem_flatMap.mp isChar
      exact notMem_escape c escaped
    · exact absurd (List.mem_singleton.mp isQuote) (by decide)

/-- The value of a digit of an escape. -/
def digit (c : Char) : Nat := if c.toNat < 58 then c.toNat - 48 else c.toNat - 87

/-- The character that is meant by another one behind a backslash. -/
def meant : Char → Char
  | 'b' => '\x08'
  | 't' => '\t'
  | 'n' => '\n'
  | 'f' => '\x0c'
  | 'r' => '\r'
  | other => other

/-- The rest of a JSON string after its opening quote, and what follows it. -/
def unescape : List Char → Option (List Char × List Char)
  | '"' :: rest => some ([], rest)
  | '\\' :: 'u' :: '0' :: '0' :: high :: low :: rest =>
    (unescape rest).map fun (chars, rest) =>
      (Char.ofNat (16 * digit high + digit low) :: chars, rest)
  | '\\' :: 'u' :: _ => none
  | '\\' :: c :: rest =>
    (unescape rest).map fun (chars, rest) => (meant c :: chars, rest)
  | c :: rest => (unescape rest).map fun (chars, rest) => (c :: chars, rest)
  | [] => none

/-- Reading an escaped character. -/
theorem unescape_escape (c : Char) (tail : List Char) :
    unescape (escape c ++ tail) = (unescape tail).map fun (chars, rest) => (c :: chars, rest) := by
  unfold escape
  split_ifs with quote slash backspace tab newline feed ret control
  · subst quote; rfl
  · subst slash; rfl
  · subst backspace; rfl
  · subst tab; rfl
  · subst newline; rfl
  · subst feed; rfl
  · subst ret; rfl
  · have small : ∀ n < 32, 16 * digit (Nat.digitChar (n / 16)) + digit (Nat.digitChar (n % 16)) = n := by
      decide
    rw [show ['\\', 'u', '0', '0', Nat.digitChar (c.toNat / 16), Nat.digitChar (c.toNat % 16)] ++ tail =
      '\\' :: 'u' :: '0' :: '0' :: Nat.digitChar (c.toNat / 16) :: Nat.digitChar (c.toNat % 16) :: tail
      from rfl, unescape, small _ control, Char.ofNat_toNat]
  · rw [List.singleton_append]
    conv_lhs => unfold unescape
    split <;> simp_all

theorem unescape_quote (chars rest : List Char) :
    unescape (chars.flatMap escape ++ '"' :: rest) = some (chars, rest) := by
  induction chars with
  | nil => rfl
  | cons c chars ih => rw [List.flatMap_cons, List.append_assoc, unescape_escape, ih, Option.map_some]

/-! ### Objects -/

/-- The values of flat objects. -/
inductive Value where
  | string (s : String)
  | bool (b : Bool)
  | null

/-- A value. -/
def writeValue : Value → List Char
  | .string s => quote s
  | .bool true => ['t', 'r', 'u', 'e']
  | .bool false => ['f', 'a', 'l', 's', 'e']
  | .null => ['n', 'u', 'l', 'l']

def readValue : List Char → Option (Value × List Char)
  | '"' :: rest => (unescape rest).map fun (chars, rest) => (.string (String.ofList chars), rest)
  | 't' :: 'r' :: 'u' :: 'e' :: rest => some (.bool true, rest)
  | 'f' :: 'a' :: 'l' :: 's' :: 'e' :: rest => some (.bool false, rest)
  | 'n' :: 'u' :: 'l' :: 'l' :: rest => some (.null, rest)
  | _ => none

theorem readValue_writeValue (value : Value) (rest : List Char) :
    readValue (writeValue value ++ rest) = some (value, rest) := by
  cases value with
  | string s => simp [writeValue, quote, readValue, unescape_quote]
  | bool b => cases b <;> rfl
  | null => rfl

/-- A member of an object, after a comma. -/
def writeMember (member : String × Value) : List Char :=
  ',' :: (quote member.1 ++ ':' :: writeValue member.2)

/-- An object. -/
def write (members : List (String × Value)) : String :=
  String.ofList ('\x7b' :: ((members.flatMap writeMember).tail ++ ['\x7d']))

/-- The members of an object, each after a comma, up to the end. -/
def readMembers : Nat → List Char → Option (List (String × Value))
  | _, ['\x7d'] => some []
  | fuel + 1, ',' :: '"' :: rest =>
    match unescape rest with
    | some (name, ':' :: rest) =>
      match readValue rest with
      | some (value, rest) =>
        (readMembers fuel rest).map fun members => (String.ofList name, value) :: members
      | none => none
    | _ => none
  | _, _ => none

def read (text : String) : Option (List (String × Value)) :=
  match text.toList with
  | '\x7b' :: rest => readMembers rest.length (',' :: rest)
  | _ => none

theorem readMembers_write (members : List (String × Value)) : ∀ fuel, members.length ≤ fuel →
    readMembers fuel (members.flatMap writeMember ++ ['\x7d']) = some members := by
  induction members with
  | nil =>
    intro fuel _
    cases fuel <;> rfl
  | cons member members ih =>
    intro fuel enough
    obtain ⟨fuel, rfl⟩ : ∃ n, fuel = n + 1 := Nat.exists_eq_add_of_le' (by simp at enough; omega)
    have name := unescape_quote member.1.toList
      (':' :: writeValue member.2 ++ (members.flatMap writeMember ++ ['\x7d']))
    have value := readValue_writeValue member.2 (members.flatMap writeMember ++ ['\x7d'])
    simp only [List.cons_append] at name value
    simp [writeMember, quote, readMembers, name, value, ih fuel (by simpa using enough)]

theorem length_le_write (members : List (String × Value)) :
    members.length ≤ (members.flatMap writeMember).length := by
  induction members with
  | nil => simp
  | cons member members ih =>
    simp only [List.flatMap_cons, List.length_append, List.length_cons, writeMember]
    omega

/-- **What is written is read back.** -/
theorem read_write (member : String × Value) (members : List (String × Value)) :
    read (write (member :: members)) = some (member :: members) := by
  obtain ⟨text, written⟩ : ∃ text, (member :: members).flatMap writeMember = ',' :: text := by
    simp [writeMember]
  have enough := length_le_write (member :: members)
  have back := readMembers_write (member :: members) (text ++ ['\x7d']).length
    (by rw [written] at enough; simp at enough ⊢; omega)
  rw [written] at back
  rw [read, write, String.toList_ofList, written]
  exact back

end Json
