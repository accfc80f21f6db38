/-
**File names as bytes, and the two ways back to a string.**

The operating system holds a name as bytes; the manifest holds strings. `toStr` is the strict
conversion (`OsStr::to_str`), `fromUtf8Lossy` the lossy one (`to_string_lossy` and
`String::from_utf8_lossy`), which puts one U+FFFD for each maximal invalid part. Both undo the
encoding (`toStr_encodeChars`, `fromUtf8Lossy_encodeChars`).
-/

import Mathlib.Data.List.Basic

namespace SendRs

/-- A sequence of bytes. -/
abbrev Bytes := List UInt8

/-- The UTF-8 encoding of a sequence of characters. -/
def encodeChars (chars : List Char) : Bytes := chars.flatMap String.utf8EncodeChar

/-- The bytes of a string. -/
def utf8 (s : String) : Bytes := s.toByteArray.data.toList

/-- The bytes are the encoding of some string. -/
def IsUtf8 (bytes : Bytes) : Prop := ∃ chars, bytes = encodeChars chars

/-- `OsStr::to_str`: the string of valid UTF-8, nothing else. -/
def toStr (bytes : Bytes) : Option String := String.fromUTF8? bytes.toByteArray

/-- A continuation byte of UTF-8. -/
def isContinuation (b : UInt8) : Bool := 0x80 ≤ b && b ≤ 0xBF

/-- May `second` follow `first` in a sequence of three or four bytes? The ranges leave out overlong
forms, surrogates and values above U+10FFFF. -/
def secondOk (first second : UInt8) : Bool :=
  if first = 0xE0 then 0xA0 ≤ second && second ≤ 0xBF
  else if first = 0xED then 0x80 ≤ second && second ≤ 0x9F
  else if first = 0xF0 then 0x90 ≤ second && second ≤ 0xBF
  else if first = 0xF4 then 0x80 ≤ second && second ≤ 0x8F
  else isContinuation second

/-- The length of the maximal invalid part at the head of bytes that start no valid character: what
one replacement character stands for. -/
def invalidLength : Bytes → Nat
  | first :: second :: rest =>
    if 0xE0 ≤ first && first ≤ 0xEF then
      if secondOk first second then 2 else 1
    else if 0xF0 ≤ first && first ≤ 0xF4 then
      if secondOk first second then
        match rest with
        | third :: _ => if isContinuation third then 3 else 2
        | [] => 2
      else 1
    else 1
  | _ => 1

/-- The characters of the lossy conversion, with fuel for one step a byte. -/
def lossyChars : Nat → Bytes → List Char
  | 0, _ => []
  | _ + 1, [] => []
  | fuel + 1, bytes =>
    match bytes.toByteArray.utf8DecodeChar? 0 with
    | some c => c :: lossyChars fuel (bytes.drop c.utf8Size)
    | none => '\uFFFD' :: lossyChars fuel (bytes.drop (invalidLength bytes))

/-- `to_string_lossy`, `String::from_utf8_lossy`. -/
def fromUtf8Lossy (bytes : Bytes) : String := String.ofList (lossyChars bytes.length bytes)

/-- `.replace('\\', "/")`. -/
def replaceBackslash (s : String) : String :=
  String.ofList (s.toList.map fun c => if c = '\\' then '/' else c)

/-! ### Encoding -/

@[simp] theorem encodeChars_cons (c : Char) (chars : List Char) :
    encodeChars (c :: chars) = String.utf8EncodeChar c ++ encodeChars chars := rfl

@[simp] theorem encodeChars_append (first second : List Char) :
    encodeChars (first ++ second) = encodeChars first ++ encodeChars second := by
  simp [encodeChars]

@[simp] theorem utf8_ofList (chars : List Char) : utf8 (String.ofList chars) = encodeChars chars := by
  rw [utf8, String.toByteArray_ofList]
  exact List.toList_data_toByteArray

theorem utf8_eq (s : String) : utf8 s = encodeChars s.toList := by
  rw [← utf8_ofList, String.ofList_toList]

theorem utf8_append (first second : String) : utf8 (first ++ second) = utf8 first ++ utf8 second := by
  rw [utf8_eq, utf8_eq, utf8_eq, String.toList_append, encodeChars_append]

theorem IsUtf8.append {first second : Bytes} (left : IsUtf8 first) (right : IsUtf8 second) :
    IsUtf8 (first ++ second) := by
  obtain ⟨chars, rfl⟩ := left
  obtain ⟨others, rfl⟩ := right
  exact ⟨chars ++ others, (encodeChars_append _ _).symm⟩

theorem isUtf8_utf8 (s : String) : IsUtf8 (utf8 s) := ⟨_, utf8_eq s⟩

/-- Valid names joined with `/` are valid. -/
theorem IsUtf8.intercalate {names : List Bytes} (valid : ∀ name ∈ names, IsUtf8 name) :
    IsUtf8 ([47].intercalate names) := by
  induction names with
  | nil => exact ⟨[], rfl⟩
  | cons name rest ih =>
    have here := valid name List.mem_cons_self
    have others := ih fun other member => valid other (List.mem_cons_of_mem _ member)
    cases rest with
    | nil => simpa [List.intercalate] using here
    | cons next rest =>
      have slash : IsUtf8 [47] := ⟨['/'], rfl⟩
      rw [List.intercalate_cons_cons]
      exact (here.append slash).append others

/-- A byte that is in no name and is not `/` is not in the joined names. -/
theorem notMem_intercalate {names : List Bytes} {byte : UInt8} (notSlash : byte ≠ 47)
    (free : ∀ name ∈ names, byte ∉ name) : byte ∉ [47].intercalate names := by
  induction names with
  | nil => exact List.not_mem_nil
  | cons name rest ih =>
    have here := free name List.mem_cons_self
    have others := ih fun other member => free other (List.mem_cons_of_mem _ member)
    cases rest with
    | nil => simpa [List.intercalate] using here
    | cons next rest =>
      rw [List.intercalate_cons_cons]
      simp only [List.mem_append, List.mem_singleton, not_or]
      exact ⟨⟨here, notSlash⟩, others⟩

/-! ### Decoding what was encoded -/

theorem toStr_encodeChars (chars : List Char) :
    toStr (encodeChars chars) = some (String.ofList chars) := by
  have valid : (encodeChars chars).toByteArray.IsValidUTF8 := ⟨chars, rfl⟩
  rw [toStr, String.fromUTF8?, dif_pos valid]
  refine congrArg some (String.toByteArray_inj.mp ?_)
  rw [String.toByteArray_ofList]
  rfl

theorem toStr_utf8 (s : String) : toStr (utf8 s) = some s := by
  rw [utf8_eq, toStr_encodeChars, String.ofList_toList]

theorem utf8_injective : Function.Injective utf8 := fun first second same =>
  Option.some.inj ((toStr_utf8 first).symm.trans ((congrArg toStr same).trans (toStr_utf8 second)))

/-- What the strict conversion yields spells the bytes. -/
theorem utf8_of_toStr {bytes : Bytes} {s : String} (strict : toStr bytes = some s) :
    utf8 s = bytes := by
  have valid : bytes.toByteArray.IsValidUTF8 := by
    by_contra invalid
    rw [toStr, String.fromUTF8?, dif_neg invalid] at strict
    cases strict
  obtain ⟨chars, spelled⟩ := valid
  obtain rfl : bytes = encodeChars chars := List.toByteArray_inj.mp spelled
  rw [toStr_encodeChars] at strict
  rw [← Option.some.inj strict, utf8_ofList]

/-- A character is decoded, whatever stands behind it. -/
theorem decode_append (c : Char) (bytes : Bytes) :
    (String.utf8EncodeChar c ++ bytes).toByteArray.utf8DecodeChar? 0 = some c := by
  rw [List.toByteArray_append]
  exact ByteArray.utf8DecodeChar?_utf8EncodeChar_append

/-- What encodes the front of a text is the front of the text. -/
theorem prefix_of_encodeChars {chars others : List Char} {bytes : Bytes}
    (front : encodeChars chars ++ bytes = encodeChars others) : chars <+: others := by
  induction chars generalizing others with
  | nil => exact List.nil_prefix
  | cons c chars ih =>
    rw [encodeChars_cons, List.append_assoc] at front
    have here := decode_append c (encodeChars chars ++ bytes)
    cases others with
    | nil =>
      rw [front] at here
      cases here
    | cons d others =>
      rw [front, encodeChars_cons, decode_append] at here
      obtain rfl := Option.some.inj here
      exact List.cons_prefix_cons.mpr ⟨rfl, ih (List.append_cancel_left front)⟩

/-- With a step of fuel for each byte, the lossy conversion reads an encoding back. -/
theorem lossyChars_encodeChars (chars : List Char) :
    ∀ fuel, (encodeChars chars).length ≤ fuel → lossyChars fuel (encodeChars chars) = chars := by
  induction chars with
  | nil => intro fuel _; cases fuel <;> rfl
  | cons c chars ih =>
    intro fuel enough
    have size : (String.utf8EncodeChar c).length = c.utf8Size := String.length_utf8EncodeChar c
    have positive := c.utf8Size_pos
    rw [encodeChars_cons, List.length_append, size] at enough
    obtain ⟨fuel, rfl⟩ : ∃ less, fuel = less + 1 := ⟨fuel - 1, by omega⟩
    obtain ⟨b, bytes, split⟩ : ∃ b bytes, encodeChars (c :: chars) = b :: bytes :=
      List.exists_cons_of_ne_nil (by simp)
    have decoded : (b :: bytes).toByteArray.utf8DecodeChar? 0 = some c := by
      rw [← split, encodeChars_cons]
      exact decode_append c _
    have rest : (b :: bytes).drop c.utf8Size = encodeChars chars := by
      rw [← split, encodeChars_cons, ← size, List.drop_left]
    rw [split, lossyChars]
    · simp only [decoded, rest]
      rw [ih fuel (by omega)]
    · simp

theorem fromUtf8Lossy_encodeChars (chars : List Char) :
    fromUtf8Lossy (encodeChars chars) = String.ofList chars := by
  rw [fromUtf8Lossy, lossyChars_encodeChars chars _ (Nat.le_refl _)]

/-- A string without backslashes is left alone. -/
theorem replaceBackslash_of_notMem {chars : List Char} (free : '\\' ∉ chars) :
    replaceBackslash (String.ofList chars) = String.ofList chars := by
  unfold replaceBackslash
  rw [String.toList_ofList]
  refine congrArg String.ofList ((List.map_congr_left fun c member => ?_).trans (List.map_id _))
  exact if_neg fun same : c = '\\' => free (same ▸ member)

theorem mem_encodeChars_backslash {chars : List Char} (member : '\\' ∈ chars) :
    92 ∈ encodeChars chars :=
  List.mem_flatMap.mpr ⟨'\\', member, by decide⟩

/-- **The stored name of a valid path without backslashes has the bytes of the path.** -/
theorem utf8_stored {bytes : Bytes} (valid : IsUtf8 bytes) (free : 92 ∉ bytes) :
    utf8 (replaceBackslash (fromUtf8Lossy bytes)) = bytes := by
  obtain ⟨chars, rfl⟩ := valid
  rw [fromUtf8Lossy_encodeChars,
    replaceBackslash_of_notMem fun member => free (mem_encodeChars_backslash member), utf8_ofList]

/-! ### Cutting at slashes -/

/-- A byte below 0x80 stands for itself only. -/
theorem utf8EncodeChar_of_ascii {c : Char} {byte : UInt8} (ascii : byte < 128)
    (member : byte ∈ String.utf8EncodeChar c) : c = Char.ofNat byte.toNat := by
  have below : byte.toNat < 128 := ascii
  unfold String.utf8EncodeChar at member
  dsimp only at member
  split at member
  · next small =>
    have same : byte = UInt8.ofNat c.val.toNat := List.mem_singleton.mp member
    rw [same, UInt8.toNat_ofNat_of_lt' (by show _ < 256; omega)]
    exact (Char.ofNat_toNat c).symm
  · exfalso
    have high (low offset : Nat) (bound : 128 ≤ offset) (fits : low + offset < 256) :
        byte ≠ UInt8.ofNat (low + offset) := by
      rintro rfl
      rw [UInt8.toNat_ofNat_of_lt' (by show _ < 256; omega)] at below
      omega
    split at member
    · simp only [List.mem_cons, List.not_mem_nil, or_false] at member
      rcases member with same | same
      · exact high _ _ (by omega) (by omega) same
      · exact high _ _ (by omega) (by omega) same
    · split at member
      · simp only [List.mem_cons, List.not_mem_nil, or_false] at member
        rcases member with same | same | same
        all_goals exact high _ _ (by omega) (by omega) same
      · simp only [List.mem_cons, List.not_mem_nil, or_false] at member
        rcases member with same | same | same | same
        all_goals exact high _ _ (by omega) (by omega) same

theorem mem_of_mem_encodeChars {chars : List Char} {byte : UInt8} (ascii : byte < 128)
    (member : byte ∈ encodeChars chars) : Char.ofNat byte.toNat ∈ chars := by
  obtain ⟨c, inside, here⟩ := List.mem_flatMap.mp member
  rw [← utf8EncodeChar_of_ascii ascii here]
  exact inside

theorem mem_of_mem_utf8 {s : String} {byte : UInt8} (ascii : byte < 128) (member : byte ∈ utf8 s) :
    Char.ofNat byte.toNat ∈ s.toList :=
  mem_of_mem_encodeChars ascii (utf8_eq s ▸ member)

theorem splitOn_append_of_notMem {α : Type} [DecidableEq α] {a : α} {front : List α}
    (free : a ∉ front) (rest : List α) :
    (front ++ rest).splitOn a = (rest.splitOn a).modifyHead (front ++ ·) := by
  induction front with
  | nil =>
    rw [List.nil_append]
    cases rest.splitOn a <;> rfl
  | cons x front ih =>
    have notHere : x ≠ a := fun same => free (same ▸ List.mem_cons_self)
    rw [List.cons_append, List.splitOn_cons_eq_if_modifyHead,
      if_neg (by simpa using notHere), ih fun member => free (List.mem_cons_of_mem _ member)]
    cases rest.splitOn a <;> rfl

/-- The pieces have no bytes but those of the whole. -/
theorem mem_of_mem_splitOn {α : Type} [DecidableEq α] {a x : α} {l piece : List α}
    (member : piece ∈ l.splitOn a) (inside : x ∈ piece) : x ∈ l := by
  have whole : [a].intercalate (l.splitOn a) = l := List.intercalate_splitOn a
  rw [← whole]
  generalize l.splitOn a = pieces at member
  induction pieces with
  | nil => cases member
  | cons first rest ih =>
    rcases List.mem_cons.mp member with rfl | later
    · cases rest with
      | nil => simpa [List.intercalate] using inside
      | cons next rest =>
        rw [List.intercalate_cons_cons]
        simp [inside]
    · cases rest with
      | nil => cases later
      | cons next rest =>
        rw [List.intercalate_cons_cons]
        exact List.mem_append_right _ (ih later)

/-- Cutting valid UTF-8 at slashes leaves valid UTF-8. -/
theorem IsUtf8.of_mem_splitOn {bytes : Bytes} (valid : IsUtf8 bytes) :
    ∀ piece ∈ bytes.splitOn 47, IsUtf8 piece := by
  obtain ⟨chars, rfl⟩ := valid
  induction chars with
  | nil =>
    intro piece member
    rw [List.mem_singleton.mp member]
    exact ⟨[], rfl⟩
  | cons c chars ih =>
    intro piece member
    rw [encodeChars_cons] at member
    by_cases slash : c = '/'
    · subst slash
      have bytes : String.utf8EncodeChar '/' = [47] := by decide
      rw [bytes, List.singleton_append, List.splitOn_cons_eq_if_modifyHead, if_pos (by rfl)] at member
      rcases List.mem_cons.mp member with rfl | later
      · exact ⟨[], rfl⟩
      · exact ih piece later
    · have free : 47 ∉ String.utf8EncodeChar c := fun inside =>
        slash (utf8EncodeChar_of_ascii (by decide) inside)
      rw [splitOn_append_of_notMem free] at member
      cases pieces : (encodeChars chars).splitOn 47 with
      | nil =>
        rw [pieces] at member
        cases member
      | cons first rest =>
        rw [pieces] at member ih
        rcases List.mem_cons.mp member with rfl | later
        · have head : IsUtf8 (String.utf8EncodeChar c) := ⟨[c], by simp [encodeChars]⟩
          exact head.append (ih first List.mem_cons_self)
        · exact ih piece (List.mem_cons_of_mem _ later)

end SendRs
