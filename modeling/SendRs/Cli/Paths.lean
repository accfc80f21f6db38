/-
**The codes, and the files that belong to a code.**

`generate_code` makes a code of the first eight digits of a fresh identifier; `normalize_code` makes
one of what a user has typed. The offer, the manifest and the session directory of a code are named
after it, in three directories of the data directory.

* `normalizeCode_typed`: what is typed in any case, with white space around it, is the code;
* `offerPath_eq`, `sessionFile_eq`: where the files of a code are, below the home directory;
* `generatedCodes_apart`: two generated codes, and with them all their files, are the same exactly when
  the identifiers begin with the same eight digits (`codeOf_eq_iff`), and otherwise have no file in
  common.
-/

import Mathlib.Algebra.Ring.Nat
import Mathlib.Data.List.DropRight
import SendRs.Os.FileSystem

namespace SendRs.Cli

/-! ### Codes -/

/-- What the standard library knows of upper case. The table is that of Unicode; on ASCII it is
`to_ascii_uppercase`. -/
structure CaseTable where
  upper : Char → List Char
  ascii : ∀ c : Char, c.toNat < 128 → upper c = [c.toUpper]

/-- `char::is_whitespace`. -/
def isWhitespace (c : Char) : Bool :=
  let n := c.toNat
  (9 ≤ n && n ≤ 13) || n = 32 || n = 0x85 || n = 0xA0 || n = 0x1680 || (0x2000 ≤ n && n ≤ 0x200A) ||
    n = 0x2028 || n = 0x2029 || n = 0x202F || n = 0x205F || n = 0x3000

/-- `str::trim`. -/
def trim (chars : List Char) : List Char := (chars.dropWhile isWhitespace).rdropWhile isWhitespace

/-- `str::to_uppercase`. -/
def CaseTable.toUppercase (table : CaseTable) (chars : List Char) : List Char :=
  chars.flatMap table.upper

/-- `normalize_code`. -/
def normalizeCode (table : CaseTable) (raw : String) : String :=
  String.ofList (table.toUppercase (trim raw.toList))

/-- `Uuid::simple`: 32 digits. -/
def simple (uuid : BitVec 128) : List Char :=
  (List.range 32).map fun k => Nat.digitChar (uuid.toNat / 16 ^ (31 - k) % 16)

/-- `generate_code`, with the identifier that it draws. -/
def generateCode (table : CaseTable) (uuid : BitVec 128) : String :=
  let id := table.toUppercase (simple uuid)
  String.ofList (id.take 4 ++ '-' :: (id.drop 4).take 4)

/-- The characters of codes. -/
def isCodeChar (c : Char) : Bool :=
  ('A' ≤ c && c ≤ 'Z') || ('0' ≤ c && c ≤ '9') || c = '-'

/-- A text that may be a code: capital letters, digits and dashes. -/
structure Code where
  text : String
  nonempty : text.toList ≠ []
  plain : ∀ c ∈ text.toList, isCodeChar c = true
deriving DecidableEq

/-! ### Paths -/

section Paths

variable (table : CaseTable) (home : Path) (code : String)

/-- `data_root`; `home` is the home directory, or `.` where there is none. -/
def dataRoot : Path := home.join (.ofString ".sendrs")

/-- `manifests_root`. -/
def manifestsRoot : Path := (dataRoot home).join (.ofString "manifests")

/-- `offers_root`. -/
def offersRoot : Path := (dataRoot home).join (.ofString "offers")

/-- `sessions_root`. -/
def sessionsRoot : Path := (dataRoot home).join (.ofString "sessions")

/-- `history_path`. -/
def historyPath : Path := (dataRoot home).join (.ofString "history.json")

/-- `session_root`. -/
def sessionRoot : Path := (sessionsRoot home).join (.ofString (normalizeCode table code))

/-- `offer_path`. -/
def offerPath : Path := (offersRoot home).join (.ofString (normalizeCode table code ++ ".json"))

/-- `manifest_path_by_code`. -/
def manifestPathByCode : Path :=
  (manifestsRoot home).join (.ofString (normalizeCode table code ++ ".json"))

/-- `receiver_claim_path`. -/
def receiverClaimPath : Path := (sessionRoot table home code).join (.ofString "receiver.json")

/-- `sender_yes_path`. -/
def senderYesPath : Path := (sessionRoot table home code).join (.ofString "sender_yes")

/-- `receiver_yes_path`. -/
def receiverYesPath : Path := (sessionRoot table home code).join (.ofString "receiver_yes")

/-- `state_path`. -/
def statePath : Path := (sessionRoot table home code).join (.ofString "state.json")

end Paths

/-! ### What a code looks like -/

theorem toUppercase_ascii (table : CaseTable) {chars : List Char} (ascii : ∀ c ∈ chars, c.toNat < 128) :
    table.toUppercase chars = chars.map Char.toUpper := by
  induction chars with
  | nil => rfl
  | cons c chars ih =>
    have here := table.ascii c (ascii c List.mem_cons_self)
    have others := ih fun d member => ascii d (List.mem_cons_of_mem _ member)
    unfold CaseTable.toUppercase at others ⊢
    rw [List.flatMap_cons, here, others, List.map_cons, List.singleton_append]

/-- A character of a code is an ASCII character, is no white space and is in upper case. -/
theorem codeChar_plain {c : Char} (isCode : isCodeChar c = true) :
    c.toNat < 128 ∧ isWhitespace c = false ∧ c.toUpper = c ∧ c ≠ '/' ∧ c ≠ '\x00' ∧ c ≠ '.' := by
  have small : c.toNat < 128 := by
    simp only [isCodeChar, Bool.or_eq_true, Bool.and_eq_true, decide_eq_true_eq] at isCode
    rcases isCode with (⟨_, upper⟩ | ⟨_, upper⟩) | rfl
    · exact Nat.lt_of_le_of_lt (UInt32.le_iff_toNat_le.mp upper) (by decide)
    · exact Nat.lt_of_le_of_lt (UInt32.le_iff_toNat_le.mp upper) (by decide)
    · decide
  have all : ∀ n < 128, isCodeChar (Char.ofNat n) = true →
      isWhitespace (Char.ofNat n) = false ∧ (Char.ofNat n).toUpper = Char.ofNat n ∧
        Char.ofNat n ≠ '/' ∧ Char.ofNat n ≠ '\x00' ∧ Char.ofNat n ≠ '.' := by decide
  have facts := all c.toNat small
  rw [Char.ofNat_toNat] at facts
  exact ⟨small, facts isCode⟩

/-- Where nothing is white space, there is nothing to trim. -/
theorem trim_of_none {chars : List Char} (none : ∀ c ∈ chars, isWhitespace c = false) :
    trim chars = chars := by
  unfold trim
  cases chars with
  | nil => rfl
  | cons c chars =>
    rw [List.dropWhile_cons, if_neg (by simp [none c List.mem_cons_self]), List.rdropWhile_eq_self_iff]
    intro nonempty
    rw [none _ (List.getLast_mem nonempty)]
    exact Bool.false_ne_true

/-- What is typed is the code it spells in upper case, without the white space around it. -/
theorem normalizeCode_ascii (table : CaseTable) {raw : String}
    (ascii : ∀ c ∈ trim raw.toList, c.toNat < 128) :
    normalizeCode table raw = String.ofList ((trim raw.toList).map Char.toUpper) := by
  unfold normalizeCode
  rw [toUppercase_ascii table ascii]

/-- **A code that was typed**, in any case and with white space around it. -/
theorem normalizeCode_typed (table : CaseTable) (code : Code) {raw : String}
    (ascii : ∀ c ∈ trim raw.toList, c.toNat < 128) :
    normalizeCode table raw = code.text ↔ (trim raw.toList).map Char.toUpper = code.text.toList := by
  rw [normalizeCode_ascii table ascii]
  constructor
  · intro same
    rw [← same, String.toList_ofList]
  · intro same
    rw [same, String.ofList_toList]

/-- A code is left as it is. -/
theorem normalizeCode_code (table : CaseTable) (code : Code) :
    normalizeCode table code.text = code.text := by
  have plain (c : Char) (member : c ∈ code.text.toList) := codeChar_plain (code.plain c member)
  have trimmed : trim code.text.toList = code.text.toList :=
    trim_of_none fun c member => (plain c member).2.1
  have ascii : ∀ c ∈ trim code.text.toList, c.toNat < 128 := by
    rw [trimmed]
    exact fun c member => (plain c member).1
  refine (normalizeCode_typed table code ascii).mpr ?_
  rw [trimmed]
  exact (List.map_congr_left fun c member => (plain c member).2.2.1).trans (List.map_id _)

/-! ### Codes that are generated -/

/-- The digits of an identifier in upper case. -/
theorem upperDigit_code : ∀ n < 16, isCodeChar (Nat.digitChar n).toUpper = true := by decide

theorem upperDigit_inj : ∀ m < 16, ∀ n < 16,
    (Nat.digitChar m).toUpper = (Nat.digitChar n).toUpper → m = n := by decide

theorem digit_ascii : ∀ n < 16, (Nat.digitChar n).toNat < 128 := by decide

/-- The first eight digits of an identifier, as a number. -/
def firstDigits (uuid : BitVec 128) : Nat := uuid.toNat / 16 ^ 24

/-- The digits of a code, in upper case. -/
def codeDigits (uuid : BitVec 128) : List Char :=
  (List.range 8).map fun k => (Nat.digitChar (firstDigits uuid / 16 ^ (7 - k) % 16)).toUpper

theorem generateCode_eq (table : CaseTable) (uuid : BitVec 128) :
    generateCode table uuid =
      String.ofList ((codeDigits uuid).take 4 ++ '-' :: (codeDigits uuid).drop 4) := by
  have ascii : ∀ c ∈ simple uuid, c.toNat < 128 := by
    intro c member
    obtain ⟨k, _, rfl⟩ := List.mem_map.mp member
    exact digit_ascii _ (Nat.mod_lt _ (by decide))
  have first : (table.toUppercase (simple uuid)).take 8 = codeDigits uuid := by
    rw [toUppercase_ascii table ascii, simple, List.map_map, ← List.map_take, codeDigits]
    refine List.map_congr_left fun k member => ?_
    have inside : k < 8 := List.mem_range.mp member
    have shift : 16 ^ (31 - k) = 16 ^ 24 * 16 ^ (7 - k) := by
      rw [← Nat.pow_add]
      congr 1
      omega
    rw [Function.comp_apply, firstDigits, Nat.div_div_eq_div_mul, shift]
  unfold generateCode
  dsimp only
  rw [← first, List.take_take, List.drop_take]
  rfl

/-- The code of an identifier. -/
def codeOf (uuid : BitVec 128) : Code where
  text := String.ofList ((codeDigits uuid).take 4 ++ '-' :: (codeDigits uuid).drop 4)
  nonempty := by simp
  plain := by
    rw [String.toList_ofList]
    have digits : ∀ c ∈ codeDigits uuid, isCodeChar c = true := by
      intro c member
      obtain ⟨k, _, rfl⟩ := List.mem_map.mp member
      exact upperDigit_code _ (Nat.mod_lt _ (by decide))
    intro c member
    rcases List.mem_append.mp member with front | back
    · exact digits c (List.mem_of_mem_take front)
    · rcases List.mem_cons.mp back with rfl | back
      · decide
      · exact digits c (List.mem_of_mem_drop back)

/-- Numbers with the same hexadecimal places are the same. -/
theorem eq_of_places (width : Nat) : ∀ {n m : Nat}, n < 16 ^ width → m < 16 ^ width →
    (∀ k < width, n / 16 ^ k % 16 = m / 16 ^ k % 16) → n = m := by
  induction width with
  | zero =>
    intro n m small small' _
    omega
  | succ width ih =>
    intro n m small small' same
    have last := same 0 width.succ_pos
    have others : n / 16 = m / 16 := by
      rw [Nat.pow_succ] at small small'
      refine ih (Nat.div_lt_of_lt_mul (by omega)) (Nat.div_lt_of_lt_mul (by omega)) fun k inside => ?_
      have place := same (k + 1) (Nat.succ_lt_succ inside)
      rwa [Nat.pow_succ', ← Nat.div_div_eq_div_mul, ← Nat.div_div_eq_div_mul] at place
    rw [Nat.pow_zero, Nat.div_one, Nat.div_one] at last
    omega

/-- **Two codes are the same exactly when the identifiers begin with the same digits.** -/
theorem codeOf_eq_iff (first second : BitVec 128) :
    codeOf first = codeOf second ↔ firstDigits first = firstDigits second := by
  have bound (uuid : BitVec 128) : firstDigits uuid < 16 ^ 8 := by
    have := uuid.isLt
    unfold firstDigits
    omega
  constructor
  · intro same
    have texts : (codeDigits first).take 4 ++ '-' :: (codeDigits first).drop 4 =
        (codeDigits second).take 4 ++ '-' :: (codeDigits second).drop 4 :=
      String.ofList_inj.mp (congrArg Code.text same)
    obtain ⟨front, back⟩ := List.append_inj texts (by simp [codeDigits])
    have digits : codeDigits first = codeDigits second := by
      rw [← List.take_append_drop 4 (codeDigits first), ← List.take_append_drop 4 (codeDigits second),
        front, (List.cons.inj back).2]
    have each (k : Nat) (inside : k < 8) :
        firstDigits first / 16 ^ (7 - k) % 16 = firstDigits second / 16 ^ (7 - k) % 16 :=
      upperDigit_inj _ (Nat.mod_lt _ (by decide)) _ (Nat.mod_lt _ (by decide))
        (List.map_inj_left.mp digits k (List.mem_range.mpr inside))
    refine eq_of_places 8 (bound first) (bound second) fun k inside => ?_
    have place := each (7 - k) (by omega)
    rwa [Nat.sub_sub_self (Nat.le_of_lt_succ inside)] at place
  · intro same
    simp only [codeOf, codeDigits, same]

/-! ### Where the files are -/

/-- The path that goes on with some names. -/
def down (base : Path) (names : List Name) : Path :=
  ⟨base.absolute, base.pieces ++ names.map Name.bytes⟩

theorem down_inj {base : Path} {first second : List Name} :
    down base first = down base second ↔ first = second := by
  have injective : Function.Injective Name.bytes := by
    rintro ⟨bytes, _⟩ ⟨bytes', _⟩ same
    obtain rfl : bytes = bytes' := same
    rfl
  simp [down, injective.list_map.eq_iff]

/-- Joining one more name. -/
theorem join_name {base : Path} {s : String} (name : Name) (spells : utf8 s = name.bytes) :
    base.join (.ofString s) = down base [name] := by
  have relative : Path.ofString s = ⟨false, [name.bytes]⟩ := by
    refine Path.ofString_names (List.cons_ne_nil name []) ?_
    simp [List.intercalate, spells]
  rw [relative]
  rfl

theorem down_down (base : Path) (first second : List Name) :
    down (down base first) second = down base (first ++ second) := by
  simp [down]

theorem lexical_down {cwd loc : Loc} {base : Path} (here : base.lexical cwd = some loc)
    (names : List Name) : (down base names).lexical cwd = some (loc ++ names) := by
  show (base.pieces ++ names.map Name.bytes).foldlM Loc.step (base.start cwd) = _
  unfold Path.lexical at here
  rw [List.foldlM_append, here]
  exact foldlM_step_names names loc

/-- A path leads down to what is in a directory that it leads to. -/
theorem resolve_down {fs : FileSystem} {cwd loc : Loc} {base : Path}
    (here : fs.resolve cwd base = some loc) {names : List Name} {last : Name}
    (isDir : fs.IsDir (loc ++ names)) :
    fs.resolve cwd (down base (names ++ [last])) = some (loc ++ (names ++ [last])) := by
  show fs.walk (base.start cwd) (base.pieces ++ (names ++ [last]).map Name.bytes) = _
  unfold FileSystem.resolve at here
  rw [FileSystem.walk_append, here]
  refine FileSystem.walk_names _ fun front final split => ?_
  obtain ⟨rfl, _⟩ := List.append_inj' split rfl
  exact isDir

/-- Where a path leads that goes on with names. -/
theorem loc_of_resolve_down {fs : FileSystem} {cwd loc target : Loc} {base : Path}
    (here : base.lexical cwd = some loc) {names : List Name}
    (leads : fs.resolve cwd (down base names) = some target) : target = loc ++ names := by
  have denoted := FileSystem.lexical_of_resolve leads
  rw [lexical_down here] at denoted
  exact (Option.some.inj denoted).symm

/-- The name that the bytes of a text spell. -/
def nameOf (s : String) (proper : Name.Proper (utf8 s)) : Name := ⟨utf8 s, proper⟩

def sendrsName : Name := nameOf ".sendrs" (by decide)
def manifestsName : Name := nameOf "manifests" (by decide)
def offersName : Name := nameOf "offers" (by decide)
def sessionsName : Name := nameOf "sessions" (by decide)
def historyName : Name := nameOf "history.json" (by decide)
def claimName : Name := nameOf "receiver.json" (by decide)
def senderYesName : Name := nameOf "sender_yes" (by decide)
def receiverYesName : Name := nameOf "receiver_yes" (by decide)
def stateName : Name := nameOf "state.json" (by decide)

/-- The bytes of a code are no slashes, no dots and no zeros. -/
theorem Code.notMem_utf8 (code : Code) : 47 ∉ utf8 code.text ∧ 46 ∉ utf8 code.text ∧ 0 ∉ utf8 code.text := by
  refine ⟨fun member => ?_, fun member => ?_, fun member => ?_⟩
  · have plain := codeChar_plain (code.plain _ (mem_of_mem_utf8 (by decide) member))
    exact plain.2.2.2.1 rfl
  · have plain := codeChar_plain (code.plain _ (mem_of_mem_utf8 (by decide) member))
    exact plain.2.2.2.2.2 rfl
  · have plain := codeChar_plain (code.plain _ (mem_of_mem_utf8 (by decide) member))
    exact plain.2.2.2.2.1 rfl

theorem Code.utf8_ne_nil (code : Code) : utf8 code.text ≠ [] := by
  obtain ⟨c, chars, isText⟩ := List.exists_cons_of_ne_nil code.nonempty
  rw [utf8_eq, isText, encodeChars_cons]
  simp

/-- The session directory of a code. -/
def Code.dirName (code : Code) : Name where
  bytes := utf8 code.text
  proper := by
    obtain ⟨noSlash, noDot, noZero⟩ := code.notMem_utf8
    refine ⟨code.utf8_ne_nil, fun dot => noDot ?_, fun dots => noDot ?_, noSlash, noZero⟩
    · rw [dot]
      exact List.mem_singleton_self _
    · rw [dots]
      exact List.mem_cons_self

/-- The offer and the manifest of a code. -/
def Code.fileName (code : Code) : Name where
  bytes := utf8 code.text ++ utf8 ".json"
  proper := by
    obtain ⟨noSlash, _, noZero⟩ := code.notMem_utf8
    have length : 5 ≤ (utf8 code.text ++ utf8 ".json").length := by
      rw [List.length_append]
      exact Nat.le_add_left 5 _
    refine ⟨fun empty => ?_, fun dot => ?_, fun dots => ?_, fun slash => ?_, fun zero => ?_⟩
    · rw [empty] at length
      exact absurd length (by decide)
    · rw [dot] at length
      exact absurd length (by decide)
    · rw [dots] at length
      exact absurd length (by decide)
    · rcases List.mem_append.mp slash with front | back
      · exact noSlash front
      · exact absurd back (by decide)
    · rcases List.mem_append.mp zero with front | back
      · exact noZero front
      · exact absurd back (by decide)

section Locations

variable (table : CaseTable) (home : Path)

theorem dataRoot_eq : dataRoot home = down home [sendrsName] := join_name sendrsName rfl

theorem manifestsRoot_eq : manifestsRoot home = down home [sendrsName, manifestsName] := by
  rw [manifestsRoot, dataRoot_eq, join_name manifestsName rfl, down_down, List.singleton_append]

theorem offersRoot_eq : offersRoot home = down home [sendrsName, offersName] := by
  rw [offersRoot, dataRoot_eq, join_name offersName rfl, down_down, List.singleton_append]

theorem sessionsRoot_eq : sessionsRoot home = down home [sendrsName, sessionsName] := by
  rw [sessionsRoot, dataRoot_eq, join_name sessionsName rfl, down_down, List.singleton_append]

theorem historyPath_eq : historyPath home = down home [sendrsName, historyName] := by
  rw [historyPath, dataRoot_eq, join_name historyName rfl, down_down, List.singleton_append]

theorem Code.utf8_fileName (code : Code) : utf8 (code.text ++ ".json") = code.fileName.bytes := by
  rw [utf8_append]
  rfl

variable {table} {code : Code} {raw : String} (typed : normalizeCode table raw = code.text)

include typed

/-- **The offer of a code**, below the home directory. -/
theorem offerPath_eq :
    offerPath table home raw = down home [sendrsName, offersName, code.fileName] := by
  rw [offerPath, typed, offersRoot_eq, join_name code.fileName code.utf8_fileName, down_down]
  rfl

theorem manifestPathByCode_eq :
    manifestPathByCode table home raw = down home [sendrsName, manifestsName, code.fileName] := by
  rw [manifestPathByCode, typed, manifestsRoot_eq, join_name code.fileName code.utf8_fileName, down_down]
  rfl

theorem sessionRoot_eq :
    sessionRoot table home raw = down home [sendrsName, sessionsName, code.dirName] := by
  rw [sessionRoot, typed, sessionsRoot_eq, join_name code.dirName rfl, down_down]
  rfl

/-- **A file of the session of a code**, below the home directory. -/
theorem sessionFile_eq {s : String} (name : Name) (spells : utf8 s = name.bytes) :
    (sessionRoot table home raw).join (.ofString s) =
      down home [sendrsName, sessionsName, code.dirName, name] := by
  rw [sessionRoot_eq home typed, join_name name spells, down_down]
  rfl

end Locations

theorem Code.dirName_inj {first second : Code} (same : first.dirName = second.dirName) :
    first = second := by
  have bytes : utf8 first.text = utf8 second.text := congrArg Name.bytes same
  have texts : first.text = second.text := utf8_injective bytes
  obtain ⟨_, _, _⟩ := first
  obtain ⟨_, _, _⟩ := second
  obtain rfl : _ = _ := texts
  rfl

theorem Code.fileName_inj {first second : Code} (same : first.fileName = second.fileName) :
    first = second := by
  have bytes : utf8 first.text ++ utf8 ".json" = utf8 second.text ++ utf8 ".json" :=
    congrArg Name.bytes same
  refine Code.dirName_inj (Name.mk.injEq .. ▸ ?_)
  exact List.append_cancel_right bytes

/-! ### Files of generated codes -/

/-- A generated code is one. -/
theorem generateCode_text (table : CaseTable) (uuid : BitVec 128) :
    generateCode table uuid = (codeOf uuid).text :=
  generateCode_eq table uuid

/-- A file that belongs to a code: its offer, its manifest, its session directory or what is in there. -/
def BelongsTo (table : CaseTable) (home : Path) (code : String) (path : Path) : Prop :=
  path = offerPath table home code ∨ path = manifestPathByCode table home code ∨
    ∃ names, path = down (sessionRoot table home code) names

/-- Where the files of a code are, below the home directory. -/
theorem belongsTo_iff {table : CaseTable} {home : Path} {raw : String} {code : Code} {path : Path}
    (typed : normalizeCode table raw = code.text) :
    BelongsTo table home raw path ↔ ∃ names, path = down home (sendrsName :: names) ∧
      (names = [offersName, code.fileName] ∨ names = [manifestsName, code.fileName] ∨
        ∃ inside, names = sessionsName :: code.dirName :: inside) := by
  unfold BelongsTo
  rw [offerPath_eq home typed, manifestPathByCode_eq home typed, sessionRoot_eq home typed]
  constructor
  · rintro (rfl | rfl | ⟨inside, rfl⟩)
    · exact ⟨_, rfl, .inl rfl⟩
    · exact ⟨_, rfl, .inr (.inl rfl)⟩
    · exact ⟨_, down_down .., .inr (.inr ⟨inside, rfl⟩)⟩
  · rintro ⟨_, rfl, rfl | rfl | ⟨inside, rfl⟩⟩
    · exact .inl rfl
    · exact .inr (.inl rfl)
    · exact .inr (.inr ⟨inside, (down_down home [sendrsName, sessionsName, code.dirName] inside).symm⟩)

/-- Two codes that have a file in common are the same. -/
theorem code_of_belongsTo {table : CaseTable} {home : Path} {raw raw' : String} {code code' : Code}
    {path : Path} (typed : normalizeCode table raw = code.text)
    (typed' : normalizeCode table raw' = code'.text) (one : BelongsTo table home raw path)
    (other : BelongsTo table home raw' path) : code = code' := by
  obtain ⟨names, rfl, is⟩ := (belongsTo_iff typed).mp one
  obtain ⟨names', same, is'⟩ := (belongsTo_iff typed').mp other
  obtain rfl : names = names' := (List.cons.inj (down_inj.mp same)).2
  have offers_manifests : offersName ≠ manifestsName := by decide
  have offers_sessions : offersName ≠ sessionsName := by decide
  have manifests_sessions : manifestsName ≠ sessionsName := by decide
  rcases is with rfl | rfl | ⟨inside, rfl⟩
  · rcases is' with same | same | ⟨inside', same⟩
    · exact Code.fileName_inj (by simpa using same)
    · exact absurd (List.cons.inj same).1 offers_manifests
    · exact absurd (List.cons.inj same).1 offers_sessions
  · rcases is' with same | same | ⟨inside', same⟩
    · exact absurd (List.cons.inj same).1.symm offers_manifests
    · exact Code.fileName_inj (by simpa using same)
    · exact absurd (List.cons.inj same).1 manifests_sessions
  · rcases is' with same | same | ⟨inside', same⟩
    · exact absurd (List.cons.inj same).1.symm offers_sessions
    · exact absurd (List.cons.inj same).1.symm manifests_sessions
    · exact Code.dirName_inj (List.cons.inj (List.cons.inj same).2).1

/-- **Generated codes are apart.** `normalize_code` leaves a generated code as it is; and two generated
codes have an offer, a manifest, a session directory or any of their files in common exactly when the
identifiers that were drawn begin with the same eight digits. -/
theorem generatedCodes_apart (table : CaseTable) (home : Path) (first second : BitVec 128) :
    normalizeCode table (generateCode table first) = generateCode table first ∧
    (offerPath table home (generateCode table first) = offerPath table home (generateCode table second) ↔
      firstDigits first = firstDigits second) ∧
    (manifestPathByCode table home (generateCode table first) =
        manifestPathByCode table home (generateCode table second) ↔
      firstDigits first = firstDigits second) ∧
    (sessionRoot table home (generateCode table first) =
        sessionRoot table home (generateCode table second) ↔
      firstDigits first = firstDigits second) ∧
    ((∃ path, BelongsTo table home (generateCode table first) path ∧
        BelongsTo table home (generateCode table second) path) ↔
      firstDigits first = firstDigits second) := by
  have typed (uuid : BitVec 128) : normalizeCode table (generateCode table uuid) = (codeOf uuid).text := by
    rw [generateCode_text, normalizeCode_code]
  have sameFile : (codeOf first).fileName = (codeOf second).fileName ↔ codeOf first = codeOf second :=
    ⟨Code.fileName_inj, congrArg Code.fileName⟩
  have sameDir : (codeOf first).dirName = (codeOf second).dirName ↔ codeOf first = codeOf second :=
    ⟨Code.dirName_inj, congrArg Code.dirName⟩
  refine ⟨?_, ?_, ?_, ?_, ?_⟩
  · rw [typed, generateCode_text]
  · rw [offerPath_eq home (typed first), offerPath_eq home (typed second), down_inj, ← codeOf_eq_iff,
      ← sameFile]
    simp
  · rw [manifestPathByCode_eq home (typed first), manifestPathByCode_eq home (typed second), down_inj,
      ← codeOf_eq_iff, ← sameFile]
    simp
  · rw [sessionRoot_eq home (typed first), sessionRoot_eq home (typed second), down_inj, ← codeOf_eq_iff,
      ← sameDir]
    simp
  · rw [← codeOf_eq_iff]
    constructor
    · rintro ⟨path, one, other⟩
      exact code_of_belongsTo (typed first) (typed second) one other
    · intro same
      refine ⟨offerPath table home (generateCode table first), Or.inl rfl, Or.inl ?_⟩
      rw [generateCode_text, generateCode_text, same]

-- what follows reasons about codes by the lemmas above, and never computes one
attribute [irreducible] normalizeCode generateCode

end SendRs.Cli
