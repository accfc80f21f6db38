/-
**Names, locations and paths.**

A `Name` is one entry of a directory: bytes that the operating system accepts as a file name. A
`Loc` is where a file or directory is, the names from the root directory down. A `Path` is what the
program passes around: the pieces between the slashes, as they were written. `lexical` says which
location a path denotes: `.` and empty pieces stay, `..` goes up, any other piece goes down.

There are no links in this model, so a location is a file's identity.
-/

import Mathlib.Data.List.Induction
import SendRs.Os.Text

namespace SendRs

/-- Whether the operating system accepts the bytes as the name of a file (Unix). -/
def Name.Proper (bytes : Bytes) : Prop :=
  bytes ≠ [] ∧ bytes ≠ [46] ∧ bytes ≠ [46, 46] ∧ 47 ∉ bytes ∧ 0 ∉ bytes

instance (bytes : Bytes) : Decidable (Name.Proper bytes) :=
  inferInstanceAs (Decidable (_ ∧ _ ∧ _ ∧ _ ∧ _))

/-- The name of a directory entry. -/
structure Name where
  bytes : Bytes
  proper : Name.Proper bytes
deriving DecidableEq

/-- Where a file or directory is: the names from the root directory down. -/
abbrev Loc := List Name

/-- One step of resolving a path: where `piece` leads from `cur`. -/
def Loc.step (cur : Loc) (piece : Bytes) : Option Loc :=
  if piece = [] ∨ piece = [46] then some cur
  else if piece = [46, 46] then some cur.dropLast
  else if proper : Name.Proper piece then some (cur ++ [⟨piece, proper⟩])
  else none

/-- A path: the pieces between the slashes, as written. -/
structure Path where
  absolute : Bool
  pieces : List Bytes
deriving DecidableEq

namespace Path

/-- The path that the bytes spell. -/
def ofBytes : Bytes → Path
  | 47 :: rest => ⟨true, rest.splitOn 47⟩
  | bytes => ⟨false, bytes.splitOn 47⟩

/-- `Path::new` of a string. -/
def ofString (s : String) : Path := ofBytes (utf8 s)

/-- The absolute path of a location: what `canonicalize` returns and the directory walk yields. -/
def ofLoc (loc : Loc) : Path := ⟨true, loc.map Name.bytes⟩

/-- `Path::join`: an absolute second path replaces the first. -/
def join (base extension : Path) : Path :=
  if extension.absolute then extension
  else ⟨base.absolute, base.pieces ++ extension.pieces⟩

/-- `Path::parent`: the path without its last component; trailing slashes and dots are none. -/
def parent (path : Path) : Option Path :=
  match path.pieces.reverse.dropWhile fun piece => piece = [] ∨ piece = [46] with
  | [] => none
  | _ :: front => some ⟨path.absolute, front.reverse⟩

/-- `Path::display`. -/
def display (path : Path) : String :=
  fromUtf8Lossy ((if path.absolute then [47] else []) ++ [47].intercalate path.pieces)

/-- Where the resolution of a path starts. -/
def start (cwd : Loc) (path : Path) : Loc := if path.absolute then [] else cwd

/-- The location a path denotes, whatever exists. -/
def lexical (cwd : Loc) (path : Path) : Option Loc := path.pieces.foldlM Loc.step (path.start cwd)

end Path

/-- The locations passed through, the last one included, when the pieces are walked from `cur`. -/
def visited : Loc → List Bytes → List Loc
  | _, [] => []
  | cur, piece :: rest =>
    match cur.step piece with
    | some next => next :: visited next rest
    | none => []

/-- The locations from which a step is made, when the pieces are walked from `cur`. -/
def stops : Loc → List Bytes → List Loc
  | _, [] => []
  | cur, piece :: rest =>
    cur :: match cur.step piece with
      | some next => stops next rest
      | none => []

/-! ### Steps -/

theorem Loc.step_bytes (cur : Loc) (name : Name) : cur.step name.bytes = some (cur ++ [name]) := by
  obtain ⟨nonempty, notDot, notDots, _, _⟩ := name.proper
  unfold Loc.step
  rw [if_neg (not_or.mpr ⟨nonempty, notDot⟩), if_neg notDots, dif_pos name.proper]

/-- Names lead straight down. -/
theorem foldlM_step_names (names : List Name) (cur : Loc) :
    (names.map Name.bytes).foldlM Loc.step cur = some (cur ++ names) := by
  induction names generalizing cur with
  | nil => simp
  | cons name names ih =>
    rw [List.map_cons, List.foldlM_cons, Loc.step_bytes]
    show (names.map Name.bytes).foldlM Loc.step (cur ++ [name]) = _
    rw [ih, List.append_assoc, List.singleton_append]

/-- Where the pieces of a path lead: up some of the way one came, and from there down by names that
are among the pieces. -/
theorem foldlM_step_split (pieces : List Bytes) :
    ∀ {cur loc : Loc}, pieces.foldlM Loc.step cur = some loc →
      ∃ kept below, kept <+: cur ∧ loc = kept ++ below ∧ ∀ name ∈ below, name.bytes ∈ pieces := by
  induction pieces using List.reverseRecOn with
  | nil =>
    intro cur loc leads
    rw [← Option.some.inj leads]
    exact ⟨cur, [], List.prefix_refl _, (List.append_nil _).symm, fun _ member => nomatch member⟩
  | append_singleton front last ih =>
    intro cur loc leads
    rw [List.foldlM_append] at leads
    obtain ⟨before, reached, step⟩ := Option.bind_eq_some_iff.mp leads
    obtain ⟨kept, below, isPrefix, rfl, inside⟩ := ih reached
    have step : Loc.step (kept ++ below) last = some loc := by
      simpa using step
    have earlier (name : Name) (member : name ∈ below) : name.bytes ∈ front ++ [last] :=
      List.mem_append_left _ (inside name member)
    unfold Loc.step at step
    split at step
    · exact ⟨kept, below, isPrefix, (Option.some.inj step).symm, earlier⟩
    · split at step
      · rw [← Option.some.inj step]
        rcases List.eq_nil_or_concat' below with rfl | ⟨shorter, name, rfl⟩
        · refine ⟨kept.dropLast, [], (List.dropLast_prefix _).trans isPrefix, by simp, ?_⟩
          exact fun _ member => nomatch member
        · refine ⟨kept, shorter, isPrefix, by simp [← List.append_assoc], fun other member => ?_⟩
          exact earlier other (List.mem_append_left _ member)
      · split at step
        · next proper =>
          refine ⟨kept, below ++ [⟨last, proper⟩], isPrefix, ?_, fun name member => ?_⟩
          · rw [← Option.some.inj step, List.append_assoc]
          · rcases List.mem_append.mp member with before | here
            · exact earlier name before
            · rw [List.mem_singleton.mp here]
              exact List.mem_append_right _ List.mem_cons_self
        · cases step

/-- What is passed on the way along more pieces. -/
theorem visited_append (front rest : List Bytes) :
    ∀ {cur loc : Loc}, front.foldlM Loc.step cur = some loc →
      visited cur (front ++ rest) = visited cur front ++ visited loc rest := by
  induction front with
  | nil =>
    intro cur loc leads
    rw [← Option.some.inj leads]
    rfl
  | cons piece front ih =>
    intro cur loc leads
    rw [List.foldlM_cons] at leads
    obtain ⟨next, step, leads⟩ := Option.bind_eq_some_iff.mp leads
    rw [List.cons_append, visited, visited, step]
    exact congrArg (next :: ·) (ih leads)

/-- Names pass the locations straight below. -/
theorem mem_visited_names (names : List Name) {cur loc : Loc} :
    loc ∈ visited cur (names.map Name.bytes) ↔
      ∃ front, front ≠ [] ∧ front <+: names ∧ loc = cur ++ front := by
  induction names generalizing cur with
  | nil =>
    refine ⟨fun member => (List.not_mem_nil member).elim, fun ⟨front, nonempty, below, _⟩ => ?_⟩
    exact absurd (List.prefix_nil.mp below) nonempty
  | cons name names ih =>
    rw [List.map_cons, visited, Loc.step_bytes, List.mem_cons, ih]
    constructor
    · rintro (rfl | ⟨front, nonempty, below, rfl⟩)
      · exact ⟨[name], List.cons_ne_nil _ _, List.prefix_append [name] names, rfl⟩
      · refine ⟨name :: front, List.cons_ne_nil _ _, List.cons_prefix_cons.mpr ⟨rfl, below⟩, ?_⟩
        rw [List.append_assoc, List.singleton_append]
    · rintro ⟨front, nonempty, below, rfl⟩
      obtain ⟨first, rest, rfl⟩ := List.exists_cons_of_ne_nil nonempty
      obtain ⟨rfl, shorter⟩ := List.cons_prefix_cons.mp below
      cases rest with
      | nil => exact Or.inl rfl
      | cons next rest =>
        refine Or.inr ⟨next :: rest, List.cons_ne_nil _ _, shorter, ?_⟩
        rw [List.append_assoc, List.singleton_append]

namespace Path

/-- Joining names to a path appends them to its location. -/
theorem lexical_join_names (cwd : Loc) (base : Path) (names : List Name) {loc : Loc}
    (here : lexical cwd base = some loc) :
    lexical cwd (base.join ⟨false, names.map Name.bytes⟩) = some (loc ++ names) := by
  show (base.pieces ++ names.map Name.bytes).foldlM Loc.step (base.start cwd) = _
  unfold lexical at here
  rw [List.foldlM_append, here]
  exact foldlM_step_names names loc

/-- A string whose bytes are names joined with slashes spells those names. -/
theorem ofString_names {s : String} {names : List Name} (nonempty : names ≠ [])
    (spells : utf8 s = [47].intercalate (names.map Name.bytes)) :
    ofString s = ⟨false, names.map Name.bytes⟩ := by
  have split : (utf8 s).splitOn 47 = names.map Name.bytes := by
    rw [spells]
    refine List.splitOn_intercalate 47 (fun piece member => ?_) (by simpa using nonempty)
    obtain ⟨name, _, rfl⟩ := List.mem_map.mp member
    exact name.proper.2.2.2.1
  obtain ⟨first, rest, rfl⟩ := List.exists_cons_of_ne_nil nonempty
  obtain ⟨b, bytes, head⟩ := List.exists_cons_of_ne_nil first.proper.1
  have notSlash : b ≠ 47 := fun same => first.proper.2.2.2.1 (by rw [head, same]; simp)
  have headOf : ∃ tail, utf8 s = b :: tail := by
    rw [spells]
    cases rest with
    | nil => exact ⟨bytes, by simp [List.intercalate, head]⟩
    | cons next rest => exact ⟨_, by rw [List.map_cons, List.map_cons, List.intercalate_cons_cons, head]; rfl⟩
  obtain ⟨tail, spelled⟩ := headOf
  rw [ofString, ← split, spelled]
  unfold ofBytes
  split
  · next same => exact absurd (List.cons.inj same).1 notSlash
  · rfl

/-- The parent of a path that ends in a name. -/
theorem parent_append_name (absolute : Bool) (front : List Bytes) (name : Name) :
    parent ⟨absolute, front ++ [name.bytes]⟩ = some ⟨absolute, front⟩ := by
  obtain ⟨nonempty, notDot, _⟩ := name.proper
  simp [parent, nonempty, notDot]

end Path

end SendRs
