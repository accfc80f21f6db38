/-
**The tree of files.**

A `FileSystem` maps locations to directories and regular files. Its field `rooted` says that
everything lies in a directory, so an orphan cannot be built; the root directory always exists.
`put` is the only way the program changes it: a new directory or file in an existing directory, or
a file in place of a file. `walk` resolves a path as the operating system does, through directories
that exist, and ends where the path denotes (`lexical_of_walk`).
-/

import Mathlib.Data.List.AList
import Mathlib.Data.List.Induction
import SendRs.Os.Path

namespace SendRs

/-- What is at a location: a directory, or a file with its bytes and its time of modification. -/
inductive Node where
  | dir
  | file (content : Bytes) (modified : Int)
deriving DecidableEq

/-- A tree of directories and regular files. -/
structure FileSystem where
  nodes : AList fun _ : Loc => Node
  rooted : ∀ loc ∈ nodes, loc.dropLast = [] ∨ nodes.lookup loc.dropLast = some .dir

namespace FileSystem

/-- What is at a location. -/
def node (fs : FileSystem) (loc : Loc) : Option Node :=
  if loc = [] then some .dir else fs.nodes.lookup loc

/-- There is a directory. -/
def IsDir (fs : FileSystem) (loc : Loc) : Prop := fs.node loc = some .dir

instance (fs : FileSystem) (loc : Loc) : Decidable (fs.IsDir loc) :=
  inferInstanceAs (Decidable (_ = _))

/-- The bytes of the file at a location. -/
def content (fs : FileSystem) (loc : Loc) : Option Bytes :=
  match fs.node loc with
  | some (.file content _) => some content
  | _ => none

/-- The empty tree. -/
def empty : FileSystem := ⟨∅, fun _ member => absurd member (AList.notMem_empty _)⟩

/-- Something may be put here: the parent is a directory, and no directory would be replaced. -/
def Free (fs : FileSystem) (loc : Loc) : Prop := fs.IsDir loc.dropLast ∧ ¬ fs.IsDir loc

instance (fs : FileSystem) (loc : Loc) : Decidable (fs.Free loc) :=
  inferInstanceAs (Decidable (_ ∧ _))

@[simp] theorem node_root (fs : FileSystem) : fs.node [] = some .dir := rfl

theorem node_of_ne_root (fs : FileSystem) {loc : Loc} (below : loc ≠ []) :
    fs.node loc = fs.nodes.lookup loc := if_neg below

theorem isDir_iff (fs : FileSystem) (loc : Loc) :
    fs.IsDir loc ↔ loc = [] ∨ fs.nodes.lookup loc = some .dir := by
  unfold IsDir node
  split
  · next root => simp [root]
  · next below => simp [below]

theorem Free.ne_root {fs : FileSystem} {loc : Loc} (free : fs.Free loc) : loc ≠ [] :=
  fun root => free.2 (by rw [root]; rfl)

/-- Put a node where it is free to be put; elsewhere nothing happens. -/
def put (fs : FileSystem) (loc : Loc) (new : Node) : FileSystem :=
  if free : fs.Free loc then
    ⟨fs.nodes.insert loc new, fun other member => by
      have below := free.ne_root
      rw [AList.mem_insert] at member
      by_cases root : other.dropLast = []
      · exact Or.inl root
      · refine Or.inr ?_
        -- the parent of `other` was a directory before, so it is not `loc`
        have parent : fs.IsDir other.dropLast := by
          rcases member with rfl | member
          · exact free.1
          · exact (fs.isDir_iff _).mpr (fs.rooted other member)
        have different : other.dropLast ≠ loc := fun same => free.2 (same ▸ parent)
        rw [AList.lookup_insert_ne different]
        exact ((fs.isDir_iff _).mp parent).resolve_left root⟩
  else fs

theorem node_put_same {fs : FileSystem} {loc : Loc} (free : fs.Free loc) (new : Node) :
    (fs.put loc new).node loc = some new := by
  rw [node_of_ne_root _ free.ne_root, put, dif_pos free]
  exact AList.lookup_insert _

theorem node_put_ne (fs : FileSystem) {loc other : Loc} (different : other ≠ loc) (new : Node) :
    (fs.put loc new).node other = fs.node other := by
  unfold put
  split
  · unfold node
    split
    · rfl
    · exact AList.lookup_insert_ne different
  · rfl

/-- A directory stays. -/
theorem isDir_put {fs : FileSystem} {loc other : Loc} {new : Node} (isDir : fs.IsDir other) :
    (fs.put loc new).IsDir other := by
  by_cases same : other = loc
  · subst same
    unfold put
    rw [dif_neg fun free => free.2 isDir]
    exact isDir
  · exact (node_put_ne fs same new).trans isDir

/-- A file may be replaced by a file. -/
theorem free_of_file {fs : FileSystem} {loc : Loc} {content : Bytes} {modified : Int}
    (there : fs.node loc = some (.file content modified)) : fs.Free loc := by
  have below : loc ≠ [] := by
    rintro rfl
    cases there
  have stored : fs.nodes.lookup loc = some (.file content modified) := by
    rwa [node_of_ne_root fs below] at there
  have member : loc ∈ fs.nodes := AList.lookup_isSome.mp (by rw [stored]; rfl)
  refine ⟨(fs.isDir_iff _).mpr (fs.rooted loc member), fun isDir => ?_⟩
  rw [IsDir, there] at isDir
  cases isDir

theorem content_eq_some {fs : FileSystem} {loc : Loc} {content : Bytes} :
    fs.content loc = some content ↔ ∃ modified, fs.node loc = some (.file content modified) := by
  unfold FileSystem.content
  split
  · next bytes modified found => simp [found]
  · next other =>
    refine ⟨fun impossible => ?_, fun ⟨modified, found⟩ => (other _ modified found).elim⟩
    cases impossible

/-- The parent of what exists is a directory. -/
theorem isDir_dropLast {fs : FileSystem} {loc : Loc} {there : Node}
    (found : fs.node loc = some there) : fs.IsDir loc.dropLast := by
  by_cases root : loc = []
  · subst root
    rfl
  · rw [node_of_ne_root fs root] at found
    exact (fs.isDir_iff _).mpr (fs.rooted loc (AList.lookup_isSome.mp (by rw [found]; rfl)))

/-- Every strict prefix of what exists is a directory. -/
theorem isDir_prefix {fs : FileSystem} (below : List Name) :
    ∀ {loc : Loc} {there : Node}, below ≠ [] → fs.node (loc ++ below) = some there →
      fs.IsDir loc := by
  induction below using List.reverseRecOn with
  | nil => exact fun absurdity => absurd rfl absurdity
  | append_singleton front last ih =>
    intro loc there _ found
    have parent := isDir_dropLast found
    rw [← List.append_assoc, List.dropLast_concat] at parent
    by_cases direct : front = []
    · rwa [direct, List.append_nil] at parent
    · exact ih direct parent

/-! ### Resolving a path -/

/-- Walk the pieces of a path from `cur`, each step through a directory that exists. -/
def walk (fs : FileSystem) : Loc → List Bytes → Option Loc
  | cur, [] => some cur
  | cur, piece :: rest =>
    if fs.IsDir cur then
      match cur.step piece with
      | some next => fs.walk next rest
      | none => none
    else none

/-- The location a path leads to in the tree. -/
def resolve (fs : FileSystem) (cwd : Loc) (path : Path) : Option Loc :=
  fs.walk (path.start cwd) path.pieces

theorem foldlM_of_walk {fs : FileSystem} (pieces : List Bytes) :
    ∀ {cur loc : Loc}, fs.walk cur pieces = some loc → pieces.foldlM Loc.step cur = some loc := by
  induction pieces with
  | nil => exact fun found => found
  | cons piece rest ih =>
    intro cur loc found
    rw [walk] at found
    split at found
    · rw [List.foldlM_cons]
      cases step : cur.step piece with
      | none => rw [step] at found; cases found
      | some next =>
        rw [step] at found
        exact ih found
    · cases found

/-- **A path leads, where it leads, to the location it denotes.** -/
theorem lexical_of_resolve {fs : FileSystem} {cwd loc : Loc} {path : Path}
    (found : fs.resolve cwd path = some loc) : path.lexical cwd = some loc :=
  foldlM_of_walk _ found

theorem walk_append {fs : FileSystem} (front rest : List Bytes) (cur : Loc) :
    fs.walk cur (front ++ rest) = (fs.walk cur front).bind fun loc => fs.walk loc rest := by
  induction front generalizing cur with
  | nil => rfl
  | cons piece front ih =>
    rw [List.cons_append, walk, walk]
    split
    · cases cur.step piece with
      | none => rfl
      | some next => exact ih next
    · rfl

/-- A walk leads where the pieces lead, through directories. -/
theorem walk_eq_some {fs : FileSystem} (pieces : List Bytes) :
    ∀ {cur loc : Loc}, fs.walk cur pieces = some loc ↔
      pieces.foldlM Loc.step cur = some loc ∧ ∀ stop ∈ stops cur pieces, fs.IsDir stop := by
  induction pieces with
  | nil =>
    intro cur loc
    exact ⟨fun found => ⟨found, fun _ member => nomatch member⟩, fun both => both.1⟩
  | cons piece rest ih =>
    intro cur loc
    rw [walk, List.foldlM_cons, stops, List.forall_mem_cons]
    cases step : cur.step piece with
    | none => simp
    | some next =>
      show (if fs.IsDir cur then fs.walk next rest else none) = some loc ↔
        rest.foldlM Loc.step next = some loc ∧ _ ∧ _
      by_cases isDir : fs.IsDir cur
      · rw [if_pos isDir, ih]
        exact ⟨fun ⟨leads, dirs⟩ => ⟨leads, isDir, dirs⟩, fun ⟨leads, _, dirs⟩ => ⟨leads, dirs⟩⟩
      · rw [if_neg isDir]
        exact ⟨fun found => (Option.some_ne_none _ found.symm).elim, fun both => absurd both.2.1 isDir⟩

/-- What was resolved once stays resolved when directories are kept. -/
theorem walk_mono {fs fs' : FileSystem} (kept : ∀ loc, fs.IsDir loc → fs'.IsDir loc)
    (pieces : List Bytes) :
    ∀ {cur loc : Loc}, fs.walk cur pieces = some loc → fs'.walk cur pieces = some loc := by
  induction pieces with
  | nil => exact fun found => found
  | cons piece rest ih =>
    intro cur loc found
    rw [walk] at found ⊢
    split at found
    · next isDir =>
      rw [if_pos (kept _ isDir)]
      cases step : cur.step piece with
      | none => rw [step] at found; cases found
      | some next =>
        rw [step] at found
        exact ih found
    · cases found

/-- Names lead down to anything that lies in directories. -/
theorem walk_names {fs : FileSystem} (names : List Name) :
    ∀ {cur : Loc}, (∀ front last, names = front ++ [last] → fs.IsDir (cur ++ front)) →
      fs.walk cur (names.map Name.bytes) = some (cur ++ names) := by
  induction names using List.reverseRecOn with
  | nil => intro cur _; simp [walk]
  | append_singleton front last ih =>
    intro cur dirs
    have parent : fs.IsDir (cur ++ front) := dirs front last rfl
    have above : fs.walk cur (front.map Name.bytes) = some (cur ++ front) := by
      refine ih fun earlier next split => ?_
      subst split
      rw [← List.append_assoc] at parent
      exact isDir_prefix [next] (List.cons_ne_nil _ _) parent
    rw [List.map_append, walk_append, above]
    show fs.walk (cur ++ front) [last.bytes] = _
    rw [walk, if_pos parent, Loc.step_bytes]
    show some (cur ++ front ++ [last]) = _
    rw [List.append_assoc]

/-- The absolute path of what exists leads to it. -/
theorem resolve_ofLoc {fs : FileSystem} {cwd loc : Loc} {there : Node}
    (found : fs.node loc = some there) : fs.resolve cwd (.ofLoc loc) = some loc := by
  have down : fs.walk [] (loc.map Name.bytes) = some ([] ++ loc) := walk_names loc fun front last split => by
    rw [split] at found
    exact isDir_prefix [last] (List.cons_ne_nil _ _) found
  rwa [List.nil_append] at down

end FileSystem

end SendRs
