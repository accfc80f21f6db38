/-
**Reading and writing records in calm surroundings.**

The files of the commands are named by absolute paths. What is at such a path is what is at its
location (`calm_pathExists_at`, `calm_readJson_at`, `calm_readJson_absent`); a write creates the
directories above the location that are missing, and leaves everything else alone: `Saved` says so
(`calm_writeJson_at`).
-/

import SendRs.Disk.Files

namespace SendRs.Disk

open Effect Cli

/-! ### Absolute paths -/

theorem down_ofLoc (loc : Loc) (names : List Name) : down (.ofLoc loc) names = .ofLoc (loc ++ names) := by
  simp [down, Path.ofLoc]

theorem lexical_ofLoc (cwd loc : Loc) : (Path.ofLoc loc).lexical cwd = some loc := by
  show (loc.map Name.bytes).foldlM Loc.step [] = some loc
  rw [foldlM_step_names, List.nil_append]

theorem parent_ofLoc (up : Loc) (name : Name) : (Path.ofLoc (up ++ [name])).parent = some (.ofLoc up) := by
  rw [Path.ofLoc, List.map_append]
  exact Path.parent_append_name _ _ _

/-- What an absolute path leads to is at its location. -/
theorem bind_resolve_ofLoc {α : Type} (fs : FileSystem) (cwd loc : Loc) (look : Loc → Option α)
    (absent : fs.node loc = none → look loc = none) :
    (fs.resolve cwd (.ofLoc loc)).bind look = look loc := by
  cases found : fs.node loc with
  | some there => rw [FileSystem.resolve_ofLoc found, Option.bind_some]
  | none =>
    cases leads : fs.resolve cwd (.ofLoc loc) with
    | none => rw [Option.bind_none, absent found]
    | some target =>
      have denoted := FileSystem.lexical_of_resolve leads
      rw [lexical_ofLoc] at denoted
      rw [Option.some.inj denoted, Option.bind_some]

theorem content_none_of_node {fs : FileSystem} {loc : Loc} (absent : fs.node loc = none) :
    fs.content loc = none := by
  rw [FileSystem.content, absent]

/-! ### Looking -/

section Calm

variable {α : Type} {codec : JsonCodec α} {env : Surroundings} {fs : FileSystem} {loc : Loc}

theorem calm_pathExists_at (calm : env.Calm) (loc : Loc) :
    Triple (Stands env fs) (pathExists (.ofLoc loc))
      (fun answer w => answer = (fs.node loc).isSome ∧ Stands env fs w) Never := by
  refine (calm_pathExists calm _).post fun answer w ⟨isAnswer, stands⟩ => ⟨?_, stands⟩
  rw [isAnswer, bind_resolve_ofLoc fs env.cwd loc fs.node id]

theorem calm_readJson_at (calm : env.Calm) (faithful : codec.Faithful) {value : α}
    (found : fs.content loc = some (codec.body value)) :
    Triple (Stands env fs) (readJson codec (.ofLoc loc)) (fun read w => read = value ∧ Stands env fs w)
      Never := by
  obtain ⟨modified, there⟩ := FileSystem.content_eq_some.mp found
  exact calm_readJson calm faithful (FileSystem.resolve_ofLoc there) found

theorem calm_canonicalize (calm : env.Calm) {path : Path} {there : Node}
    (leads : fs.resolve env.cwd path = some loc) (found : fs.node loc = some there) :
    Triple (Stands env fs) (canonicalize path) (fun target w => target = loc ∧ Stands env fs w) Never :=
  Triple.bind (calm_call calm) fun _ => Triple.given fun _ => calm_resolveExisting leads found

/-- The error of a read where no file is. -/
def missing (error : Error) : Prop := error = "read json" :: osError

/-- Where no file is, there is nothing to read. -/
theorem calm_readJson_absent (calm : env.Calm) (absent : fs.content loc = none) :
    Triple (Stands env fs) (readJson codec (.ofLoc loc)) (fun _ _ => False)
      (fun error w => missing error ∧ Stands env fs w) := by
  refine Triple.bind (M := fun _ _ => False) (Triple.context ?_) fun _ _ none => none.elim
  refine Triple.bind ((calm_call calm).conseq (fun _ holds => holds) (fun _ _ holds => holds)
    fun _ _ none => none.elim) fun _ => Triple.given fun _ => ?_
  have nowhere : (fs.resolve env.cwd (.ofLoc loc)).bind fs.content = none := by
    rw [bind_resolve_ofLoc fs env.cwd loc fs.content content_none_of_node, absent]
  cases leads : fs.resolve env.cwd (.ofLoc loc) with
  | none =>
    refine Triple.bind (M := fun _ _ => False) ?_ fun _ _ none => none.elim
    refine Triple.bind (stands_observe (a := none) ?_) fun found => Triple.given fun isFound => ?_
    · rintro w ⟨rfl, rfl⟩
      exact leads
    · subst isFound
      exact Triple.throw fun _ stands => ⟨rfl, stands⟩
  | some target =>
    rw [leads, Option.bind_some] at nowhere
    refine Triple.bind ((calm_resolveNow leads).conseq (fun _ holds => holds) (fun _ _ holds => holds)
      fun _ _ none => none.elim) fun found => Triple.given fun isFound => ?_
    subst isFound
    refine Triple.bind (stands_observe (a := none) ?_) fun there => Triple.given fun isThere => ?_
    · rintro w ⟨rfl, rfl⟩
      exact nowhere
    · subst isThere
      exact Triple.throw fun _ stands => ⟨rfl, stands⟩

/-! ### Writing -/

/-- The tree is `fs`, but for the file at a location and for directories at or above `up` that were not
there. -/
structure Saved (env : Surroundings) (fs : FileSystem) (up loc : Loc) (content : Bytes) (w : World) :
    Prop where
  env_eq : w.env = env
  content_eq : w.fs.content loc = some content
  node_eq : ∀ other, other ≠ loc → w.fs.node other = fs.node other ∨
    other <+: up ∧ fs.node other = none ∧ w.fs.node other = some .dir

/-- What is neither the file nor a directory above it is as it was. -/
theorem Saved.elsewhere {up : Loc} {content : Bytes} {w : World} (saved : Saved env fs up loc content w)
    {other : Loc} (different : other ≠ loc) (aside : ¬ other <+: up) :
    w.fs.node other = fs.node other :=
  (saved.node_eq other different).resolve_right fun isNew => aside isNew.1

/-- What is there stays. -/
theorem Saved.there {up : Loc} {content : Bytes} {w : World} (saved : Saved env fs up loc content w)
    {other : Loc} {node : Node} (different : other ≠ loc) (found : fs.node other = some node) :
    w.fs.node other = some node := by
  rcases saved.node_eq other different with same | ⟨_, absent, _⟩
  · rw [same, found]
  · rw [found] at absent
    cases absent

/-- A program goes on from whatever tree its first part has left. -/
theorem bind_stands {β γ : Type} {first : Sys β} {rest : β → Sys γ} {after : γ → World → Prop}
    {failed : Error → World → Prop} (left : FileSystem → Prop)
    (starts : Triple (Stands env fs) first (fun _ w => w.env = env ∧ left w.fs) failed)
    (goesOn : ∀ b tree, left tree → Triple (Stands env tree) (rest b) after failed) :
    Triple (Stands env fs) (first >>= rest) after failed :=
  Triple.bind starts fun b w ⟨sameEnv, holds⟩ => goesOn b w.fs holds w ⟨sameEnv, rfl⟩

/-- No file is in the way to a location below a directory. -/
def Unblocked (fs : FileSystem) (base : Loc) (names : List Name) : Prop :=
  ∀ front, front <+: names → fs.content (base ++ front) = none

theorem unblocked_of_isDir {base : Loc} {names : List Name} (isDir : fs.IsDir (base ++ names)) :
    Unblocked fs base names := by
  rintro front ⟨rest, rfl⟩
  rw [← List.append_assoc] at isDir
  by_cases last : rest = []
  · rw [last, List.append_nil] at isDir
    rw [FileSystem.content, isDir]
  · rw [FileSystem.content, FileSystem.isDir_prefix rest last isDir]

/-- New directories are in nobody's way. -/
theorem Unblocked.grew {base : Loc} {names : List Name} {dirs : Loc → Prop} {w : World}
    (clear : Unblocked fs base names) (grew : Grew env fs dirs w) : Unblocked w.fs base names := by
  intro front below
  rcases grew.node_eq (base ++ front) with same | ⟨_, _, isDir⟩
  · rw [FileSystem.content, same]
    exact clear front below
  · rw [FileSystem.content, isDir]

/-- Creating the directories down to a location. -/
theorem calm_createDirAll_at (calm : env.Calm) {base : Loc} {names : List Name} (isDir : fs.IsDir base)
    (clear : Unblocked fs base names) :
    Triple (Stands env fs) (createDirAll (.ofLoc (base ++ names)))
      (fun _ w => Grew env fs (· <+: base ++ names) w ∧ w.fs.IsDir (base ++ names)) Never := by
  have passes (passed : Loc) :
      passed ∈ visited ((Path.ofLoc (base ++ names)).start env.cwd) (Path.ofLoc (base ++ names)).pieces ↔
        ∃ front, front ≠ [] ∧ front <+: base ++ names ∧ passed = [] ++ front :=
    mem_visited_names (base ++ names)
  refine (calm_createDirAll calm (lexical_ofLoc _ (base ++ names)) rfl fun passed member => ?_).post
    fun _ w ⟨grew, _, isDir'⟩ => ⟨grew.wider fun loc member => ?_, isDir'⟩
  · obtain ⟨front, _, below, rfl⟩ := (passes passed).mp member
    rcases List.prefix_or_prefix_of_prefix below (List.prefix_append base names) with above | beyond
    · -- a directory above the base
      obtain ⟨rest, split⟩ := above
      by_cases here : rest = []
      · rw [here, List.append_nil] at split
        rw [split, FileSystem.content, isDir]
      · rw [← split] at isDir
        rw [FileSystem.content, FileSystem.isDir_prefix rest here isDir]
    · obtain ⟨rest, rfl⟩ := beyond
      exact clear rest ((List.prefix_append_right_inj base).mp below)
  · obtain ⟨front, _, below, rfl⟩ := (passes loc).mp member
    exact below

/-- **Writing a record**, where no file is in the way and no directory in its place. -/
theorem calm_writeJson_at (calm : env.Calm) {base : Loc} {names : List Name} {name : Name}
    (isDir : fs.IsDir base) (clear : Unblocked fs base names)
    (noDir : ¬ fs.IsDir (base ++ names ++ [name])) (value : α) :
    Triple (Stands env fs) (writeJson codec (.ofLoc (base ++ names ++ [name])) value)
      (fun _ => Saved env fs (base ++ names) (base ++ names ++ [name]) (codec.body value)) Never := by
  unfold writeJson createJsonParent
  rw [parent_ofLoc]
  refine Triple.bind (Triple.context (calm_createDirAll_at calm isDir clear)) fun _ => Triple.context ?_
  rintro w ⟨grew, parent⟩
  have tooLong : ¬ base ++ names ++ [name] <+: base ++ names := fun below => by
    have := below.length_le
    simp at this
  have free : w.fs.Free (base ++ names ++ [name]) := by
    refine ⟨by rwa [List.dropLast_concat], fun there => ?_⟩
    rcases grew.node_eq (base ++ names ++ [name]) with same | ⟨below, _⟩
    · exact noDir (same.symm.trans there)
    · exact tooLong below
  refine ((calm_fsWrite (grew.env_eq ▸ calm) (resolve_under parent name) free _).post
    fun _ w' wrote => ?_) w ⟨rfl, rfl⟩
  refine ⟨wrote.env_eq.trans grew.env_eq, wrote.content_eq, fun other different => ?_⟩
  rw [wrote.node_eq other different]
  exact grew.node_eq other

end Calm

end SendRs.Disk
