/-
**The calls when nothing fails.**

In calm surroundings the other processes change nothing and no call fails, so a call does exactly
what the tree makes it do. Each call has one lemma, from the tree it starts in to the tree it leaves
behind:

* the calls that only look leave the tree as it is and return what is in it;
* `Wrote env fs loc content` is the tree after a write: `content` at `loc`, everything else as in
  `fs`;
* `Grew env fs dirs` is the tree after the creation of directories: some locations of `dirs` where
  nothing was are directories, everything else is as in `fs`.
-/

import SendRs.Os.Frame

namespace SendRs

open Effect

/-- No other process interferes and no call fails. -/
structure Surroundings.Calm (env : Surroundings) : Prop where
  still : env.Still
  noFaults : env.NoFaults

theorem Surroundings.Calm.sparesLoc {env : Surroundings} (calm : env.Calm) (loc : Loc) :
    env.SparesLoc loc := fun k fs => by rw [calm.still k fs]

/-- The tree is `fs`, but for the file at `loc`, which holds `content`. -/
structure Wrote (env : Surroundings) (fs : FileSystem) (loc : Loc) (content : Bytes) (w : World) :
    Prop where
  env_eq : w.env = env
  content_eq : w.fs.content loc = some content
  node_eq : ∀ other, other ≠ loc → w.fs.node other = fs.node other

/-- The tree is `fs`, but for directories of `dirs` that were not there. -/
structure Grew (env : Surroundings) (fs : FileSystem) (dirs : Loc → Prop) (w : World) : Prop where
  env_eq : w.env = env
  node_eq : ∀ loc, w.fs.node loc = fs.node loc ∨
    dirs loc ∧ fs.node loc = none ∧ w.fs.node loc = some .dir

section Calm

variable {env : Surroundings} {fs : FileSystem}

theorem calm_turn (calm : env.Calm) :
    Triple (Stands env fs) turn
      (fun t w => (t.fault = none ∧ ∃ k, t = env.turns k) ∧ Stands env fs w) Never := by
  rintro w ⟨rfl, rfl⟩
  exact ⟨⟨calm.noFaults w.clock, w.clock, rfl⟩, rfl, calm.still w.clock w.fs⟩

theorem calm_call (calm : env.Calm) :
    Triple (Stands env fs) call (fun t w => (∃ k, t = env.turns k) ∧ Stands env fs w) Never := by
  refine Triple.bind (calm_turn calm) fun t => Triple.given fun ⟨works, drawn⟩ => ?_
  refine Triple.ite (fun fails => ?_) fun _ => Triple.pure fun _ stands => ⟨drawn, stands⟩
  rw [works] at fails
  cases fails

/-! ### Looking -/

theorem calm_resolveNow {path : Path} {loc : Loc} (leads : fs.resolve env.cwd path = some loc) :
    Triple (Stands env fs) (resolveNow path) (fun found w => found = loc ∧ Stands env fs w) Never := by
  refine Triple.bind (stands_observe (a := some loc) ?_) fun found => Triple.given fun isFound => ?_
  · rintro w ⟨rfl, rfl⟩
    exact leads
  · subst isFound
    exact Triple.pure fun _ stands => ⟨rfl, stands⟩

theorem calm_openRead (calm : env.Calm) {path : Path} {loc : Loc} {there : Node}
    (leads : fs.resolve env.cwd path = some loc) (found : fs.node loc = some there) :
    Triple (Stands env fs) (openRead path) (fun opened w => opened = loc ∧ Stands env fs w) Never := by
  refine Triple.bind (calm_call calm) fun _ => Triple.given fun _ => ?_
  refine Triple.bind (calm_resolveNow leads) fun opened => Triple.given fun same => ?_
  subst same
  refine Triple.bind (stands_observe (a := some there) ?_) fun seen => Triple.given fun isSeen => ?_
  · rintro w ⟨rfl, rfl⟩
    exact found
  · subst isSeen
    exact Triple.pure fun _ stands => ⟨rfl, stands⟩

theorem calm_isFile (calm : env.Calm) (path : Path) :
    Triple (Stands env fs) (isFile path)
      (fun answer w => answer = ((fs.resolve env.cwd path).bind fs.content).isSome ∧
        Stands env fs w) Never :=
  (stands_isFile calm.still path).post fun _ _ answered =>
    ⟨answered.1.2 calm.noFaults, answered.2⟩

theorem calm_seek (calm : env.Calm) :
    Triple (Stands env fs) seek (fun _ => Stands env fs) Never :=
  Triple.bind (calm_call calm) fun _ => Triple.given fun _ => Triple.pure fun _ stands => stands

theorem calm_readExact (calm : env.Calm) {loc : Loc} {content : Bytes} {offset len : Nat}
    (found : fs.content loc = some content) (inside : offset + len ≤ content.length) :
    Triple (Stands env fs) (readExact loc offset len)
      (fun buf w => buf = (content.drop offset).take len ∧ Stands env fs w) Never := by
  refine Triple.bind (calm_call calm) fun _ => Triple.given fun _ => ?_
  refine Triple.bind (stands_observe (a := some content) ?_) fun there => Triple.given fun isThere => ?_
  · rintro w ⟨rfl, rfl⟩
    exact found
  · subst isThere
    refine Triple.ite (fun _ => Triple.pure fun _ stands => ⟨rfl, stands⟩) fun outside => ?_
    exact absurd inside outside

/-! ### Writing -/

/-- Putting a file where that is free. -/
theorem wrote_put {w : World} (stands : Stands env fs w) {loc : Loc} (free : fs.Free loc)
    (content : Bytes) (modified : Int) :
    Wrote env fs loc content { w with fs := w.fs.put loc (.file content modified) } := by
  obtain ⟨rfl, rfl⟩ := stands
  exact ⟨rfl, FileSystem.content_eq_some.mpr ⟨modified, FileSystem.node_put_same free _⟩,
    fun _ different => FileSystem.node_put_ne _ different _⟩

/-- What is there may be overwritten. -/
theorem free_of_content {loc : Loc} {content : Bytes} (found : fs.content loc = some content) :
    fs.Free loc := by
  obtain ⟨modified, found⟩ := FileSystem.content_eq_some.mp found
  exact FileSystem.free_of_file found

/-- Nothing was written, which is as good as writing what was there. -/
theorem Stands.wrote {w : World} (stands : Stands env fs w) {loc : Loc} {content : Bytes}
    (found : fs.content loc = some content) : Wrote env fs loc content w := by
  obtain ⟨rfl, rfl⟩ := stands
  exact ⟨rfl, found, fun _ _ => rfl⟩

/-- Opening a file for writing, or a new one. -/
theorem calm_openWrite (calm : env.Calm) {path : Path} {loc : Loc}
    (leads : fs.resolve env.cwd path = some loc) (free : fs.Free loc) :
    Triple (Stands env fs) (openWrite path)
      (fun opened w => opened = loc ∧ ∃ content, Wrote env fs loc content w) Never := by
  refine Triple.bind (calm_call calm) fun t => Triple.given fun _ => ?_
  refine Triple.bind (calm_resolveNow leads) fun opened => Triple.given fun same => ?_
  subst same
  refine Triple.bind (stands_observe (a := fs) fun _ stands => stands.fs_eq) fun seen => ?_
  refine Triple.given fun isSeen => ?_
  subst isSeen
  match found : seen.node opened with
  | some (.file content modified) =>
    refine Triple.pure fun _ stands => ⟨rfl, content, stands.wrote ?_⟩
    exact FileSystem.content_eq_some.mpr ⟨modified, found⟩
  | some .dir => exact absurd found free.2
  | none =>
    refine Triple.ite (fun _ => ?_) fun blocked => absurd free blocked
    refine Triple.bind (M := fun _ => Wrote env seen opened []) (Triple.update ?_) fun _ =>
      Triple.pure fun _ wrote => ⟨rfl, [], wrote⟩
    exact fun w stands => wrote_put stands free _ _

theorem calm_setLen (calm : env.Calm) {loc : Loc} {content : Bytes}
    (found : fs.content loc = some content) (size : Nat) :
    Triple (Stands env fs) (setLen loc size)
      (fun _ => Wrote env fs loc (content.takeD size 0)) Never := by
  refine Triple.bind (calm_call calm) fun t => Triple.given fun _ => ?_
  refine Triple.bind (stands_observe (a := some content) ?_) fun there => Triple.given fun isThere => ?_
  · rintro w ⟨rfl, rfl⟩
    exact found
  · subst isThere
    exact Triple.update fun w stands => wrote_put stands (free_of_content found) _ _

theorem calm_writeAll (calm : env.Calm) {loc : Loc} {content : Bytes}
    (found : fs.content loc = some content) (offset : Nat) (bytes : Bytes) :
    Triple (Stands env fs) (writeAll loc offset bytes)
      (fun _ => Wrote env fs loc (Pieces.patch 0 content offset bytes)) Never := by
  refine Triple.bind (calm_turn calm) fun t => Triple.given fun ⟨works, _⟩ => ?_
  refine Triple.bind (stands_observe (a := some content) ?_) fun there => Triple.given fun isThere => ?_
  · rintro w ⟨rfl, rfl⟩
    exact found
  · rw [isThere, works]
    exact Triple.update fun w stands => wrote_put stands (free_of_content found) _ _

theorem calm_fsWrite (calm : env.Calm) {path : Path} {loc : Loc}
    (leads : fs.resolve env.cwd path = some loc) (free : fs.Free loc) (body : Bytes) :
    Triple (Stands env fs) (fsWrite path body) (fun _ => Wrote env fs loc body) Never := by
  refine Triple.bind (calm_turn calm) fun t => Triple.given fun ⟨works, _⟩ => ?_
  refine Triple.ite (fun fails => ?_) fun _ => ?_
  · rw [works] at fails
    cases fails
  · refine Triple.bind (calm_resolveNow leads) fun target => Triple.given fun same => ?_
    subst same
    refine Triple.bind (stands_observe (a := fs) fun _ stands => stands.fs_eq) fun seen => ?_
    refine Triple.given fun isSeen => ?_
    subst isSeen
    refine Triple.ite (fun _ => ?_) fun blocked => absurd free blocked
    rw [works]
    exact Triple.update fun w stands => wrote_put stands free _ _

/-! ### Creating directories -/

theorem Stands.grew {w : World} (stands : Stands env fs w) (dirs : Loc → Prop) :
    Grew env fs dirs w := by
  obtain ⟨rfl, rfl⟩ := stands
  exact ⟨rfl, fun _ => Or.inl rfl⟩

theorem Grew.isDir {dirs : Loc → Prop} {w : World} (grew : Grew env fs dirs w) {loc : Loc}
    (isDir : fs.IsDir loc) : w.fs.IsDir loc := by
  rcases grew.node_eq loc with same | ⟨_, _, isNew⟩
  · rw [FileSystem.IsDir, same]
    exact isDir
  · exact isNew

theorem Grew.wider {dirs more : Loc → Prop} {w : World} (grew : Grew env fs dirs w)
    (wider : ∀ loc, dirs loc → more loc) : Grew env fs more w :=
  ⟨grew.env_eq, fun loc => (grew.node_eq loc).imp_right fun isNew => ⟨wider loc isNew.1, isNew.2⟩⟩

/-- What grew from a tree with one new directory grew from the tree without it. -/
theorem Grew.of_put {dirs : Loc → Prop} {w : World} {next : Loc} (free : fs.Free next)
    (absent : fs.node next = none) (grew : Grew env (fs.put next .dir) dirs w) :
    Grew env fs (fun loc => loc = next ∨ dirs loc) w := by
  have isNew : (fs.put next .dir).IsDir next := FileSystem.node_put_same free _
  refine ⟨grew.env_eq, fun loc => ?_⟩
  by_cases here : loc = next
  · subst here
    exact Or.inr ⟨Or.inl rfl, absent, grew.isDir isNew⟩
  · rw [← FileSystem.node_put_ne fs here .dir]
    exact (grew.node_eq loc).imp_right fun isNew =>
      ⟨Or.inr isNew.1, isNew.2⟩

/-- A step from a directory leads to what is there, or to a name that is free. -/
theorem step_isDir {cur next : Loc} {piece : Bytes} (isDir : fs.IsDir cur)
    (step : cur.step piece = some next) (absent : fs.node next = none) : fs.Free next := by
  unfold Loc.step at step
  split at step
  · obtain rfl := Option.some.inj step
    rw [isDir] at absent
    cases absent
  · split at step
    · obtain rfl := Option.some.inj step
      rw [FileSystem.isDir_dropLast isDir] at absent
      cases absent
    · split at step
      · obtain rfl := Option.some.inj step
        refine ⟨?_, fun there => ?_⟩
        · rw [List.dropLast_concat]
          exact isDir
        · rw [there] at absent
          cases absent
      · cases step

/-- **Creating the directories along the pieces of a path**, where no file is in the way. -/
theorem calm_mkdirs (calm : env.Calm) (pieces : List Bytes) :
    ∀ {cur loc : Loc} {fs : FileSystem}, pieces.foldlM Loc.step cur = some loc → fs.IsDir cur →
      (∀ passed ∈ visited cur pieces, fs.content passed = none) →
      Triple (Stands env fs) (mkdirs cur pieces)
        (fun _ w => Grew env fs (· ∈ visited cur pieces) w ∧ w.fs.walk cur pieces = some loc ∧
          w.fs.IsDir loc) Never := by
  induction pieces with
  | nil =>
    intro cur loc fs lexical isDir _
    obtain rfl := Option.some.inj lexical
    refine Triple.pure fun w stands => ⟨stands.grew _, rfl, ?_⟩
    rw [stands.fs_eq]
    exact isDir
  | cons piece rest ih =>
    intro cur loc fs lexical isDir clear
    obtain ⟨next, step, lexical⟩ : ∃ next, cur.step piece = some next ∧
        rest.foldlM Loc.step next = some loc := by
      rw [List.foldlM_cons] at lexical
      exact Option.bind_eq_some_iff.mp lexical
    have passed : visited cur (piece :: rest) = next :: visited next rest := by
      rw [visited, step]
    rw [passed] at clear ⊢
    refine Triple.bind (calm_call calm) fun _ => Triple.given fun _ => ?_
    refine Triple.bind (stands_observe (a := fs) fun _ stands => stands.fs_eq) fun seen => ?_
    refine Triple.given fun isSeen => ?_
    subst isSeen
    refine Triple.ite (fun _ => ?_) fun blocked => absurd isDir blocked
    rw [step]
    -- what the rest of the walk does from a tree in which `next` is a directory
    have continues : ∀ {between : FileSystem}, between.IsDir next →
        (∀ other, other ≠ next → between.node other = seen.node other) →
        Triple (Stands env between) (mkdirs next rest)
          (fun _ w => Grew env between (· ∈ visited next rest) w ∧
            w.fs.walk cur (piece :: rest) = some loc ∧ w.fs.IsDir loc) Never := by
      intro between there others
      have curThere : between.IsDir cur := by
        by_cases same : cur = next
        · exact same ▸ there
        · rw [FileSystem.IsDir, others cur same]
          exact isDir
      refine (ih lexical there fun loc member => ?_).post fun _ w outcome => ?_
      · by_cases same : loc = next
        · rw [same, FileSystem.content, there]
        · rw [FileSystem.content, others loc same]
          exact clear loc (List.mem_cons_of_mem _ member)
      · refine ⟨outcome.1, ?_, outcome.2.2⟩
        rw [FileSystem.walk, if_pos (outcome.1.isDir curThere), step]
        exact outcome.2.1
    dsimp only
    cases found : seen.node next with
    | none =>
      have free := step_isDir isDir step found
      have others (other : Loc) (different : other ≠ next) :
          (seen.put next .dir).node other = seen.node other :=
        FileSystem.node_put_ne _ different _
      have isNew : (seen.put next .dir).IsDir next := FileSystem.node_put_same free _
      refine Triple.bind (M := fun _ => Stands env (seen.put next .dir)) (Triple.update ?_) fun _ =>
        (continues isNew others).post fun _ w outcome => ⟨?_, outcome.2⟩
      · rintro w ⟨rfl, rfl⟩
        exact ⟨rfl, rfl⟩
      · exact (outcome.1.of_put free found).wider fun loc member => List.mem_cons.mpr member
    | some node =>
      cases node with
      | dir =>
        refine (continues found fun _ _ => rfl).post fun _ w outcome => ⟨?_, outcome.2⟩
        exact outcome.1.wider fun loc member => List.mem_cons_of_mem _ member
      | file content modified =>
        have noFile := clear next List.mem_cons_self
        rw [FileSystem.content, found] at noFile
        cases noFile

theorem calm_createDirAll (calm : env.Calm) {path : Path} {loc : Loc}
    (lexical : path.lexical env.cwd = some loc) (start : fs.IsDir (path.start env.cwd))
    (clear : ∀ passed ∈ visited (path.start env.cwd) path.pieces, fs.content passed = none) :
    Triple (Stands env fs) (createDirAll path)
      (fun _ w => Grew env fs (· ∈ visited (path.start env.cwd) path.pieces) w ∧
        w.fs.resolve env.cwd path = some loc ∧ w.fs.IsDir loc) Never := by
  refine Triple.bind (stands_observe (a := env.cwd) ?_) fun cwd => Triple.given fun same => ?_
  · rintro w ⟨rfl, rfl⟩
    rfl
  · subst same
    exact calm_mkdirs calm path.pieces lexical start clear

end Calm

end SendRs
