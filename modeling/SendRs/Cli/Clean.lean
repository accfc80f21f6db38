/-
**Cleaning up.**

`cmd_clean` removes the session directories, the offers, the manifests and the history, or some of
them; without flags, the first two.

* `cmdClean_keeps`: whatever fails, and whatever the other processes do elsewhere, nothing is lost but
  what is at or below the entries that the flags select;
* `cmdClean_exact`: in calm surroundings exactly that is gone.
-/

import SendRs.Cli.Paths
import SendRs.Library.Ghost
import SendRs.Os.Remove
import SendRs.Store.Json

namespace SendRs.Cli

open Effect

/-- `remove_path_if_exists`. -/
def removePathIfExists (path : Path) : Sys Unit := do
  let there ← pathExists path
  if there then do
    let isDir ← metadataIsDir path
    if isDir then withContext ("remove dir " ++ path.display) (removeDirAll path)
    else withContext ("remove file " ++ path.display) (removeFile path)
  else pure ()

/-- The flags of `clean`. -/
structure CleanFlags where
  all : Bool
  sessions : Bool
  offers : Bool
  manifests : Bool
  history : Bool
deriving DecidableEq

/-- One of the four branches of `cmd_clean`. -/
def cleanIf (should : Bool) (path : Path) (label : String) : Sys (List String) :=
  if should then do
    removePathIfExists path
    pure [label]
  else pure []

/-- `cmd_clean`, with the line that it prints. -/
def cmdClean (home : Path) (flags : CleanFlags) : Sys String := do
  let noFlags := !flags.all && !flags.sessions && !flags.offers && !flags.manifests && !flags.history
  let sessions ← cleanIf (flags.all || flags.sessions || noFlags) (sessionsRoot home) "sessions"
  let offers ← cleanIf (flags.all || flags.offers || noFlags) (offersRoot home) "offers"
  let manifests ← cleanIf (flags.all || flags.manifests) (manifestsRoot home) "manifests"
  let history ← cleanIf (flags.all || flags.history) (historyPath home) "history"
  pure ("cleaned: " ++ ", ".intercalate (sessions ++ offers ++ manifests ++ history))

/-! ### What the flags select -/

/-- What may be cleaned. -/
inductive CleanTarget where
  | sessions
  | offers
  | manifests
  | history
deriving DecidableEq

namespace CleanTarget

def name : CleanTarget → Name
  | sessions => sessionsName
  | offers => offersName
  | manifests => manifestsName
  | history => historyName

def label : CleanTarget → String
  | sessions => "sessions"
  | offers => "offers"
  | manifests => "manifests"
  | history => "history"

/-- The entry in the data directory. -/
def path (home : Path) (target : CleanTarget) : Path := down home [sendrsName, target.name]

end CleanTarget

/-- No flag is set. -/
def CleanFlags.bare (flags : CleanFlags) : Prop := flags = ⟨false, false, false, false, false⟩

instance (flags : CleanFlags) : Decidable flags.bare := inferInstanceAs (Decidable (_ = _))

/-- What is cleaned: everything, or what the flags name; without flags, the sessions and the offers. -/
def CleanFlags.selects (flags : CleanFlags) : CleanTarget → Prop
  | .sessions => flags.all ∨ flags.sessions ∨ flags.bare
  | .offers => flags.all ∨ flags.offers ∨ flags.bare
  | .manifests => flags.all ∨ flags.manifests
  | .history => flags.all ∨ flags.history

instance (flags : CleanFlags) : ∀ target, Decidable (flags.selects target)
  | .sessions => inferInstanceAs (Decidable (_ ∨ _ ∨ _))
  | .offers => inferInstanceAs (Decidable (_ ∨ _ ∨ _))
  | .manifests => inferInstanceAs (Decidable (_ ∨ _))
  | .history => inferInstanceAs (Decidable (_ ∨ _))

/-- The same, in the order of the source. -/
def CleanFlags.targets (flags : CleanFlags) : List CleanTarget :=
  [.sessions, .offers, .manifests, .history].filter fun target => flags.selects target

theorem mem_targets {flags : CleanFlags} {target : CleanTarget} :
    target ∈ flags.targets ↔ flags.selects target := by
  unfold CleanFlags.targets
  rw [List.mem_filter, decide_eq_true_iff]
  refine and_iff_right ?_
  cases target <;> simp

/-- **The four branches** are a loop over what is selected. -/
theorem cmdClean_eq (home : Path) (flags : CleanFlags) :
    cmdClean home flags = (do
      flags.targets.forM fun target => removePathIfExists (target.path home)
      pure ("cleaned: " ++ ", ".intercalate (flags.targets.map CleanTarget.label))) := by
  unfold cmdClean
  rw [sessionsRoot_eq, offersRoot_eq, manifestsRoot_eq, historyPath_eq]
  obtain ⟨all, sessions, offers, manifests, history⟩ := flags
  cases all <;> cases sessions <;> cases offers <;> cases manifests <;> cases history <;>
    simp [cleanIf, CleanFlags.targets, CleanFlags.selects, CleanFlags.bare, CleanTarget.path,
      CleanTarget.name, CleanTarget.label]

/-! ### What stays, whatever happens -/

section Keeps

variable {env : Surroundings} {kept : Loc → Node → Prop}

theorem keeps_pathExists (spares : env.Spares kept) (path : Path) :
    Keeps (Holds env kept) (pathExists path) :=
  Triple.bind (keeps_turn spares) fun _ =>
    Triple.bind (M := fun _ => Holds env kept) (Triple.observe fun _ holds => holds) fun _ =>
      Triple.pure fun _ holds => holds

/-- **Removing what a path leads to** leaves what is elsewhere alone. -/
theorem keeps_removePathIfExists (spares : env.Spares kept) {path : Path}
    (elsewhere : ∀ loc, path.lexical env.cwd = some loc → Beyond kept loc) :
    Keeps (Holds env kept) (removePathIfExists path) := by
  refine Triple.bind (keeps_pathExists spares path) fun _ => ?_
  refine Triple.ite (fun _ => ?_) fun _ => Triple.pure fun _ holds => holds
  refine Triple.bind (keeps_metadataIsDir spares path) fun _ => ?_
  refine Triple.ite (fun _ => ?_) fun _ => ?_
  · exact Triple.context (keeps_removeDirAll spares elsewhere)
  · exact Triple.context (keeps_removeFile spares elsewhere)

/-- **Nothing but what is selected is lost**, whatever fails and whatever the others do elsewhere: what
is kept is neither at nor below an entry of the data directory that the flags select. -/
theorem cmdClean_keeps (home : Path) (flags : CleanFlags) (spares : env.Spares kept)
    (apart : ∀ homeLoc, home.lexical env.cwd = some homeLoc → ∀ target, flags.selects target →
      ∀ loc there, kept loc there → ¬ homeLoc ++ [sendrsName, target.name] <+: loc) :
    Keeps (Holds env kept) (cmdClean home flags) := by
  rw [cmdClean_eq]
  refine Triple.bind (Triple.forM (fun _ => Holds env kept) fun i inside => ?_) fun _ =>
    Triple.pure fun _ holds => holds
  have selected := mem_targets.mp (List.getElem_mem inside)
  refine keeps_removePathIfExists spares fun loc lexical => ?_
  -- the home directory denotes a location if an entry below it does
  have parts : (home.pieces ++ [sendrsName.bytes, flags.targets[i].name.bytes]).foldlM Loc.step
      (home.start env.cwd) = some loc := lexical
  rw [List.foldlM_append] at parts
  obtain ⟨homeLoc, isHome, _⟩ := Option.bind_eq_some_iff.mp parts
  have isRoot : (flags.targets[i].path home).lexical env.cwd =
      some (homeLoc ++ [sendrsName, flags.targets[i].name]) := lexical_down isHome _
  obtain rfl := Option.some.inj (lexical.symm.trans isRoot)
  exact apart homeLoc isHome _ selected

end Keeps

/-! ### What goes, when nothing fails -/

/-- The home directory is where its path leads, and the path does not pass through the data directory. -/
structure HomeDir (fs : FileSystem) (cwd : Loc) (home : Path) (homeLoc : Loc) : Prop where
  leads : fs.resolve cwd home = some homeLoc
  outside : ∀ stop ∈ stops (home.start cwd) home.pieces, ¬ homeLoc ++ [sendrsName] <+: stop

section Calm

variable {env : Surroundings} {fs : FileSystem} {home : Path} {homeLoc : Loc}

/-- The home directory is still there when something in the data directory has changed. -/
theorem HomeDir.congr (homeDir : HomeDir fs env.cwd home homeLoc) {other : FileSystem}
    (same : ∀ loc, ¬ homeLoc ++ [sendrsName] <+: loc → other.node loc = fs.node loc) :
    HomeDir other env.cwd home homeLoc := by
  refine ⟨?_, homeDir.outside⟩
  obtain ⟨leads, dirs⟩ := (FileSystem.walk_eq_some _).mp homeDir.leads
  refine (FileSystem.walk_eq_some _).mpr ⟨leads, fun stop member => ?_⟩
  exact (same stop (homeDir.outside stop member)).trans (dirs stop member)

theorem calm_removePathIfExists (calm : env.Calm) (homeDir : HomeDir fs env.cwd home homeLoc)
    (names : List Name) (last : Name) :
    Triple (Stands env fs) (removePathIfExists (down home (names ++ [last])))
      (fun _ => Cut env fs (homeLoc ++ (names ++ [last]) <+: ·)) Never := by
  refine Triple.bind (calm_pathExists calm _) fun there => Triple.given fun isThere => ?_
  cases found : fs.node (homeLoc ++ (names ++ [last])) with
  | none =>
    have absent : there = false := by
      rw [isThere]
      cases leads : fs.resolve env.cwd (down home (names ++ [last])) with
      | none => rfl
      | some target =>
        have lexical := FileSystem.lexical_of_resolve homeDir.leads
        rw [loc_of_resolve_down lexical leads, Option.bind_some, found]
        rfl
    subst absent
    refine Triple.pure fun w stands => ⟨stands.env_eq, fun loc gone => ?_, fun loc _ => ?_⟩
    · rw [stands.fs_eq]
      obtain ⟨below, rfl⟩ := gone
      by_contra present
      obtain ⟨deeper, found'⟩ := Option.ne_none_iff_exists'.mp present
      by_cases here : below = []
      · rw [here, List.append_nil, found] at found'
        cases found'
      · have isDir := FileSystem.isDir_prefix below here found'
        rw [FileSystem.IsDir, found] at isDir
        cases isDir
    · rw [stands.fs_eq]
  | some node =>
    have parent : fs.IsDir (homeLoc ++ names) := by
      rw [← List.append_assoc] at found
      exact FileSystem.isDir_prefix [last] (List.cons_ne_nil _ _) found
    have leads : fs.resolve env.cwd (down home (names ++ [last])) = some (homeLoc ++ (names ++ [last])) :=
      resolve_down homeDir.leads parent
    have present : there = true := by
      rw [isThere, leads, Option.bind_some, found]
      rfl
    subst present
    refine Triple.bind (calm_metadataIsDir calm leads found) fun isDir => Triple.given fun answer => ?_
    subst answer
    cases node with
    | dir =>
      have isDir : fs.IsDir (homeLoc ++ (names ++ [last])) := found
      rw [decide_eq_true isDir]
      exact Triple.context (calm_removeDirAll calm leads (by simp) isDir)
    | file content modified =>
      have noDir : ¬ fs.IsDir (homeLoc ++ (names ++ [last])) := by
        rw [FileSystem.IsDir, found]
        simp
      rw [decide_eq_false noDir]
      exact Triple.context (calm_removeFile calm leads (FileSystem.content_eq_some.mpr ⟨modified, found⟩))

/-- Some entries of the data directory, one after the other. -/
theorem calm_cleanAll (calm : env.Calm) (targets : List CleanTarget) :
    ∀ {fs : FileSystem}, HomeDir fs env.cwd home homeLoc →
      Triple (Stands env fs) (targets.forM fun target => removePathIfExists (target.path home))
        (fun _ => Cut env fs fun loc =>
          ∃ target ∈ targets, homeLoc ++ [sendrsName, target.name] <+: loc) Never := by
  induction targets with
  | nil =>
    intro fs _
    exact Triple.pure fun _ stands => stands.cut.congr fun loc => by simp
  | cons target targets ih =>
    intro fs homeDir
    refine Triple.bind (calm_removePathIfExists calm homeDir [sendrsName] target.name) fun _ w cut => ?_
    have homeStill : HomeDir w.fs env.cwd home homeLoc := homeDir.congr fun loc outside => by
      refine cut.node_eq loc fun below => outside ?_
      rw [List.singleton_append, List.append_cons] at below
      exact (List.prefix_append _ _).trans below
    refine ((ih homeStill).post fun _ w' further => ?_) w ⟨cut.env_eq, rfl⟩
    refine (Cut.trans (fun loc => ⟨cut.gone_eq loc, cut.node_eq loc⟩) further).congr fun loc => ?_
    rw [List.exists_mem_cons_iff]
    rfl

/-- **Exactly what is selected is gone** in calm surroundings, and the line names it. -/
theorem cmdClean_exact (calm : env.Calm) (homeDir : HomeDir fs env.cwd home homeLoc)
    (flags : CleanFlags) :
    Triple (Stands env fs) (cmdClean home flags)
      (fun line w => line = "cleaned: " ++ ", ".intercalate (flags.targets.map CleanTarget.label) ∧
        Cut env fs (fun loc => ∃ target, flags.selects target ∧
          homeLoc ++ [sendrsName, target.name] <+: loc) w) Never := by
  rw [cmdClean_eq]
  refine Triple.bind (calm_cleanAll calm flags.targets homeDir) fun _ =>
    Triple.pure fun w cut => ⟨rfl, cut.congr fun loc => ?_⟩
  simp only [mem_targets]

end Calm

/-! ### A data directory -/

/-- A directory `.sendrs` with a session, an offer, the manifest `m` and an identity `i`. -/
def dataTree : FileSystem :=
  (((((FileSystem.empty.put [sendrsName] .dir).put [sendrsName, sessionsName] .dir).put
    [sendrsName, sessionsName, nameOf "s" (by decide)] .dir).put
      [sendrsName, sessionsName, nameOf "s" (by decide), claimName] (.file [123, 125] 1)).put
        [sendrsName, manifestsName] .dir).put [sendrsName, nameOf "i" (by decide)] (.file [123, 125] 2)

/-- A program whose third call fails, while another one leaves a file where the sessions are. -/
def brokenEnv : Surroundings where
  cwd := []
  unlistable _ := false
  turns k := {
    edit := fun fs => fs.put [sendrsName, sessionsName, nameOf "t" (by decide)] (.file [] 3)
    fault := if k = 2 then some .before else none
    grant := 1024
    now := 1
    uuid := "0b0c1d5e-8a52-4a7e-9c43-2f7d1c9e3a60" }

/-- What is kept: the identity. -/
def identityKept (loc : Loc) (there : Node) : Prop :=
  loc = [sendrsName, nameOf "i" (by decide)] ∧ there = .file [123, 125] 2

/-- The removal of the sessions fails, and the identity is still there. -/
theorem cmdClean_keeps_broken :
    returned (cmdClean (.ofString "/") ⟨true, false, false, false, false⟩) ⟨brokenEnv, dataTree, 0⟩ =
      none ∧
    (final (cmdClean (.ofString "/") ⟨true, false, false, false, false⟩)
      ⟨brokenEnv, dataTree, 0⟩).fs.node [sendrsName, nameOf "i" (by decide)] =
        some (.file [123, 125] 2) := by
  have spares : brokenEnv.Spares identityKept := by
    rintro loc there ⟨rfl, _⟩ k fs
    exact FileSystem.node_put_ne fs (by decide) _
  have holds : Holds brokenEnv identityKept ⟨brokenEnv, dataTree, 0⟩ := by
    refine ⟨rfl, ?_⟩
    rintro loc there ⟨rfl, rfl⟩
    decide +kernel
  refine ⟨by decide +kernel, ?_⟩
  have kept := cmdClean_keeps (.ofString "/") ⟨true, false, false, false, false⟩ spares ?_
  · rcases ends_final (cmdClean (.ofString "/") ⟨true, false, false, false, false⟩)
      ⟨brokenEnv, dataTree, 0⟩ with ⟨line, ends⟩ | ⟨error, ends⟩
    · exact (kept.of_ok holds ends).node_eq _ _ ⟨rfl, rfl⟩
    · have outcome := kept _ holds
      rw [ends] at outcome
      exact outcome.node_eq _ _ ⟨rfl, rfl⟩
  · intro homeLoc isHome target _ loc there kept below
    have root : (Path.ofString "/").lexical [] = some [] := by decide +kernel
    obtain rfl := Option.some.inj (isHome.symm.trans root)
    obtain ⟨rfl, _⟩ := kept
    cases target <;> exact absurd below (by decide)

/-- Nothing fails and nobody else is at work. -/
def quietEnv : Surroundings where
  cwd := []
  unlistable _ := false
  turns _ := ⟨id, none, 1024, 1, "0b0c1d5e-8a52-4a7e-9c43-2f7d1c9e3a60"⟩

theorem quiet_calm : quietEnv.Calm := ⟨fun _ _ => rfl, fun _ => rfl⟩

/-- Without flags, the sessions go, and the manifests stay. -/
theorem cmdClean_exact_bare :
    ∃ w, cmdClean (.ofString "/") ⟨false, false, false, false, false⟩ ⟨quietEnv, dataTree, 0⟩ =
        .ok "cleaned: sessions, offers" w ∧
      w.fs.node [sendrsName, sessionsName] = none ∧
      w.fs.node [sendrsName, sessionsName, nameOf "s" (by decide), claimName] = none ∧
      w.fs.IsDir [sendrsName, manifestsName] := by
  have homeDir : HomeDir dataTree quietEnv.cwd (.ofString "/") [] := ⟨by decide +kernel, by decide +kernel⟩
  obtain ⟨line, w, ends, isLine, cut⟩ :=
    (cmdClean_exact quiet_calm homeDir ⟨false, false, false, false, false⟩).returns
      (⟨rfl, rfl⟩ : Stands quietEnv dataTree ⟨quietEnv, dataTree, 0⟩)
  refine ⟨w, ?_, cut.gone_eq _ ⟨.sessions, by decide, by decide⟩,
    cut.gone_eq _ ⟨.sessions, by decide, by decide⟩, (cut.node_eq _ ?_).trans (by decide +kernel)⟩
  · rw [ends, isLine]
    rfl
  · rintro ⟨target, selected, below⟩
    cases target
    · exact absurd below (by decide)
    · exact absurd below (by decide)
    · exact absurd selected (by decide)
    · exact absurd below (by decide)

end SendRs.Cli
