/-
**Where a transfer writes.**

The paths of the destinations are joined from the target root and the strings of the manifest, and a
string may be absolute, or lead up. `StaysInside` says that it does not matter: every destination is
under the target root, and so is every directory that has to be created on the way to one.

Result: `transfer_inside_iff`. With such a manifest a run changes nothing outside of the target root
but the checkpoint, whatever fails; and a run that returns and changes nothing there was called with
such a manifest.

* `inside_frame` is the frame of the first part;
* `Footprint` is what a run that goes well leaves behind: directories on the way to every destination,
  and a destination that is stamped with the clock.
-/

import SendRs.Transfer.Checkpoints
import SendRs.Transfer.Completeness
import SendRs.Transfer.Frame

namespace SendRs

open Effect

/-- The location is not under the target root, and not that of the checkpoint. -/
def Elsewhere (cwd : Loc) (job : Job) (loc : Loc) : Prop :=
  (∀ root ∈ job.target.lexical cwd, ¬ root <+: loc) ∧
    ∀ path ∈ job.checkpoint, path.lexical cwd ≠ some loc

instance (cwd : Loc) (job : Job) (loc : Loc) : Decidable (Elsewhere cwd job loc) :=
  inferInstanceAs (Decidable (_ ∧ _))

/-- Every destination is under the target root, and every directory that is passed on the way to one
is, or is there. -/
structure StaysInside (w : World) (job : Job) (layout : Option Bool) (m : TransferManifest) :
    Prop where
  target : ∀ loc ∈ passed w job.target, Elsewhere w.env.cwd job loc → w.fs.node loc ≠ none
  parents : ∀ single ∈ layout, ∀ path ∈ parentPaths job single m, ∀ loc ∈ passed w path,
    Elsewhere w.env.cwd job loc → w.fs.node loc ≠ none
  destinations : ∀ single ∈ layout, ∀ entry ∈ m.entries,
    ∀ loc ∈ destLoc w.env.cwd job.target m.rootName single entry, ¬ Elsewhere w.env.cwd job loc

/-- Nothing elsewhere was created, resized or written. -/
def Inside (w w' : World) (job : Job) : Prop :=
  ∀ loc, Elsewhere w.env.cwd job loc → w'.fs.node loc = w.fs.node loc

/-- The parent of a destination is one of the paths. -/
theorem mem_parentPaths {job : Job} {single : Bool} {m : TransferManifest} {path : Path} :
    path ∈ parentPaths job single m ↔ path = job.target ∨ ∃ entry ∈ m.entries,
      (destFilePath job.target m.rootName single entry.relativePath).parent = some path := by
  rw [parentPaths, List.mem_cons, List.mem_filterMap]

/-! ### What stays inside -/

section Inside

variable {platform : Platform} {job : Job} {w : World}

/-- What may be done without a change elsewhere. -/
theorem inside_frame (quiet : ∀ loc, Elsewhere w.env.cwd job loc → w.env.SparesLoc loc) :
    Frame w.env (fun w' => w'.env = w.env ∧ Inside w w' job)
      (fun loc => Elsewhere w.env.cwd job loc → w.fs.node loc ≠ none)
      (fun loc => ¬ Elsewhere w.env.cwd job loc) := by
  refine ⟨fun _ holds => holds.1, ?_, ?_, ?_⟩
  · rintro w' ⟨sameEnv, inside⟩
    refine ⟨sameEnv, fun loc elsewhere => ?_⟩
    show ((w'.env.turns w'.clock).edit w'.fs).node loc = _
    rw [sameEnv]
    exact (quiet loc elsewhere w'.clock w'.fs).trans (inside loc elsewhere)
  · rintro w' target new may absent ⟨sameEnv, inside⟩
    refine ⟨sameEnv, fun loc elsewhere => ?_⟩
    have different : loc ≠ target := by
      rintro rfl
      exact may elsewhere ((inside loc elsewhere).symm.trans absent)
    exact (FileSystem.node_put_ne _ different _).trans (inside loc elsewhere)
  · rintro w' target content k may ⟨sameEnv, inside⟩
    refine ⟨sameEnv, fun loc elsewhere => ?_⟩
    have different : loc ≠ target := by
      rintro rfl
      exact may elsewhere
    exact (FileSystem.node_put_ne _ different _).trans (inside loc elsewhere)

/-- **A run stays inside**, whatever fails. -/
theorem inside_of_staysInside {t t' : Transfer}
    (quiet : ∀ loc, Elsewhere t.world.env.cwd job loc → t.world.env.SparesLoc loc)
    (stays : StaysInside t.world job (layout job t) t.manifest)
    (ends : Ends (executeLocalTransfer platform job) t t') : Inside t.world t'.world job := by
  have frame := inside_frame (w := t.world) quiet
  have checkpoint (path : Path) (saved : job.checkpoint = some path) (loc : Loc)
      (denotes : path.lexical t.world.env.cwd = some loc) :
      ¬ Elsewhere t.world.env.cwd job loc := fun elsewhere => elsewhere.2 path saved denotes
  have scope (single : Bool) (isLayout : single ∈ layout job t) :
      Scope t.world.env.cwd job single t.manifest
        fun loc => Elsewhere t.world.env.cwd job loc → t.world.fs.node loc ≠ none := by
    refine ⟨fun entry member parent isParent => ?_, fun entry member loc dest elsewhere => ?_⟩
    · exact stays.parents single isLayout parent (mem_parentPaths.mpr (Or.inr ⟨entry, member, isParent⟩))
    · exact absurd elsewhere (stays.destinations single isLayout entry member loc dest)
  have holds := RunFrame.of_ends frame stays.target
    (fun single isLayout => RunFrame.plain frame (scope single isLayout)
      (fun entry member loc dest => frame.fillable
        (stays.destinations single isLayout entry member loc dest) _ _) checkpoint)
    (fun t₁ same inside => ⟨inside, by rw [same]⟩) ⟨rfl, fun _ _ => rfl⟩ ends
  exact holds.1.2

end Inside

/-! ### What a run that goes well leaves behind -/

/-- Directories that are there, and files with a stamp of the clock. -/
structure Footprint (env : Surroundings) (dirs files : Loc → Prop) (w : World) : Prop where
  env_eq : w.env = env
  isDir : ∀ loc, dirs loc → w.fs.IsDir loc
  stamped : ∀ loc, files loc → ∃ content k, w.fs.node loc = some (.file content (env.turns k).now)

/-- The directories on the way to the target and to the first `n` destinations. -/
def PassedUpTo (cwd : Loc) (job : Job) (single : Bool) (m : TransferManifest) (n : Nat) (loc : Loc) :
    Prop :=
  loc ∈ visited (job.target.start cwd) job.target.pieces ∨ ∃ i < n, ∃ entry parent,
    m.entries[i]? = some entry ∧
    (destFilePath job.target m.rootName single entry.relativePath).parent = some parent ∧
    loc ∈ visited (parent.start cwd) parent.pieces

/-- The first `n` destinations. -/
def WrittenUpTo (cwd : Loc) (job : Job) (single : Bool) (m : TransferManifest) (n : Nat) (loc : Loc) :
    Prop :=
  ∃ i < n, ∃ entry, m.entries[i]? = some entry ∧
    destLoc cwd job.target m.rootName single entry = some loc

section Footprint

variable {platform : Platform} {env : Surroundings} {job : Job} {single : Bool}
  {m : TransferManifest} {dirs files : Loc → Prop} {bytesTotal : Nat}

theorem Footprint.mono {less fewer : Loc → Prop} {w : World} (footprint : Footprint env dirs files w)
    (isDir : ∀ loc, less loc → dirs loc) (stamped : ∀ loc, fewer loc → files loc) :
    Footprint env less fewer w :=
  ⟨footprint.env_eq, fun loc here => footprint.isDir loc (isDir loc here),
    fun loc here => footprint.stamped loc (stamped loc here)⟩

/-- A file that is written is stamped, wherever it is. -/
theorem Footprint.write {w : World} (footprint : Footprint env dirs files w) (target : Loc) (content : Bytes)
    (k : Nat) : Footprint env dirs files
      { w with fs := w.fs.put target (.file content (env.turns k).now) } := by
  refine ⟨footprint.env_eq, fun loc here => FileSystem.isDir_put (footprint.isDir loc here),
    fun loc here => ?_⟩
  obtain ⟨old, k', there⟩ := footprint.stamped loc here
  by_cases same : loc = target
  · subst same
    exact ⟨content, k, FileSystem.node_put_same (FileSystem.free_of_file there) _⟩
  · exact ⟨old, k', (FileSystem.node_put_ne w.fs same _).trans there⟩

/-- Whatever a run does, the directories stay, and the stamped files are stamped. -/
theorem footprint_frame (still : env.Still) (dirs files : Loc → Prop) :
    Frame env (Footprint env dirs files) (fun _ => True) fun _ => True := by
  refine ⟨fun _ footprint => footprint.env_eq, ?_, ?_, fun w loc content k _ footprint =>
    footprint.write loc content k⟩
  · rintro w ⟨rfl, isDir, stamped⟩
    show Footprint w.env dirs files ⟨w.env, (w.env.turns w.clock).edit w.fs, w.clock + 1⟩
    rw [still w.clock w.fs]
    exact ⟨rfl, isDir, stamped⟩
  · rintro w target new _ absent ⟨sameEnv, isDir, stamped⟩
    refine ⟨sameEnv, fun loc here => FileSystem.isDir_put (isDir loc here), fun loc here => ?_⟩
    obtain ⟨content, k, there⟩ := stamped loc here
    have different : loc ≠ target := by
      rintro rfl
      rw [absent] at there
      cases there
    exact ⟨content, k, (FileSystem.node_put_ne w.fs different new).trans there⟩

/-- The directories along the pieces of a path are there when all were created. -/
theorem mkdirs_footprint (still : env.Still) (pieces : List Bytes) :
    ∀ (cur : Loc) (dirs : Loc → Prop), Triple (Footprint env dirs files) (mkdirs cur pieces)
      (fun _ => Footprint env (fun loc => dirs loc ∨ loc ∈ visited cur pieces) files)
      fun _ _ => True := by
  induction pieces with
  | nil =>
    exact fun cur dirs => Triple.pure fun _ footprint =>
      footprint.mono (fun loc here => here.resolve_right List.not_mem_nil) fun _ here => here
  | cons piece rest ih =>
    intro cur dirs
    refine Triple.bind (footprint_frame still dirs files).call.onSuccess fun _ => ?_
    refine Triple.bind (M := fun fs w => fs = w.fs ∧ Footprint env dirs files w)
      (Triple.observe fun w holds => ⟨rfl, holds⟩) fun fs => ?_
    refine Triple.ite (fun isDir => ?_) fun _ => Triple.throw fun _ _ => trivial
    cases step : cur.step piece with
    | none => exact Triple.throw fun _ _ => trivial
    | some next =>
      rw [visited, step]
      have onwards : Triple (Footprint env (fun loc => dirs loc ∨ loc = next) files)
          (mkdirs next rest)
          (fun _ => Footprint env (fun loc => dirs loc ∨ loc ∈ next :: visited next rest) files)
          fun _ _ => True :=
        (ih next _).post fun _ _ footprint => footprint.mono (fun loc here => by
          rwa [or_assoc, ← List.mem_cons]) fun _ here => here
      dsimp only
      cases found : fs.node next with
      | some there =>
        cases there with
        | dir =>
          refine onwards.pre ?_
          rintro w ⟨rfl, footprint⟩
          refine ⟨footprint.env_eq, fun loc here => ?_, footprint.stamped⟩
          exact here.elim (footprint.isDir loc) fun same => same ▸ found
        | file content modified => exact Triple.throw fun _ _ => trivial
      | none =>
        refine Triple.bind (Triple.update ?_) fun _ => onwards
        rintro w ⟨rfl, footprint⟩
        have kept := (footprint_frame still dirs files).create w next .dir trivial found footprint
        refine ⟨kept.env_eq, fun loc here => here.elim (kept.isDir loc) fun same => ?_, kept.stamped⟩
        rw [same]
        exact FileSystem.node_put_same (step_isDir isDir step found) _

theorem createDirAll_footprint (still : env.Still) (path : Path) :
    Triple (Footprint env dirs files) (createDirAll path)
      (fun _ => Footprint env (fun loc => dirs loc ∨ loc ∈ visited (path.start env.cwd) path.pieces)
        files)
      fun _ _ => True := by
  refine Triple.bind (M := fun cwd w => cwd = env.cwd ∧ Footprint env dirs files w)
    (Triple.observe fun w footprint => ⟨by rw [footprint.env_eq], footprint⟩) fun cwd => ?_
  refine Triple.given fun same => ?_
  subst same
  exact mkdirs_footprint still path.pieces _ dirs

theorem createParent_footprint (still : env.Still) (path : Path) :
    Triple (Footprint env dirs files) (createParent path)
      (fun _ => Footprint env (fun loc => dirs loc ∨ ∃ parent, path.parent = some parent ∧
        loc ∈ visited (parent.start env.cwd) parent.pieces) files)
      fun _ _ => True := by
  unfold createParent
  cases isParent : path.parent with
  | none =>
    refine Triple.pure fun w footprint => footprint.mono (fun loc here => ?_) fun _ here => here
    rcases here with here | ⟨parent, impossible, _⟩
    · exact here
    · cases impossible
  | some parent =>
    refine Triple.context ((createDirAll_footprint still parent).post fun _ w footprint =>
      footprint.mono (fun loc here => ?_) fun _ here => here)
    exact here.imp_right fun ⟨other, same, passes⟩ => Option.some.inj same ▸ passes

/-- A file whose length was set is stamped. -/
theorem setLen_footprint (still : env.Still) (target : Loc) (size : Nat) :
    Triple (Footprint env dirs files) (setLen target size)
      (fun _ => Footprint env dirs fun loc => files loc ∨ loc = target) fun _ _ => True := by
  have frame := footprint_frame still dirs files
  refine Triple.bind (call_spec frame.env_eq frame.turn).onSuccess fun t =>
    Triple.given fun ⟨k, drawn⟩ => ?_
  subst drawn
  refine Triple.bind (M := fun there w => there = w.fs.content target ∧ Footprint env dirs files w)
    (Triple.observe fun w footprint => ⟨rfl, footprint⟩) fun there => ?_
  cases there with
  | none => exact Triple.throw fun _ _ => trivial
  | some content =>
    refine Triple.update fun w ⟨found, footprint⟩ => ?_
    have written := footprint.write target (content.takeD size 0) k
    refine ⟨written.env_eq, written.isDir, fun loc here => here.elim (written.stamped loc) ?_⟩
    rintro rfl
    obtain ⟨_, there⟩ := FileSystem.content_eq_some.mp found.symm
    exact ⟨_, k, FileSystem.node_put_same (FileSystem.free_of_file there) _⟩

/-- A call from within a run that leaves something else behind. -/
theorem under_call {α : Type} {prog : Sys α} {inv : World → Prop} {answer : α → World → Prop}
    (triple : Triple inv prog answer fun _ _ => True) :
    Triple (Under m fun _ => inv) (lift (sys prog)) (fun a => Under m fun _ => answer a)
      fun _ _ => True := by
  refine Triple.zoom fun s holds => Triple.zoom fun t here => ?_
  subst here
  exact triple.conseq (fun w here => here ▸ holds.1) (fun a w answered => ⟨answered, holds.2⟩)
    fun _ _ _ => trivial

/-- A property of the world that nothing in the run can break. -/
theorem RunFrame.everywhere {inv : World → Prop}
    (frame : Frame env inv (fun _ => True) fun _ => True) :
    RunFrame platform env job single m (fun _ => inv) (Under m fun _ => inv) (fun _ => True)
      fun _ => True :=
  RunFrame.plain frame ⟨fun _ _ _ _ _ _ => trivial, fun _ _ _ _ => trivial⟩
    (fun _ _ _ _ => frame.fillable trivial _ _) fun _ _ _ _ => trivial

/-- **One more destination.** -/
theorem watchedEntry_footprint (still : env.Still) (chunkSize idx : Nat) :
    Triple (Under m fun _ => Footprint env (PassedUpTo env.cwd job single m idx)
        (WrittenUpTo env.cwd job single m idx))
      (watchedEntry platform job single bytesTotal chunkSize idx)
      (fun _ => Under m fun _ => Footprint env (PassedUpTo env.cwd job single m (idx + 1))
        (WrittenUpTo env.cwd job single m (idx + 1)))
      fun _ _ => True := by
  have run (dirs files : Loc → Prop) : RunFrame platform env job single m
      (fun _ => Footprint env dirs files) (Under m fun _ => Footprint env dirs files) (fun _ => True)
      fun _ => True := RunFrame.everywhere (footprint_frame still dirs files)
  refine Triple.bind ((run _ _).note (fun _ _ => rfl) fun _ _ => rfl) fun _ => ?_
  refine Triple.bind (M := fun manifest s => manifest.bare = m.bare ∧
    Under m (fun _ => Footprint env (PassedUpTo env.cwd job single m idx)
      (WrittenUpTo env.cwd job single m idx)) s)
    (Triple.observe fun s holds => ⟨holds.2, holds⟩) fun manifest => Triple.given fun same => ?_
  cases found : manifest.entries[idx]? with
  | none => exact Triple.throw fun _ _ => trivial
  | some entry =>
    obtain ⟨entry', found', sameEntry⟩ := entry_of_bare same found
    have path := destFilePath_bare same sameEntry job.target single
    dsimp only
    rw [path]
    refine Triple.bind ((run _ _).keeps fun _ =>
      (footprint_frame still _ _).isFile _).onSuccess fun sourceIsFile => ?_
    refine Triple.bind (under_call (createParent_footprint still _)) fun _ => ?_
    refine Triple.bind ((run _ _).keeps fun _ => Triple.context
      (((footprint_frame still _ _).openRead _).post fun _ _ opened => opened.2)).onSuccess fun src => ?_
    refine Triple.bind ((run _ _).call fun _ => Triple.context
      ((footprint_frame still _ _).openWrite fun _ _ => trivial)).onSuccess fun dst => ?_
    refine Triple.given fun opened => ?_
    refine Triple.bind (under_call (Triple.context (setLen_footprint still dst _))) fun _ => ?_
    -- the round is not over, but all that it creates is there
    have reached : ∀ s, Under m (fun _ => Footprint env
        (fun loc => PassedUpTo env.cwd job single m idx loc ∨ ∃ parent,
          (destFilePath job.target m.rootName single entry'.relativePath).parent = some parent ∧
          loc ∈ visited (parent.start env.cwd) parent.pieces)
        fun loc => WrittenUpTo env.cwd job single m idx loc ∨ loc = dst) s →
      Under m (fun _ => Footprint env (PassedUpTo env.cwd job single m (idx + 1))
        (WrittenUpTo env.cwd job single m (idx + 1))) s := by
      refine fun s ⟨footprint, bare⟩ => ⟨footprint.mono ?_ ?_, bare⟩
      · rintro loc (target | ⟨i, below, other, parent, here, isParent, passes⟩)
        · exact Or.inl (Or.inl target)
        · rcases Nat.lt_succ_iff_lt_or_eq.mp below with before | rfl
          · exact Or.inl (Or.inr ⟨i, before, other, parent, here, isParent, passes⟩)
          · obtain rfl := Option.some.inj (here.symm.trans found')
            exact Or.inr ⟨parent, isParent, passes⟩
      · rintro loc ⟨i, below, other, here, dest⟩
        rcases Nat.lt_succ_iff_lt_or_eq.mp below with before | rfl
        · exact Or.inl ⟨i, before, other, here, dest⟩
        · obtain rfl := Option.some.inj (here.symm.trans found')
          exact Or.inr (Option.some.inj (dest.symm.trans opened))
    refine Triple.pre ?_ reached
    refine Triple.bind (Triple.forM (fun _ => Under m fun _ => Footprint env
      (PassedUpTo env.cwd job single m (idx + 1)) (WrittenUpTo env.cwd job single m (idx + 1)))
      fun i inside => ((run _ _).watchedChunk (fun _ =>
        (footprint_frame still _ _).fillable trivial _ _) (RunFrame.chunk_listed inside)).onSuccess)
      fun _ => ?_
    refine Triple.bind ((run _ _).note (fun _ _ => rfl) fun _ _ => rfl) fun _ => ?_
    refine Triple.bind ((run _ _).keeps fun _ =>
      (footprint_frame still _ _).hashFile _ _).onSuccess fun hashes => ?_
    exact Triple.ite (fun _ => Triple.throw fun _ _ => trivial) fun _ =>
      RunFrame.changes (fun _ => rfl) fun _ => rfl

/-- **All destinations.** -/
theorem watchedFiles_footprint (still : env.Still) :
    Triple (Under m fun _ => Footprint env (PassedUpTo env.cwd job single m 0)
        (WrittenUpTo env.cwd job single m 0))
      (watchedFiles platform job single)
      (fun _ => Under m fun _ => Footprint env (PassedUpTo env.cwd job single m m.entries.length)
        (WrittenUpTo env.cwd job single m m.entries.length))
      fun _ _ => True := by
  have run (dirs files : Loc → Prop) : RunFrame platform env job single m
      (fun _ => Footprint env dirs files) (Under m fun _ => Footprint env dirs files) (fun _ => True)
      fun _ => True := RunFrame.everywhere (footprint_frame still dirs files)
  refine Triple.bind (M := fun manifest s => manifest.bare = m.bare ∧
    Under m (fun _ => Footprint env (PassedUpTo env.cwd job single m 0)
      (WrittenUpTo env.cwd job single m 0)) s)
    (Triple.observe fun s holds => ⟨holds.2, holds⟩) fun manifest => Triple.given fun same => ?_
  rw [length_bare same]
  refine Triple.bind (RunFrame.changes (fun _ => rfl) fun _ => rfl) fun _ => ?_
  refine Triple.bind ((run _ _).watchedProgress _).onSuccess fun _ => ?_
  refine Triple.bind (Triple.forM_range (fun idx => Under m fun _ =>
    Footprint env (PassedUpTo env.cwd job single m idx) (WrittenUpTo env.cwd job single m idx))
    fun idx _ => watchedEntry_footprint still _ idx) fun _ => ?_
  refine Triple.bind ((run _ _).note (fun _ _ => rfl) fun _ _ => rfl) fun _ => ?_
  exact Triple.bind (run _ _).save.onSuccess fun _ => Triple.observe fun _ holds => holds

/-- The directories on the way to the target are there when the run is started. -/
theorem startTransfer_footprint (still : env.Still) (single : Bool) (m : TransferManifest) :
    Triple (fun t => Footprint env (fun _ => False) (fun _ => False) t.world ∧ t.manifest = m)
      (startTransfer job)
      (fun _ t => Footprint env (PassedUpTo env.cwd job single m 0)
        (WrittenUpTo env.cwd job single m 0) t.world ∧ t.manifest = m)
      fun _ _ => True := by
  have calls {α : Type} {prog : Sys α} {before after : World → Prop}
      (triple : Triple before prog (fun _ => after) fun _ _ => True) :
      Triple (fun t : Transfer => before t.world ∧ t.manifest = m) (sys prog)
        (fun _ t => after t.world ∧ t.manifest = m) fun _ _ => True :=
    Triple.zoom fun t holds => triple.conseq (fun _ here => here ▸ holds.1)
      (fun _ _ after => ⟨after, holds.2⟩) fun _ _ _ => trivial
  have created : Triple (Footprint env (fun _ => False) fun _ => False) (createDirAll job.target)
      (fun _ => Footprint env (PassedUpTo env.cwd job single m 0) (WrittenUpTo env.cwd job single m 0))
      fun _ _ => True := by
    refine (createDirAll_footprint still job.target).post fun _ w footprint => footprint.mono ?_ ?_
    · rintro loc (passes | ⟨i, impossible, _⟩)
      · exact Or.inr passes
      · exact absurd impossible (Nat.not_lt_zero i)
    · rintro loc ⟨i, impossible, _⟩
      exact absurd impossible (Nat.not_lt_zero i)
  refine Triple.bind (calls (Triple.context created)) fun _ => ?_
  refine Triple.bind (calls ((footprint_frame still _ _).isFile _).onSuccess) fun sourceIsFile => ?_
  exact Triple.bind (M := fun _ t => Footprint env (PassedUpTo env.cwd job single m 0)
      (WrittenUpTo env.cwd job single m 0) t.world ∧ t.manifest = m)
    (Triple.observe fun _ holds => holds) fun manifest => Triple.pure fun _ holds => holds

end Footprint

/-! ### The two together -/

/-- The clock of the run never shows a time at which a file was modified before. -/
def FreshClock (w : World) : Prop :=
  ∀ loc content k, w.fs.node loc ≠ some (.file content (w.env.turns k).now)

/-- A run that returns has left directories on the way to every destination, and stamped every
destination. -/
theorem executeLocalTransfer_footprint {platform : Platform} {job : Job} {t t' : Transfer}
    {report : TransferReport} (still : t.world.env.Still)
    (run : executeLocalTransfer platform job t = .ok report t') :
    ∃ single ∈ layout job t, Footprint t.world.env
      (PassedUpTo t.world.env.cwd job single t.manifest t.manifest.entries.length)
      (WrittenUpTo t.world.env.cwd job single t.manifest t.manifest.entries.length) t'.world := by
  cases first : startTransfer job t with
  | error e t₁ =>
    have stops : executeLocalTransfer platform job t = .error e t₁ := bind_of_error first
    rw [stops] at run
    cases run
  | ok single t₁ =>
    have onwards : transferFiles platform job single t₁ = .ok report t' :=
      (bind_of_ok first).symm.trans run
    have erases : Erases (watchedFiles platform job single) (transferFiles platform job single) :=
      watchedFiles_erases single
    have erased := erases ⟨t₁, .start⟩
    rw [onwards] at erased
    obtain ⟨ghost, watched⟩ := erased
    obtain ⟨footprint, sameManifest⟩ := (startTransfer_footprint still single t.manifest).of_ok
      ⟨⟨rfl, fun _ => False.elim, fun _ => False.elim⟩, rfl⟩ first
    refine ⟨single, by rw [layout, returned, first]; rfl, ?_⟩
    exact ((watchedFiles_footprint still).of_ok (s := ⟨t₁, .start⟩) ⟨footprint, by rw [sameManifest]⟩
      watched).1

/-- **A run that leaves everything else alone** was called with a manifest that stays inside. -/
theorem staysInside_of_inside {platform : Platform} {job : Job} {t t' : Transfer}
    {report : TransferReport} (still : t.world.env.Still) (fresh : FreshClock t.world)
    (run : executeLocalTransfer platform job t = .ok report t')
    (inside : Inside t.world t'.world job) :
    StaysInside t.world job (layout job t) t.manifest := by
  obtain ⟨single, isLayout, footprint⟩ := executeLocalTransfer_footprint still run
  have only {other : Bool} (member : other ∈ layout job t) : other = single :=
    Option.some.inj (member.symm.trans isLayout)
  -- a directory that is there after the run was there before
  have there (loc : Loc) (elsewhere : Elsewhere t.world.env.cwd job loc)
      (passes : PassedUpTo t.world.env.cwd job single t.manifest t.manifest.entries.length loc) :
      t.world.fs.node loc ≠ none := by
    intro absent
    have isDir := footprint.isDir loc passes
    rw [FileSystem.IsDir, inside loc elsewhere, absent] at isDir
    cases isDir
  refine ⟨fun loc member elsewhere => there loc elsewhere (Or.inl member), ?_, ?_⟩
  · intro other member path isParent loc passes elsewhere
    obtain rfl := only member
    refine there loc elsewhere ?_
    rcases mem_parentPaths.mp isParent with rfl | ⟨entry, listed, isParent⟩
    · exact Or.inl passes
    · obtain ⟨i, below, found⟩ := List.getElem_of_mem listed
      exact Or.inr ⟨i, below, entry, path, List.getElem?_eq_some_iff.mpr ⟨below, found⟩, isParent,
        passes⟩
  · intro other member entry listed loc dest elsewhere
    obtain rfl := only member
    obtain ⟨i, below, found⟩ := List.getElem_of_mem listed
    obtain ⟨content, k, stamped⟩ := footprint.stamped loc
      ⟨i, below, entry, List.getElem?_eq_some_iff.mpr ⟨below, found⟩, dest⟩
    exact fresh loc content k ((inside loc elsewhere).symm.trans stamped)

/-- **Writes stay inside the target** exactly when the manifest does. If every destination, and every
directory that is missing on the way to one, is under the target root, a run changes nothing else but
the checkpoint, however it ends; and a run that returns changes nothing else only then. -/
theorem transfer_inside_iff {platform : Platform} {job : Job} {t t' : Transfer}
    (quiet : ∀ loc, Elsewhere t.world.env.cwd job loc → t.world.env.SparesLoc loc)
    (ends : Ends (executeLocalTransfer platform job) t t') :
    (StaysInside t.world job (layout job t) t.manifest → Inside t.world t'.world job) ∧
    (∀ report, executeLocalTransfer platform job t = .ok report t' → t.world.env.Still →
      FreshClock t.world →
        (Inside t.world t'.world job ↔ StaysInside t.world job (layout job t) t.manifest)) := by
  refine ⟨fun stays => inside_of_staysInside quiet stays ends, fun report run still fresh => ?_⟩
  exact ⟨staysInside_of_inside still fresh run, fun stays => inside_of_staysInside quiet stays ends⟩

/-- The run on the small tree stays inside, with its checkpoint. -/
theorem transfer_inside_sample :
    ∃ t', executeLocalTransfer samplePlatform checkpointJob sampleTransfer = .ok ⟨2, 2, 1, 1⟩ t' ∧
      Inside sampleWorld t'.world checkpointJob ∧
      StaysInside sampleWorld checkpointJob (some true) (sampleManifest [1]) := by
  obtain ⟨t', run⟩ : ∃ t', executeLocalTransfer samplePlatform checkpointJob sampleTransfer =
      .ok ⟨2, 2, 1, 1⟩ t' := ok_of_returned (by decide +kernel)
  have isLayout := checkpoint_layout
  obtain ⟨stays, _⟩ := transfer_inside_iff (fun _ _ _ _ => rfl) (Or.inl ⟨_, run⟩)
  rw [isLayout] at stays
  have inside : StaysInside sampleWorld checkpointJob (some true) (sampleManifest [1]) :=
    ⟨by decide +kernel, by decide +kernel, by decide +kernel⟩
  exact ⟨t', run, stays inside, inside⟩

theorem climbingName_proper : Name.Proper [46, 46, 92, 46, 46, 92, 111, 92, 120] := by decide

theorem otherName_proper : Name.Proper [111] := by decide

theorem otherFile_proper : Name.Proper [120] := by decide

/-- A file outside of the source and of the target. -/
def otherFile : Loc := [⟨[111], otherName_proper⟩, ⟨[120], otherFile_proper⟩]

/-- A directory `/s` with a file named `..\..\o\x`, and a file `/o/x`. -/
def climbingWorld : World where
  env := sampleEnv
  fs := (((FileSystem.empty.put sampleRoot .dir).put
    (sampleRoot ++ [⟨[46, 46, 92, 46, 46, 92, 111, 92, 120], climbingName_proper⟩])
      (.file [104, 105] 7)).put [⟨[111], otherName_proper⟩] .dir).put otherFile
    (.file [1, 2, 3] 3)
  clock := 0

/-- What is built from `/s`. -/
def climbingManifest : TransferManifest where
  transferId := "0b0c1d5e-8a52-4a7e-9c43-2f7d1c9e3a60"
  rootName := "s"
  chunkSize := 2
  createdAt := 1
  entries := [⟨"../../o/x", 2, 7, sampleHash [104, 105], [sampleHash [104, 105]], [0]⟩]

def climbingTransfer : Transfer := ⟨climbingWorld, climbingManifest, 0, 0, []⟩

/-- **A file outside the target is cut off**: the path that is built for a file climbs out of the
target `/t`. -/
theorem transfer_escapes :
    ∃ w' t', buildManifest samplePlatform (.ofString "/s") 2 climbingWorld = .ok climbingManifest w' ∧
      Ends (executeLocalTransfer samplePlatform sampleJob) climbingTransfer t' ∧
      Elsewhere [] sampleJob otherFile ∧ climbingWorld.fs.content otherFile = some [1, 2, 3] ∧
      t'.world.fs.content otherFile = some [1, 2] := by
  obtain ⟨w', built⟩ : ∃ w', buildManifest samplePlatform (.ofString "/s") 2 climbingWorld =
      .ok climbingManifest w' := ok_of_returned (by decide +kernel)
  exact ⟨w', _, built, ends_final _ _, by decide +kernel, by decide +kernel, by decide +kernel⟩

end SendRs
