/-
**Running a finished transfer again changes nothing.**

A run that has returned leaves every chunk marked and in the target (`executeLocalTransfer_finished`).
So a second run finds everything there: it creates no directory and no file, sets each length to what it
is, and passes over every chunk, since that is marked and has its hash. While it runs the tree is
`Unmoved`: a file may only change where the checkpoint is saved over an empty file of the target, and
there the last save restores it.

Result: `executeLocalTransfer_rerun`, for the manifest that the first run has left and for one that was
saved and loaded again, whatever has become of the bytes of the source.
-/

import SendRs.Store.Json
import SendRs.Transfer.Finished

namespace SendRs

open Effect Pieces

/-! ### A tree in which nothing moves -/

/-- The same directories and the same files; outside of `spot`, with the same bytes. -/
structure Unmoved (spot : Loc → Prop) (fs fs' : FileSystem) : Prop where
  dirs : ∀ loc, fs'.IsDir loc ↔ fs.IsDir loc
  files : ∀ loc, (fs'.content loc).isSome ↔ (fs.content loc).isSome
  contents : ∀ loc, ¬ spot loc → fs'.content loc = fs.content loc

section Unmoved

variable {spot : Loc → Prop} {fs fs' : FileSystem} {env : Surroundings}

theorem Unmoved.refl (spot : Loc → Prop) (fs : FileSystem) : Unmoved spot fs fs :=
  ⟨fun _ => Iff.rfl, fun _ => Iff.rfl, fun _ _ => rfl⟩

/-- Every path leads where it led. -/
theorem Unmoved.resolve (unmoved : Unmoved spot fs fs') (cwd : Loc) (path : Path) :
    fs'.resolve cwd path = fs.resolve cwd path :=
  Option.ext fun _ => ⟨FileSystem.walk_mono (fun loc => (unmoved.dirs loc).mp) _,
    FileSystem.walk_mono (fun loc => (unmoved.dirs loc).mpr) _⟩

theorem Unmoved.along (unmoved : Unmoved spot fs fs') {cur : Loc} {pieces : List Bytes}
    (along : fs.DirsAlong cur pieces) : fs'.DirsAlong cur pieces :=
  along.mono fun loc => (unmoved.dirs loc).mpr

/-- What is there is a directory or a file. -/
theorem FileSystem.node_isSome_iff {loc : Loc} :
    (fs.node loc).isSome ↔ fs.IsDir loc ∨ (fs.content loc).isSome := by
  unfold FileSystem.IsDir FileSystem.content
  cases fs.node loc with
  | none => simp
  | some there => cases there <;> simp

/-- What was there is there. -/
theorem Unmoved.there (unmoved : Unmoved spot fs fs') (loc : Loc) :
    (fs'.node loc).isSome ↔ (fs.node loc).isSome := by
  rw [FileSystem.node_isSome_iff, FileSystem.node_isSome_iff, unmoved.dirs, unmoved.files]

/-- What was a file is a file. -/
theorem Unmoved.isFile_eq (unmoved : Unmoved spot fs fs') (cwd : Loc) (path : Path) :
    ((fs'.resolve cwd path).bind fs'.content).isSome = ((fs.resolve cwd path).bind fs.content).isSome := by
  rw [unmoved.resolve]
  cases fs.resolve cwd path with
  | none => rfl
  | some loc => exact Bool.eq_iff_iff.mpr (unmoved.files loc)

/-- A file was written with the bytes it had, or in `spot`. -/
theorem Unmoved.wrote (unmoved : Unmoved spot fs fs') {loc : Loc} {old content : Bytes} {w : World}
    (found : fs'.content loc = some old) (wrote : Wrote env fs' loc content w)
    (same : spot loc ∨ content = old) : Unmoved spot fs w.fs := by
  have notDir {tree : FileSystem} {bytes : Bytes} (isFile : tree.content loc = some bytes) :
      ¬ tree.IsDir loc := (free_of_content isFile).2
  refine ⟨fun other => ?_, fun other => ?_, fun other outside => ?_⟩
  · by_cases here : other = loc
    · subst here
      rw [← unmoved.dirs]
      exact iff_of_false (notDir wrote.content_eq) (notDir found)
    · rw [FileSystem.IsDir, wrote.node_eq other here]
      exact unmoved.dirs other
  · by_cases here : other = loc
    · subst here
      rw [← unmoved.files, wrote.content_eq, found]
      rfl
    · rw [FileSystem.content, wrote.node_eq other here]
      exact unmoved.files other
  · by_cases here : other = loc
    · subst here
      rw [wrote.content_eq, same.resolve_left outside, ← found]
      exact unmoved.contents other outside
    · rw [FileSystem.content, wrote.node_eq other here]
      exact unmoved.contents other outside

/-- A program starts in some tree, which stands. -/
theorem fromStands {α : Type} {B : Transfer → Prop} {A : FileSystem → Prop} {prog : Run α}
    {after : α → Transfer → Prop} {failed : Error → Transfer → Prop}
    (next : ∀ now, A now → Triple (fun t => B t ∧ Stands env now t.world) prog after failed) :
    Triple (fun t => B t ∧ InTree env A t.world) prog after failed :=
  fun t ⟨beside, holds⟩ => next t.world.fs holds.tree t ⟨beside, holds.env_eq, rfl⟩

/-- A call that cannot fail, beside what does not depend on the world. -/
theorem calmBeside {α : Type} {B : Transfer → Prop} {P : World → Prop} {R : α → World → Prop}
    {prog : Sys α} (moved : ∀ t w, B t → B { t with world := w }) (calls : Triple P prog R Never) :
    Triple (fun t => B t ∧ P t.world) (sys prog) (fun a t => B t ∧ R a t.world) Never :=
  sys_beside moved calls fun _ _ _ impossible => impossible

/-- A call whose answer is known. -/
theorem calmThen {α β : Type} {B : Transfer → Prop} {P : World → Prop} {fact : α → Prop}
    {R : α → World → Prop} {prog : Sys α} {rest : α → Run β} {after : β → Transfer → Prop}
    (moved : ∀ t w, B t → B { t with world := w })
    (calls : Triple P prog (fun a w => fact a ∧ R a w) Never)
    (next : ∀ a, fact a → Triple (fun t => B t ∧ R a t.world) (rest a) after Never) :
    Triple (fun t => B t ∧ P t.world) (sys prog >>= rest) after Never :=
  Triple.bind (calmBeside moved calls) fun a t ⟨beside, known, holds⟩ => next a known t ⟨beside, holds⟩

end Unmoved

/-! ### The chunks of a file that is whole -/

/-- What the manifest and the counters are while a finished transfer is run again. -/
structure Idle (platform : Platform) (m : TransferManifest) (log : List ProgressEvent) (i : Nat)
    (t : Transfer) : Prop where
  manifest_eq : t.manifest = m
  bytesDone_eq : t.bytesDone = doneSize platform m
  files_eq : t.filesCompleted = i
  events_eq : t.events = log

/-- Every chunk of the manifest that is not empty is marked. -/
def AllMarked (platform : Platform) (m : TransferManifest) : Prop :=
  ∀ (i k : Nat) (entry : ManifestEntry), m.entries[i]? = some entry → k < entry.chunkCount →
    chunkLen platform entry.size k m.chunkSize ≠ 0 → isChunkDone entry k = true

section Chunks

variable {platform : Platform} {env : Surroundings} {fs : FileSystem} {m : TransferManifest} {job : Job}
  {log : List ProgressEvent} {file : OpenEntry} {content : Bytes} {bytesTotal k n : Nat}

theorem Idle.moved {t : Transfer} (idle : Idle platform m log n t) (w : World) :
    Idle platform m log n { t with world := w } :=
  ⟨idle.manifest_eq, idle.bytesDone_eq, idle.files_eq, idle.events_eq⟩

/-- A chunk that is in its place is verified. -/
theorem calm_verifyChunkAt (calm : env.Calm) {loc : Loc} {offset len : Nat} {hash : String}
    (found : fs.content loc = some content) (inside : offset + len ≤ content.length)
    (hashed : platform.blake3 ((content.drop offset).take len) = hash) :
    Triple (Stands env fs) (verifyChunkAt platform loc offset len hash)
      (fun intact w => intact = true ∧ Stands env fs w) Never := by
  refine Triple.bind (Triple.context (calm_seek calm)) fun _ => ?_
  refine Triple.bind (Triple.context (calm_readExact calm found inside)) fun buf => ?_
  refine Triple.given fun isBuf => Triple.pure fun w stands => ⟨?_, stands⟩
  rw [isBuf, hashed]
  exact beq_self_eq_true hash

/-- **One round of the chunk loop.** The chunk is empty, or marked and intact. -/
theorem transferChunk_idle (calm : env.Calm) (marked : AllMarked platform m)
    (isEntry : m.entries[file.idx]? = some file.entry)
    (whole : Whole platform m.chunkSize file.entry content)
    (found : fs.content file.dst = some content) {hash : String}
    (listed : file.entry.chunkHashes[k]? = some hash) :
    Triple (fun t => Idle platform m log n t ∧ Stands env fs t.world)
      (transferChunk platform job bytesTotal m.chunkSize file (hash, k))
      (fun _ t => Idle platform m log n t ∧ Stands env fs t.world) Never := by
  refine Triple.ite (fun _ => Triple.pure fun _ holds => holds) fun nonempty => ?_
  change chunkLen platform file.entry.size k m.chunkSize ≠ 0 at nonempty
  refine Triple.bind (M := fun current t => current = some file.entry ∧ Idle platform m log n t ∧
    Stands env fs t.world) (Triple.observe fun t ⟨idle, stands⟩ => ?_) fun current => ?_
  · refine ⟨?_, idle, stands⟩
    rw [idle.manifest_eq]
    exact isEntry
  refine Triple.given fun isCurrent => ?_
  subst isCurrent
  have done := marked file.idx k file.entry isEntry (List.getElem?_eq_some_iff.mp listed).1 nonempty
  have inside : chunkOffset platform k m.chunkSize +
      chunkLen platform file.entry.size k m.chunkSize ≤ content.length := by
    rw [← whole.lists.size_eq]
    unfold chunkLen at nonempty ⊢
    omega
  refine Triple.ite (fun _ => ?_) fun unmarked => absurd (congrArg some done) unmarked
  refine calmThen (fun _ w idle => idle.moved w) (calm_verifyChunkAt calm found inside
    (whole.lists.hash_eq k hash listed nonempty)) fun intact isIntact => ?_
  subst isIntact
  exact Triple.pure fun _ holds => holds

/-- The chunk loop. -/
theorem chunkLoop_idle (file : OpenEntry) (calm : env.Calm) (marked : AllMarked platform m)
    (isEntry : m.entries[file.idx]? = some file.entry)
    (whole : Whole platform m.chunkSize file.entry content)
    (found : fs.content file.dst = some content) :
    Triple (fun t => Idle platform m log n t ∧ Stands env fs t.world)
      (file.entry.chunkHashes.zipIdx.forM (transferChunk platform job bytesTotal m.chunkSize file))
      (fun _ t => Idle platform m log n t ∧ Stands env fs t.world) Never := by
  refine Triple.forM (fun _ t => Idle platform m log n t ∧ Stands env fs t.world) fun k within => ?_
  rw [List.getElem_zipIdx, Nat.zero_add]
  exact transferChunk_idle calm marked isEntry whole found (List.getElem?_eq_getElem _)

end Chunks

/-! ### The second run -/

/-- The files of the source can be opened, whatever is in them. -/
def SourceOpens (cwd : Loc) (job : Job) (m : TransferManifest) (fs : FileSystem) : Prop :=
  ∀ entry ∈ m.entries, ∃ loc, fs.resolve cwd (sourcePath job.source
    ((fs.resolve cwd job.source).bind fs.content).isSome entry.relativePath) = some loc ∧
      (fs.node loc).isSome

/-- What a run that changes nothing needs of the manifest and of the tree. -/
structure Rerunnable (platform : Platform) (cwd : Loc) (job : Job) (single : Bool)
    (m : TransferManifest) (fs : FileSystem) : Prop where
  positive : 0 < m.chunkSize
  marked : AllMarked platform m
  rounds : Rounds platform cwd job single m m.entries.length fs
  sources : SourceOpens cwd job m fs
  checkpoint : ∀ path, job.checkpoint = some path →
    ∃ loc, fs.resolve cwd path = some loc ∧ fs.Free loc

section Rerun

variable {platform : Platform} {env : Surroundings} {fs : FileSystem} {m : TransferManifest} {job : Job}
  {single : Bool} {log : List ProgressEvent} {bytesTotal : Nat}

/-- The directories above a destination are there already. -/
theorem calm_createParent_along (calm : env.Calm) {path : Path}
    (along : ∀ parent, path.parent = some parent → fs.DirsAlong (parent.start env.cwd) parent.pieces) :
    Triple (Stands env fs) (createParent path) (fun _ => Stands env fs) Never := by
  unfold createParent
  cases isParent : path.parent with
  | none => exact Triple.pure fun _ stands => stands
  | some parent => exact Triple.context (calm_createDirAll_along calm (along parent isParent))

/-- Setting the length of a whole file leaves it whole. -/
theorem calm_setLen_whole (calm : env.Calm) {now : FileSystem}
    (unmoved : Unmoved (SavedAt env.cwd job) fs now) {entry : ManifestEntry} {loc : Loc} {whole : Bytes}
    (isWhole : Whole platform m.chunkSize entry whole) (isThere : (now.content loc).isSome)
    (empty : SavedAt env.cwd job loc → whole = [])
    (isContent : ¬ SavedAt env.cwd job loc → now.content loc = some whole) :
    Triple (Stands env now) (setLen loc entry.size)
      (fun _ => InTree env fun tree => Unmoved (SavedAt env.cwd job) fs tree ∧
        tree.content loc = some whole) Never := by
  obtain ⟨content, found⟩ := Option.isSome_iff_exists.mp isThere
  have length : entry.size = whole.length := isWhole.lists.size_eq
  refine (calm_setLen calm found entry.size).post fun _ w wrote => ?_
  have resized : content.takeD entry.size 0 = whole := by
    by_cases saved : SavedAt env.cwd job loc
    · rw [length, empty saved]
      rfl
    · obtain rfl := Option.some.inj (found.symm.trans (isContent saved))
      rw [length, List.takeD_eq_take _ (Nat.le_refl _), List.take_length]
  rw [resized] at wrote
  refine ⟨wrote.env_eq, unmoved.wrote found wrote ?_, wrote.content_eq⟩
  by_cases saved : SavedAt env.cwd job loc
  · exact Or.inl saved
  · exact Or.inr (Option.some.inj ((isContent saved).symm.trans found))

/-- **One round of the entry loop.** -/
theorem transferEntry_idle (calm : env.Calm) (ready : Rerunnable platform env.cwd job single m fs)
    {i : Nat} {entry : ManifestEntry} (found : m.entries[i]? = some entry) :
    Triple (fun t => Idle platform m log i t ∧
        InTree env (Unmoved (SavedAt env.cwd job) fs) t.world)
      (transferEntry platform job single bytesTotal m.chunkSize i)
      (fun _ t => Idle platform m log (i + 1) t ∧
        InTree env (Unmoved (SavedAt env.cwd job) fs) t.world) Never := by
  have moved (t : Transfer) (w : World) (idle : Idle platform m log i t) :
      Idle platform m log i { t with world := w } := idle.moved w
  refine Triple.bind (M := fun manifest t => manifest = m ∧ Idle platform m log i t ∧
    InTree env (Unmoved (SavedAt env.cwd job) fs) t.world)
    (Triple.observe fun t holds => ⟨holds.1.manifest_eq, holds⟩) fun manifest => ?_
  refine Triple.given fun same => ?_
  subst same
  rw [found]
  -- what the first run has left
  have inside := (List.getElem?_eq_some_iff.mp found).1
  obtain ⟨along, loc, whole, leads, isThere, isWhole, empty, isContent⟩ :=
    ready.rounds.landed i inside entry found
  obtain ⟨src, toSource, opens⟩ := ready.sources entry (List.mem_of_getElem? found)
  refine fromStands fun now unmoved => ?_
  obtain ⟨there, isNode⟩ := Option.isSome_iff_exists.mp ((unmoved.there src).mpr opens)
  obtain ⟨content, isFile⟩ := Option.isSome_iff_exists.mp ((unmoved.files loc).mpr isThere)
  rw [← unmoved.isFile_eq] at toSource
  have toDest := (unmoved.resolve env.cwd _).trans leads
  -- the calls up to here only look
  refine calmThen moved (calm_isFile calm _) fun sourceIsFile answer => ?_
  rw [← answer, ← unmoved.resolve] at toSource
  refine Triple.bind (calmBeside moved (calm_createParent_along calm fun parent isParent =>
    unmoved.along (along parent isParent))) fun _ => ?_
  refine calmThen moved (Triple.context (calm_openRead calm toSource isNode)) fun opened _ => ?_
  refine calmThen moved (Triple.context (calm_openWrite_there calm toDest isFile)) fun dst isDest => ?_
  subst isDest
  refine Triple.bind (calmBeside moved (Triple.context (calm_setLen_whole calm unmoved isWhole
    ((unmoved.files dst).mpr isThere) empty fun apart =>
      (unmoved.contents dst apart).trans (isContent apart)))) fun _ => ?_
  -- from here on the file is whole
  refine fromStands fun later ⟨still, isNow⟩ => ?_
  refine Triple.bind (chunkLoop_idle ⟨i, entry, opened, dst⟩ calm ready.marked found isWhole isNow)
    fun _ => ?_
  have toDest := (still.resolve env.cwd _).trans leads
  refine calmThen (fun _ w idle => idle.moved w) (calm_hashFile calm toDest isNow ready.positive)
    fun hashes hash => ?_
  refine Triple.ite (fun differs => absurd (hash.trans isWhole.fileHash_eq) differs) fun _ =>
    Triple.update ?_
  rintro t ⟨idle, sameEnv, rfl⟩
  exact ⟨⟨idle.manifest_eq, idle.bytesDone_eq, congrArg (· + 1) idle.files_eq, idle.events_eq⟩,
    sameEnv, still⟩

/-- Every file keeps its bytes, but for the checkpoint, which holds the manifest. -/
structure Restored (platform : Platform) (cwd : Loc) (job : Job) (m : TransferManifest)
    (fs fs' : FileSystem) : Prop where
  dirs : ∀ loc, fs'.IsDir loc ↔ fs.IsDir loc
  contents : ∀ loc, ¬ SavedAt cwd job loc → fs'.content loc = fs.content loc
  checkpoint : ∀ loc, SavedAt cwd job loc → fs'.content loc = some (platform.manifestJson m)

/-- The last save. -/
theorem saveCheckpoint_idle (calm : env.Calm) (ready : Rerunnable platform env.cwd job single m fs)
    {n : Nat} :
    Triple (fun t => Idle platform m log n t ∧
        InTree env (Unmoved (SavedAt env.cwd job) fs) t.world)
      (saveCheckpoint platform job)
      (fun _ t => Idle platform m log n t ∧ InTree env (Restored platform env.cwd job m fs) t.world)
      Never := by
  refine Triple.bind (M := fun manifest t => manifest = m ∧ Idle platform m log n t ∧
    InTree env (Unmoved (SavedAt env.cwd job) fs) t.world)
    (Triple.observe fun t holds => ⟨holds.1.manifest_eq, holds⟩) fun manifest => ?_
  refine Triple.given fun same => ?_
  subst same
  cases isSaved : job.checkpoint with
  | none =>
    have nowhere (loc : Loc) : ¬ SavedAt env.cwd job loc := by
      rintro ⟨path, saved, _⟩
      rw [isSaved] at saved
      cases saved
    exact Triple.pure fun t ⟨idle, holds⟩ => ⟨idle, holds.env_eq, holds.tree.dirs,
      holds.tree.contents, fun loc saved => absurd saved (nowhere loc)⟩
  | some path =>
    obtain ⟨loc, leads, isDir, notDir⟩ := ready.checkpoint path isSaved
    have only {other : Loc} (saved : SavedAt env.cwd job other) : other = loc := by
      obtain ⟨path', isSaved', lexical⟩ := saved
      obtain rfl := Option.some.inj (isSaved.symm.trans isSaved')
      exact Option.some.inj (lexical.symm.trans (FileSystem.lexical_of_resolve leads))
    refine fromStands fun now unmoved => ?_
    have free : now.Free loc :=
      ⟨(unmoved.dirs _).mpr isDir, fun there => notDir ((unmoved.dirs loc).mp there)⟩
    have saves : Triple (Stands env now) (saveManifest platform path manifest) _ Never :=
      Triple.context (calm_fsWrite calm ((unmoved.resolve env.cwd path).trans leads) free _)
    refine (calmBeside (fun _ w idle => idle.moved w) saves).post ?_
    rintro _ t ⟨idle, wrote⟩
    refine ⟨idle, wrote.env_eq, fun other => ?_, fun other apart => ?_, fun other saved => ?_⟩
    · by_cases here : other = loc
      · subst here
        exact iff_of_false (free_of_content wrote.content_eq).2 notDir
      · rw [FileSystem.IsDir, wrote.node_eq other here]
        exact unmoved.dirs other
    · have different : other ≠ loc := by
        rintro rfl
        exact apart ⟨path, isSaved, FileSystem.lexical_of_resolve leads⟩
      rw [FileSystem.content, wrote.node_eq other different]
      exact unmoved.contents other apart
    · rw [only saved]
      exact wrote.content_eq

/-- The start of the second run. -/
theorem startTransfer_idle (calm : env.Calm)
    (along : fs.DirsAlong (job.target.start env.cwd) job.target.pieces) :
    Triple (fun t => (t.manifest = m ∧ t.events = log) ∧ Stands env fs t.world) (startTransfer job)
      (fun _ t => (t.manifest = m ∧ t.events = log) ∧ Stands env fs t.world) Never := by
  refine Triple.bind (calmBeside (fun _ _ same => same)
    (Triple.context (calm_createDirAll_along calm along))) fun _ => ?_
  refine calmThen (fun _ _ same => same) (calm_isFile calm _) fun sourceIsFile _ => ?_
  exact Triple.bind (M := fun _ t => (t.manifest = m ∧ t.events = log) ∧ Stands env fs t.world)
    (Triple.observe fun _ holds => holds) fun manifest => Triple.pure fun _ holds => holds

/-- **The rest of the second run.** -/
theorem transferFiles_idle (calm : env.Calm) (ready : Rerunnable platform env.cwd job single m fs) :
    Triple (fun t => (t.manifest = m ∧ t.events = log) ∧ Stands env fs t.world)
      (transferFiles platform job single)
      (fun report t => (report = ⟨totalSize m, doneSize platform m, m.entries.length,
          m.entries.length⟩ ∧ Idle platform m (log ++ [⟨totalSize m, doneSize platform m, ""⟩])
          m.entries.length t) ∧ InTree env (Restored platform env.cwd job m fs) t.world) Never := by
  refine Triple.bind (M := fun manifest t => manifest = m ∧ (t.manifest = m ∧ t.events = log) ∧
    Stands env fs t.world) (Triple.observe fun t holds => ⟨holds.1.1, holds⟩) fun manifest => ?_
  refine Triple.given fun same => ?_
  subst same
  refine Triple.bind (M := fun _ t => Idle platform manifest log 0 t ∧ Stands env fs t.world)
    (Triple.update ?_) fun _ => ?_
  · rintro t ⟨⟨rfl, rfl⟩, stands⟩
    exact ⟨⟨rfl, rfl, rfl, rfl⟩, stands⟩
  -- the one event of the run
  refine Triple.bind (M := fun _ t => Idle platform manifest
    (log ++ [⟨totalSize manifest, doneSize platform manifest, ""⟩]) 0 t ∧
      InTree env (Unmoved (SavedAt env.cwd job) fs) t.world) (Triple.update ?_) fun _ => ?_
  · rintro t ⟨⟨rfl, counter, files, rfl⟩, sameEnv, rfl⟩
    exact ⟨⟨rfl, counter, files, by rw [counter]⟩, sameEnv, Unmoved.refl _ _⟩
  refine Triple.bind (Triple.forM_range (fun i t => Idle platform manifest
    (log ++ [⟨totalSize manifest, doneSize platform manifest, ""⟩]) i t ∧
      InTree env (Unmoved (SavedAt env.cwd job) fs) t.world) fun i inside =>
    transferEntry_idle calm ready (List.getElem?_eq_getElem inside)) fun _ => ?_
  refine Triple.bind (saveCheckpoint_idle calm ready) fun _ => Triple.observe ?_
  rintro t ⟨idle, holds⟩
  refine ⟨⟨?_, idle⟩, holds⟩
  rw [idle.bytesDone_eq, idle.manifest_eq, idle.files_eq]

/-- A run in a tree that has everything. -/
theorem executeLocalTransfer_idle {t : Transfer} (calm : t.world.env.Calm)
    (isLayout : layout job t = some single)
    (ready : Rerunnable platform t.world.env.cwd job single t.manifest t.world.fs) :
    ∃ t', executeLocalTransfer platform job t = .ok ⟨totalSize t.manifest,
        doneSize platform t.manifest, t.manifest.entries.length, t.manifest.entries.length⟩ t' ∧
      t'.manifest = t.manifest ∧
      t'.events = t.events ++ [⟨totalSize t.manifest, doneSize platform t.manifest, ""⟩] ∧
      Restored platform t.world.env.cwd job t.manifest t.world.fs t'.world.fs := by
  obtain ⟨t₁, started⟩ := ok_of_returned isLayout
  have begun := (startTransfer_idle calm ready.rounds.target).of_ok ⟨⟨rfl, rfl⟩, rfl, rfl⟩ started
  obtain ⟨_, t', run, ⟨rfl, idle⟩, holds⟩ := (transferFiles_idle calm ready).returns begun
  refine ⟨t', ?_, idle.manifest_eq, idle.events_eq, holds.tree⟩
  rw [executeLocalTransfer, bind_of_ok started]
  exact run

end Rerun

/-! ### From one run to the next -/

/-- What is on the way of the path, and where it leads, is as it was. -/
def Untouched (cwd : Loc) (path : Path) (fs fs' : FileSystem) : Prop :=
  ∀ passed ∈ path.start cwd :: visited (path.start cwd) path.pieces, fs'.node passed = fs.node passed

/-- The target and the files of the manifest in it are as they were. -/
def TargetUntouched (cwd : Loc) (job : Job) (single : Bool) (m : TransferManifest)
    (fs fs' : FileSystem) : Prop :=
  Untouched cwd job.target fs fs' ∧ ∀ entry ∈ m.entries,
    Untouched cwd (destFilePath job.target m.rootName single entry.relativePath) fs fs'

/-- The manifest was saved to a file, and loaded again from that file when nobody had touched it. -/
def SavedAndLoaded (platform : Platform) (m m' : TransferManifest) : Prop :=
  ∃ (codec : JsonCodec TransferManifest) (path : Path) (w saved later loaded : World),
    codec.Faithful ∧ platform.manifestJson = codec.body ∧ w.env.Still ∧ later.env.Still ∧
    later.env.cwd = w.env.cwd ∧ Untouched w.env.cwd path saved.fs later.fs ∧
    saveManifest platform path m w = .ok () saved ∧ loadManifest codec path later = .ok m' loaded

section Between

variable {platform : Platform} {env : Surroundings} {m m' : TransferManifest} {job : Job}
  {single : Bool} {cwd : Loc} {fs fs' : FileSystem} {path : Path}

/-- An untouched path leads where it led, to what it led to. -/
theorem Untouched.resolve (untouched : Untouched cwd path fs fs') {loc : Loc}
    (leads : fs.resolve cwd path = some loc) :
    fs'.resolve cwd path = some loc ∧ fs'.content loc = fs.content loc := by
  obtain ⟨leads', sameNode⟩ := FileSystem.walk_congr path.pieces untouched leads
  refine ⟨leads', ?_⟩
  rw [FileSystem.content, sameNode]
  rfl

/-- The directories above an untouched path are untouched. -/
theorem Untouched.parent (untouched : Untouched cwd path fs fs') {parent : Path}
    (isParent : path.parent = some parent) : Untouched cwd parent fs fs' := by
  obtain ⟨absolute, rest, front⟩ := Path.parent_pieces isParent
  have start : parent.start cwd = path.start cwd := by
    rw [Path.start, Path.start, absolute]
  intro passed member
  rw [start] at member
  refine untouched passed ?_
  rcases List.mem_cons.mp member with rfl | below
  · exact List.mem_cons_self
  · rw [← front]
    exact List.mem_cons_of_mem _ (mem_visited_append _ _ below)

theorem Landed.untouched {entry : ManifestEntry} (landed : Landed platform cwd job single m entry fs)
    (untouched : Untouched cwd (destFilePath job.target m.rootName single entry.relativePath) fs fs') :
    Landed platform cwd job single m entry fs' := by
  obtain ⟨loc, content, leads, there, whole, empty, found⟩ := landed.file
  obtain ⟨leads', same⟩ := untouched.resolve leads
  refine ⟨fun parent isParent => (landed.parent parent isParent).congr (untouched.parent isParent), loc,
    content, leads', ?_, whole, empty, fun apart => same.trans (found apart)⟩
  rw [same]
  exact there

/-- What a run has left in the target stays as long as that is untouched. -/
theorem Rounds.untouched {n : Nat} (rounds : Rounds platform cwd job single m n fs)
    (untouched : TargetUntouched cwd job single m fs fs') : Rounds platform cwd job single m n fs' :=
  ⟨rounds.target.congr untouched.1, fun i before entry found =>
    (rounds.landed i before entry found).untouched (untouched.2 entry (List.mem_of_getElem? found))⟩

/-- The bits of the manifest do not matter for what has landed. -/
theorem Rounds.of_bare {n : Nat} (rounds : Rounds platform cwd job single m n fs)
    (same : m'.bare = m.bare) : Rounds platform cwd job single m' n fs := by
  refine ⟨rounds.target, fun i before entry' found' => ?_⟩
  obtain ⟨entry, found, sameEntry⟩ := entry_of_bare same found'
  obtain ⟨along, loc, content, leads, there, whole, empty, isContent⟩ := rounds.landed i before entry found
  rw [← relativePath_bare sameEntry, ← rootName_bare same] at along leads
  rw [← chunkSize_bare same] at whole
  exact ⟨along, loc, content, leads, there, whole.of_bare sameEntry, empty, isContent⟩

/-- The number of attempts does not matter for a run that copies nothing. -/
theorem Rerunnable.retries (ready : Rerunnable platform cwd job single m fs) (maxRetries : Nat) :
    Rerunnable platform cwd { job with maxRetries } single m fs := by
  obtain ⟨positive, marked, ⟨target, landed⟩, sources, checkpoint⟩ := ready
  refine ⟨positive, marked, ⟨target, fun i before entry found => ?_⟩, sources, checkpoint⟩
  obtain ⟨along, file⟩ := landed i before entry found
  exact ⟨along, file⟩

/-- After the last round every chunk is marked. -/
theorem Books.allMarked {t : Transfer} (books : Books platform m ⟨m.entries.length, 0, false⟩ t) :
    AllMarked platform t.manifest := by
  intro i k entry' found' inside nonempty
  obtain ⟨entry, found, same⟩ := entry_of_bare books.bits.bare_eq found'
  have weight : chunkWeight platform m ⟨i, k⟩ ≠ 0 := by
    rw [chunkWeight, found, Option.elim_some, ← size_bare same,
      ← chunkSize_bare books.bits.bare_eq]
    exact nonempty
  have done := books.marked ⟨i, k⟩ (mem_chunksOf.mpr ⟨entry, found, chunkCount_bare same ▸ inside⟩)
    weight (Or.inl (List.getElem?_eq_some_iff.mp found).1)
  rwa [doneAt, found', Option.any_some] at done

/-- Loading what is stored, if it returns. -/
theorem loadManifest_still {codec : JsonCodec TransferManifest} (still : env.Still)
    (faithful : codec.Faithful) {loc : Loc} (leads : fs.resolve env.cwd path = some loc)
    (found : fs.content loc = some (codec.body m)) :
    Triple (Stands env fs) (loadManifest codec path) (fun read _ => read = m) fun _ _ => True := by
  have spelled : toStr (codec.body m) = some (codec.encode m) := by
    rw [JsonCodec.body, toStr_utf8]
  have reads : Triple (Stands env fs) (readToString path)
      (fun read _ => read = codec.encode m ∧ True) fun _ _ => True := by
    refine Triple.bind (stands_call still).onSuccess fun _ => Triple.given fun _ => ?_
    refine Triple.bind (stands_resolveNow path).onSuccess fun loc' => Triple.given fun leads' => ?_
    obtain rfl := Option.some.inj (leads.symm.trans leads')
    refine Triple.bind (stands_observe (a := some (codec.body m)) ?_) fun there =>
      Triple.given fun isThere => ?_
    · rintro w ⟨rfl, rfl⟩
      exact found
    · simp only [isThere, spelled]
      exact Triple.pure fun _ _ => ⟨rfl, trivial⟩
  refine Triple.bind (Triple.context reads) fun s => Triple.given fun isText => Triple.context ?_
  rw [isText, fromStr, faithful.roundTrip]
  exact Triple.pure fun _ _ => rfl

/-- What was saved and loaded again is what it was. -/
theorem SavedAndLoaded.eq (again : SavedAndLoaded platform m m') : m' = m := by
  obtain ⟨codec, path, w, saved, later, loaded, faithful, encodes, still, stillToo, sameCwd, untouched,
    saves, loads⟩ := again
  have wrote : Triple (Since w.env (fun _ => True) w.fs) (saveManifest platform path m)
      (fun _ w' => (∃ loc, w'.fs.resolve w.env.cwd path = some loc ∧
        w'.fs.content loc = some (platform.manifestJson m)) ∧ Since w.env (fun _ => True) w.fs w')
      fun _ _ => True := Triple.context (fsWrite_there still (fun _ _ => trivial) _)
  obtain ⟨⟨loc, leads, found⟩, _⟩ := wrote.of_ok (since_now rfl) saves
  obtain ⟨leads', same⟩ := untouched.resolve leads
  rw [← sameCwd] at leads'
  rw [encodes, ← same] at found
  exact (loadManifest_still stillToo faithful leads' found).of_ok ⟨rfl, rfl⟩ loads

end Between

/-! ### Build, run, run again -/

/-- **Running a finished transfer again is a no-op.** A manifest was built and a run with it has returned,
whatever failed on the way. Then a run with the manifest it has left, or with that manifest saved and
loaded again, returns with the same report. It emits one event, so it copies no chunk, since each chunk
that is copied emits one; the manifest stays as it is, and so does every file, except a checkpoint that
was changed in between. Of the source it is enough that its files can be opened.

Destinations are distinct, and they are not files of the source; nor is the checkpoint, unless every
offset fits. Where the checkpoint is saved over a file of the target, no manifest has the hash of that
file. -/
theorem executeLocalTransfer_rerun {platform : Platform} {path : Path} {chunkSize : Nat} {w w' : World}
    {m : TransferManifest} (still : w.env.Still)
    (built : buildManifest platform path chunkSize w = .ok m w') {job : Job} {t t' : Transfer}
    (fresh : t.manifest = m) (stillToo : t.world.env.Still)
    (distinct : ∀ single ∈ layout job t, DistinctDestinations t.world.env.cwd job.target single m)
    (steady : ∀ single ∈ layout job t,
      OffsetsFit platform m ∨ SourceUnwritten t.world.env.cwd job single m)
    (noSelfHash : ∀ single ∈ layout job t, NoSelfHash platform t.world.env.cwd job single m)
    {report : TransferReport} (run : executeLocalTransfer platform job t = .ok report t')
    {t₂ : Transfer} (again : t₂.manifest = t'.manifest ∨ SavedAndLoaded platform t'.manifest t₂.manifest)
    (calm : t₂.world.env.Calm) (sameCwd : t₂.world.env.cwd = t.world.env.cwd)
    (sameLayout : layout job t₂ = layout job t)
    (untouched : ∀ single ∈ layout job t,
      TargetUntouched t.world.env.cwd job single m t'.world.fs t₂.world.fs)
    (opens : SourceOpens t.world.env.cwd job m t₂.world.fs)
    (savable : ∀ path, job.checkpoint = some path →
      ∃ loc, t₂.world.fs.resolve t.world.env.cwd path = some loc ∧ t₂.world.fs.Free loc)
    (maxRetries : Nat) :
    ∃ t₂', executeLocalTransfer platform { job with maxRetries } t₂ = .ok report t₂' ∧
      t₂'.manifest = t'.manifest ∧
      t₂'.events = t₂.events ++ [⟨report.bytesTotal, report.bytesDone, ""⟩] ∧
      (∀ loc, t₂'.world.fs.IsDir loc ↔ t₂.world.fs.IsDir loc) ∧
      ∀ loc, ¬ SavedAt t.world.env.cwd job loc ∨
          t₂.world.fs.content loc = t'.world.fs.content loc →
        t₂'.world.fs.content loc = t₂.world.fs.content loc := by
  subst fresh
  have sameManifest : t₂.manifest = t'.manifest := again.elim id SavedAndLoaded.eq
  have first (single : Bool) (isLayout : single ∈ layout job t) :
      FirstRun platform t.world.env t.manifest job single :=
    firstRun_built still built stillToo (distinct single isLayout) (steady single isLayout)
      (noSelfHash single isLayout)
  obtain ⟨single, isLayout, ⟨isReport, books⟩, _, finished⟩ :=
    executeLocalTransfer_finished stillToo first run
  subst isReport
  have bare : t'.manifest.bare = t.manifest.bare := books.bits.bare_eq
  have count : t'.manifest.entries.length = t.manifest.entries.length := length_bare bare
  have total : totalSize t'.manifest = totalSize t.manifest := congrArg sumU64 (sizes_bare bare)
  have ready : Rerunnable platform t₂.world.env.cwd job single t₂.manifest t₂.world.fs := by
    rw [sameCwd, sameManifest]
    refine ⟨?_, books.allMarked, ?_, fun entry' listed => ?_, savable⟩
    · rw [chunkSize_bare bare]
      exact (first single isLayout).positive
    · rw [count]
      exact (finished.rounds.untouched (untouched single isLayout)).of_bare bare
    · obtain ⟨i, found'⟩ := List.getElem?_of_mem listed
      obtain ⟨entry, found, same⟩ := entry_of_bare bare found'
      rw [relativePath_bare same]
      exact opens entry (List.mem_of_getElem? found)
  have isLayout₂ : layout { job with maxRetries } t₂ = some single := sameLayout.trans isLayout
  obtain ⟨t₂', run₂, manifest, events, restored⟩ :=
    executeLocalTransfer_idle calm isLayout₂ (ready.retries maxRetries)
  rw [sameManifest, total, count] at run₂
  rw [sameManifest, total] at events
  refine ⟨t₂', run₂, manifest.trans sameManifest, events, restored.dirs, fun loc kept => ?_⟩
  rw [sameCwd, sameManifest] at restored
  by_cases saved : SavedAt t.world.env.cwd job loc
  · rw [restored.checkpoint loc saved, kept.resolve_left (not_not.mpr saved)]
    obtain ⟨path, isSaved, lexical⟩ := saved
    obtain ⟨loc', leads, found⟩ := finished.checkpoint path isSaved
    obtain rfl := Option.some.inj (lexical.symm.trans (FileSystem.lexical_of_resolve leads))
    exact found.symm
  · exact restored.contents loc saved

/-- A first run on the small tree. -/
def freshTransfer : Transfer := ⟨sampleWorld, sampleManifest [0], 0, 0, []⟩

/-- What the first run leaves, but for the source, which holds other bytes by now. -/
def rerunTransfer : Transfer where
  world := ⟨sampleEnv, (final (executeLocalTransfer samplePlatform checkpointJob)
    freshTransfer).world.fs.put sampleRoot (.file [1, 2, 3] 9), 0⟩
  manifest := sampleManifest [1]
  bytesDone := 0
  filesCompleted := 0
  events := []

/-- The second run on the small tree reports what the first one did, with one event. -/
theorem executeLocalTransfer_rerun_sample :
    ∃ t₂', executeLocalTransfer samplePlatform checkpointJob rerunTransfer = .ok ⟨2, 2, 1, 1⟩ t₂' ∧
      t₂'.manifest = sampleManifest [1] ∧ t₂'.events = [⟨2, 2, ""⟩] ∧
      t₂'.world.fs.content [⟨[116], by decide⟩, ⟨[115], by decide⟩] = some [104, 105] := by
  obtain ⟨w', built⟩ := sample_built
  obtain ⟨t', run⟩ : ∃ t', executeLocalTransfer samplePlatform checkpointJob freshTransfer =
      .ok ⟨2, 2, 1, 1⟩ t' := ok_of_returned (by decide +kernel)
  have left : final (executeLocalTransfer samplePlatform checkpointJob) freshTransfer = t' := by
    rw [final, run]
  have isLayout : layout checkpointJob freshTransfer = some true := by decide +kernel
  have isLayout₂ : layout checkpointJob rerunTransfer = some true := by decide +kernel
  have marked : (final (executeLocalTransfer samplePlatform checkpointJob) freshTransfer).manifest =
      sampleManifest [1] := by decide +kernel
  have fits : OffsetsFit samplePlatform (sampleManifest [0]) := by decide +kernel
  rw [left] at marked
  have distinct : DistinctDestinations [] checkpointJob.target true (sampleManifest [0]) :=
    distinctDestinations_of_nodup (List.nodup_singleton _)
  -- the checkpoint is `/c`, and the destination `/t/s`
  have elsewhere : NoSelfHash samplePlatform [] checkpointJob true (sampleManifest [0]) := by
    rintro entry listed loc dest ⟨path, isSaved, lexical⟩
    obtain rfl := List.mem_singleton.mp listed
    obtain rfl := Option.some.inj isSaved
    have apart : destLoc [] checkpointJob.target "s" true (sampleManifest [0]).entries[0] ≠
        (Path.ofString "/c").lexical [] := by decide +kernel
    exact absurd (dest.trans lexical.symm) apart
  have untouched : TargetUntouched [] checkpointJob true (sampleManifest [0])
      (final (executeLocalTransfer samplePlatform checkpointJob) freshTransfer).world.fs
      rerunTransfer.world.fs := by
    unfold TargetUntouched Untouched
    decide +kernel
  rw [left] at untouched
  have opens : SourceOpens [] checkpointJob (sampleManifest [0]) rerunTransfer.world.fs := by
    intro entry listed
    obtain rfl := List.mem_singleton.mp listed
    exact ⟨sampleRoot, by decide +kernel⟩
  have savable : rerunTransfer.world.fs.resolve [] (.ofString "/c") = some [⟨[99], by decide⟩] ∧
      rerunTransfer.world.fs.Free [⟨[99], by decide⟩] := by decide +kernel
  have there : rerunTransfer.world.fs.content [⟨[116], by decide⟩, ⟨[115], by decide⟩] =
      some [104, 105] := by decide +kernel
  have notSaved : ¬ SavedAt [] checkpointJob [⟨[116], by decide⟩, ⟨[115], by decide⟩] := by
    rintro ⟨path, isSaved, lexical⟩
    obtain rfl := Option.some.inj isSaved
    exact absurd lexical (by decide +kernel)
  have again : rerunTransfer.manifest = t'.manifest ∨
      SavedAndLoaded samplePlatform t'.manifest rerunTransfer.manifest := Or.inl marked.symm
  have calm : rerunTransfer.world.env.Calm := ⟨fun _ _ => rfl, fun _ => rfl⟩
  have sameLayout : layout checkpointJob rerunTransfer = layout checkpointJob freshTransfer :=
    isLayout₂.trans isLayout.symm
  have only (single : Bool) (isSingle : single ∈ layout checkpointJob freshTransfer) : single = true := by
    rw [isLayout] at isSingle
    exact (Option.some.inj isSingle).symm
  obtain ⟨t₂', run₂, manifest, events, _, contents⟩ := executeLocalTransfer_rerun
    (fun _ _ => rfl) built rfl (fun _ _ => rfl) (fun single isSingle => only single isSingle ▸ distinct)
    (fun _ _ => Or.inl fits) (fun single isSingle => only single isSingle ▸ elsewhere) run again calm rfl
    sameLayout (fun single isSingle => only single isSingle ▸ untouched) opens
    (fun path isSaved => Option.some.inj isSaved ▸ ⟨_, savable⟩) 3
  exact ⟨t₂', run₂, manifest.trans marked, events, (contents _ (Or.inl notSaved)).trans there⟩

end SendRs
