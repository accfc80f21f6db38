/-
**What a transfer leaves alone.**

A transfer creates the directories on the way to its destinations, and creates and writes the
destinations. `Scope` says that all of these are among some locations; `Fillable`, that a destination
may be given its length and its chunks. A property of the world with a frame for these locations is
then kept by every part of a transfer but the saves of the checkpoint.

`RunFrame` is the rule for a whole watched run: a property of the world that may also name the saves
so far, a frame for it, and what one save makes of it (`RunFrame.watchedFiles`).
-/

import SendRs.Transfer.Soundness
import SendRs.Transfer.Trace

namespace SendRs

open Effect

namespace Frame

variable {platform : Platform} {env : Surroundings} {inv : World → Prop} {places files : Loc → Prop}

/-! ### The calls of a transfer -/

theorem copyChunk (frame : Frame env inv places files) {src dst : Loc} (may : files dst)
    (offset readLen : Nat) (expected : String) :
    Keeps inv (copyChunk platform src dst offset readLen expected) := by
  refine Triple.bind (Triple.context frame.seek) fun _ => ?_
  refine Triple.bind (Triple.context (frame.readExact src offset readLen)) fun buf => ?_
  refine Triple.ite (fun _ => Triple.throw fun _ holds => holds) fun _ => ?_
  exact Triple.bind (Triple.context frame.seek) fun _ =>
    Triple.context (frame.writeAll may offset buf)

theorem verifyChunkAt (frame : Frame env inv places files) (file : Loc) (offset len : Nat)
    (expected : String) : Keeps inv (verifyChunkAt platform file offset len expected) :=
  Triple.bind (Triple.context frame.seek) fun _ =>
    Triple.bind (Triple.context (frame.readExact file offset len)) fun _ =>
      Triple.pure fun _ holds => holds

theorem createParent (frame : Frame env inv places files) {path : Path}
    (inside : ∀ parent, path.parent = some parent →
      ∀ passed ∈ visited (parent.start env.cwd) parent.pieces, places passed) :
    Keeps inv (createParent path) := by
  unfold SendRs.createParent
  cases isParent : path.parent with
  | none => exact Triple.pure fun _ holds => holds
  | some parent => exact Triple.context (frame.createDirAll (inside parent isParent))

theorem hashLoop (frame : Frame env inv places files) (chunkSize fuel : Nat) :
    ∀ (rest hashed : Bytes) (hashes : List String),
      Keeps inv (hashLoop platform chunkSize fuel rest hashed hashes) := by
  induction fuel with
  | zero => exact fun _ _ _ => Triple.pure fun _ holds => holds
  | succ fuel ih =>
    intro rest hashed hashes
    refine Triple.bind (Triple.context (frame.read rest chunkSize)) fun n => ?_
    exact Triple.ite (fun _ => Triple.pure fun _ holds => holds) fun _ => ih _ _ _

theorem hashFile (frame : Frame env inv places files) (path : Path) (chunkSize : Nat) :
    Keeps inv (hashFile platform path chunkSize) := by
  refine Triple.bind (Triple.context ((frame.openRead path).post fun _ _ opened => opened.2))
    fun loc => ?_
  refine Triple.bind (M := fun _ => inv) (Triple.observe fun _ holds => holds) fun there => ?_
  cases there with
  | none => exact Triple.context (Triple.throw fun _ holds => holds)
  | some content => exact frame.hashLoop chunkSize _ content [] []

/-- A fact that does not mention the world may be kept as well. -/
theorem given (frame : Frame env inv places files) (fact : Prop) :
    Frame env (fun w => fact ∧ inv w) places files :=
  ⟨fun w holds => frame.env_eq w holds.2,
    fun w holds => ⟨holds.1, frame.turn w holds.2⟩,
    fun w loc new may absent holds => ⟨holds.1, frame.create w loc new may absent holds.2⟩,
    fun w loc content k may holds => ⟨holds.1, frame.write w loc content k may holds.2⟩⟩

/-- The start of a run. -/
theorem startTransfer (frame : Frame env inv places files) {job : Job}
    (inside : ∀ passed ∈ visited (job.target.start env.cwd) job.target.pieces, places passed)
    (m : TransferManifest) :
    Keeps (fun t => inv t.world ∧ t.manifest = m) (startTransfer job) := by
  have calls {α : Type} {prog : Sys α} (keeps : Keeps inv prog) :
      Keeps (fun t : Transfer => inv t.world ∧ t.manifest = m) (sys prog) :=
    Triple.zoom fun t holds => keeps.conseq (fun _ here => here ▸ holds.1)
      (fun _ _ kept => ⟨kept, holds.2⟩) fun _ _ kept => ⟨kept, holds.2⟩
  refine Triple.bind (calls (Triple.context (frame.createDirAll inside))) fun _ => ?_
  refine Triple.bind (calls (frame.isFile _)) fun sourceIsFile => ?_
  exact Triple.bind (M := fun _ t => inv t.world ∧ t.manifest = m)
    (Triple.observe fun _ holds => holds) fun manifest => Triple.pure fun _ holds => holds

end Frame

/-! ### The whole run -/

/-- Everything a transfer creates is at a location of `places`. -/
structure Scope (cwd : Loc) (job : Job) (single : Bool) (m : TransferManifest)
    (places : Loc → Prop) : Prop where
  parents : ∀ entry ∈ m.entries, ∀ parent,
    (destFilePath job.target m.rootName single entry.relativePath).parent = some parent →
      ∀ passed ∈ visited (parent.start cwd) parent.pieces, places passed
  dests : ∀ entry ∈ m.entries, ∀ loc,
    destLoc cwd job.target m.rootName single entry = some loc → places loc

/-- A destination may be given the length and the chunks of its entry. -/
structure Fillable (platform : Platform) (inv : World → Prop) (chunkSize : Nat) (entry : ManifestEntry)
    (dst : Loc) : Prop where
  setLen : Keeps inv (setLen dst entry.size)
  copyChunk : ∀ src k hash, entry.chunkHashes[k]? = some hash →
    chunkLen platform entry.size k chunkSize ≠ 0 →
      Keeps inv (copyChunk platform src dst (chunkOffset platform k chunkSize)
        (chunkLen platform entry.size k chunkSize) hash)

/-- Every destination may be filled. -/
def AllFillable (platform : Platform) (cwd : Loc) (job : Job) (single : Bool) (m : TransferManifest)
    (inv : World → Prop) : Prop :=
  ∀ entry ∈ m.entries, ∀ loc, destLoc cwd job.target m.rootName single entry = some loc →
    Fillable platform inv m.chunkSize entry loc

/-- A file that may be written may be filled. -/
theorem Frame.fillable {platform : Platform} {env : Surroundings} {inv : World → Prop}
    {places files : Loc → Prop} (frame : Frame env inv places files) {dst : Loc} (may : files dst)
    (chunkSize : Nat) (entry : ManifestEntry) : Fillable platform inv chunkSize entry dst :=
  ⟨frame.setLen may _, fun _ _ _ _ _ => frame.copyChunk may _ _ _⟩

/-- The bits of an entry do not matter. -/
theorem Fillable.of_bare {platform : Platform} {inv : World → Prop} {chunkSize : Nat}
    {entry entry' : ManifestEntry} {dst : Loc} (fillable : Fillable platform inv chunkSize entry' dst)
    (same : entry.bare = entry'.bare) : Fillable platform inv chunkSize entry dst := by
  have size : entry.bare.size = entry'.bare.size := by rw [same]
  have chunkHashes : entry.bare.chunkHashes = entry'.bare.chunkHashes := by rw [same]
  change entry.size = entry'.size at size
  change entry.chunkHashes = entry'.chunkHashes at chunkHashes
  refine ⟨?_, fun src k hash listed nonzero => ?_⟩
  · rw [size]
    exact fillable.setLen
  · rw [chunkHashes] at listed
    rw [size] at nonzero ⊢
    exact fillable.copyChunk src k hash listed nonzero

/-- What is said of the world and the saves, of a run with the manifest `m`. -/
def Under (m : TransferManifest) (inv : Watch → World → Prop) (s : Traced Transfer Watch) : Prop :=
  inv s.ghost s.run.world ∧ s.run.manifest.bare = m.bare

/-- `inv` names nothing of the watch but the saves. -/
def SavesOnly (inv : Watch → World → Prop) : Prop :=
  ∀ (watch watch' : Watch) (w : World), watch'.saves = watch.saves →
    watch'.returned = watch.returned → inv watch w → inv watch' w

/-- A property of a watched run: what has a frame, and what a save makes of it. -/
structure RunFrame (platform : Platform) (env : Surroundings) (job : Job) (single : Bool)
    (m : TransferManifest) (inv : Watch → World → Prop) (stopped : Traced Transfer Watch → Prop)
    (places files : Loc → Prop) : Prop where
  saves : SavesOnly inv
  frame : ∀ watch, Frame env (inv watch) places files
  scope : Scope env.cwd job single m places
  fill : ∀ watch, AllFillable platform env.cwd job single m (inv watch)
  save : Triple (Under m inv) (watchedCheckpoint platform job) (fun _ => Under m inv) fun _ => stopped
  fails : ∀ s, Under m inv s → stopped s

namespace RunFrame

variable {platform : Platform} {env : Surroundings} {job : Job} {single : Bool}
  {m : TransferManifest} {inv : Watch → World → Prop} {stopped : Traced Transfer Watch → Prop}
  {places files : Loc → Prop} {bytesTotal : Nat}

/-- A property of the world alone, which the saves keep as every other write does. -/
theorem plain {inv : World → Prop} (frame : Frame env inv places files)
    (scope : Scope env.cwd job single m places)
    (fill : AllFillable platform env.cwd job single m inv)
    (checkpoint : ∀ path, job.checkpoint = some path → ∀ loc, path.lexical env.cwd = some loc →
      files loc) :
    RunFrame platform env job single m (fun _ => inv) (Under m fun _ => inv) places files where
  saves := fun _ _ _ _ _ holds => holds
  frame := fun _ => frame
  scope := scope
  fill := fun _ => fill
  fails := fun _ holds => holds
  save := by
    have saves : Keeps (fun t : Transfer => inv t.world ∧ t.manifest.bare = m.bare)
        (saveCheckpoint platform job) := by
      refine Triple.bind (M := fun _ t => inv t.world ∧ t.manifest.bare = m.bare)
        (Triple.observe fun _ holds => holds) fun manifest => ?_
      cases saved : job.checkpoint with
      | none => exact Triple.pure fun _ holds => holds
      | some path =>
        refine Triple.zoom fun t holds => Triple.context ((frame.fsWrite
          (checkpoint path saved) _).conseq (fun _ here => here ▸ holds.1)
            (fun _ _ kept => ⟨kept, holds.2⟩) fun _ _ kept => ⟨kept, holds.2⟩)
    refine Triple.bind (M := fun _ => Under m fun _ => inv) (Triple.update fun _ holds => holds)
      fun _ => Triple.bind (M := fun _ => Under m fun _ => inv) ?_ fun _ =>
        Triple.update fun _ holds => holds
    exact Triple.zoom fun s holds => saves.conseq (fun _ here => here ▸ holds)
      (fun _ _ kept => kept) fun _ _ kept => kept

/-- A note that leaves the saves alone. -/
theorem note (run : RunFrame platform env job single m inv stopped places files)
    {f : Transfer → Watch → Watch} {failed : Error → Traced Transfer Watch → Prop}
    (saves : ∀ t watch, (f t watch).saves = watch.saves)
    (returned : ∀ t watch, (f t watch).returned = watch.returned) :
    Triple (Under m inv) (note f) (fun _ => Under m inv) failed :=
  Triple.update fun s holds =>
    ⟨run.saves s.ghost _ s.run.world (saves _ _) (returned _ _) holds.1, holds.2⟩

/-- A step that changes neither the world nor the manifest but for its bits. -/
theorem changes {f : Transfer → Transfer} (sameWorld : ∀ t, (f t).world = t.world)
    (sameBare : ∀ t, (f t).manifest.bare = t.manifest.bare) :
    Triple (Under m inv) (lift (update f : Run Unit)) (fun _ => Under m inv) (fun _ => stopped) := by
  refine Triple.zoom fun s holds => Triple.update fun t here => ?_
  subst here
  exact ⟨(sameWorld s.run).symm ▸ holds.1, (sameBare s.run).trans holds.2⟩

/-- A call to the system. -/
theorem call {α : Type} {prog : Sys α} {answer : α → Prop}
    (run : RunFrame platform env job single m inv stopped places files)
    (keeps : ∀ watch, Triple (inv watch) prog (fun a w => answer a ∧ inv watch w) fun _ => inv watch) :
    Triple (Under m inv) (lift (sys prog)) (fun a s => answer a ∧ Under m inv s)
      fun _ => stopped := by
  refine Triple.zoom fun s holds => Triple.zoom fun t here => ?_
  subst here
  refine (keeps s.ghost).conseq (fun w here => here ▸ holds.1) (fun a w outcome => ?_) fun _ w outcome => ?_
  · exact ⟨outcome.1, outcome.2, holds.2⟩
  · exact run.fails _ ⟨outcome, holds.2⟩

/-- The same for a call whose answer does not matter. -/
theorem keeps {α : Type} {prog : Sys α}
    (run : RunFrame platform env job single m inv stopped places files)
    (keeps : ∀ watch, Keeps (inv watch) prog) :
    Triple (Under m inv) (lift (sys prog)) (fun _ => Under m inv) (fun _ => stopped) :=
  (run.call fun watch => (keeps watch).post fun _ _ holds => ⟨trivial, holds⟩).post
    fun _ _ holds => holds.2

theorem watchedProgress (run : RunFrame platform env job single m inv stopped places files)
    (currentFile : String) :
    Triple (Under m inv) (watchedProgress bytesTotal currentFile) (fun _ => Under m inv)
      (fun _ => stopped) :=
  Triple.bind (run.note (fun _ _ => rfl) fun _ _ => rfl) fun _ => changes (fun _ => rfl) fun _ => rfl

/-! ### One chunk -/

theorem watchedCopied (run : RunFrame platform env job single m inv stopped places files)
    (file : OpenEntry) (chunkIdx readLen : Nat) :
    Triple (Under m inv) (watchedCopied platform job bytesTotal file chunkIdx readLen)
      (fun _ => Under m inv) (fun _ => stopped) := by
  refine Triple.bind (changes (fun _ => rfl) fun t =>
    bare_modify (bare_markChunkDone · chunkIdx) t.manifest file.idx) fun _ => ?_
  refine Triple.bind (changes (fun _ => rfl) fun _ => rfl) fun _ => ?_
  exact Triple.bind run.save fun _ => run.watchedProgress _

theorem watchedAttempts (run : RunFrame platform env job single m inv stopped places files)
    {file : OpenEntry} {chunkIdx offset readLen : Nat} {expected : String}
    (copy : ∀ watch, Keeps (inv watch) (copyChunk platform file.src file.dst offset readLen expected)) :
    ∀ attempts lastError, Triple (Under m inv)
      (watchedAttempts platform job bytesTotal file chunkIdx offset readLen expected attempts lastError)
      (fun _ => Under m inv) (fun _ => stopped) := by
  intro attempts
  induction attempts with
  | zero => exact fun lastError => Triple.pure fun _ holds => holds
  | succ attempts ih =>
    intro lastError
    refine Triple.bind (run.keeps fun watch => Triple.attempt (copy watch)) fun outcome => ?_
    cases outcome with
    | ok _ =>
      exact Triple.bind (run.watchedCopied _ _ _) fun _ => Triple.pure fun _ holds => holds
    | error err => exact ih _

theorem watchedRetries (run : RunFrame platform env job single m inv stopped places files)
    {file : OpenEntry} {chunkIdx offset readLen : Nat} {expected : String}
    (copy : ∀ watch, Keeps (inv watch) (copyChunk platform file.src file.dst offset readLen expected)) :
    Triple (Under m inv)
      (watchedRetries platform job bytesTotal file chunkIdx offset readLen expected)
      (fun _ => Under m inv) (fun _ => stopped) := by
  refine Triple.bind (run.watchedAttempts copy _ _) fun lastError => ?_
  cases lastError with
  | none => exact Triple.pure fun _ holds => holds
  | some err =>
    exact Triple.bind (run.note (fun _ _ => rfl) fun _ _ => rfl) fun _ =>
      Triple.throw fun s holds => run.fails s holds

theorem watchedChunk (run : RunFrame platform env job single m inv stopped places files)
    {file : OpenEntry} {chunkSize : Nat}
    (fillable : ∀ watch, Fillable platform (inv watch) chunkSize file.entry file.dst)
    {chunk : String × Nat} (listed : file.entry.chunkHashes[chunk.2]? = some chunk.1) :
    Triple (Under m inv) (watchedChunk platform job bytesTotal chunkSize file chunk)
      (fun _ => Under m inv) (fun _ => stopped) := by
  refine Triple.bind (run.note (fun _ _ => rfl) fun _ _ => rfl) fun _ => ?_
  refine Triple.ite (fun _ => Triple.pure fun _ holds => holds) fun nonzero => ?_
  have copies : Triple (Under m inv)
      (SendRs.watchedRetries platform job bytesTotal file chunk.2
        (chunkOffset platform chunk.2 chunkSize) (chunkLen platform file.entry.size chunk.2 chunkSize)
        chunk.1)
      (fun _ => Under m inv) (fun _ => stopped) :=
    run.watchedRetries fun watch => (fillable watch).copyChunk file.src chunk.2 chunk.1 listed nonzero
  refine Triple.bind (M := fun _ => Under m inv) (Triple.observe fun _ holds => holds) fun current => ?_
  refine Triple.ite (fun _ => ?_) fun _ => copies
  refine Triple.bind (run.keeps fun watch => (run.frame watch).verifyChunkAt _ _ _ _) fun intact => ?_
  refine Triple.ite (fun _ => Triple.pure fun _ holds => holds) fun _ => ?_
  refine Triple.bind (changes (fun _ => rfl) fun t =>
    bare_modify (bare_clearChunkDone · chunk.2) t.manifest file.idx) fun _ => ?_
  exact Triple.bind (changes (fun _ => rfl) fun _ => rfl) fun _ => copies

/-! ### The entry loop -/

/-- A round of the chunk loop is about a chunk of the entry. -/
theorem chunk_listed {hashes : List String} {i : Nat} (inside : i < hashes.zipIdx.length) :
    hashes[hashes.zipIdx[i].2]? = some hashes.zipIdx[i].1 := by
  rw [List.getElem_zipIdx, Nat.zero_add]
  exact List.getElem?_eq_getElem _

theorem watchedEntry (run : RunFrame platform env job single m inv stopped places files)
    (idx : Nat) :
    Triple (Under m inv) (watchedEntry platform job single bytesTotal m.chunkSize idx)
      (fun _ => Under m inv) (fun _ => stopped) := by
  refine Triple.bind (run.note (fun _ _ => rfl) fun _ _ => rfl) fun _ => ?_
  refine Triple.bind (M := fun manifest s => manifest.bare = m.bare ∧ Under m inv s)
    (Triple.observe fun s holds => ⟨holds.2, holds⟩) fun manifest => Triple.given fun same => ?_
  cases found : manifest.entries[idx]? with
  | none => exact Triple.throw fun s holds => run.fails s holds
  | some entry =>
    obtain ⟨entry', found', sameEntry⟩ := entry_of_bare same found
    have member := List.mem_of_getElem? found'
    have path := destFilePath_bare same sameEntry job.target single
    dsimp only
    rw [path]
    refine Triple.bind (run.keeps fun watch => (run.frame watch).isFile _) fun sourceIsFile => ?_
    refine Triple.bind (run.keeps fun watch =>
      (run.frame watch).createParent (run.scope.parents entry' member)) fun _ => ?_
    refine Triple.bind (run.keeps fun watch => Triple.context
      (((run.frame watch).openRead _).post fun _ _ opened => opened.2)) fun src => ?_
    refine Triple.bind (run.call fun watch => Triple.context ((run.frame watch).openWrite
      (run.scope.dests entry' member))) fun dst => ?_
    refine Triple.given fun opened => ?_
    have fillable (watch : Watch) : Fillable platform (inv watch) m.chunkSize entry dst :=
      (run.fill watch entry' member dst opened).of_bare sameEntry
    refine Triple.bind (run.keeps fun watch => Triple.context (fillable watch).setLen) fun _ => ?_
    refine Triple.bind (Triple.forM (fun _ => Under m inv) fun i inside => ?_) fun _ => ?_
    · exact run.watchedChunk fillable (chunk_listed inside)
    refine Triple.bind (run.note (fun _ _ => rfl) fun _ _ => rfl) fun _ => ?_
    refine Triple.bind (run.keeps fun watch => (run.frame watch).hashFile _ _) fun hashes => ?_
    exact Triple.ite (fun _ => Triple.throw fun s holds => run.fails s holds) fun _ =>
      changes (fun _ => rfl) fun _ => rfl

/-- **What a whole run keeps**, once it was started. -/
theorem watchedFiles (run : RunFrame platform env job single m inv stopped places files) :
    Triple (Under m inv) (watchedFiles platform job single) (fun _ => Under m inv)
      (fun _ => stopped) := by
  refine Triple.bind (M := fun manifest s => manifest.bare = m.bare ∧ Under m inv s)
    (Triple.observe fun s holds => ⟨holds.2, holds⟩) fun manifest => Triple.given fun same => ?_
  rw [chunkSize_bare same]
  refine Triple.bind (changes (fun _ => rfl) fun _ => rfl) fun _ => ?_
  refine Triple.bind (run.watchedProgress _) fun _ => ?_
  refine Triple.bind (Triple.forM_range (fun _ => Under m inv) fun idx _ => run.watchedEntry idx)
    fun _ => ?_
  refine Triple.bind (run.note (fun _ _ => rfl) fun _ _ => rfl) fun _ => ?_
  exact Triple.bind run.save fun _ => Triple.observe fun _ holds => holds

/-- **What holds where a run stops**, from the call on. -/
theorem of_ends {t t' : Transfer} (started : Frame env (inv .start) places files)
    (target : ∀ passed ∈ visited (job.target.start env.cwd) job.target.pieces, places passed)
    (runs : ∀ single ∈ layout job t,
      RunFrame platform env job single t.manifest inv stopped places files)
    (early : ∀ t₁ : Transfer, t₁.manifest = t.manifest → inv .start t₁.world → stopped ⟨t₁, .start⟩)
    (start : inv .start t.world) (ends : Ends (executeLocalTransfer platform job) t t') :
    stopped ⟨t', watchOf platform job t⟩ := by
  have begun := started.startTransfer target t.manifest t ⟨start, rfl⟩
  cases first : startTransfer job t with
  | error e t₁ =>
    rw [first] at begun
    obtain ⟨rfl, nothing⟩ := watchOf_not_started first ends
    rw [nothing]
    exact early t' begun.2 begun.1
  | ok single t₁ =>
    rw [first] at begun
    have isLayout : layout job t = some single := by rw [layout, returned, first]
    have run := runs single isLayout
    refine watched_ends_started first (run.watchedFiles.conseq (fun _ holds => holds)
      (fun _ s holds => run.fails s holds) fun _ _ holds => holds) ⟨begun.1, ?_⟩ ends
    exact congrArg TransferManifest.bare begun.2

end RunFrame

end SendRs
