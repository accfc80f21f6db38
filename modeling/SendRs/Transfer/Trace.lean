/-
**A transfer that is watched.**

What is said of every save and of every progress event is about moments inside
`execute_local_transfer`. The ghost of a watched run collects them: `saves` has one moment for each
call of `save_manifest`, `reports` one for each call of `on_progress`, each with the place of the
loops and the state of the run right then. The watched programs are those of
`SendRs.Transfer.Execute` line by line, with notes in between (`watchedTransfer_erases`).
-/

import SendRs.Library.Ghost
import SendRs.Transfer.Execute

namespace SendRs

open Effect

/-- Where the loops are: the round of the entry loop, the round of the chunk loop, and whether that
round has begun. -/
structure Place where
  entry : Nat
  chunk : Nat
  begun : Bool
deriving DecidableEq

/-- A moment of a run. -/
structure Moment where
  place : Place
  run : Transfer

/-- What is collected of a run: where the loops are, whether the attempts of the current chunk have
all failed, the moments of the saves, how many of them have returned, and the moments of the
progress events. -/
structure Watch where
  place : Place
  exhausted : Bool
  saves : List Moment
  returned : Nat
  reports : List Moment

/-- Before a run. -/
def Watch.start : Watch := ⟨⟨0, 0, false⟩, false, [], 0, []⟩

/-- A part of a watched run. -/
abbrev Watched (α : Type) := Prog Error (Traced Transfer Watch) α

/-- The loops come to a place. -/
def arrive (place : Place) : Watched Unit :=
  note fun _ watch => { watch with place, exhausted := false }

variable (platform : Platform)

/-- `saveCheckpoint`. -/
def watchedCheckpoint (job : Job) : Watched Unit := do
  note fun t watch =>
    if job.checkpoint.isSome then { watch with saves := watch.saves ++ [⟨watch.place, t⟩] } else watch
  lift (saveCheckpoint platform job)
  note fun _ watch => { watch with returned := watch.saves.length }

/-- `onProgress`. -/
def watchedProgress (bytesTotal : Nat) (currentFile : String) : Watched Unit := do
  note fun t watch => { watch with reports := watch.reports ++ [⟨watch.place, t⟩] }
  lift (onProgress bytesTotal currentFile)

/-- `chunkCopied`. -/
def watchedCopied (job : Job) (bytesTotal : Nat) (file : OpenEntry) (chunkIdx readLen : Nat) :
    Watched Unit := do
  lift (modifyEntry file.idx fun entry => markChunkDone entry chunkIdx)
  lift (addBytesDone readLen)
  watchedCheckpoint platform job
  watchedProgress bytesTotal file.entry.relativePath

/-- `copyAttempts`. -/
def watchedAttempts (job : Job) (bytesTotal : Nat) (file : OpenEntry)
    (chunkIdx offset readLen : Nat) (expected : String) :
    Nat → Option Error → Watched (Option Error)
  | 0, lastError => pure lastError
  | attempts + 1, _ => do
    let outcome ← lift (sys (attempt (copyChunk platform file.src file.dst offset readLen expected)))
    match outcome with
    | .ok _ => do
      watchedCopied platform job bytesTotal file chunkIdx readLen
      pure none
    | .error err =>
      watchedAttempts job bytesTotal file chunkIdx offset readLen expected attempts (some err)

/-- `copyWithRetries`. -/
def watchedRetries (job : Job) (bytesTotal : Nat) (file : OpenEntry)
    (chunkIdx offset readLen : Nat) (expected : String) : Watched Unit := do
  let lastError ← watchedAttempts platform job bytesTotal file chunkIdx offset readLen expected
    (max job.maxRetries 1) none
  match lastError with
  | some err => do
    note fun _ watch => { watch with exhausted := true }
    throw (("copy chunk failed file=" ++ file.entry.relativePath ++ " chunk_idx=" ++
      toString chunkIdx) :: err)
  | none => pure ()

/-- `transferChunk`. -/
def watchedChunk (job : Job) (bytesTotal chunkSize : Nat) (file : OpenEntry)
    (chunk : String × Nat) : Watched Unit := do
  arrive ⟨file.idx, chunk.2, true⟩
  let offset := chunkOffset platform chunk.2 chunkSize
  let readLen := chunkLen platform file.entry.size chunk.2 chunkSize
  if readLen = 0 then pure ()
  else do
    let current ← observe fun t => t.run.manifest.entries[file.idx]?
    if (current.map fun entry => isChunkDone entry chunk.2) = some true then do
      let intact ← lift (sys (verifyChunkAt platform file.dst offset readLen chunk.1))
      if intact then pure ()
      else do
        lift (modifyEntry file.idx fun entry => clearChunkDone entry chunk.2)
        lift (subBytesDone readLen)
        watchedRetries platform job bytesTotal file chunk.2 offset readLen chunk.1
    else watchedRetries platform job bytesTotal file chunk.2 offset readLen chunk.1

/-- `transferEntry`. -/
def watchedEntry (job : Job) (single : Bool) (bytesTotal chunkSize : Nat) (idx : Nat) :
    Watched Unit := do
  arrive ⟨idx, 0, false⟩
  let manifest ← observe fun t => t.run.manifest
  match manifest.entries[idx]? with
  | none => throw ["index out of bounds"]
  | some entry => do
    let sourceIsFile ← lift (sys (isFile job.source))
    let srcFilePath :=
      if sourceIsFile then job.source else job.source.join (.ofString entry.relativePath)
    let destPath := destFilePath job.target manifest.rootName single entry.relativePath
    lift (sys (createParent destPath))
    let src ← lift (sys (withContext ("open source file " ++ srcFilePath.display)
      (openRead srcFilePath)))
    let dst ← lift (sys (withContext ("open target file " ++ destPath.display)
      (openWrite destPath)))
    lift (sys (withContext ("set target size " ++ destPath.display) (setLen dst entry.size)))
    entry.chunkHashes.zipIdx.forM
      (watchedChunk platform job bytesTotal chunkSize ⟨idx, entry, src, dst⟩)
    arrive ⟨idx, entry.chunkCount, false⟩
    let hashes ← lift (sys (hashFile platform destPath chunkSize))
    if hashes.1 ≠ entry.fileHash then throw ["file hash mismatch for " ++ entry.relativePath]
    else lift (update fun t => { t with filesCompleted := t.filesCompleted + 1 })

/-- `transferFiles`. -/
def watchedFiles (job : Job) (single : Bool) : Watched TransferReport := do
  let manifest ← observe fun t => t.run.manifest
  let bytesTotal := totalSize manifest
  lift (update fun t => { t with bytesDone := doneSize platform manifest, filesCompleted := 0 })
  watchedProgress bytesTotal ""
  (List.range manifest.entries.length).forM
    (watchedEntry platform job single bytesTotal manifest.chunkSize)
  arrive ⟨manifest.entries.length, 0, false⟩
  watchedCheckpoint platform job
  observe fun t => {
    bytesTotal
    bytesDone := t.run.bytesDone
    filesTotal := t.run.manifest.entries.length
    filesCompleted := t.run.filesCompleted }

/-- `executeLocalTransfer`. -/
def watchedTransfer (job : Job) : Watched TransferReport := do
  let single ← lift (startTransfer job)
  watchedFiles platform job single

/-- What is collected of a run of `execute_local_transfer`. -/
def watchOf (job : Job) (t : Transfer) : Watch :=
  (final (watchedTransfer platform job) ⟨t, .start⟩).ghost

/-- The layout of a run that gets so far: whether a single file is sent. -/
def layout (job : Job) (t : Transfer) : Option Bool := returned (startTransfer job) t

/-! ### The watched run is the run -/

section Erases

variable {platform} {job : Job} {bytesTotal : Nat}

theorem watchedCheckpoint_erases :
    Erases (watchedCheckpoint platform job) (saveCheckpoint platform job) :=
  Erases.note (Erases.noted (Erases.lift _))

theorem watchedProgress_erases (currentFile : String) :
    Erases (watchedProgress bytesTotal currentFile) (onProgress bytesTotal currentFile) :=
  Erases.note (Erases.lift _)

theorem watchedCopied_erases (file : OpenEntry) (chunkIdx readLen : Nat) :
    Erases (watchedCopied platform job bytesTotal file chunkIdx readLen)
      (chunkCopied platform job bytesTotal file chunkIdx readLen) :=
  Erases.bind (Erases.lift _) fun _ => Erases.bind (Erases.lift _) fun _ =>
    Erases.bind watchedCheckpoint_erases fun _ => watchedProgress_erases _

theorem watchedAttempts_erases (file : OpenEntry) (chunkIdx offset readLen : Nat)
    (expected : String) : ∀ attempts lastError,
      Erases (watchedAttempts platform job bytesTotal file chunkIdx offset readLen expected attempts
          lastError)
        (copyAttempts platform job bytesTotal file chunkIdx offset readLen expected attempts
          lastError) := by
  intro attempts
  induction attempts with
  | zero => exact fun lastError => Erases.pure _
  | succ attempts ih =>
    intro lastError
    refine Erases.bind (Erases.lift _) fun outcome => ?_
    cases outcome with
    | ok _ => exact Erases.bind (watchedCopied_erases _ _ _) fun _ => Erases.pure _
    | error err => exact ih _

theorem watchedRetries_erases (file : OpenEntry) (chunkIdx offset readLen : Nat)
    (expected : String) :
    Erases (watchedRetries platform job bytesTotal file chunkIdx offset readLen expected)
      (copyWithRetries platform job bytesTotal file chunkIdx offset readLen expected) := by
  refine Erases.bind (watchedAttempts_erases _ _ _ _ _ _ _) fun lastError => ?_
  cases lastError with
  | none => exact Erases.pure _
  | some err => exact Erases.note (Erases.throw _)

theorem watchedChunk_erases (chunkSize : Nat) (file : OpenEntry) (chunk : String × Nat) :
    Erases (watchedChunk platform job bytesTotal chunkSize file chunk)
      (transferChunk platform job bytesTotal chunkSize file chunk) := by
  refine Erases.note (Erases.ite (Erases.pure _) ?_)
  refine Erases.bind (Erases.observe fun t : Transfer => t.manifest.entries[file.idx]?) fun _ => ?_
  refine Erases.ite (Erases.bind (Erases.lift _) fun intact => ?_) (watchedRetries_erases _ _ _ _ _)
  refine Erases.ite (Erases.pure _) (Erases.bind (Erases.lift _) fun _ => ?_)
  exact Erases.bind (Erases.lift _) fun _ => watchedRetries_erases _ _ _ _ _

theorem watchedEntry_erases (single : Bool) (chunkSize idx : Nat) :
    Erases (watchedEntry platform job single bytesTotal chunkSize idx)
      (transferEntry platform job single bytesTotal chunkSize idx) := by
  refine Erases.note (Erases.bind (Erases.observe _) fun manifest => ?_)
  cases manifest.entries[idx]? with
  | none => exact Erases.throw _
  | some entry =>
    refine Erases.bind (Erases.lift _) fun sourceIsFile => ?_
    refine Erases.bind (Erases.lift _) fun _ => Erases.bind (Erases.lift _) fun src => ?_
    refine Erases.bind (Erases.lift _) fun dst => Erases.bind (Erases.lift _) fun _ => ?_
    refine Erases.bind (Erases.forM fun chunk => watchedChunk_erases _ _ chunk) fun _ => ?_
    refine Erases.note (Erases.bind (Erases.lift _) fun hashes => ?_)
    exact Erases.ite (Erases.throw _) (Erases.lift _)

theorem watchedFiles_erases (single : Bool) :
    Erases (watchedFiles platform job single) (transferFiles platform job single) := by
  refine Erases.bind (Erases.observe _) fun manifest => ?_
  refine Erases.bind (Erases.lift _) fun _ => Erases.bind (watchedProgress_erases _) fun _ => ?_
  refine Erases.bind (Erases.forM fun idx => watchedEntry_erases _ _ idx) fun _ => ?_
  refine Erases.note (Erases.bind watchedCheckpoint_erases fun _ => ?_)
  exact Erases.observe fun t : Transfer => (⟨totalSize manifest, t.bytesDone,
    t.manifest.entries.length, t.filesCompleted⟩ : TransferReport)

/-- **Watching changes nothing.** -/
theorem watchedTransfer_erases :
    Erases (watchedTransfer platform job) (executeLocalTransfer platform job) :=
  Erases.bind (Erases.lift _) fun single => watchedFiles_erases single

end Erases

/-- A run that was started goes on as its second part. -/
theorem ends_started {platform : Platform} {job : Job} {t t₁ t' : Transfer} {single : Bool}
    (started : startTransfer job t = .ok single t₁)
    (ends : Ends (executeLocalTransfer platform job) t t') :
    Ends (transferFiles platform job single) t₁ t' := by
  have rest : executeLocalTransfer platform job t = transferFiles platform job single t₁ :=
    bind_of_ok started
  rcases ends with ⟨report, run⟩ | ⟨error, run⟩
  · exact Or.inl ⟨report, rest.symm.trans run⟩
  · exact Or.inr ⟨error, rest.symm.trans run⟩

/-- What holds after every watched second part of a run that was started holds of the run and what is
collected of it. -/
theorem watched_ends_started {platform : Platform} {job : Job}
    {before after : Traced Transfer Watch → Prop} {t t₁ t' : Transfer} {single : Bool}
    (started : startTransfer job t = .ok single t₁)
    (triple : Triple before (watchedFiles platform job single) (fun _ => after) fun _ => after)
    (start : before ⟨t₁, .start⟩) (ends : Ends (executeLocalTransfer platform job) t t') :
    after ⟨t', watchOf platform job t⟩ := by
  have lifted : lift (startTransfer job) ⟨t, Watch.start⟩ = .ok single ⟨t₁, Watch.start⟩ := by
    unfold lift zoom
    rw [started]
  have rest : watchedTransfer platform job ⟨t, .start⟩ =
      watchedFiles platform job single ⟨t₁, .start⟩ := bind_of_ok lifted
  obtain ⟨ends', same⟩ := (watchedFiles_erases single).of_ends (ends_started started ends) Watch.start
  have holds := triple.of_ends start ends'
  have sameWatch : watchOf platform job t =
      (final (watchedFiles platform job single) ⟨t₁, .start⟩).ghost := by
    rw [watchOf, final, rest, ← final]
  rw [sameWatch, ← same]
  exact holds

/-- A run that was not started has nothing to be watched. -/
theorem watchOf_not_started {platform : Platform} {job : Job} {t t₁ t' : Transfer} {error : Error}
    (failed : startTransfer job t = .error error t₁)
    (ends : Ends (executeLocalTransfer platform job) t t') :
    t' = t₁ ∧ watchOf platform job t = .start := by
  have stops : executeLocalTransfer platform job t = .error error t₁ := bind_of_error failed
  have lifted : lift (startTransfer job) ⟨t, Watch.start⟩ = .error error ⟨t₁, Watch.start⟩ := by
    unfold lift zoom
    rw [failed]
  have stops' : watchedTransfer platform job ⟨t, .start⟩ = .error error ⟨t₁, .start⟩ :=
    bind_of_error lifted
  refine ⟨?_, by rw [watchOf, final, stops']⟩
  rcases ends with ⟨report, run⟩ | ⟨error', run⟩
  · rw [stops] at run
    cases run
  · rw [stops] at run
    cases run
    rfl

end SendRs
