/-
**Executing a transfer.**

`executeLocalTransfer` copies the files of a manifest chunk by chunk. A chunk whose bit is set is
kept if the target still has it; any other chunk is read from the source, checked against its hash
and written, with retries. After its chunks the whole target file is hashed.

The loops of the source are `copyAttempts` (retries), `transferChunk` (one round of the chunk loop)
and `transferEntry` (one round of the entry loop). The manifest, the counters and the events so far
are part of the state, so they survive an error, as the `&mut` argument does.
-/

import SendRs.Transfer.Build

namespace SendRs

open Effect

/-- The state of a run of `execute_local_transfer`. -/
structure Transfer where
  world : World
  manifest : TransferManifest
  bytesDone : Nat
  filesCompleted : Nat
  events : List ProgressEvent

/-- A part of `execute_local_transfer`. -/
abbrev Run (α : Type) := Prog Error Transfer α

/-- A call to the system from within a transfer. -/
def sys {α : Type} (prog : Sys α) : Run α :=
  zoom Transfer.world (fun world t => { t with world }) prog

/-- The arguments of `execute_local_transfer` besides the manifest. -/
structure Job where
  source : Path
  target : Path
  checkpoint : Option Path
  maxRetries : Nat

/-- The entry the loops are at: what was read from the manifest, and the open files. -/
structure OpenEntry where
  idx : Nat
  entry : ManifestEntry
  src : Loc
  dst : Loc

variable (platform : Platform)

/-- `copy_chunk`. -/
def copyChunk (src dst : Loc) (offset readLen : Nat) (expected : String) : Sys Unit := do
  withContext "seek source offset" seek
  let buf ← withContext "read source chunk" (readExact src offset readLen)
  if platform.blake3 buf ≠ expected then throw ["source chunk hash mismatch"]
  else do
    withContext "seek target offset" seek
    withContext "write target chunk" (writeAll dst offset buf)

/-- `verify_chunk_at`. -/
def verifyChunkAt (file : Loc) (offset len : Nat) (expected : String) : Sys Bool := do
  withContext "seek target for verify" seek
  let buf ← withContext "read target chunk" (readExact file offset len)
  pure (platform.blake3 buf == expected)

/-- `save_manifest`. -/
def saveManifest (path : Path) (manifest : TransferManifest) : Sys Unit :=
  withContext "write manifest" (fsWrite path (platform.manifestJson manifest))

/-- `if let Some(path) = checkpoint_path { save_manifest(path, manifest)?; }` -/
def saveCheckpoint (job : Job) : Run Unit := do
  let manifest ← observe Transfer.manifest
  match job.checkpoint with
  | some path => sys (saveManifest platform path manifest)
  | none => pure ()

/-- `on_progress`. -/
def onProgress (bytesTotal : Nat) (currentFile : String) : Run Unit :=
  update fun t => { t with events := t.events ++ [⟨bytesTotal, t.bytesDone, currentFile⟩] }

/-- Change one entry of the manifest. -/
def modifyEntry (idx : Nat) (f : ManifestEntry → ManifestEntry) : Run Unit :=
  update fun t => { t with manifest := { t.manifest with entries := t.manifest.entries.modify idx f } }

/-- Add to the counter of bytes done. -/
def addBytesDone (n : Nat) : Run Unit :=
  update fun t => { t with bytesDone := (t.bytesDone + n) % 2 ^ 64 }

/-- Subtract from the counter of bytes done, down to zero. -/
def subBytesDone (n : Nat) : Run Unit := update fun t => { t with bytesDone := t.bytesDone - n }

/-- What follows a chunk that was copied. -/
def chunkCopied (job : Job) (bytesTotal : Nat) (file : OpenEntry) (chunkIdx readLen : Nat) :
    Run Unit := do
  modifyEntry file.idx fun entry => markChunkDone entry chunkIdx
  addBytesDone readLen
  saveCheckpoint platform job
  onProgress bytesTotal file.entry.relativePath

/-- The retries of one chunk: the error of the last attempt, or none when one succeeded. -/
def copyAttempts (job : Job) (bytesTotal : Nat) (file : OpenEntry)
    (chunkIdx offset readLen : Nat) (expected : String) : Nat → Option Error → Run (Option Error)
  | 0, lastError => pure lastError
  | attempts + 1, _ => do
    let outcome ← sys (attempt (copyChunk platform file.src file.dst offset readLen expected))
    match outcome with
    | .ok _ => do
      chunkCopied platform job bytesTotal file chunkIdx readLen
      pure none
    | .error err =>
      copyAttempts job bytesTotal file chunkIdx offset readLen expected attempts (some err)

/-- Copy a chunk, or fail with the error of the last attempt. -/
def copyWithRetries (job : Job) (bytesTotal : Nat) (file : OpenEntry)
    (chunkIdx offset readLen : Nat) (expected : String) : Run Unit := do
  let lastError ← copyAttempts platform job bytesTotal file chunkIdx offset readLen expected
    (max job.maxRetries 1) none
  match lastError with
  | some err => throw (("copy chunk failed file=" ++ file.entry.relativePath ++ " chunk_idx=" ++
      toString chunkIdx) :: err)
  | none => pure ()

/-- One round of the chunk loop. -/
def transferChunk (job : Job) (bytesTotal chunkSize : Nat) (file : OpenEntry)
    (chunk : String × Nat) : Run Unit :=
  let offset := chunkOffset platform chunk.2 chunkSize
  let readLen := chunkLen platform file.entry.size chunk.2 chunkSize
  if readLen = 0 then pure ()
  else do
    let current ← observe fun t => t.manifest.entries[file.idx]?
    if (current.map fun entry => isChunkDone entry chunk.2) = some true then do
      let intact ← sys (verifyChunkAt platform file.dst offset readLen chunk.1)
      if intact then pure ()
      else do
        modifyEntry file.idx fun entry => clearChunkDone entry chunk.2
        subBytesDone readLen
        copyWithRetries platform job bytesTotal file chunk.2 offset readLen chunk.1
    else copyWithRetries platform job bytesTotal file chunk.2 offset readLen chunk.1

/-- Where the file of an entry goes. -/
def destFilePath (target : Path) (rootName : String) (single : Bool) (relativePath : String) : Path :=
  if single then target.join (.ofString rootName)
  else (target.join (.ofString rootName)).join (.ofString relativePath)

/-- `if let Some(parent) = dest_file_path.parent() { fs::create_dir_all(parent)?; }` -/
def createParent (path : Path) : Sys Unit :=
  match path.parent with
  | some parent => withContext ("create dir " ++ parent.display) (createDirAll parent)
  | none => pure ()

/-- One round of the entry loop. -/
def transferEntry (job : Job) (single : Bool) (bytesTotal chunkSize : Nat) (idx : Nat) :
    Run Unit := do
  let manifest ← observe Transfer.manifest
  match manifest.entries[idx]? with
  | none => throw ["index out of bounds"]
  | some entry => do
    let sourceIsFile ← sys (isFile job.source)
    let srcFilePath :=
      if sourceIsFile then job.source else job.source.join (.ofString entry.relativePath)
    let destPath := destFilePath job.target manifest.rootName single entry.relativePath
    sys (createParent destPath)
    let src ← sys (withContext ("open source file " ++ srcFilePath.display) (openRead srcFilePath))
    let dst ← sys (withContext ("open target file " ++ destPath.display) (openWrite destPath))
    sys (withContext ("set target size " ++ destPath.display) (setLen dst entry.size))
    entry.chunkHashes.zipIdx.forM
      (transferChunk platform job bytesTotal chunkSize ⟨idx, entry, src, dst⟩)
    let hashes ← sys (hashFile platform destPath chunkSize)
    if hashes.1 ≠ entry.fileHash then throw ["file hash mismatch for " ++ entry.relativePath]
    else update fun t => { t with filesCompleted := t.filesCompleted + 1 }

/-- The start of `execute_local_transfer`: the target root, and whether a single file is sent. -/
def startTransfer (job : Job) : Run Bool := do
  sys (withContext "create receive target root" (createDirAll job.target))
  let sourceIsFile ← sys (isFile job.source)
  let manifest ← observe Transfer.manifest
  pure (sourceIsFile && manifest.entries.map ManifestEntry.relativePath == [manifest.rootName])

/-- The rest of `execute_local_transfer`. -/
def transferFiles (job : Job) (single : Bool) : Run TransferReport := do
  let manifest ← observe Transfer.manifest
  let bytesTotal := totalSize manifest
  update fun t => { t with bytesDone := doneSize platform manifest, filesCompleted := 0 }
  onProgress bytesTotal ""
  (List.range manifest.entries.length).forM
    (transferEntry platform job single bytesTotal manifest.chunkSize)
  saveCheckpoint platform job
  observe fun t => {
    bytesTotal
    bytesDone := t.bytesDone
    filesTotal := t.manifest.entries.length
    filesCompleted := t.filesCompleted }

/-- `execute_local_transfer`. -/
def executeLocalTransfer (job : Job) : Run TransferReport := do
  let single ← startTransfer job
  transferFiles platform job single

end SendRs
