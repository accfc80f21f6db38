/-
**A session on the disk.**

The `send` loop and the `receive` processes on its code, once more, but with the files as they are: the
records with all their fields, in JSON, at their paths in the tree. A step of a process runs the calls
of the source on the tree; what a process has read and is about to write is its `Memory`, and the
program counters are those of the session in which the files are only what the records say.

What the transfer writes, and what anybody else does, is a change `elsewhere`, between two steps.
-/

import SendRs.Cli.Session
import SendRs.Disk.Ledger

namespace SendRs.Disk

open Effect Cli Machines

variable {ι : Type}

/-! ### What the records say -/

/-- What a claim says; nobody looks at its time. -/
def ReceiverClaim.brief (claim : ReceiverClaim) : Cli.ReceiverClaim :=
  ⟨claim.claimId, claim.receiverId, claim.receiverName, claim.targetDir⟩

/-- What a record of the state says. -/
structure SessionState.Tells (record : SessionState) (said : Cli.SessionState) : Prop where
  claimId : record.claimId = said.claimId
  state : record.state = phaseText said.state
  message : record.message = said.message
  bytesDone : record.bytesDone = said.bytesDone
  bytesTotal : record.bytesTotal = said.bytesTotal

/-- What an entry of the history says. -/
structure TransferHistoryEntry.Tells (entry : TransferHistoryEntry) (said : Cli.TransferHistoryEntry) :
    Prop where
  role : entry.role = roleText said.role
  status : entry.status = phaseText said.status
  target : entry.target = some said.target
  peerId : entry.peerId = some said.peerId
  peerName : entry.peerName = some said.peerName
  bytesDone : entry.bytesDone = said.bytesDone
  bytesTotal : entry.bytesTotal = said.bytesTotal
  error : entry.error = said.error

/-- What is fixed for a session, with the records. -/
structure Serving (ι : Type) where
  code : Code
  offer : SendOffer
  bytesTotal : Nat
  claim : ι → ReceiverClaim
  distinct : Function.Injective fun i => (claim i).claimId

/-- The session in which the files are what the records say. -/
def Serving.session (serving : Serving ι) : Session ι where
  offer := ⟨serving.offer.senderId, serving.offer.senderName⟩
  bytesTotal := serving.bytesTotal
  claim i := (serving.claim i).brief
  distinct := serving.distinct

/-- What a process keeps: the trust store and the history that it is about to write, and the time at
which its round has begun. -/
structure Memory where
  trust : TrustStore
  history : List TransferHistoryEntry
  startedAt : String

/-! ### The files -/

/-- The files that the processes share. -/
inductive SharedFile where
  | claim
  | senderYes
  | receiverYes
  | state
  | trust
  | history
deriving DecidableEq

namespace Host

variable (host : Host)

/-- Their paths. -/
def sharedPath (code : String) : SharedFile → Path
  | .claim => receiverClaimPath host.table host.home code
  | .senderYes => senderYesPath host.table host.home code
  | .receiverYes => receiverYesPath host.table host.home code
  | .state => statePath host.table host.home code
  | .trust => host.trustFile
  | .history => historyPath host.home

/-- The file that `clear_runtime_session_files` removes. -/
def runtimePath (code : String) : RuntimeFile → Path
  | .receiverClaim => receiverClaimPath host.table host.home code
  | .senderYes => senderYesPath host.table host.home code
  | .receiverYes => receiverYesPath host.table host.home code

end Host

/-- `remove_path_if_exists` after the test. -/
def removeFound (path : Path) : Sys Unit := do
  let isDir ← metadataIsDir path
  if isDir then withContext ("remove dir " ++ path.display) (removeDirAll path)
  else withContext ("remove file " ++ path.display) (removeFile path)

/-- `let _ = remove_path_if_exists(..)` after the test. -/
def removeAnyway (works : Bool) (path : Path) : Sys Unit :=
  if works then do
    let _ ← attempt (removeFound path)
    pure ()
  else pure ()

/-- `b"yes"`. -/
def yes : Bytes := utf8 "yes"

/-- `PairedPeer` and the store for `pair_peer(peer_id, "trusted-by-yes")`, up to the write. -/
def Host.preparePair (host : Host) (peerId : String) : Sys (PairedPeer × TrustStore) :=
  preparePairing host.platform host.trust host.dataDir host.trustFile peerId "trusted-by-yes"

/-! ### The sender -/

section Programs

variable (host : Host) (serving : Serving ι)

/-- The entry that a process appends: `append_history`'s argument. -/
def Host.entryOf (memory : Memory) (said : Cli.TransferHistoryEntry) : Sys TransferHistoryEntry := do
  let t ← turn
  let finishedAt ← host.now
  pure {
    id := t.uuid
    code := serving.code.text
    role := roleText said.role
    status := phaseText said.status
    source := some serving.offer.sourcePath
    target := some said.target
    peerId := some said.peerId
    peerName := some said.peerName
    bytesDone := said.bytesDone
    bytesTotal := said.bytesTotal
    startedAt := memory.startedAt
    finishedAt
    error := said.error }

/-- `append_history` up to the write. -/
def Host.prepareEntry (memory : Memory) (said : Cli.TransferHistoryEntry) : Sys Memory := do
  let entry ← host.entryOf serving memory said
  let entries ← host.loadHistory
  pure { memory with history := entries ++ [entry] }

/-- What a step of the sender leaves: where it is, what it has done, and what it keeps. -/
abbrev SenderResult := Sender × List Event × Memory

/-- The next file to be cleared, or the start of a round. -/
def Host.clearNext (memory : Memory) : List RuntimeFile → Sys SenderResult
  | [] => do
    let startedAt ← host.now
    pure (.polling, [], { memory with startedAt })
  | file :: rest => pure (.clearing file rest, [], memory)

/-- `write_state` of what is said. -/
def Host.writeSaid (said : Cli.SessionState) : Sys Unit :=
  host.writeState serving.code.text said.claimId (phaseText said.state) said.message said.bytesDone
    said.bytesTotal

/-- The rounds of the loop of `cmd_send`, from the claim on. -/
def Host.serveProgram (memory : Memory) (claim : Cli.ReceiverClaim) :
    Stage → SenderAction → Option (Sys SenderResult)
  | .taking, .step => some do
    let there ← pathExists (host.runtimePath serving.code.text .receiverClaim)
    pure (.serving claim (if there then .removingClaim else .lookup), [], memory)
  | .removingClaim, .removed works => some do
    removeAnyway works (host.runtimePath serving.code.text .receiverClaim)
    pure (.serving claim .lookup, [], memory)
  | .lookup, .step => some do
    let trusted ← host.isTrusted claim.receiverId
    if trusted then pure (.serving claim .beginning, [.trusted claim], memory)
    else pure (.serving claim .prompt, [], memory)
  | .prompt, .answer true => some (pure (.serving claim .confirming, [.approved claim], memory))
  | .prompt, .answer false => some (pure (.serving claim .rejecting, [.rejected claim], memory))
  | .rejecting, .step => some do
    let said := rejectedState serving.session claim
    host.writeSaid serving said
    pure (.serving claim (.recording (sendEntry claim said)), [.closed claim], memory)
  | .confirming, .step => some do
    withContext "write sender yes" (fsWrite (senderYesPath host.table host.home serving.code.text) yes)
    pure (.serving claim .waitYes, [], memory)
  | .waitYes, .step => some do
    let there ← pathExists (receiverYesPath host.table host.home serving.code.text)
    pure (.serving claim (if there then .pairing else .waitYes), [], memory)
  | .pairing, .step => some do
    let prepared ← host.preparePair claim.receiverId
    pure (.serving claim (.savingPair []), [.paired claim], { memory with trust := prepared.2 })
  | .savingPair _, .step => some do
    withContext "write json file" (fsWrite host.trustFile (host.trust.body memory.trust))
    pure (.serving claim .beginning, [], memory)
  | .beginning, .step => some (pure (.serving claim (.transferring 0), [.started claim], memory))
  | .transferring lastPrint, .progress works bytesDone bytesTotal currentFile => some do
    if works then
      let _ ← attempt (host.writeSaid serving ⟨some claim.claimId, .transferring,
        "transferring " ++ currentFile, bytesDone, bytesTotal⟩)
    pure (.serving claim (.transferring (nextPrint lastPrint bytesDone bytesTotal)), [], memory)
  | .transferring _, .returned (.ok (bytesDone, bytesTotal)) =>
    some (pure (.serving claim (.reporting (.done bytesDone bytesTotal)), [.finished claim true], memory))
  | .transferring lastPrint, .returned (.error message) =>
    some (pure (.serving claim (.reporting (.failed message lastPrint)), [.finished claim false], memory))
  | .reporting outcome, .step => some do
    let said := resultState serving.session claim outcome
    host.writeSaid serving said
    pure (.serving claim (.recording (sendEntry claim said)), [.closed claim], memory)
  | .recording entry, .step => some do
    let memory ← host.prepareEntry serving memory entry
    pure (.serving claim (.savingRecord entry []), [], memory)
  | .savingRecord _ _, .step => some do
    writeJson host.history (historyPath host.home) memory.history
    pure (loopHead, [], memory)
  | _, .stop => some (pure (.exited, [], memory))
  | _, _ => none

/-- `cmd_send`, from the moment the offer file is written. -/
def Host.senderProgram (memory : Memory) : Sender → SenderAction → Option (Sys SenderResult)
  | .starting, .step => some do
    host.writeSaid serving
      ⟨none, .waitingReceiver, "waiting receiver to enter code", 0, serving.bytesTotal⟩
    pure (loopHead, [], memory)
  | .clearing file rest, .step => some do
    let there ← pathExists (host.runtimePath serving.code.text file)
    if there then pure (.removing file rest, [], memory) else host.clearNext memory rest
  | .removing file rest, .removed works => some do
    removeAnyway works (host.runtimePath serving.code.text file)
    host.clearNext memory rest
  | .polling, .step => some do
    let there ← pathExists (receiverClaimPath host.table host.home serving.code.text)
    pure (if there then .reading else .polling, [], memory)
  | .reading, .step => some do
    let read ← attempt (readJson host.claims (receiverClaimPath host.table host.home serving.code.text))
    match read with
    | .ok claim => pure (.serving claim.brief .taking, [.consumed claim.brief], memory)
    | .error _ => pure (.polling, [], memory)
  | .serving claim stage, action => host.serveProgram serving memory claim stage action
  | .exited, _ => none
  | _, .stop => some (pure (.exited, [], memory))
  | _, _ => none

/-! ### The receivers -/

/-- One read of `wait_for_completion`, and what follows it. -/
def completionOf (offer : SendOffer) (claim : ReceiverClaim) (r : Receiver) :
    Except Error SessionState → Receiver
  | .error error => { r with pc := .exited, outcome := some (.error (error.headD "")) }
  | .ok record =>
    if record.claimId ≠ some claim.claimId then r
    else if record.state = "completed" then
      { r with
        pc := .recording (receiveEntry ⟨offer.senderId, offer.senderName⟩ claim.brief .completed
          record.bytesDone record.bytesTotal none)
        outcome := some (.ok ⟨record.claimId, .completed, record.message, record.bytesDone,
          record.bytesTotal⟩) }
    else if record.state = "failed" then
      { r with pc := .exited, outcome := some (.error ("transfer failed: " ++ record.message)) }
    else r

/-- `cmd_receive`, from the moment it writes its claim. -/
def Host.receiverProgram (claim : ReceiverClaim) (memory : Memory) (r : Receiver) :
    ReceiverAction → Option (Sys (Receiver × Memory))
  | .stop =>
    if r.pc = .claiming ∨ r.pc = .exited then none else some (pure ({ r with pc := .exited }, memory))
  | .answer yes =>
    if r.pc = .prompt then
      some (pure ({ r with
        answer := some yes
        pc := if yes then .confirming else .recording (receiveEntry serving.session.offer claim.brief
          .failed 0 0 (some "receiver rejected authentication")) }, memory))
    else none
  | .step =>
    match r.pc with
    | .claiming => some do
      writeJson host.claims (receiverClaimPath host.table host.home serving.code.text) claim
      pure ({ r with pc := .lookup }, memory)
    | .lookup => some do
      let trusted ← host.isTrusted serving.offer.senderId
      pure (if trusted then { r with trusted := some true, pc := .completing }
        else { r with trusted := some false, pc := .prompt }, memory)
    | .confirming => some do
      withContext "write receiver yes"
        (fsWrite (receiverYesPath host.table host.home serving.code.text) yes)
      pure ({ r with pc := .waitYes }, memory)
    | .waitYes => some do
      let there ← pathExists (senderYesPath host.table host.home serving.code.text)
      pure (if there then { r with pc := .pairing } else r, memory)
    | .pairing => some do
      let prepared ← host.preparePair serving.offer.senderId
      pure ({ r with pc := .savingPair [] }, { memory with trust := prepared.2 })
    | .savingPair _ => some do
      withContext "write json file" (fsWrite host.trustFile (host.trust.body memory.trust))
      pure ({ r with pc := .completing }, memory)
    | .completing => some do
      let read ← attempt (host.readState serving.code.text)
      pure (completionOf serving.offer claim r read, memory)
    | .recording entry => some do
      let memory ← host.prepareEntry serving memory entry
      pure ({ r with pc := .savingRecord entry [] }, memory)
    | .savingRecord _ _ => some do
      writeJson host.history (historyPath host.home) memory.history
      pure ({ r with pc := .exited }, memory)
    | .prompt | .exited => none

end Programs

/-! ### The system -/

/-- The world, where the processes are, and what they keep. -/
structure DiskState (ι : Type) where
  world : World
  sender : Sender
  senderMemory : Memory
  receivers : ι → Receiver
  memories : ι → Memory
  log : List Event

/-- A step of one of the processes, or what is done elsewhere in the meantime. -/
inductive DiskAction (ι : Type) where
  | sender (action : SenderAction)
  | receiver (i : ι) (action : ReceiverAction)
  | elsewhere (edit : FileSystem → FileSystem)

/-- The step of the session. -/
def DiskAction.view : DiskAction ι → Option (Action ι)
  | .sender action => some (.sender action)
  | .receiver i action => some (.receiver i action)
  | .elsewhere _ => none

variable [DecidableEq ι]

/-- One step; an error that is passed on ends a process. -/
def diskStep (host : Host) (serving : Serving ι) (s : DiskState ι) : DiskAction ι → Option (DiskState ι)
  | .sender action =>
    (host.senderProgram serving s.senderMemory s.sender action).map fun prog =>
      match prog s.world with
      | .ok (sender, events, senderMemory) world =>
        { s with world, sender, senderMemory, log := s.log ++ events }
      | .error _ world => { s with world, sender := .exited }
  | .receiver i action =>
    (host.receiverProgram serving (serving.claim i) (s.memories i) (s.receivers i) action).map fun prog =>
      match prog s.world with
      | .ok (r, memory) world =>
        { s with
          world
          receivers := Function.update s.receivers i r
          memories := Function.update s.memories i memory }
      | .error _ world =>
        { s with
          world
          receivers := Function.update s.receivers i { s.receivers i with pc := .exited } }
  | .elsewhere edit => some { s with world := { s.world with fs := edit s.world.fs } }

end SendRs.Disk
