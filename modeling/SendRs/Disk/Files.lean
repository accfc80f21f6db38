/-
**The commands on the disk.**

The records that the commands keep in JSON files, with all their fields, and the programs that write
and read them: the state of a session, the offer and the claim of a receiver, the history. `sendStart`
is `cmd_send` up to its loop, `receiveStart` is `cmd_receive` up to the claim.

Each record has a part that the other end looks at: `brief` is that part.
-/

import SendRs.Cli.Clean
import SendRs.Discovery.Snapshot
import SendRs.Store.Identity
import SendRs.Transfer.Execute

namespace SendRs.Disk

open Effect Cli

/-! ### Records -/

/-- `SendOffer`. -/
structure SendOffer where
  code : String
  senderId : String
  senderName : String
  sourcePath : String
  manifestPath : String
  publicEnabled : Bool
  createdAt : String
deriving DecidableEq

/-- `ReceiverClaim`. -/
structure ReceiverClaim where
  claimId : String
  receiverId : String
  receiverName : String
  targetDir : String
  createdAt : String
deriving DecidableEq

/-- `SessionState`. -/
structure SessionState where
  claimId : Option String
  state : String
  message : String
  bytesDone : Nat
  bytesTotal : Nat
  updatedAt : String
deriving DecidableEq

/-- `TransferHistoryEntry`. -/
structure TransferHistoryEntry where
  id : String
  code : String
  role : String
  status : String
  source : Option String
  target : Option String
  peerId : Option String
  peerName : Option String
  bytesDone : Nat
  bytesTotal : Nat
  startedAt : String
  finishedAt : String
  error : Option String
deriving DecidableEq

/-- A device: its home directory, what it uses of the libraries, and the JSON of its records. -/
structure Host where
  homeLoc : Loc
  table : CaseTable
  platform : Platform
  keys : KeyScheme
  /-- `DateTime::to_rfc3339`. -/
  rfc3339 : Int → String
  offers : JsonCodec SendOffer
  claims : JsonCodec ReceiverClaim
  states : JsonCodec SessionState
  history : JsonCodec (List TransferHistoryEntry)
  trust : JsonCodec TrustStore
  identities : JsonCodec LocalIdentity

namespace Host

variable (host : Host)

/-- The home directory. -/
def home : Path := .ofLoc host.homeLoc

/-- `default_data_dir`. -/
def dataDir : Path := host.home.join (.ofString ".sendrs")

/-- `identity.json`. -/
def identityFile : Path := host.dataDir.join (.ofString "identity.json")

/-- `trusted_peers.json`. -/
def trustFile : Path := host.dataDir.join (.ofString "trusted_peers.json")

/-- `Utc::now().to_rfc3339()`. -/
def now : Sys String := do
  let t ← turn
  pure (host.rfc3339 t.now)

/-! ### The files of a session -/

/-- `write_state`. -/
def writeState (code : String) (claimId : Option String) (state message : String)
    (bytesDone bytesTotal : Nat) : Sys Unit := do
  let updatedAt ← host.now
  writeJson host.states (statePath host.table host.home code)
    ⟨claimId, state, message, bytesDone, bytesTotal, updatedAt⟩

/-- `read_state`. -/
def readState (code : String) : Sys SessionState :=
  readJson host.states (statePath host.table host.home code)

/-- `is_trusted`. -/
def isTrusted (peerId : String) : Sys Bool := do
  let store ← loadTrustStore host.trust host.trustFile
  pure (store.peers.lookup peerId).isSome

/-- `load_history`. -/
def loadHistory : Sys (List TransferHistoryEntry) := do
  let there ← pathExists (historyPath host.home)
  if there then readJson host.history (historyPath host.home) else pure []

/-- `append_history`. -/
def appendHistory (entry : TransferHistoryEntry) : Sys Unit := do
  let entries ← host.loadHistory
  writeJson host.history (historyPath host.home) (entries ++ [entry])

end Host

/-! ### The start of `send` -/

/-- `Path::file_name`: the last component, if it is a name. -/
def fileName (path : Path) : Option Bytes :=
  match path.pieces.reverse.dropWhile fun piece => piece = [] ∨ piece = [46] with
  | [] => none
  | last :: _ => if last = [46, 46] then none else some last

/-- `Path::is_dir`: false when the call fails. -/
def pathIsDir (path : Path) : Sys Bool := do
  let t ← turn
  let found ← observe fun w => (w.fs.resolve w.env.cwd path).bind w.fs.node
  pure (t.fault.isNone && found = some .dir)

/-- What `cmd_send` has prepared when it enters its loop. -/
structure Share where
  code : String
  manifest : TransferManifest
  manifestPath : Path
  offer : SendOffer
  announce : Discovery.SharedOfferAnnouncement

/-- What `cmd_send` draws: a signing key, in case that there is no identity, the identifier of the
code, and the label of the device. -/
structure SendDraw where
  secret : Bytes
  uuid : BitVec 128
  label : String

/-- `cmd_send` up to its loop. -/
def Host.sendStart (host : Host) (path : Path) (isPublic : Bool) (draw : SendDraw) : Sys Share := do
  let there ← pathExists path
  if there then do
    let identity ← loadOrCreateIdentity host.keys host.identities host.dataDir host.identityFile none
      draw.secret
    let code := generateCode host.table draw.uuid
    let manifest ← buildManifest host.platform path defaultChunkSize
    let bytesTotal := totalSize manifest
    withContext "create manifests root" (createDirAll (manifestsRoot host.home))
    withContext "create offers root" (createDirAll (offersRoot host.home))
    withContext "create session root" (createDirAll (sessionRoot host.table host.home code))
    let manifestPath := manifestPathByCode host.table host.home code
    saveManifest host.platform manifestPath manifest
    let source ← canonicalize path
    let createdAt ← host.now
    let offer : SendOffer := {
      code
      senderId := identity.identity.deviceId
      senderName := draw.label
      sourcePath := (Path.ofLoc source).display
      manifestPath := manifestPath.display
      publicEnabled := isPublic
      createdAt }
    writeJson host.offers (offerPath host.table host.home code) offer
    host.writeState code none "waiting_receiver" "waiting receiver to enter code" 0 bytesTotal
    let isDir ← pathIsDir path
    let announcedAt ← host.now
    let announce : Discovery.SharedOfferAnnouncement := {
      code
      ownerPeerId := identity.identity.deviceId
      ownerName := draw.label
      sourceName := ((fileName path).bind toStr).getD "shared"
      isDir
      bytesTotal := UInt64.ofNat bytesTotal
      publicEnabled := isPublic
      createdAt := announcedAt }
    pure ⟨code, manifest, manifestPath, offer, announce⟩
  else throw ["path does not exist: " ++ path.display]

/-! ### The start of `receive` -/

/-- `std::env::current_dir`. -/
def currentDir : Sys Path := do
  let _ ← call
  observe fun w => .ofLoc w.env.cwd

/-- What `cmd_receive` draws: a signing key, in case that there is no identity, and the identifier of
the claim. -/
structure ReceiveDraw where
  secret : Bytes
  claimId : String

/-- The claim: the part of `cmd_receive` from the creation of the directories to the write. -/
def Host.leaveClaim (host : Host) (code : String) (targetDir : Path) (identity : LocalIdentity)
    (claimId : String) : Sys ReceiverClaim := do
  withContext ("create target dir " ++ targetDir.display) (createDirAll targetDir)
  withContext "create session root" (createDirAll (sessionRoot host.table host.home code))
  let targetLoc ← canonicalize targetDir
  let createdAt ← host.now
  let claim : ReceiverClaim := {
    claimId
    receiverId := identity.identity.deviceId
    receiverName := identity.identity.displayName
    targetDir := (Path.ofLoc targetLoc).display
    createdAt }
  writeJson host.claims (receiverClaimPath host.table host.home code) claim
  pure claim

/-- `cmd_receive` up to the claim. The current directory is read even where a target is given. -/
def Host.receiveStart (host : Host) (raw : String) (target : Option Path) (draw : ReceiveDraw) :
    Sys (SendOffer × ReceiverClaim) := do
  let code := normalizeCode host.table raw
  let offer ← withContext ("invalid or expired code: " ++ code)
    (readJson host.offers (offerPath host.table host.home code))
  let identity ← loadOrCreateIdentity host.keys host.identities host.dataDir host.identityFile none
    draw.secret
  let _ ← host.now
  let here ← withContext "read current directory" currentDir
  let claim ← host.leaveClaim code (target.getD here) identity draw.claimId
  pure (offer, claim)

end SendRs.Disk
