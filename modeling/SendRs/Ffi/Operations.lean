/-
**What the exported functions call.**

`Operations` is a parameter of the exported functions: the functions of the other crates that they call, on
a state of their own. `Installation.operations` fills it with the programs of this development: the file
system of a `World`, the table of the chat messages, and sockets.
-/

import SendRs.Chat.Messages
import SendRs.Discovery.Snapshot
import SendRs.Store.Identity
import SendRs.Transfer.Build

namespace SendRs.Ffi

open Effect Discovery Chat

/-- The functions of the other crates. -/
structure Operations (ω : Type) where
  loadOrCreateIdentity : Option String → Prog Error ω LocalIdentity
  /-- `discover_peers`, with the timeout in seconds. -/
  discoverPeers : DiscoveryBeacon → Nat → Prog Error ω (List PeerInfo)
  pairPeer : String → String → Prog Error ω PairedPeer
  buildManifest : String → Nat → Prog Error ω TransferManifest
  /-- `ChatStore::open_default`. -/
  openDefault : Prog Error ω Unit
  appendMessage : String → ChatDirection → String → Prog Error ω ChatMessage
  listMessages : String → UInt64 → Prog Error ω (List ChatMessage)

/-! ### The operations of a device -/

/-- What happens around one operation, beside what happens to the files. -/
structure DeviceTurn where
  /-- The bytes of a signing key. -/
  secret : Bytes
  /-- Why the beacon cannot be sent. -/
  notSent : Option Error
  socket : Socket
  /-- Why the chat database cannot be opened. -/
  notOpened : Option Error
  append : AppendTurn
  list : ListTurn

/-- The files, the chat messages, and what happens next. -/
structure Device where
  world : World
  chats : ChatStore
  turns : Nat → DeviceTurn
  clock : Nat

/-- What a device has that is not modelled. -/
structure Installation where
  platform : Platform
  keys : KeyScheme
  identities : JsonCodec LocalIdentity
  stores : JsonCodec TrustStore
  decoder : Decoder
  order : IterationOrder
  dataDir : Path
  identityFile : Path
  trustFile : Path

/-- The next turn. -/
def nextTurn : Prog Error Device DeviceTurn := fun device =>
  .ok (device.turns device.clock) { device with clock := device.clock + 1 }

/-- A program on the files. -/
def inWorld {α : Type} (prog : Sys α) : Prog Error Device α :=
  zoom Device.world (fun world device => { device with world }) prog

/-- Stop with an error, if there is one. -/
def failWith (err : Option Error) : Prog Error Device Unit :=
  match err with
  | some err => throw err
  | none => pure ()

/-- The context of the error of a listening socket. -/
def listenContext : ListenError → String
  | .bindUdpListener => "bind udp listener"
  | .setReadTimeout => "set read timeout"
  | .readDiscoveryDatagram => "read discovery datagram"

/-- `discover_peers`: the beacon is sent, and the socket listens for some milliseconds. -/
def Installation.discoverPeers (installation : Installation) (timeout : Nat) :
    Prog Error Device (List PeerInfo) := do
  let t ← nextTurn
  failWith t.notSent
  match installation.decoder.listenForSnapshot installation.order t.socket (1000 * timeout) with
  | .ok snapshot => pure snapshot.peers
  | .error step => throw (listenContext step :: osError)

/-- `append_message` on the table of the device. -/
def appendChat (peerId : String) (direction : ChatDirection) (body : String) :
    Prog Error Device ChatMessage := do
  let t ← nextTurn
  let chats ← observe Device.chats
  let appended := Chat.appendMessage chats peerId direction body t.append
  update fun device => { device with chats := appended.2 }
  match appended.1 with
  | .ok message => pure message
  | .error err => throw (err :: osError)

/-- `list_messages` on the table of the device. -/
def listChat (peerId : String) (limit : UInt64) : Prog Error Device (List ChatMessage) := do
  let t ← nextTurn
  let chats ← observe Device.chats
  match Chat.listMessages chats peerId limit t.list with
  | .ok messages => pure messages
  | .error err => throw (err :: osError)

/-- The operations of a device. -/
def Installation.operations (installation : Installation) : Operations Device where
  loadOrCreateIdentity displayName := do
    let t ← nextTurn
    inWorld (loadOrCreateIdentity installation.keys installation.identities installation.dataDir
      installation.identityFile displayName t.secret)
  discoverPeers _ timeout := installation.discoverPeers timeout
  pairPeer peerId shortCode := inWorld (pairPeer installation.platform installation.stores
    installation.dataDir installation.trustFile peerId shortCode)
  buildManifest path chunkSize :=
    inWorld (buildManifest installation.platform (.ofString path) chunkSize)
  openDefault := do
    let t ← nextTurn
    failWith t.notOpened
  appendMessage := appendChat
  listMessages := listChat

end SendRs.Ffi
