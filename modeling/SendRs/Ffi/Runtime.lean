/-
**The functions for other languages.**

The exported functions share one `RuntimeState`: the peers, the tasks and the error of the last call. Each
passes a closure to `with_result` or `with_json`, which note its error or clear the note. What the closures
call is a parameter, with a state of its own (`Operations`), so that any pattern of failures is an instance;
so is the serializer (`Serde`).

* `body_spec`: what the closure of each function does, and that it changes nothing when it fails;
* `run_eq`: what the wrappers make of it;
* `calls_faithful`: over any run of calls, a call that fails changes the error only, and the error can be
  asked for; `send_path` appends one task; `accept_transfer` changes one task.
-/

import SendRs.Core.Models
import SendRs.Ffi.Operations
import SendRs.Transfer.Soundness

namespace SendRs.Ffi

open Effect SendRs.Core Discovery Chat

/-! ### The state -/

/-- `RuntimeState`. -/
structure RuntimeState where
  peers : List PeerInfo
  tasks : List TransferTask
  lastError : Option String
deriving DecidableEq

/-- The state behind the lock, and what the operations work on. -/
structure Runtime (ω : Type) where
  state : RuntimeState
  outside : ω

/-- The state that a program starts in. -/
def Runtime.initial {ω : Type} (outside : ω) : Runtime ω := ⟨⟨[], [], none⟩, outside⟩

/-- `guard.last_error = …`. -/
def Runtime.note {ω : Type} (message : Option String) (r : Runtime ω) : Runtime ω :=
  { r with state := { r.state with lastError := message } }

/-- `serde_json::to_string` at the types that are returned. -/
structure Serde where
  peers : List PeerInfo → Except Error String
  task : TransferTask → Except Error String
  tasks : List TransferTask → Except Error String
  messages : List ChatMessage → Except Error String
  text : String → Except Error String

/-! ### Texts that come and go -/

/-- A pointer to a text that ends with the first zero byte. -/
inductive Pointer where
  | null
  | to (memory : Bytes)
deriving DecidableEq

/-- `read_cstr`. -/
def readCstr : Pointer → Except Error String
  | .null => .error ["received null pointer"]
  | .to memory =>
    match toStr (memory.takeWhile (· ≠ 0)) with
    | some s => .ok s
    | none => .error ["invalid UTF-8 input"]

/-- The bytes of a text, as they lie in memory. -/
def bytesOf (text : String) : Bytes := text.toByteArray.data.toList

/-- `CString`. -/
structure CString where
  text : String
  noNul : 0 ∉ bytesOf text
deriving DecidableEq

/-- `CString::new`. -/
def CString.new (text : String) : Except Error CString :=
  if noNul : 0 ∉ bytesOf text then .ok ⟨text, noNul⟩
  else .error ["nul byte found in provided data at position: " ++ toString ((bytesOf text).idxOf 0)]

/-- A text without the character NUL has no zero byte. -/
theorem notMem_bytesOf {chars : List Char} (noNul : '\x00' ∉ chars) :
    0 ∉ bytesOf (String.ofList chars) := by
  have bytes : bytesOf (String.ofList chars) = encodeChars chars := utf8_ofList chars
  rw [bytes]
  exact fun member => noNul (mem_of_mem_encodeChars (by decide) member)

/-- The values can be written, and their text has no NUL in it. -/
def Writes {α : Type} (toString : α → Except Error String) : Prop :=
  ∀ value, ∃ text, toString value = .ok text ∧ 0 ∉ bytesOf text

/-- What is known of the serializer: it can write strings, numbers, lists and structures of these, and it
escapes control characters. -/
structure Serde.Sound (serde : Serde) : Prop where
  peers : Writes serde.peers
  task : Writes serde.task
  tasks : Writes serde.tasks
  messages : Writes serde.messages
  text : Writes serde.text

/-- What an exported function returns. -/
inductive Reply where
  | code (value : Int)
  | pointer (text : Option CString)
deriving DecidableEq

/-- The call reports a failure: -1 or a null pointer. -/
def Reply.isFailure : Reply → Bool
  | .code value => value = -1
  | .pointer text => text.isNone

/-- `err.to_string()`: the outermost message. -/
def message (err : Error) : String := err.headD ""

/-! ### The wrappers -/

variable {ω α : Type}

/-- An exported function. -/
abbrev Exported (ω : Type) := Runtime ω → Reply × Runtime ω

/-- `with_result`. -/
def withResult (f : Prog Error (Runtime ω) Unit) : Exported ω := fun r =>
  match f r with
  | .ok () r => (.code 0, r.note none)
  | .error err r => (.code (-1), r.note (some (message err)))

/-- The two conversions that `with_json` chains to the closure. -/
def toCString (toString : α → Except Error String) (value : α) : Prog Error (Runtime ω) CString := do
  let text ← ofExcept (toString value)
  ofExcept (CString.new text)

/-- `with_json`. -/
def withJson (toString : α → Except Error String) (f : Prog Error (Runtime ω) α) : Exported ω := fun r =>
  match (f >>= toCString toString) r with
  | .ok cstring r => (.pointer (some cstring), r.note none)
  | .error err r => (.pointer none, r.note (some (message err)))

/-! ### The exported functions -/

/-- `DiscoveryBeacon::from_identity`. -/
def fromIdentity (identity : DeviceIdentity) (listenPort : UInt16) (publicEnabled : Bool) :
    DiscoveryBeacon where
  peerId := identity.deviceId
  displayName := identity.displayName
  listenPort
  publicEnabled
  version := "0.1.0"

/-- An operation of another crate. -/
def outside (operation : Prog Error ω α) : Prog Error (Runtime ω) α :=
  zoom Runtime.outside (fun o r => { r with outside := o }) operation

namespace Closure

variable (ops : Operations ω)

def startDiscovery : Prog Error (Runtime ω) Unit := do
  let identity ← outside (ops.loadOrCreateIdentity none)
  let beacon := fromIdentity identity.identity 38080 false
  let peers ← outside (ops.discoverPeers beacon 2)
  update fun r => { r with state := { r.state with
    peers := peers.filter fun peer => peer.peerId ≠ identity.identity.deviceId } }

def listPeers : Prog Error (Runtime ω) (List PeerInfo) := observe fun r => r.state.peers

def pairPeer (peerId code : Pointer) : Prog Error (Runtime ω) Unit := do
  let peerId ← ofExcept (readCstr peerId)
  let code ← ofExcept (readCstr code)
  let _ ← outside (ops.pairPeer peerId code)
  pure ()

/-- `uuid` and `now` are what `new_send` draws. -/
def sendPath (peerId path : Pointer) (publicMode : Int32) (uuid : String) (now : Int) :
    Prog Error (Runtime ω) TransferTask := do
  let peerId ← ofExcept (readCstr peerId)
  let path ← ofExcept (readCstr path)
  let manifest ← outside (ops.buildManifest path defaultChunkSize)
  let task := TransferTask.newSend uuid now peerId path
    (if publicMode = 0 then .lan else .public) (totalSize manifest)
  update fun r => { r with state := { r.state with tasks := r.state.tasks ++ [task] } }
  pure task

/-- `now` is what `accept_receive` reads. -/
def acceptTransfer (requestId target : Pointer) (now : Int) : Prog Error (Runtime ω) Unit := do
  let requestId ← ofExcept (readCstr requestId)
  let target ← ofExcept (readCstr target)
  let tasks ← observe fun r => r.state.tasks
  match tasks.findIdx? fun task => task.taskId = requestId with
  | none => throw ["task not found"]
  | some idx => update fun r => { r with state := { r.state with
      tasks := tasks.modify idx fun task => task.acceptReceive target now } }

def listTasks : Prog Error (Runtime ω) (List TransferTask) := observe fun r => r.state.tasks

def sendChat (peerId message : Pointer) : Prog Error (Runtime ω) Unit := do
  let peerId ← ofExcept (readCstr peerId)
  let message ← ofExcept (readCstr message)
  outside ops.openDefault
  let _ ← outside (ops.appendMessage peerId .outgoing message)
  pure ()

def listChatMessages (peerId : Pointer) : Prog Error (Runtime ω) (List ChatMessage) := do
  let peerId ← ofExcept (readCstr peerId)
  outside ops.openDefault
  outside (ops.listMessages peerId 200)

def lastErrorMessage : Prog Error (Runtime ω) String := observe fun r => r.state.lastError.getD ""

end Closure

section Exports

variable (ops : Operations ω) (serde : Serde)

/-- `start_discovery`. -/
def startDiscovery : Exported ω := withResult (Closure.startDiscovery ops)

/-- `list_peers`. -/
def listPeers : Exported ω := withJson serde.peers Closure.listPeers

/-- `pair_peer`. -/
def pairPeer (peerId code : Pointer) : Exported ω := withResult (Closure.pairPeer ops peerId code)

/-- `send_path`. -/
def sendPath (peerId path : Pointer) (publicMode : Int32) (uuid : String) (now : Int) : Exported ω :=
  withJson serde.task (Closure.sendPath ops peerId path publicMode uuid now)

/-- `accept_transfer`. -/
def acceptTransfer (requestId target : Pointer) (now : Int) : Exported ω :=
  withResult (Closure.acceptTransfer requestId target now)

/-- `list_tasks`. -/
def listTasks : Exported ω := withJson serde.tasks Closure.listTasks

/-- `send_chat`. -/
def sendChat (peerId message : Pointer) : Exported ω := withResult (Closure.sendChat ops peerId message)

/-- `list_chat_messages`. -/
def listChatMessages (peerId : Pointer) : Exported ω :=
  withJson serde.messages (Closure.listChatMessages ops peerId)

/-- `last_error_message`. -/
def lastErrorMessage : Exported ω := withJson serde.text Closure.lastErrorMessage

end Exports

/-! ### What the wrappers do -/

/-- The closure of `with_result`, with the reply. -/
def resultBody (f : Prog Error (Runtime ω) Unit) : Prog Error (Runtime ω) Reply := do
  f
  pure (.code 0)

/-- The closure of `with_json` and the conversions, with the reply. -/
def jsonBody (toString : α → Except Error String) (f : Prog Error (Runtime ω) α) :
    Prog Error (Runtime ω) Reply := do
  let cstring ← f >>= toCString toString
  pure (.pointer (some cstring))

/-- Run to a reply, and note the error. -/
def report (failure : Reply) (body : Prog Error (Runtime ω) Reply) : Exported ω := fun r =>
  match body r with
  | .ok reply r => (reply, r.note none)
  | .error err r => (failure, r.note (some (message err)))

theorem withResult_eq {f : Prog Error (Runtime ω) Unit} (r : Runtime ω) :
    withResult f r = report (.code (-1)) (resultBody f) r := by
  unfold withResult report resultBody
  cases run : f r with
  | ok nothing r' => rw [bind_of_ok run]; rfl
  | error err r' => rw [bind_of_error run]

theorem withJson_eq {toString : α → Except Error String} {f : Prog Error (Runtime ω) α} (r : Runtime ω) :
    withJson toString f r = report (.pointer none) (jsonBody toString f) r := by
  unfold withJson report jsonBody
  cases run : (f >>= toCString toString) r with
  | ok cstring r' => rw [bind_of_ok run]; rfl
  | error err r' => rw [bind_of_error run]

/-! ### The calls -/

/-- A call of an exported function, with what it draws. -/
inductive Call where
  | startDiscovery
  | listPeers
  | pairPeer (peerId code : Pointer)
  | sendPath (peerId path : Pointer) (publicMode : Int32) (uuid : String) (now : Int)
  | acceptTransfer (requestId target : Pointer) (now : Int)
  | listTasks
  | sendChat (peerId message : Pointer)
  | listChatMessages (peerId : Pointer)
  | lastErrorMessage
deriving DecidableEq

namespace Call

variable (ops : Operations ω) (serde : Serde)

/-- What a call does. -/
def run : Call → Exported ω
  | startDiscovery => Ffi.startDiscovery ops
  | listPeers => Ffi.listPeers serde
  | pairPeer peerId code => Ffi.pairPeer ops peerId code
  | sendPath peerId path publicMode uuid now => Ffi.sendPath ops serde peerId path publicMode uuid now
  | acceptTransfer requestId target now => Ffi.acceptTransfer requestId target now
  | listTasks => Ffi.listTasks serde
  | sendChat peerId message => Ffi.sendChat ops peerId message
  | listChatMessages peerId => Ffi.listChatMessages ops serde peerId
  | lastErrorMessage => Ffi.lastErrorMessage serde

/-- The identifier that a call draws. -/
def uuid? : Call → Option String
  | sendPath _ _ _ uuid _ => some uuid
  | _ => none

/-- How a call reports a failure. -/
def failure : Call → Reply
  | startDiscovery | pairPeer _ _ | acceptTransfer _ _ _ | sendChat _ _ => .code (-1)
  | listPeers | sendPath _ _ _ _ _ | listTasks | listChatMessages _ | lastErrorMessage => .pointer none

/-- A run of calls. -/
def runAll (r : Runtime ω) (calls : List Call) : Runtime ω :=
  calls.foldl (fun r call => (call.run ops serde r).2) r

theorem runAll_concat (r : Runtime ω) (calls : List Call) (call : Call) :
    runAll ops serde r (calls ++ [call]) = (call.run ops serde (runAll ops serde r calls)).2 := by
  rw [runAll, List.foldl_append]
  rfl

/-- The closure of a call, with the conversion of what it returns. -/
def body : Call → Prog Error (Runtime ω) Reply
  | startDiscovery => resultBody (Closure.startDiscovery ops)
  | listPeers => jsonBody serde.peers Closure.listPeers
  | pairPeer peerId code => resultBody (Closure.pairPeer ops peerId code)
  | sendPath peerId path publicMode uuid now =>
    jsonBody serde.task (Closure.sendPath ops peerId path publicMode uuid now)
  | acceptTransfer requestId target now => resultBody (Closure.acceptTransfer requestId target now)
  | listTasks => jsonBody serde.tasks Closure.listTasks
  | sendChat peerId message => resultBody (Closure.sendChat ops peerId message)
  | listChatMessages peerId => jsonBody serde.messages (Closure.listChatMessages ops peerId)
  | lastErrorMessage => jsonBody serde.text Closure.lastErrorMessage

/-- The error that a call ends with, if it does. -/
def error (call : Call) (r : Runtime ω) : Option Error :=
  match call.body ops serde r with
  | .ok _ _ => none
  | .error err _ => some err

/-- **The wrappers** note the error of the closure, or that there is none. -/
theorem run_eq (call : Call) (r : Runtime ω) :
    call.run ops serde r = report call.failure (call.body ops serde) r := by
  cases call with
  | startDiscovery => exact withResult_eq r
  | listPeers => exact withJson_eq r
  | pairPeer peerId code => exact withResult_eq r
  | sendPath peerId path publicMode uuid now => exact withJson_eq r
  | acceptTransfer requestId target now => exact withResult_eq r
  | listTasks => exact withJson_eq r
  | sendChat peerId message => exact withResult_eq r
  | listChatMessages peerId => exact withJson_eq r
  | lastErrorMessage => exact withJson_eq r

end Call

/-! ### What the closures do -/

/-- The reply is the text that the serializer gave. -/
def Reply.Holds (reply : Reply) (written : Except Error String) : Prop :=
  ∃ cstring, reply = .pointer (some cstring) ∧ written = .ok cstring.text

/-- What a call does that succeeds: its reply, and the state after it. -/
def Call.Does (serde : Serde) (S S' : RuntimeState) (reply : Reply) : Call → Prop
  | startDiscovery => reply = .code 0 ∧ ∃ peers, S' = { S with peers }
  | listPeers => reply.Holds (serde.peers S.peers) ∧ S' = S
  | pairPeer _ _ => reply = .code 0 ∧ S' = S
  | sendPath peerId path publicMode uuid now => ∃ peer source manifest,
      readCstr peerId = .ok peer ∧ readCstr path = .ok source ∧
        let task := TransferTask.newSend uuid now peer source
          (if publicMode = 0 then .lan else .public) (totalSize manifest)
        reply.Holds (serde.task task) ∧ S' = { S with tasks := S.tasks ++ [task] }
  | acceptTransfer requestId target now => reply = .code 0 ∧ ∃ request path front task back,
      readCstr requestId = .ok request ∧ readCstr target = .ok path ∧
        S.tasks = front ++ task :: back ∧ task.taskId = request ∧
          S' = { S with tasks := front ++ task.acceptReceive path now :: back }
  | listTasks => reply.Holds (serde.tasks S.tasks) ∧ S' = S
  | sendChat _ _ => reply = .code 0 ∧ S' = S
  | listChatMessages _ => (∃ messages, reply.Holds (serde.messages messages)) ∧ S' = S
  | lastErrorMessage => reply.Holds (serde.text (S.lastError.getD "")) ∧ S' = S

section Closures

variable {S : RuntimeState}

/-- The state is the given one. -/
abbrev At (S : RuntimeState) (r : Runtime ω) : Prop := r.state = S

/-- **An operation** of another crate does not touch the state. -/
theorem outside_spec (operation : Prog Error ω α) :
    Triple (At S) (outside operation) (fun _ => At S) fun _ => At S :=
  Triple.zoom fun _ start => (Triple.anything operation).conseq (fun _ _ => trivial)
    (fun _ _ _ => start) fun _ _ _ => start

theorem readCstr_spec (pointer : Pointer) :
    Triple (At S) (MonadExcept.ofExcept (readCstr pointer) : Prog Error (Runtime ω) String)
      (fun text r => readCstr pointer = .ok text ∧ At S r) fun _ => At S :=
  Triple.ofExcept (fun _ isText _ here => ⟨isText, here⟩) fun _ _ _ here => here

theorem startDiscovery_spec (ops : Operations ω) :
    Triple (At S) (Closure.startDiscovery ops) (fun _ r => ∃ peers, r.state = { S with peers })
      fun _ => At S := by
  refine Triple.bind (outside_spec _) fun identity => Triple.bind (outside_spec _) fun peers => ?_
  refine Triple.update fun r here => ?_
  rw [here]
  exact ⟨_, rfl⟩

theorem pairPeer_spec (ops : Operations ω) (peerId code : Pointer) :
    Triple (At S) (Closure.pairPeer ops peerId code) (fun _ => At S) fun _ => At S := by
  refine Triple.bind (readCstr_spec peerId) fun peer => Triple.given fun _ => ?_
  refine Triple.bind (readCstr_spec code) fun text => Triple.given fun _ => ?_
  exact Triple.bind (outside_spec _) fun paired => Triple.pure fun _ here => here

theorem sendPath_spec (ops : Operations ω) (peerId path : Pointer) (publicMode : Int32) (uuid : String)
    (now : Int) :
    Triple (At S) (Closure.sendPath ops peerId path publicMode uuid now)
      (fun task r => ∃ peer source manifest, readCstr peerId = .ok peer ∧ readCstr path = .ok source ∧
        task = TransferTask.newSend uuid now peer source (if publicMode = 0 then .lan else .public)
          (totalSize manifest) ∧ r.state = { S with tasks := S.tasks ++ [task] })
      fun _ => At S := by
  refine Triple.bind (readCstr_spec peerId) fun peer => Triple.given fun isPeer => ?_
  refine Triple.bind (readCstr_spec path) fun source => Triple.given fun isSource => ?_
  refine Triple.bind (outside_spec _) fun manifest => ?_
  refine Triple.bind (M := fun _ r => r.state = { S with tasks := S.tasks ++
    [TransferTask.newSend uuid now peer source (if publicMode = 0 then .lan else .public)
      (totalSize manifest)] }) (Triple.update fun r here => ?_) fun _ => ?_
  · rw [here]
  · exact Triple.pure fun _ appended => ⟨peer, source, manifest, isPeer, isSource, rfl, appended⟩

/-- The first task with the identifier is changed in its place. -/
theorem modify_findIdx? {tasks : List TransferTask} {request : String} {idx : Nat}
    (found : tasks.findIdx? (fun task => task.taskId = request) = some idx)
    (f : TransferTask → TransferTask) :
    ∃ front task back, tasks = front ++ task :: back ∧ task.taskId = request ∧
      tasks.modify idx f = front ++ f task :: back := by
  obtain ⟨inside, isRequest, _⟩ := List.findIdx?_eq_some_iff_getElem.mp found
  refine ⟨tasks.take idx, tasks[idx], tasks.drop (idx + 1), ?_, of_decide_eq_true isRequest, ?_⟩
  · rw [List.cons_getElem_drop_succ, List.take_append_drop]
  · rw [List.modify_eq_take_cons_drop inside]

theorem acceptTransfer_spec (requestId target : Pointer) (now : Int) :
    Triple (At S) (Closure.acceptTransfer requestId target now : Prog Error (Runtime ω) Unit)
      (fun _ r => ∃ request path front task back,
        readCstr requestId = .ok request ∧ readCstr target = .ok path ∧
          S.tasks = front ++ task :: back ∧ task.taskId = request ∧
            r.state = { S with tasks := front ++ task.acceptReceive path now :: back })
      fun _ => At S := by
  refine Triple.bind (readCstr_spec requestId) fun request => Triple.given fun isRequest => ?_
  refine Triple.bind (readCstr_spec target) fun path => Triple.given fun isPath => ?_
  refine Triple.bind (M := fun tasks r => tasks = S.tasks ∧ At S r)
    (Triple.observe fun r here => ⟨by rw [here], here⟩) fun tasks => Triple.given fun isTasks => ?_
  subst isTasks
  cases found : S.tasks.findIdx? fun task => task.taskId = request with
  | none => exact Triple.throw fun _ here => here
  | some idx =>
    obtain ⟨front, task, back, split, isTask, modified⟩ :=
      modify_findIdx? found fun task => task.acceptReceive path now
    refine Triple.update fun r here => ?_
    rw [here]
    exact ⟨request, path, front, task, back, isRequest, isPath, split, isTask, by rw [modified]⟩

theorem sendChat_spec (ops : Operations ω) (peerId message : Pointer) :
    Triple (At S) (Closure.sendChat ops peerId message) (fun _ => At S) fun _ => At S := by
  refine Triple.bind (readCstr_spec peerId) fun peer => Triple.given fun _ => ?_
  refine Triple.bind (readCstr_spec message) fun text => Triple.given fun _ => ?_
  refine Triple.bind (outside_spec _) fun _ => ?_
  exact Triple.bind (outside_spec _) fun appended => Triple.pure fun _ here => here

theorem listChatMessages_spec (ops : Operations ω) (peerId : Pointer) :
    Triple (At S) (Closure.listChatMessages ops peerId) (fun _ => At S) fun _ => At S := by
  refine Triple.bind (readCstr_spec peerId) fun peer => Triple.given fun _ => ?_
  exact Triple.bind (outside_spec _) fun _ => outside_spec _

/-! ### What the bodies do -/

theorem resultBody_spec {f : Prog Error (Runtime ω) Unit} {A : Runtime ω → Prop}
    (spec : Triple (At S) f (fun _ => A) fun _ => At S) :
    Triple (At S) (resultBody f) (fun reply r => reply = .code 0 ∧ A r) fun _ => At S :=
  Triple.bind spec fun _ => Triple.pure fun _ holds => ⟨rfl, holds⟩

/-- **The conversions** of a value that can be written do not fail, so that what the closure has done by
then is never undone by a report of failure. -/
theorem jsonBody_spec {f : Prog Error (Runtime ω) α} {toString : α → Except Error String}
    {A : α → Runtime ω → Prop} {failed : Error → Runtime ω → Prop} (writes : Writes toString)
    (spec : Triple (At S) f A failed) :
    Triple (At S) (jsonBody toString f)
      (fun reply r => ∃ value, A value r ∧ reply.Holds (toString value)) failed := by
  refine Triple.bind (M := fun cstring r => ∃ value, A value r ∧
    toString value = .ok cstring.text) (Triple.bind spec fun value => ?_) fun cstring => ?_
  · obtain ⟨text, written, noNul⟩ := writes value
    have new : CString.new text = .ok ⟨text, noNul⟩ := dif_pos noNul
    unfold toCString
    rw [written]
    show Triple _ (MonadExcept.ofExcept (CString.new text)) _ _
    rw [new]
    exact Triple.pure fun r holds => ⟨value, holds, written⟩
  · exact Triple.pure fun r ⟨value, holds, written⟩ => ⟨value, holds, cstring, rfl, written⟩

/-- A part of the state is returned as it is. -/
theorem observedBody_spec {toString : α → Except Error String} {failed : Error → Runtime ω → Prop}
    (writes : Writes toString) (part : RuntimeState → α) :
    Triple (At S) (jsonBody toString (observe fun r => part r.state))
      (fun reply r => reply.Holds (toString (part S)) ∧ At S r) failed := by
  refine (jsonBody_spec writes (A := fun value r => value = part S ∧ At S r)
    (Triple.observe fun r here => ⟨by rw [here], here⟩)).post ?_
  rintro reply r ⟨_, ⟨rfl, here⟩, holds⟩
  exact ⟨holds, here⟩

/-- **What a call does**: all of it, or nothing. -/
theorem body_spec (ops : Operations ω) {serde : Serde} (sound : serde.Sound) (call : Call) :
    Triple (At S) (call.body ops serde) (fun reply r => call.Does serde S r.state reply)
      fun _ => At S := by
  cases call with
  | startDiscovery => exact resultBody_spec (startDiscovery_spec ops)
  | listPeers => exact observedBody_spec sound.peers RuntimeState.peers
  | pairPeer peerId code => exact resultBody_spec (pairPeer_spec ops peerId code)
  | sendPath peerId path publicMode uuid now =>
    refine (jsonBody_spec sound.task (sendPath_spec ops peerId path publicMode uuid now)).post ?_
    rintro reply r ⟨_, ⟨peer, source, manifest, isPeer, isSource, rfl, appended⟩, holds⟩
    exact ⟨peer, source, manifest, isPeer, isSource, holds, appended⟩
  | acceptTransfer requestId target now =>
    exact resultBody_spec (acceptTransfer_spec requestId target now)
  | listTasks => exact observedBody_spec sound.tasks RuntimeState.tasks
  | sendChat peerId message => exact resultBody_spec (sendChat_spec ops peerId message)
  | listChatMessages peerId =>
    refine (jsonBody_spec sound.messages (listChatMessages_spec ops peerId)).post ?_
    rintro reply r ⟨messages, here, holds⟩
    exact ⟨⟨messages, holds⟩, here⟩
  | lastErrorMessage => exact observedBody_spec sound.text fun state => state.lastError.getD ""

end Closures

/-! ### Runs of calls -/

theorem failure_isFailure (call : Call) : call.failure.isFailure = true := by
  cases call with
  | startDiscovery | pairPeer | acceptTransfer | sendChat => rfl
  | listPeers | sendPath | listTasks | listChatMessages | lastErrorMessage => rfl

theorem Reply.Holds.isFailure {reply : Reply} {written : Except Error String}
    (holds : reply.Holds written) : reply.isFailure = false := by
  obtain ⟨cstring, rfl, _⟩ := holds
  rfl

namespace Call.Does

variable {serde : Serde} {S S' : RuntimeState} {reply : Reply} {call : Call}

/-- A call that succeeds reports no failure. -/
theorem isFailure (does : call.Does serde S S' reply) : reply.isFailure = false := by
  cases call with
  | startDiscovery | pairPeer | acceptTransfer | sendChat => rw [does.1]; rfl
  | sendPath =>
    obtain ⟨peer, source, manifest, _, _, holds, _⟩ := does
    exact holds.isFailure
  | listChatMessages =>
    obtain ⟨⟨messages, holds⟩, _⟩ := does
    exact holds.isFailure
  | listPeers | listTasks | lastErrorMessage => exact does.1.isFailure

/-- A call keeps the identifiers of the tasks, and `send_path` adds the one that it draws. -/
theorem taskIds (does : call.Does serde S S' reply) :
    S'.tasks.map TransferTask.taskId = S.tasks.map TransferTask.taskId ++ call.uuid?.toList := by
  cases call with
  | startDiscovery =>
    obtain ⟨_, peers, rfl⟩ := does
    exact (List.append_nil _).symm
  | sendPath =>
    obtain ⟨peer, source, manifest, _, _, _, rfl⟩ := does
    exact List.map_append
  | acceptTransfer =>
    obtain ⟨_, request, path, front, task, back, _, _, split, _, rfl⟩ := does
    rw [split]
    simp [TransferTask.acceptReceive, uuid?]
  | listPeers | pairPeer | listTasks | sendChat | listChatMessages | lastErrorMessage =>
    rw [does.2]
    exact (List.append_nil _).symm

end Call.Does

section Runs

variable {ops : Operations ω} {serde : Serde}

/-- **One call** has succeeded and done what it does, or it has failed and noted the error. -/
theorem run_spec (ops : Operations ω) (sound : serde.Sound) (call : Call) (r : Runtime ω) :
    (∃ S', call.Does serde r.state S' (call.run ops serde r).1 ∧
      (call.run ops serde r).2.state = { S' with lastError := none }) ∨
    ∃ err, call.error ops serde r = some err ∧ (call.run ops serde r).1.isFailure = true ∧
      (call.run ops serde r).2.state = { r.state with lastError := some (message err) } := by
  have outcome := body_spec ops sound call r rfl
  rw [Call.run_eq, report, Call.error]
  cases run : call.body ops serde r with
  | ok reply r' =>
    rw [run] at outcome
    exact .inl ⟨r'.state, outcome, rfl⟩
  | error err r' =>
    rw [run] at outcome
    refine .inr ⟨err, rfl, failure_isFailure call, ?_⟩
    rw [← show r'.state = r.state from outcome]
    rfl

/-- **`last_error_message`** does not fail, and returns the error that is noted. -/
theorem lastErrorMessage_holds (sound : serde.Sound) (r : Runtime ω) :
    (lastErrorMessage serde r).1.Holds (serde.text (r.state.lastError.getD "")) := by
  have spec : Triple (At r.state) (jsonBody serde.text (Closure.lastErrorMessage (ω := ω)))
      (fun reply r' => reply.Holds (serde.text (r.state.lastError.getD "")) ∧ At r.state r') Never :=
    observedBody_spec sound.text fun state => state.lastError.getD ""
  obtain ⟨reply, r', run, holds, _⟩ := spec.returns rfl
  rw [lastErrorMessage, withJson_eq, report, run]
  exact holds

/-- The identifiers of the tasks are drawn by the calls, in their order. -/
theorem taskIds_runAll (sound : serde.Sound) (outside : ω) (calls : List Call) :
    ((Call.runAll ops serde (.initial outside) calls).state.tasks.map TransferTask.taskId).Sublist
      (calls.filterMap Call.uuid?) := by
  induction calls using List.reverseRecOn with
  | nil => exact List.Sublist.refl _
  | append_singleton calls call ih =>
    have drawn : [call].filterMap Call.uuid? = call.uuid?.toList := by
      cases isUuid : call.uuid? with
      | none => simp [isUuid]
      | some uuid => simp [isUuid]
    rw [Call.runAll_concat, List.filterMap_append, drawn]
    rcases run_spec ops sound call (Call.runAll ops serde (.initial outside) calls) with
      ⟨S', does, after⟩ | ⟨err, _, _, after⟩
    · rw [after]
      show (S'.tasks.map TransferTask.taskId).Sublist _
      rw [does.taskIds]
      exact List.Sublist.append ih (List.Sublist.refl _)
    · rw [after]
      exact ih.trans (List.sublist_append_left _ _)

/-- **A failed call changes nothing but the error.** After any calls, a call that reports a failure leaves
the peers and the tasks as they are, and `last_error_message` then returns the message of its error;
`send_path`, where it succeeds, appends its task; and `accept_transfer` changes the task with the requested
identifier, which it makes pending with the target, and no other. -/
theorem calls_faithful (ops : Operations ω) (sound : serde.Sound) (outside : ω) (calls : List Call)
    (call : Call) (fresh : ((calls ++ [call]).filterMap Call.uuid?).Nodup) :
    let before := Call.runAll ops serde (.initial outside) calls
    let reply := (call.run ops serde before).1
    let after := (call.run ops serde before).2
    (reply.isFailure = true → after.state.peers = before.state.peers ∧
      after.state.tasks = before.state.tasks ∧ ∃ err, call.error ops serde before = some err ∧
        (lastErrorMessage serde after).1.Holds (serde.text (message err))) ∧
    (∀ peerId path publicMode uuid now, call = .sendPath peerId path publicMode uuid now →
      reply.isFailure = false → ∃ peer source manifest,
        readCstr peerId = .ok peer ∧ readCstr path = .ok source ∧
          after.state.tasks = before.state.tasks ++ [TransferTask.newSend uuid now peer source
            (if publicMode = 0 then .lan else .public) (totalSize manifest)]) ∧
    ∀ requestId target now, call = .acceptTransfer requestId target now →
      reply.isFailure = false → ∃ request path front task back,
        readCstr requestId = .ok request ∧ readCstr target = .ok path ∧
          before.state.tasks = front ++ task :: back ∧
          after.state.tasks = front ++ task.acceptReceive path now :: back ∧
          task.taskId = request ∧ (∀ other ∈ front ++ back, other.taskId ≠ request) ∧
          (task.acceptReceive path now).taskId = request ∧
          (task.acceptReceive path now).status = .pending ∧
          (task.acceptReceive path now).targetPath = some path := by
  intro before reply after
  have outcome := run_spec ops sound call before
  refine ⟨fun fails => ?_, ?_, ?_⟩
  · rcases outcome with ⟨S', does, _⟩ | ⟨err, isError, _, noted⟩
    · exact absurd (fails.symm.trans does.isFailure) (by decide)
    · have told := lastErrorMessage_holds sound after
      rw [show after.state = _ from noted] at told ⊢
      exact ⟨rfl, rfl, err, isError, told⟩
  · rintro peerId path publicMode uuid now rfl succeeds
    rcases outcome with ⟨S', does, noted⟩ | ⟨err, _, fails, _⟩
    · obtain ⟨peer, source, manifest, isPeer, isSource, _, rfl⟩ := does
      exact ⟨peer, source, manifest, isPeer, isSource, by rw [show after.state = _ from noted]⟩
    · exact absurd (fails.symm.trans succeeds) (by decide)
  · rintro requestId target now rfl succeeds
    rcases outcome with ⟨S', does, noted⟩ | ⟨err, _, fails, _⟩
    · obtain ⟨_, request, path, front, task, back, isRequest, isPath, split, isTask, rfl⟩ := does
      have distinct : (before.state.tasks.map TransferTask.taskId).Nodup :=
        fresh.sublist ((taskIds_runAll sound outside calls).trans (by
          rw [List.filterMap_append]
          exact List.sublist_append_left _ _))
      rw [split, List.map_append, List.map_cons, isTask] at distinct
      have others := (List.nodup_middle.mp distinct).notMem
      refine ⟨request, path, front, task, back, isRequest, isPath, split,
        by rw [show after.state = _ from noted], isTask, fun other member same => ?_, isTask, rfl, rfl⟩
      rw [← List.map_append] at others
      exact others (List.mem_map.mpr ⟨other, member, same⟩)
    · exact absurd (fails.symm.trans succeeds) (by decide)

end Runs

/-! ### The JSON of what is returned -/

open Json (Format)
open Json.Format

/-- The text of a `Direction`. -/
def directionText : Direction → String
  | .send => "send"
  | .receive => "receive"

/-- The text of a `TransferTaskStatus`. -/
def statusText : TransferTaskStatus → String
  | .awaitingAccept => "awaiting_accept"
  | .pending => "pending"
  | .inProgress => "in_progress"
  | .completed => "completed"
  | .failed => "failed"

/-- The text of a `NetworkMode`. -/
def modeText : NetworkMode → String
  | .lan => "lan"
  | .public => "public"

theorem direction_found (direction : Direction) :
    ([Direction.send, .receive].find? fun other => directionText other = directionText direction) =
      some direction := by
  cases direction <;> simp [directionText]

theorem status_found (status : TransferTaskStatus) :
    ([TransferTaskStatus.awaitingAccept, .pending, .inProgress, .completed, .failed].find? fun other =>
      statusText other = statusText status) = some status := by
  cases status <;> simp [statusText]

theorem mode_found (mode : NetworkMode) :
    ([NetworkMode.lan, .public].find? fun other => modeText other = modeText mode) = some mode := by
  cases mode <;> simp [modeText]

theorem chat_found (direction : ChatDirection) :
    ([ChatDirection.incoming, .outgoing].find? fun other =>
      directionToStr other = directionToStr direction) = some direction := by
  cases direction <;> simp [directionToStr]

/-- `PeerInfo`. -/
def peerFormat : Format PeerInfo :=
  record (both (member "peer_id" string) <| both (member "display_name" string) <|
      both (member "addresses" (many string .square)) <| both (member "public_enabled" bool)
      (member "last_seen" timeFormat))
    (fun (peerId, displayName, addresses, publicEnabled, lastSeen) =>
      ⟨peerId, displayName, addresses, publicEnabled, lastSeen⟩)
    (fun peer => (peer.peerId, peer.displayName, peer.addresses, peer.publicEnabled, peer.lastSeen))
    fun _ => rfl

/-- `TransferTask`. -/
def taskFormat : Format TransferTask :=
  record (both (member "task_id" string) <| both (member "peer_id" string) <|
      both (member "source_path" string) <| both (member "target_path" optional) <|
      both (member "direction" (choice directionText _ direction_found)) <|
      both (member "status" (choice statusText _ status_found)) <|
      both (member "network_mode" (choice modeText _ mode_found)) <|
      both (member "bytes_total" nat) <| both (member "bytes_done" nat) <|
      both (member "error_message" optional) <| both (member "created_at" timeFormat)
      (member "updated_at" timeFormat))
    (fun (taskId, peerId, sourcePath, targetPath, direction, status, networkMode, bytesTotal, bytesDone,
        errorMessage, createdAt, updatedAt) =>
      ⟨taskId, peerId, sourcePath, targetPath, direction, status, networkMode, bytesTotal, bytesDone,
        errorMessage, createdAt, updatedAt⟩)
    (fun task => (task.taskId, task.peerId, task.sourcePath, task.targetPath, task.direction, task.status,
      task.networkMode, task.bytesTotal, task.bytesDone, task.errorMessage, task.createdAt, task.updatedAt))
    fun _ => rfl

/-- `DateTime<Utc>`. -/
def dateTimeFormat : Format DateTime :=
  instantFormat.as (fun (timestamp, nanos) =>
      if inRange : minTimestamp ≤ timestamp ∧ timestamp ≤ maxTimestamp then some ⟨timestamp, nanos, inRange⟩
      else none)
    (fun time => (time.timestamp, time.nanos)) fun time => dif_pos time.inRange

/-- `ChatMessage`. -/
def messageFormat : Format ChatMessage :=
  record (both (member "id" int) <| both (member "peer_id" string) <|
      both (member "direction" (choice directionToStr _ chat_found)) <|
      both (member "body" string) (member "sent_at" dateTimeFormat))
    (fun (id, peerId, direction, body, sentAt) => ⟨id, peerId, direction, body, sentAt⟩)
    (fun message => (message.id, message.peerId, message.direction, message.body, message.sentAt))
    fun _ => rfl

/-- `serde_json::to_string`, which writes on one line. -/
def sampleSerde : Serde where
  peers peers := .ok ((many peerFormat .square).text .compact peers)
  task task := .ok (taskFormat.text .compact task)
  tasks tasks := .ok ((many taskFormat .square).text .compact tasks)
  messages messages := .ok ((many messageFormat .square).text .compact messages)
  text s := .ok (string.text .compact s)

/-- What has a format can be written. -/
theorem writes_text {α : Type} (format : Format α) : Writes fun value => .ok (format.text .compact value) :=
  fun value => ⟨_, rfl, notMem_bytesOf (format.clean .compact value)⟩

theorem sampleSerde_sound : sampleSerde.Sound :=
  ⟨writes_text _, writes_text _, writes_text _, writes_text _, writes_text _⟩

/-! ### A sample -/

/-- The task of the file `/s` for the peer `b`. -/
def sampleTask : TransferTask :=
  .newSend "5f0d8f3e-3b0a-4f6e-9a55-0d6a1d6c2b11" 5 "b" "/s" .lan 2

def sampleInstallation : Installation where
  platform := samplePlatform
  keys := ⟨id, fun _ => ""⟩
  identities := codecOf identityFormat
  stores := codecOf trustStoreFormat
  decoder := sampleDecoder
  order := sampleOrder
  dataDir := .ofString "/"
  identityFile := .ofString "/identity.json"
  trustFile := .ofString "/trusted_peers.json"

def sampleDevice : Device where
  world := sampleWorld
  chats := SqlTable.Table.empty
  turns _ := ⟨[], none, sampleSocket, none, ⟨⟨1, 0, by decide⟩, none⟩, ⟨fun _ => ⟨1, 0, by decide⟩, none⟩⟩
  clock := 0

/-- A text in memory, and what is behind it. -/
def textPointer (s : String) : Pointer := .to (utf8 s ++ [0, 255])

def sampleSend : Call :=
  .sendPath (textPointer "b") (textPointer "/s") 0 "5f0d8f3e-3b0a-4f6e-9a55-0d6a1d6c2b11" 5

/-- What the call leaves, and what the calls after it come to. -/
theorem sampleSend_runs :
    let before := Call.runAll sampleInstallation.operations sampleSerde (.initial sampleDevice) [sampleSend]
    let missing := Call.acceptTransfer (textPointer "x") (textPointer "/t") 6
    let accepting := Call.acceptTransfer (textPointer "5f0d8f3e-3b0a-4f6e-9a55-0d6a1d6c2b11")
      (textPointer "/t") 6
    before.state.tasks = [sampleTask] ∧
      (missing.run sampleInstallation.operations sampleSerde before).1.isFailure = true ∧
      missing.error sampleInstallation.operations sampleSerde before = some ["task not found"] ∧
      (accepting.run sampleInstallation.operations sampleSerde before).1.isFailure = false := by
  decide +kernel

/-- A path is sent; then a transfer is accepted that is not there, or the one that is. -/
theorem calls_faithful_sample :
    let before := Call.runAll sampleInstallation.operations sampleSerde (.initial sampleDevice) [sampleSend]
    let missed := (Call.run sampleInstallation.operations sampleSerde
      (.acceptTransfer (textPointer "x") (textPointer "/t") 6) before).2
    let accepted := (Call.run sampleInstallation.operations sampleSerde (.acceptTransfer
      (textPointer "5f0d8f3e-3b0a-4f6e-9a55-0d6a1d6c2b11") (textPointer "/t") 6) before).2
    missed.state.tasks = [sampleTask] ∧
      (lastErrorMessage sampleSerde missed).1.Holds (.ok "\"task not found\"") ∧
      accepted.state.tasks = [sampleTask.acceptReceive "/t" 6] := by
  obtain ⟨sent, fails, isMissing, succeeds⟩ := sampleSend_runs
  have theirs := calls_faithful sampleInstallation.operations sampleSerde_sound sampleDevice [sampleSend]
  obtain ⟨_, same, err, isError, told⟩ :=
    (theirs (.acceptTransfer (textPointer "x") (textPointer "/t") 6) (by decide)).1 fails
  obtain ⟨request, path, front, task, back, _, isPath, split, changed, _⟩ :=
    (theirs (.acceptTransfer (textPointer "5f0d8f3e-3b0a-4f6e-9a55-0d6a1d6c2b11") (textPointer "/t") 6)
      (by decide)).2.2 _ _ _ rfl succeeds
  obtain rfl : err = ["task not found"] := Option.some.inj (isError.symm.trans isMissing)
  have isTarget : path = "/t" := Except.ok.inj (isPath.symm.trans (by decide +kernel))
  have written : sampleSerde.text (message ["task not found"]) = .ok "\"task not found\"" := by
    decide +kernel
  rw [written] at told
  rw [sent] at same split
  rw [isTarget] at changed
  dsimp only
  refine ⟨same, told, ?_⟩
  obtain ⟨rfl, rest⟩ := (List.append_eq_singleton_iff.mp split.symm).resolve_right (by simp)
  obtain ⟨rfl, rfl⟩ := List.cons.inj rest
  exact changed

end SendRs.Ffi
