/-
**One `send` loop and the `receive` processes on its code.**

The processes share the files of the session directory, the trust store and the history. Every file
operation of a process is one step; between two steps of a process any others may be taken. A
process also stops by itself, at any point: an error that is passed on with `?` ends it, and so does
the user. A write happens or does not; half-written files are not part of this model.

`senderStep` is the loop of `cmd_send` from the moment the offer file is written, `receiverStep` is
`cmd_receive` from the moment it writes its claim. The log of events is not a file: it says what the
sender has done for which claim.
-/

import Mathlib.Data.Fintype.Basic
import Mathlib.Logic.Function.Basic
import SendRs.Library.Machine

namespace SendRs.Cli

open Machines

variable {ι : Type}

/-! ### Data -/

/-- `SendOffer`: what the receivers read of it. -/
structure SendOffer where
  senderId : String
  senderName : String
deriving DecidableEq

/-- `ReceiverClaim`. -/
structure ReceiverClaim where
  claimId : String
  receiverId : String
  receiverName : String
  targetDir : String
deriving DecidableEq

/-- The `state` of a session. -/
inductive Phase where
  | waitingReceiver
  | transferring
  | completed
  | failed
deriving DecidableEq

/-- The text of a state. -/
def phaseText : Phase → String
  | .waitingReceiver => "waiting_receiver"
  | .transferring => "transferring"
  | .completed => "completed"
  | .failed => "failed"

theorem phaseText_injective : Function.Injective phaseText := by
  intro first second same
  cases first <;> cases second <;> simp_all [phaseText]

/-- `SessionState`. -/
structure SessionState where
  claimId : Option String
  state : Phase
  message : String
  bytesDone : Nat
  bytesTotal : Nat
deriving DecidableEq

/-- Who writes a history entry. -/
inductive Role where
  | send
  | receive
deriving DecidableEq

/-- The text of a role. -/
def roleText : Role → String
  | .send => "send"
  | .receive => "receive"

theorem roleText_injective : Function.Injective roleText := by
  intro first second same
  cases first <;> cases second <;> simp_all [roleText]

/-- `TransferHistoryEntry`. -/
structure TransferHistoryEntry where
  role : Role
  status : Phase
  target : String
  peerId : String
  peerName : String
  bytesDone : Nat
  bytesTotal : Nat
  error : Option String
deriving DecidableEq

/-- The files the processes share: `receiver.json`, `sender_yes`, `receiver_yes`, `state.json`, the
trust store and the history. -/
structure Files where
  receiver : Option ReceiverClaim
  senderYes : Bool
  receiverYes : Bool
  state : Option SessionState
  trust : List String
  history : List TransferHistoryEntry
deriving DecidableEq

/-- What the sender has done. -/
inductive Event where
  /-- `wait_for_receiver_claim` has returned the claim. -/
  | consumed (claim : ReceiverClaim)
  /-- `is_trusted` has said yes of the receiver. -/
  | trusted (claim : ReceiverClaim)
  /-- The user has typed yes. -/
  | approved (claim : ReceiverClaim)
  /-- The user has not typed yes. -/
  | rejected (claim : ReceiverClaim)
  /-- `pair_peer` was called for the receiver. -/
  | paired (claim : ReceiverClaim)
  /-- `execute_local_transfer` was called with the target directory of the claim. -/
  | started (claim : ReceiverClaim)
  /-- That call has returned. -/
  | finished (claim : ReceiverClaim) (ok : Bool)
  /-- The final state of the claim was written. -/
  | closed (claim : ReceiverClaim)
deriving DecidableEq

/-- The claim an event is about. -/
def Event.claim : Event → ReceiverClaim
  | consumed claim | trusted claim | approved claim | rejected claim | paired claim | started claim
  | finished claim _ | closed claim => claim

/-- What is fixed for a session: the offer, the size of the transfer, and the claim that each
`receive` process writes, whose id is a fresh `Uuid`. -/
structure Session (ι : Type) where
  offer : SendOffer
  bytesTotal : Nat
  claim : ι → ReceiverClaim
  distinct : Function.Injective fun i => (claim i).claimId

/-! ### The sender -/

/-- The files that `clear_runtime_session_files` removes. -/
inductive RuntimeFile where
  | receiverClaim
  | senderYes
  | receiverYes
deriving DecidableEq

def Files.exists (files : Files) : RuntimeFile → Bool
  | .receiverClaim => files.receiver.isSome
  | .senderYes => files.senderYes
  | .receiverYes => files.receiverYes

def Files.remove (files : Files) : RuntimeFile → Files
  | .receiverClaim => { files with receiver := none }
  | .senderYes => { files with senderYes := false }
  | .receiverYes => { files with receiverYes := false }

/-- How `execute_local_transfer` ended: the bytes of the report, or the error and the bytes that were
printed last. -/
inductive Outcome where
  | done (bytesDone bytesTotal : Nat)
  | failed (message : String) (lastPrint : Nat)
deriving DecidableEq

/-- Where the sender is while it serves a claim. -/
inductive Stage where
  /-- `remove_path_if_exists(receiver_claim_path)`: the test, -/
  | taking
  /-- and the removal. -/
  | removingClaim
  /-- `is_trusted`. -/
  | lookup
  /-- `prompt_yes`. -/
  | prompt
  /-- `write_state` of a rejection. -/
  | rejecting
  /-- The write of `sender_yes`. -/
  | confirming
  /-- `wait_for_file(receiver_yes)`. -/
  | waitYes
  /-- `pair_peer`: reading the store, -/
  | pairing
  /-- and saving it. -/
  | savingPair (store : List String)
  /-- The call of `execute_local_transfer`. -/
  | beginning
  /-- During that call. -/
  | transferring (lastPrint : Nat)
  /-- `write_state` of the result. -/
  | reporting (outcome : Outcome)
  /-- `append_history`: reading the history, -/
  | recording (entry : TransferHistoryEntry)
  /-- and writing it. -/
  | savingRecord (entry : TransferHistoryEntry) (entries : List TransferHistoryEntry)
deriving DecidableEq

/-- Where the sender is. -/
inductive Sender where
  /-- `write_state` before the loop. -/
  | starting
  /-- `clear_runtime_session_files`: testing for a file, -/
  | clearing (file : RuntimeFile) (rest : List RuntimeFile)
  /-- and removing it. -/
  | removing (file : RuntimeFile) (rest : List RuntimeFile)
  /-- `wait_for_receiver_claim`: the test, -/
  | polling
  /-- and the read. -/
  | reading
  | serving (claim : ReceiverClaim) (stage : Stage)
  | exited
deriving DecidableEq

/-- A step of the sender, with what it does not decide itself. -/
inductive SenderAction where
  /-- The next file operation. -/
  | step
  /-- A removal, which may fail. -/
  | removed (works : Bool)
  | answer (yes : Bool)
  /-- A progress event, whose write may fail. -/
  | progress (works : Bool) (bytesDone bytesTotal : Nat) (currentFile : String)
  /-- The return of `execute_local_transfer`: the bytes of the report, or the error. -/
  | returned (result : Except String (Nat × Nat))
  | stop

/-- The next file to be cleared, or the wait for a claim. -/
def clearNext : List RuntimeFile → Sender
  | [] => .polling
  | file :: rest => .clearing file rest

/-- The head of the loop. -/
def loopHead : Sender := clearNext [.receiverClaim, .senderYes, .receiverYes]

/-- `last_print` after a progress event. -/
def nextPrint (lastPrint bytesDone bytesTotal : Nat) : Nat :=
  if bytesDone - lastPrint ≥ 2 * 1024 * 1024 ∨ bytesDone = bytesTotal then bytesDone else lastPrint

/-- The final state of a claim. -/
def resultState (session : Session ι) (claim : ReceiverClaim) : Outcome → SessionState
  | .done bytesDone bytesTotal =>
    ⟨some claim.claimId, .completed, "transfer completed", bytesDone, bytesTotal⟩
  | .failed message lastPrint =>
    ⟨some claim.claimId, .failed, message, lastPrint, session.bytesTotal⟩

/-- The history entry of the sender for a final state. -/
def sendEntry (claim : ReceiverClaim) (state : SessionState) : TransferHistoryEntry where
  role := .send
  status := state.state
  target := claim.targetDir
  peerId := claim.receiverId
  peerName := claim.receiverName
  bytesDone := state.bytesDone
  bytesTotal := state.bytesTotal
  error := if state.state = .completed then none else some state.message

/-- The final state of a rejected claim. -/
def rejectedState (session : Session ι) (claim : ReceiverClaim) : SessionState :=
  ⟨some claim.claimId, .failed, "sender rejected authentication", 0, session.bytesTotal⟩

/-- The rounds of the loop of `cmd_send`, from the claim on. -/
def serve (session : Session ι) (files : Files) (claim : ReceiverClaim) :
    Stage → SenderAction → Option (Files × Sender × List Event)
  | .taking, .step =>
    some (files, .serving claim (if files.receiver.isSome then .removingClaim else .lookup), [])
  | .removingClaim, .removed works =>
    some (if works then files.remove .receiverClaim else files, .serving claim .lookup, [])
  | .lookup, .step =>
    if claim.receiverId ∈ files.trust then some (files, .serving claim .beginning, [.trusted claim])
    else some (files, .serving claim .prompt, [])
  | .prompt, .answer true => some (files, .serving claim .confirming, [.approved claim])
  | .prompt, .answer false => some (files, .serving claim .rejecting, [.rejected claim])
  | .rejecting, .step =>
    some ({ files with state := some (rejectedState session claim) },
      .serving claim (.recording (sendEntry claim (rejectedState session claim))), [.closed claim])
  | .confirming, .step => some ({ files with senderYes := true }, .serving claim .waitYes, [])
  | .waitYes, .step =>
    some (files, .serving claim (if files.receiverYes then .pairing else .waitYes), [])
  | .pairing, .step => some (files, .serving claim (.savingPair files.trust), [.paired claim])
  | .savingPair store, .step =>
    some ({ files with trust := store.insert claim.receiverId }, .serving claim .beginning, [])
  | .beginning, .step => some (files, .serving claim (.transferring 0), [.started claim])
  | .transferring lastPrint, .progress works bytesDone bytesTotal currentFile =>
    some (if works then { files with state := some ⟨some claim.claimId, .transferring,
        "transferring " ++ currentFile, bytesDone, bytesTotal⟩ } else files,
      .serving claim (.transferring (nextPrint lastPrint bytesDone bytesTotal)), [])
  | .transferring _, .returned (.ok (bytesDone, bytesTotal)) =>
    some (files, .serving claim (.reporting (.done bytesDone bytesTotal)), [.finished claim true])
  | .transferring lastPrint, .returned (.error message) =>
    some (files, .serving claim (.reporting (.failed message lastPrint)), [.finished claim false])
  | .reporting outcome, .step =>
    some ({ files with state := some (resultState session claim outcome) },
      .serving claim (.recording (sendEntry claim (resultState session claim outcome))),
      [.closed claim])
  | .recording entry, .step => some (files, .serving claim (.savingRecord entry files.history), [])
  | .savingRecord entry entries, .step =>
    some ({ files with history := entries ++ [entry] }, loopHead, [])
  | _, .stop => some (files, .exited, [])
  | _, _ => none

/-- `cmd_send`, from the moment the offer file is written. -/
def senderStep (session : Session ι) (files : Files) :
    Sender → SenderAction → Option (Files × Sender × List Event)
  | .starting, .step =>
    some ({ files with state := some ⟨none, .waitingReceiver, "waiting receiver to enter code", 0,
      session.bytesTotal⟩ }, loopHead, [])
  | .clearing file rest, .step =>
    some (files, if files.exists file then .removing file rest else clearNext rest, [])
  | .removing file rest, .removed works =>
    some (if works then files.remove file else files, clearNext rest, [])
  | .polling, .step => some (files, if files.receiver.isSome then .reading else .polling, [])
  | .reading, .step =>
    match files.receiver with
    | some claim => some (files, .serving claim .taking, [.consumed claim])
    | none => some (files, .polling, [])
  | .serving claim stage, action => serve session files claim stage action
  | .exited, _ => none
  | _, .stop => some (files, .exited, [])
  | _, _ => none

/-! ### The receivers -/

/-- Where a receiver is. -/
inductive ReceiverPc where
  /-- The write of `receiver.json`. -/
  | claiming
  /-- `is_trusted`. -/
  | lookup
  /-- `prompt_yes`. -/
  | prompt
  /-- The write of `receiver_yes`. -/
  | confirming
  /-- `wait_for_file(sender_yes)`. -/
  | waitYes
  /-- `pair_peer`: reading the store, -/
  | pairing
  /-- and saving it. -/
  | savingPair (store : List String)
  /-- `wait_for_completion`. -/
  | completing
  /-- `append_history`: reading the history, -/
  | recording (entry : TransferHistoryEntry)
  /-- and writing it. -/
  | savingRecord (entry : TransferHistoryEntry) (entries : List TransferHistoryEntry)
  | exited
deriving DecidableEq

/-- A `receive` process: where it is, what `is_trusted` said of the sender, what its user answered,
and what `wait_for_completion` returned. -/
structure Receiver where
  pc : ReceiverPc
  trusted : Option Bool
  answer : Option Bool
  outcome : Option (Except String SessionState)

/-- A step of a receiver. -/
inductive ReceiverAction where
  | step
  | answer (yes : Bool)
  | stop
deriving DecidableEq

/-- The history entry of a receiver. -/
def receiveEntry (offer : SendOffer) (claim : ReceiverClaim) (status : Phase)
    (bytesDone bytesTotal : Nat) (error : Option String) : TransferHistoryEntry where
  role := .receive
  status
  target := claim.targetDir
  peerId := offer.senderId
  peerName := offer.senderName
  bytesDone
  bytesTotal
  error

/-- One read of `wait_for_completion`, and what follows it. -/
def completionStep (offer : SendOffer) (claim : ReceiverClaim) (r : Receiver) :
    Option SessionState → Receiver
  | none => { r with pc := .exited, outcome := some (.error "read json") }
  | some state =>
    if state.claimId ≠ some claim.claimId then r
    else match state.state with
      | .completed =>
        { r with
          pc := .recording (receiveEntry offer claim .completed state.bytesDone state.bytesTotal none)
          outcome := some (.ok state) }
      | .failed =>
        { r with pc := .exited, outcome := some (.error ("transfer failed: " ++ state.message)) }
      | _ => r

/-- `cmd_receive`, from the moment it writes its claim. A process that ends before that is one that
takes no step. -/
def receiverStep (session : Session ι) (claim : ReceiverClaim) (files : Files) (r : Receiver) :
    ReceiverAction → Option (Files × Receiver)
  | .stop =>
    if r.pc = .claiming ∨ r.pc = .exited then none else some (files, { r with pc := .exited })
  | .answer yes =>
    if r.pc = .prompt then
      some (files, { r with
        answer := some yes
        pc := if yes then .confirming else .recording (receiveEntry session.offer claim .failed 0 0
          (some "receiver rejected authentication")) })
    else none
  | .step =>
    match r.pc with
    | .claiming => some ({ files with receiver := some claim }, { r with pc := .lookup })
    | .lookup =>
      if session.offer.senderId ∈ files.trust then
        some (files, { r with trusted := some true, pc := .completing })
      else some (files, { r with trusted := some false, pc := .prompt })
    | .confirming => some ({ files with receiverYes := true }, { r with pc := .waitYes })
    | .waitYes => some (files, if files.senderYes then { r with pc := .pairing } else r)
    | .pairing => some (files, { r with pc := .savingPair files.trust })
    | .savingPair store =>
      some ({ files with trust := store.insert session.offer.senderId }, { r with pc := .completing })
    | .completing => some (files, completionStep session.offer claim r files.state)
    | .recording entry => some (files, { r with pc := .savingRecord entry files.history })
    | .savingRecord entry entries =>
      some ({ files with history := entries ++ [entry] }, { r with pc := .exited })
    | .prompt | .exited => none

/-! ### The system -/

/-- The state of the system, and the log of the sender. -/
structure State (ι : Type) where
  files : Files
  sender : Sender
  receivers : ι → Receiver
  log : List Event

/-- A step of one of the processes. -/
inductive Action (ι : Type) where
  | sender (action : SenderAction)
  | receiver (i : ι) (action : ReceiverAction)

variable [DecidableEq ι]

/-- One step of the system. -/
def step (session : Session ι) (s : State ι) : Action ι → Option (State ι)
  | .sender action =>
    (senderStep session s.files s.sender action).map fun (files, sender, events) =>
      { s with files, sender, log := s.log ++ events }
  | .receiver i action =>
    (receiverStep session (session.claim i) s.files (s.receivers i) action).map fun (files, r) =>
      { s with files, receivers := Function.update s.receivers i r }

/-- The offer file is written and the session directory is new; trust store and history are
arbitrary. -/
structure Initial (s : State ι) : Prop where
  noClaim : s.files.receiver = none
  noSenderYes : s.files.senderYes = false
  noReceiverYes : s.files.receiverYes = false
  noState : s.files.state = none
  sender : s.sender = .starting
  receivers : ∀ i, s.receivers i = ⟨.claiming, none, none, none⟩
  log : s.log = []

/-- The processes on one code. -/
def machine (session : Session ι) : Machine (State ι) (Action ι) := ⟨Initial, step session⟩

/-! ### A sample session

Two receivers, `false` and `true`, run by the user of the sender: one home directory is one device. -/

def sampleSession : Session Bool where
  offer := ⟨"device", "sender"⟩
  bytesTotal := 3
  claim
    | false => ⟨"first", "device", "one", "/one"⟩
    | true => ⟨"second", "device", "two", "/two"⟩
  distinct := by decide

/-- The start with a trust store. -/
def sampleStart (trust : List String) : State Bool where
  files := ⟨none, false, false, none, trust, []⟩
  sender := .starting
  receivers _ := ⟨.claiming, none, none, none⟩
  log := []

theorem sampleStart_initial (trust : List String) : Initial (sampleStart trust) :=
  ⟨rfl, rfl, rfl, rfl, rfl, fun _ => rfl, rfl⟩

/-- The sender announces the session and clears an empty session directory. -/
def sampleOpening : List (Action Bool) :=
  [.sender .step, .sender .step, .sender .step, .sender .step]

/-- The sender finds a claim, takes it and removes it. -/
def sampleTaking : List (Action Bool) :=
  [.sender .step, .sender .step, .sender .step, .sender (.removed true)]

end SendRs.Cli
