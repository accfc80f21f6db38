/-
**What one step of a process can do.**

`Serves`, `SenderMove` and `ReceiverMove` list the moves of the processes, one constructor for each
branch of the step functions; `serves_of_serve`, `senderMove_of_step` and `receiverMove_of_step` say
that a step is one of them, and `machine_step` says it of the whole system. The invariants are proved
by cases on the moves and never unfold a step function.
-/

import SendRs.Cli.Session

namespace SendRs.Cli

open Machines

variable {ι : Type}

/-! ### The sender -/

/-- The moves of the sender while it serves a claim. -/
inductive Serves (session : Session ι) (files : Files) (claim : ReceiverClaim) :
    Stage → SenderAction → Files → Sender → List Event → Prop
  | gone (absent : files.receiver = none) :
    Serves session files claim .taking .step files (.serving claim .lookup) []
  | there (present : files.receiver ≠ none) :
    Serves session files claim .taking .step files (.serving claim .removingClaim) []
  | take : Serves session files claim .removingClaim (.removed true)
      { files with receiver := none } (.serving claim .lookup) []
  | leave :
    Serves session files claim .removingClaim (.removed false) files (.serving claim .lookup) []
  | trust (known : claim.receiverId ∈ files.trust) : Serves session files claim .lookup .step files
      (.serving claim .beginning) [.trusted claim]
  | doubt (unknown : claim.receiverId ∉ files.trust) :
    Serves session files claim .lookup .step files (.serving claim .prompt) []
  | approve : Serves session files claim .prompt (.answer true) files (.serving claim .confirming)
      [.approved claim]
  | reject : Serves session files claim .prompt (.answer false) files (.serving claim .rejecting)
      [.rejected claim]
  | tell : Serves session files claim .rejecting .step
      { files with state := some (rejectedState session claim) }
      (.serving claim (.recording (sendEntry claim (rejectedState session claim)))) [.closed claim]
  | confirm : Serves session files claim .confirming .step { files with senderYes := true }
      (.serving claim .waitYes) []
  | see (present : files.receiverYes = true) :
    Serves session files claim .waitYes .step files (.serving claim .pairing) []
  | wait (absent : files.receiverYes = false) :
    Serves session files claim .waitYes .step files (.serving claim .waitYes) []
  | pair : Serves session files claim .pairing .step files
      (.serving claim (.savingPair files.trust)) [.paired claim]
  | savePair (store : List String) : Serves session files claim (.savingPair store) .step
      { files with trust := store.insert claim.receiverId } (.serving claim .beginning) []
  | begin : Serves session files claim .beginning .step files (.serving claim (.transferring 0))
      [.started claim]
  | progress (lastPrint bytesDone bytesTotal : Nat) (currentFile : String) :
    Serves session files claim (.transferring lastPrint)
      (.progress true bytesDone bytesTotal currentFile)
      { files with state := some ⟨some claim.claimId, .transferring,
        "transferring " ++ currentFile, bytesDone, bytesTotal⟩ }
      (.serving claim (.transferring (nextPrint lastPrint bytesDone bytesTotal))) []
  | quiet (lastPrint bytesDone bytesTotal : Nat) (currentFile : String) :
    Serves session files claim (.transferring lastPrint)
      (.progress false bytesDone bytesTotal currentFile) files
      (.serving claim (.transferring (nextPrint lastPrint bytesDone bytesTotal))) []
  | succeed (lastPrint bytesDone bytesTotal : Nat) :
    Serves session files claim (.transferring lastPrint) (.returned (.ok (bytesDone, bytesTotal)))
      files (.serving claim (.reporting (.done bytesDone bytesTotal))) [.finished claim true]
  | fail (lastPrint : Nat) (message : String) :
    Serves session files claim (.transferring lastPrint) (.returned (.error message)) files
      (.serving claim (.reporting (.failed message lastPrint))) [.finished claim false]
  | report (outcome : Outcome) : Serves session files claim (.reporting outcome) .step
      { files with state := some (resultState session claim outcome) }
      (.serving claim (.recording (sendEntry claim (resultState session claim outcome))))
      [.closed claim]
  | readHistory (entry : TransferHistoryEntry) : Serves session files claim (.recording entry) .step
      files (.serving claim (.savingRecord entry files.history)) []
  | saveHistory (entry : TransferHistoryEntry) (entries : List TransferHistoryEntry) :
    Serves session files claim (.savingRecord entry entries) .step
      { files with history := entries ++ [entry] } loopHead []
  | stop (stage : Stage) : Serves session files claim stage .stop files .exited []

/-- The moves of the sender. -/
inductive SenderMove (session : Session ι) (files : Files) :
    Sender → SenderAction → Files → Sender → List Event → Prop
  | announce : SenderMove session files .starting .step
      { files with state := some ⟨none, .waitingReceiver, "waiting receiver to enter code", 0,
        session.bytesTotal⟩ } loopHead []
  | found (file : RuntimeFile) (rest : List RuntimeFile) (present : files.exists file = true) :
    SenderMove session files (.clearing file rest) .step files (.removing file rest) []
  | skip (file : RuntimeFile) (rest : List RuntimeFile) (absent : files.exists file = false) :
    SenderMove session files (.clearing file rest) .step files (clearNext rest) []
  | clear (file : RuntimeFile) (rest : List RuntimeFile) :
    SenderMove session files (.removing file rest) (.removed true) (files.remove file)
      (clearNext rest) []
  | miss (file : RuntimeFile) (rest : List RuntimeFile) :
    SenderMove session files (.removing file rest) (.removed false) files (clearNext rest) []
  | arrive (present : files.receiver ≠ none) :
    SenderMove session files .polling .step files .reading []
  | idle (absent : files.receiver = none) : SenderMove session files .polling .step files .polling []
  | consume (claim : ReceiverClaim) (present : files.receiver = some claim) :
    SenderMove session files .reading .step files (.serving claim .taking) [.consumed claim]
  | lose (absent : files.receiver = none) : SenderMove session files .reading .step files .polling []
  | serve {claim : ReceiverClaim} {stage : Stage} {action : SenderAction} {files' : Files}
      {sender : Sender} {events : List Event}
      (move : Serves session files claim stage action files' sender events) :
    SenderMove session files (.serving claim stage) action files' sender events
  | stop (sender : Sender) : SenderMove session files sender .stop files .exited []

/-- A step while a claim is served is one of the moves. -/
theorem serves_of_serve {session : Session ι} {files files' : Files} {claim : ReceiverClaim}
    {stage : Stage} {action : SenderAction} {sender : Sender} {events : List Event}
    (step : serve session files claim stage action = some (files', sender, events)) :
    Serves session files claim stage action files' sender events := by
  unfold serve at step
  split at step <;> grind [Serves, Files.remove, Option.isSome_iff_ne_none]

/-- A step of the sender is one of the moves. -/
theorem senderMove_of_step {session : Session ι} {files files' : Files} {sender sender' : Sender}
    {action : SenderAction} {events : List Event}
    (step : senderStep session files sender action = some (files', sender', events)) :
    SenderMove session files sender action files' sender' events := by
  unfold senderStep at step
  split at step
  case h_6 => exact .serve (serves_of_serve step)
  all_goals grind [SenderMove, Option.isSome_iff_ne_none]

/-! ### The receivers -/

/-- The moves of a receiver with its claim. -/
inductive ReceiverMove (session : Session ι) (claim : ReceiverClaim) (files : Files) (r : Receiver) :
    ReceiverAction → Files → Receiver → Prop
  | write (here : r.pc = .claiming) : ReceiverMove session claim files r .step
      { files with receiver := some claim } { r with pc := .lookup }
  | trust (here : r.pc = .lookup) (known : session.offer.senderId ∈ files.trust) :
    ReceiverMove session claim files r .step files { r with trusted := some true, pc := .completing }
  | doubt (here : r.pc = .lookup) (unknown : session.offer.senderId ∉ files.trust) :
    ReceiverMove session claim files r .step files { r with trusted := some false, pc := .prompt }
  | approve (here : r.pc = .prompt) : ReceiverMove session claim files r (.answer true) files
      { r with answer := some true, pc := .confirming }
  | refuse (here : r.pc = .prompt) : ReceiverMove session claim files r (.answer false) files
      { r with
        answer := some false
        pc := .recording (receiveEntry session.offer claim .failed 0 0
          (some "receiver rejected authentication")) }
  | confirm (here : r.pc = .confirming) : ReceiverMove session claim files r .step
      { files with receiverYes := true } { r with pc := .waitYes }
  | see (here : r.pc = .waitYes) (present : files.senderYes = true) :
    ReceiverMove session claim files r .step files { r with pc := .pairing }
  | wait (here : r.pc = .waitYes) (absent : files.senderYes = false) :
    ReceiverMove session claim files r .step files r
  | pair (here : r.pc = .pairing) : ReceiverMove session claim files r .step files
      { r with pc := .savingPair files.trust }
  | savePair (store : List String) (here : r.pc = .savingPair store) :
    ReceiverMove session claim files r .step
      { files with trust := store.insert session.offer.senderId } { r with pc := .completing }
  | look (here : r.pc = .completing) : ReceiverMove session claim files r .step files
      (completionStep session.offer claim r files.state)
  | readHistory (entry : TransferHistoryEntry) (here : r.pc = .recording entry) :
    ReceiverMove session claim files r .step files { r with pc := .savingRecord entry files.history }
  | saveHistory (entry : TransferHistoryEntry) (entries : List TransferHistoryEntry)
      (here : r.pc = .savingRecord entry entries) : ReceiverMove session claim files r .step
      { files with history := entries ++ [entry] } { r with pc := .exited }
  | stop (runs : r.pc ≠ .claiming ∧ r.pc ≠ .exited) :
    ReceiverMove session claim files r .stop files { r with pc := .exited }

section Completion

variable (offer : SendOffer) (claim : ReceiverClaim) (r : Receiver) (state : Option SessionState)

@[simp, grind =]
theorem completionStep_trusted : (completionStep offer claim r state).trusted = r.trusted := by
  unfold completionStep
  grind

@[simp, grind =]
theorem completionStep_answer : (completionStep offer claim r state).answer = r.answer := by
  unfold completionStep
  grind

/-- A read of the state leaves the receiver waiting, or it has an outcome. -/
theorem completionStep_pc : (completionStep offer claim r state).pc = r.pc ∨
    (completionStep offer claim r state).pc = .exited ∨
    ∃ entry, (completionStep offer claim r state).pc = .recording entry := by
  unfold completionStep
  grind

end Completion

/-- A step of a receiver is one of the moves. -/
theorem receiverMove_of_step {session : Session ι} {claim : ReceiverClaim} {files files' : Files}
    {r r' : Receiver} {action : ReceiverAction}
    (step : receiverStep session claim files r action = some (files', r')) :
    ReceiverMove session claim files r action files' r' := by
  unfold receiverStep at step
  split at step
  · grind [ReceiverMove]
  · grind [ReceiverMove]
  · split at step <;> grind [ReceiverMove]

/-! ### The system -/

variable [DecidableEq ι]

/-- A step of the system is a move of one of its processes. -/
theorem machine_step {session : Session ι} {s s' : State ι} {a : Action ι}
    (step : (machine session).step s a = some s') :
    (∃ action files sender events, a = .sender action ∧
      SenderMove session s.files s.sender action files sender events ∧
      s' = ⟨files, sender, s.receivers, s.log ++ events⟩) ∨
    ∃ i action files r, a = .receiver i action ∧
      ReceiverMove session (session.claim i) s.files (s.receivers i) action files r ∧
      s' = ⟨files, s.sender, Function.update s.receivers i r, s.log⟩ := by
  cases a with
  | sender action =>
    simp only [machine, Cli.step, Option.map_eq_some_iff] at step
    obtain ⟨⟨files, sender, events⟩, moves, rfl⟩ := step
    exact .inl ⟨action, files, sender, events, rfl, senderMove_of_step moves, rfl⟩
  | receiver i action =>
    simp only [machine, Cli.step, Option.map_eq_some_iff] at step
    obtain ⟨⟨files, r⟩, moves, rfl⟩ := step
    exact .inr ⟨i, action, files, r, rfl, receiverMove_of_step moves, rfl⟩

/-- **The rule for invariants of the system**: they hold at the start, and the moves of every process
keep them. -/
theorem holds_of_reach {session : Session ι} {allowed : State ι → Action ι → Prop}
    {inv : State ι → Prop} (start : ∀ s, Initial s → inv s)
    (sender : ∀ s action files sender events, Reach (machine session) allowed s → inv s →
      allowed s (.sender action) →
      SenderMove session s.files s.sender action files sender events →
      inv ⟨files, sender, s.receivers, s.log ++ events⟩)
    (receiver : ∀ s i action files r, Reach (machine session) allowed s → inv s →
      allowed s (.receiver i action) →
      ReceiverMove session (session.claim i) s.files (s.receivers i) action files r →
      inv ⟨files, s.sender, Function.update s.receivers i r, s.log⟩) {s : State ι}
    (reach : Reach (machine session) allowed s) : inv s := by
  apply Reach.invariant_of start _ reach
  intro s a s' before holds may step
  obtain ⟨action, files, sender', events, rfl, move, rfl⟩ | ⟨i, action, files, r, rfl, move, rfl⟩ :=
    machine_step step
  · exact sender s action files sender' events before holds may move
  · exact receiver s i action files r before holds may move

end SendRs.Cli
