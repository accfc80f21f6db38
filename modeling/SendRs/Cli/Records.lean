/-
**The records of a session.**

The sender appends an entry to the history after it has written the final state of a claim, and the
receiver of the claim after it has read that state. A machine that also keeps notes of these writes,
reads and appends says who has appended what. `SenderKind` and `ReceiverKind` sum up the moves by what
they note.

* `SenderBooks` and `ReceiverBooks` are the invariants: what the notes say of a claim, by the place
  where the sender and the receiver are;
* `sessions_recorded_iff`: where appends do not overlap, the history has the records of both sides of
  a finished claim exactly when its receiver has not read that it failed: `wait_for_completion` turns
  that state into an error, and `cmd_receive` leaves with it before it appends.
-/

import SendRs.Cli.Results

namespace SendRs.Cli

open Machines

variable {ι : Type}

/-! ### Notes -/

/-- What a process has done for the records. -/
inductive Note (ι : Type) where
  /-- The sender has written the final state of the claim. -/
  | closed (claim : ReceiverClaim) (state : SessionState)
  /-- The sender has appended an entry for the claim. -/
  | sent (claim : ReceiverClaim) (entry : TransferHistoryEntry)
  /-- The receiver has read the final state of its claim. -/
  | observed (i : ι) (state : SessionState)
  /-- The receiver has appended an entry. -/
  | received (i : ι) (entry : TransferHistoryEntry)
deriving DecidableEq

/-- The appended entry. -/
def Note.entry? : Note ι → Option TransferHistoryEntry
  | .sent _ entry | .received _ entry => some entry
  | _ => none

/-- The final states of a claim. -/
def closedOf (claim : ReceiverClaim) (notes : List (Note ι)) : List SessionState :=
  notes.filterMap fun
    | .closed about state => if about = claim then some state else none
    | _ => none

/-- The entries that the sender has appended for a claim. -/
def sentOf (claim : ReceiverClaim) (notes : List (Note ι)) : List TransferHistoryEntry :=
  notes.filterMap fun
    | .sent about entry => if about = claim then some entry else none
    | _ => none

/-- The entry that is being appended, for which claim. -/
def Sender.appending : Sender → Option (ReceiverClaim × TransferHistoryEntry)
  | .serving claim (.recording entry) | .serving claim (.savingRecord entry _) => some (claim, entry)
  | _ => none

/-- The history that was loaded and is about to be written back. -/
def Sender.loaded : Sender → Option (List TransferHistoryEntry)
  | .serving _ (.savingRecord _ entries) => some entries
  | _ => none

def ReceiverPc.appending : ReceiverPc → Option TransferHistoryEntry
  | .recording entry | .savingRecord entry _ => some entry
  | _ => none

def ReceiverPc.loaded : ReceiverPc → Option (List TransferHistoryEntry)
  | .savingRecord _ entries => some entries
  | _ => none

section Notes

variable [DecidableEq ι]

/-- The final states that a receiver has read. -/
def observedBy (i : ι) (notes : List (Note ι)) : List SessionState :=
  notes.filterMap fun
    | .observed j state => if j = i then some state else none
    | _ => none

/-- The entries that a receiver has appended. -/
def receivedBy (i : ι) (notes : List (Note ι)) : List TransferHistoryEntry :=
  notes.filterMap fun
    | .received j entry => if j = i then some entry else none
    | _ => none

end Notes

/-- What a step of the sender notes. -/
def senderNotes (session : Session ι) : Sender → SenderAction → List (Note ι)
  | .serving claim .rejecting, .step => [.closed claim (rejectedState session claim)]
  | .serving claim (.reporting outcome), .step => [.closed claim (resultState session claim outcome)]
  | .serving claim (.savingRecord entry _), .step => [.sent claim entry]
  | _, _ => []

/-- What `wait_for_completion` reads of the claim, if it is final. -/
def finalOf (claim : ReceiverClaim) (state : Option SessionState) : Option SessionState :=
  state.filter fun state =>
    state.claimId = some claim.claimId ∧ (state.state = .completed ∨ state.state = .failed)

/-- What a step of a receiver notes. -/
def receiverNotes (claim : ReceiverClaim) (files : Files) (i : ι) :
    ReceiverPc → ReceiverAction → List (Note ι)
  | .completing, .step => (finalOf claim files.state).toList.map (.observed i)
  | .savingRecord entry _, .step => [.received i entry]
  | _, _ => []

/-- A state with its notes, and the history at the start. -/
structure Noted (ι : Type) where
  state : State ι
  notes : List (Note ι)
  old : List TransferHistoryEntry

/-- What a step notes. -/
def stepNotes (session : Session ι) (s : State ι) : Action ι → List (Note ι)
  | .sender action => senderNotes session s.sender action
  | .receiver i action => receiverNotes (session.claim i) s.files i (s.receivers i).pc action

/-- At the start nothing is noted. -/
structure NotedInitial (g : Noted ι) : Prop where
  state : Initial g.state
  notes : g.notes = []
  old : g.old = g.state.files.history

variable [DecidableEq ι]

/-- The processes on one code, with the notes. -/
def notedMachine (session : Session ι) : Machine (Noted ι) (Action ι) where
  initial := NotedInitial
  step g a := (step session g.state a).map fun s => ⟨s, g.notes ++ stepNotes session g.state a, g.old⟩

/-- No removal fails, no process is stopped while it appends, and none loads the history while another
one is about to write it back. -/
def Uneventful (g : Noted ι) : Action ι → Prop
  | .sender (.removed works) => works = true
  | .sender .stop => g.state.sender.appending = none
  | .sender .step => g.state.sender.appending ≠ none → g.state.sender.loaded = none →
      ∀ j, (g.state.receivers j).pc.loaded = none
  | .receiver i .stop => (g.state.receivers i).pc.appending = none
  | .receiver i .step => (g.state.receivers i).pc.appending ≠ none →
      (g.state.receivers i).pc.loaded = none →
      g.state.sender.loaded = none ∧ ∀ j, (g.state.receivers j).pc.loaded = none
  | _ => True

instance [Fintype ι] (g : Noted ι) (a : Action ι) : Decidable (Uneventful g a) :=
  match a with
  | .sender (.removed _) | .sender .stop | .receiver _ .stop => inferInstanceAs (Decidable (_ = _))
  | .sender .step => inferInstanceAs (Decidable (_ → _ → ∀ _, _ = _))
  | .receiver _ .step => inferInstanceAs (Decidable (_ → _ → _ ∧ ∀ _, _ = _))
  | .sender (.answer _) | .sender (.progress ..) | .sender (.returned _) | .receiver _ (.answer _) =>
    .isTrue trivial

/-! ### What is recorded -/

/-- Once the sender has written the final state of a claim and is done with its record, it has
appended one entry for it, with that state. -/
def SenderRecorded (g : Noted ι) (claim : ReceiverClaim) : Prop :=
  ∀ state ∈ closedOf claim g.notes, (∀ entry, g.state.sender.appending ≠ some (claim, entry)) →
    ∃ entry, sentOf claim g.notes = [entry] ∧ entry.role = .send ∧ entry.status = state.state

/-- Once a receiver has read the final state that was written for its claim and is done with its
record, it has appended one entry, with that state. -/
def ReceiverRecorded (session : Session ι) (g : Noted ι) (i : ι) : Prop :=
  ∀ state ∈ closedOf (session.claim i) g.notes, state ∈ observedBy i g.notes →
    (g.state.receivers i).pc.appending = none →
    ∃ entry, receivedBy i g.notes = [entry] ∧ entry.role = .receive ∧ entry.status = state.state ∧
      entry.bytesDone = state.bytesDone ∧ entry.bytesTotal = state.bytesTotal ∧
      (entry.error.isSome ↔ state.state = .failed)

/-- The receiver has read that its transfer failed. -/
def ReadsFailure (g : Noted ι) (i : ι) : Prop := ∃ state ∈ observedBy i g.notes, state.state = .failed

/-! ### The kinds of moves -/

section Kinds

omit [DecidableEq ι]

variable {session : Session ι} {files files' : Files}

/-- The moves of the sender, by what they note. -/
inductive SenderKind (session : Session ι) (files files' : Files) :
    Sender → Sender → List Event → List (Note ι) → Prop
  | close {claim : ReceiverClaim} {stage : Stage} {state : SessionState}
      (before : (Sender.serving claim stage).appending = none) (said : files'.state = some state)
      (mine : state.claimId = some claim.claimId)
      (final : state.state = .completed ∨ state.state = .failed)
      (same : files'.history = files.history) :
    SenderKind session files files' (.serving claim stage)
      (.serving claim (.recording (sendEntry claim state))) [.closed claim] [.closed claim state]
  | load {claim : ReceiverClaim} {entry : TransferHistoryEntry} (same : files' = files) :
    SenderKind session files files' (.serving claim (.recording entry))
      (.serving claim (.savingRecord entry files.history)) [] []
  | save {claim : ReceiverClaim} {entry : TransferHistoryEntry} {entries : List TransferHistoryEntry}
      (saved : files' = { files with history := entries ++ [entry] }) :
    SenderKind session files files' (.serving claim (.savingRecord entry entries)) loopHead []
      [.sent claim entry]
  | quiet {sender sender' : Sender} {events : List Event} (before : sender.appending = none)
      (after : sender'.appending = none) (same : files'.history = files.history)
      (unsaid : ∀ state, files'.state = some state → files.state = some state ∨
        state.claimId = none ∨ state.state = .transferring) :
    SenderKind session files files' sender sender' events []

@[simp]
theorem clearNext_appending (rest : List RuntimeFile) : (clearNext rest).appending = none := by
  cases rest <;> rfl

@[simp]
theorem clearNext_loaded (rest : List RuntimeFile) : (clearNext rest).loaded = none := by
  cases rest <;> rfl

@[simp]
theorem loopHead_appending : loopHead.appending = none := rfl

@[simp]
theorem loopHead_loaded : loopHead.loaded = none := rfl

theorem loaded_of_appending {sender : Sender} (none : sender.appending = none) :
    sender.loaded = .none := by
  cases sender with
  | serving claim stage =>
    cases stage with
    | savingRecord entry entries => cases none
    | _ => rfl
  | _ => rfl

theorem ReceiverPc.loaded_of_appending {pc : ReceiverPc} (none : pc.appending = none) :
    pc.loaded = .none := by
  cases pc with
  | savingRecord entry entries => cases none
  | _ => rfl

theorem senderNotes_stop (sender : Sender) : senderNotes session sender .stop = [] := by
  cases sender with
  | serving claim stage => cases stage <;> rfl
  | _ => rfl

/-- **A step of the sender** is of one of these kinds. -/
theorem senderKind_of_move {sender sender' : Sender} {action : SenderAction} {events : List Event}
    (move : SenderMove session files sender action files' sender' events)
    (stays : action = .stop → sender.appending = none) :
    SenderKind session files files' sender sender' events (senderNotes session sender action) := by
  cases move with
  | serve move =>
    cases move with
    | tell => exact .close rfl rfl rfl (.inr rfl) rfl
    | report outcome =>
      cases outcome with
      | done bytesDone bytesTotal => exact .close rfl rfl rfl (.inl rfl) rfl
      | failed message lastPrint => exact .close rfl rfl rfl (.inr rfl) rfl
    | readHistory entry => exact .load rfl
    | saveHistory entry entries => exact .save rfl
    | stop stage =>
      have nothing := stays rfl
      rw [senderNotes_stop]
      exact .quiet nothing rfl rfl fun state present => .inl present
    | progress lastPrint bytesDone bytesTotal currentFile =>
      exact .quiet rfl rfl rfl fun state present => .inr (.inr (by rw [← Option.some.inj present]))
    | _ => exact .quiet rfl rfl rfl fun state present => .inl present
  | announce => exact .quiet rfl rfl rfl fun state present => .inr (.inl (by rw [← Option.some.inj present]))
  | stop sender =>
    have nothing := stays rfl
    rw [senderNotes_stop]
    exact .quiet nothing rfl rfl fun state present => .inl present
  | clear file rest =>
    refine .quiet rfl (clearNext_appending rest) ?_ fun state present => .inl ?_
    · cases file <;> rfl
    · cases file <;> exact present
  | skip file rest => exact .quiet rfl (clearNext_appending rest) rfl fun state present => .inl present
  | miss file rest => exact .quiet rfl (clearNext_appending rest) rfl fun state present => .inl present
  | _ => exact .quiet rfl rfl rfl fun state present => .inl present

/-- The moves of a receiver, by what they note. -/
inductive ReceiverKind (offer : SendOffer) (claim : ReceiverClaim) (i : ι) (files files' : Files) :
    ReceiverPc → ReceiverPc → List (Note ι) → Prop
  | load {entry : TransferHistoryEntry} (same : files' = files) :
    ReceiverKind offer claim i files files' (.recording entry)
      (.savingRecord entry files.history) []
  | save {entry : TransferHistoryEntry} {entries : List TransferHistoryEntry}
      (saved : files' = { files with history := entries ++ [entry] }) :
    ReceiverKind offer claim i files files' (.savingRecord entry entries) .exited [.received i entry]
  | complete {state : SessionState} (same : files' = files) (said : files.state = some state)
      (mine : state.claimId = some claim.claimId) (completed : state.state = .completed) :
    ReceiverKind offer claim i files files' .completing
      (.recording (receiveEntry offer claim .completed state.bytesDone state.bytesTotal none))
      [.observed i state]
  | fail {state : SessionState} (same : files' = files) (said : files.state = some state)
      (mine : state.claimId = some claim.claimId) (failed : state.state = .failed) :
    ReceiverKind offer claim i files files' .completing .exited [.observed i state]
  | refuse {entry : TransferHistoryEntry} (same : files' = files) :
    ReceiverKind offer claim i files files' .prompt (.recording entry) []
  | quiet {pc pc' : ReceiverPc} (runs : pc ≠ .exited) (before : pc.appending = none)
      (after : pc'.appending = none) (same : files'.history = files.history)
      (unsaid : files'.state = files.state) : ReceiverKind offer claim i files files' pc pc' []

/-- One read of `wait_for_completion`. -/
theorem receiverKind_of_look (session : Session ι) (files : Files) (claim : ReceiverClaim) (i : ι)
    {r : Receiver} (here : r.pc = .completing) :
    ReceiverKind session.offer claim i files files .completing
      (completionStep session.offer claim r files.state).pc
      ((finalOf claim files.state).toList.map (.observed i)) := by
  have runs : ReceiverPc.completing ≠ .exited := fun same => nomatch same
  cases said : files.state with
  | none => exact .quiet runs rfl rfl rfl rfl
  | some state =>
    by_cases mine : state.claimId = some claim.claimId
    · by_cases final : state.state = .completed ∨ state.state = .failed
      · have reads : finalOf claim (some state) = some state := by simp [finalOf, mine, final]
        rw [reads]
        rcases final with completed | failed
        · simp only [completionStep, mine, completed, ne_eq, not_true_eq_false, if_false]
          exact .complete rfl said mine completed
        · simp only [completionStep, mine, failed, ne_eq, not_true_eq_false, if_false]
          exact .fail rfl said mine failed
      · have reads : finalOf claim (some state) = none := by
          simpa [finalOf, mine] using not_or.mp final
        have stays : (completionStep session.offer claim r (some state)).pc = .completing := by
          cases isState : state.state <;> simp_all [completionStep]
        rw [reads, stays]
        exact .quiet runs rfl rfl rfl rfl
    · have reads : finalOf claim (some state) = none := by simp [finalOf, mine]
      have stays : (completionStep session.offer claim r (some state)).pc = .completing := by
        simp [completionStep, mine, here]
      rw [reads, stays]
      exact .quiet runs rfl rfl rfl rfl

theorem receiverNotes_stop (claim : ReceiverClaim) (i : ι) (pc : ReceiverPc) :
    receiverNotes claim files i pc .stop = [] := by
  cases pc <;> rfl

/-- **A step of a receiver** is of one of these kinds. -/
theorem receiverKind_of_move {claim : ReceiverClaim} {r r' : Receiver} {action : ReceiverAction}
    (i : ι) (move : ReceiverMove session claim files r action files' r')
    (stays : action = .stop → r.pc.appending = none) :
    ReceiverKind session.offer claim i files files' r.pc r'.pc
      (receiverNotes claim files i r.pc action) := by
  cases move with
  | stop runs =>
    rw [receiverNotes_stop]
    exact .quiet runs.2 (stays rfl) rfl rfl rfl
  | look here =>
    have kind := receiverKind_of_look session files claim i here
    rw [here]
    exact kind
  | readHistory entry here =>
    rw [here]
    exact .load rfl
  | saveHistory entry entries here =>
    rw [here]
    exact .save rfl
  | refuse here =>
    rw [here]
    exact .refuse rfl
  | wait here =>
    rw [here]
    exact .quiet (fun same => nomatch same) rfl rfl rfl rfl
  | savePair store here =>
    rw [here]
    exact .quiet (fun same => nomatch same) rfl rfl rfl rfl
  | _ here =>
    rw [here]
    exact .quiet (fun same => nomatch same) rfl rfl rfl rfl

end Kinds

/-! ### Runs -/

variable {session : Session ι}

/-- Notes are taken beside the plain machine. -/
theorem plain_of_reach {g : Noted ι} (reach : Reach (notedMachine session) Uneventful g) :
    Reach (machine session) RemovalsSucceed g.state := by
  induction reach with
  | start initial => exact .start initial.state
  | @next g g' a _ orderly takes ih =>
    obtain ⟨s, moves, rfl⟩ := Option.map_eq_some_iff.mp takes
    refine ih.next ?_ moves
    cases a with
    | sender action =>
      cases action with
      | removed works => exact orderly
      | _ => trivial
    | receiver i action => trivial

omit [DecidableEq ι] in
/-- While the sender appends it takes plain steps, or is stopped. -/
theorem step_of_appending {files files' : Files} {sender sender' : Sender} {action : SenderAction}
    {events : List Event} (move : SenderMove session files sender action files' sender' events)
    (stays : action = .stop → sender.appending = none) (appends : sender.appending ≠ none) :
    action = .step := by
  cases move with
  | serve move =>
    cases move with
    | readHistory entry => rfl
    | saveHistory entry entries => rfl
    | stop stage => exact absurd (stays rfl) appends
    | _ => exact absurd rfl appends
  | stop sender => exact absurd (stays rfl) appends
  | _ => exact absurd rfl appends

omit [DecidableEq ι] in
/-- While a receiver appends it takes plain steps, or is stopped. -/
theorem receiver_step_of_appending {files files' : Files} {claim : ReceiverClaim} {r r' : Receiver}
    {action : ReceiverAction} (move : ReceiverMove session claim files r action files' r')
    (stays : action = .stop → r.pc.appending = none) (appends : r.pc.appending ≠ none) :
    action = .step := by
  cases move with
  | stop runs => exact absurd (stays rfl) appends
  | approve here => exact absurd (by rw [here]; rfl) appends
  | refuse here => exact absurd (by rw [here]; rfl) appends
  | _ => rfl

/-- **The rule for invariants of the notes**, with the kind of each move. -/
theorem noted_of_reach {P : Noted ι → Prop} (start : ∀ g, NotedInitial g → P g)
    (sender : ∀ g action files' sender' events notes, Reach (notedMachine session) Uneventful g → P g →
      SenderMove session g.state.files g.state.sender action files' sender' events →
      SenderKind session g.state.files files' g.state.sender sender' events notes →
      (g.state.sender.appending ≠ none → g.state.sender.loaded = none →
        ∀ j, (g.state.receivers j).pc.loaded = none) →
      P ⟨⟨files', sender', g.state.receivers, g.state.log ++ events⟩, g.notes ++ notes, g.old⟩)
    (receiver : ∀ g i files' r notes, Reach (notedMachine session) Uneventful g → P g →
      ReceiverKind session.offer (session.claim i) i g.state.files files' (g.state.receivers i).pc
        r.pc notes →
      ((g.state.receivers i).pc.appending ≠ none → (g.state.receivers i).pc.loaded = none →
        g.state.sender.loaded = none ∧ ∀ j, (g.state.receivers j).pc.loaded = none) →
      P ⟨⟨files', g.state.sender, Function.update g.state.receivers i r, g.state.log⟩,
        g.notes ++ notes, g.old⟩) {g : Noted ι}
    (reach : Reach (notedMachine session) Uneventful g) : P g := by
  refine Reach.invariant_of start ?_ reach
  intro g a g' before holds orderly takes
  obtain ⟨s, moves, rfl⟩ := Option.map_eq_some_iff.mp takes
  rcases machine_step moves with ⟨action, files, sender', events, rfl, move, rfl⟩ |
    ⟨i, action, files, r, rfl, move, rfl⟩
  · have stays : action = .stop → g.state.sender.appending = none := by
      rintro rfl
      exact orderly
    refine sender g action files sender' events _ before holds move (senderKind_of_move move stays) ?_
    intro appends
    obtain rfl := step_of_appending move stays appends
    exact orderly appends
  · have stays : action = .stop → (g.state.receivers i).pc.appending = none := by
      rintro rfl
      exact orderly
    refine receiver g i files r _ before holds (receiverKind_of_move i move stays) ?_
    intro appends
    obtain rfl := receiver_step_of_appending move stays appends
    exact orderly appends

/-! ### The history -/

/-- The history holds what was appended, and whoever is about to write it back has all of it. -/
structure Filed (g : Noted ι) : Prop where
  history : g.state.files.history = g.old ++ g.notes.filterMap Note.entry?
  sender : ∀ entries ∈ g.state.sender.loaded, entries = g.state.files.history ∧
    ∀ j, (g.state.receivers j).pc.loaded = none
  receiver : ∀ i, ∀ entries ∈ (g.state.receivers i).pc.loaded, entries = g.state.files.history ∧
    ∀ j, j ≠ i → (g.state.receivers j).pc.loaded = none

/-- What is loaded after a step of a receiver. -/
theorem loaded_update {receivers : ι → Receiver} {i j : ι} {r : Receiver}
    {entries : List TransferHistoryEntry}
    (loaded : entries ∈ (Function.update receivers i r j).pc.loaded) :
    (j = i ∧ entries ∈ r.pc.loaded) ∨ (j ≠ i ∧ entries ∈ (receivers j).pc.loaded) := by
  by_cases same : j = i
  · subst same
    rw [Function.update_self] at loaded
    exact .inl ⟨rfl, loaded⟩
  · rw [Function.update_of_ne same] at loaded
    exact .inr ⟨same, loaded⟩

theorem loaded_update_none {receivers : ι → Receiver} {i j : ι} {r : Receiver}
    (mine : r.pc.loaded = none) (other : j ≠ i → (receivers j).pc.loaded = none) :
    (Function.update receivers i r j).pc.loaded = none := by
  refine Option.eq_none_iff_forall_not_mem.mpr fun entries loaded => ?_
  rcases loaded_update loaded with ⟨_, here⟩ | ⟨different, there⟩
  · rw [mine] at here
    cases here
  · rw [other different] at there
    cases there

/-- A receiver goes on without a loaded history. -/
theorem Filed.goes_on {g : Noted ι} (filed : Filed g) {files' : Files} {i : ι} {r : Receiver}
    {notes : List (Note ι)} (same : files'.history = g.state.files.history)
    (nothing : notes.filterMap Note.entry? = []) (unloaded : r.pc.loaded = none) :
    Filed ⟨⟨files', g.state.sender, Function.update g.state.receivers i r, g.state.log⟩,
      g.notes ++ notes, g.old⟩ := by
  obtain ⟨history, senderLoads, receiverLoads⟩ := filed
  refine ⟨?_, fun entries loaded => ?_, fun j entries loaded => ?_⟩
  · simp only [same, history, List.filterMap_append, nothing, List.append_nil]
  · obtain ⟨isHistory, alone⟩ := senderLoads entries loaded
    exact ⟨isHistory.trans same.symm, fun j => loaded_update_none unloaded fun _ => alone j⟩
  · rcases loaded_update loaded with ⟨_, here⟩ | ⟨_, there⟩
    · rw [unloaded] at here
      cases here
    · obtain ⟨isHistory, alone⟩ := receiverLoads j entries there
      exact ⟨isHistory.trans same.symm, fun k other => loaded_update_none unloaded fun _ => alone k other⟩

theorem filed_of_reach {g : Noted ι} (reach : Reach (notedMachine session) Uneventful g) : Filed g := by
  refine noted_of_reach ?_ ?_ ?_ reach
  · intro g initial
    refine ⟨?_, fun entries loaded => ?_, fun i entries loaded => ?_⟩
    · rw [initial.notes, initial.old]
      exact (List.append_nil _).symm
    · rw [initial.state.sender] at loaded
      cases loaded
    · rw [initial.state.receivers i] at loaded
      cases loaded
  · intro g action files' sender' events notes _ filed _ kind free
    obtain ⟨⟨files, sender, receivers, log⟩, before, old⟩ := g
    obtain ⟨history, senderLoads, receiverLoads⟩ := filed
    dsimp only at history senderLoads receiverLoads free kind ⊢
    cases kind with
    | close none _ _ _ same =>
      exact ⟨by rw [same, history]; simp [Note.entry?], fun _ loaded => (by cases loaded), same ▸ receiverLoads⟩
    | load same =>
      subst same
      refine ⟨by simpa using history, fun entries loaded => ?_, receiverLoads⟩
      cases loaded
      exact ⟨rfl, free (fun none => nomatch none) rfl⟩
    | save saved =>
      subst saved
      obtain ⟨rfl, alone⟩ := senderLoads _ rfl
      refine ⟨?_, fun _ loaded => (by cases loaded), fun i entries loaded => ?_⟩
      · rw [history]
        simp [Note.entry?]
      · rw [alone i] at loaded
        cases loaded
    | quiet none after same _ =>
      refine ⟨by rw [same, history, List.append_nil], fun entries loaded => ?_, same ▸ receiverLoads⟩
      rw [loaded_of_appending after] at loaded
      cases loaded
  · intro g i files' r notes _ filed kind free
    generalize isBefore : (g.state.receivers i).pc = before at kind free
    generalize isAfter : r.pc = after at kind
    cases kind with
    | load same =>
      subst same
      obtain ⟨senderFree, allFree⟩ := free (fun none => nomatch none) rfl
      refine ⟨by simpa using filed.history, fun entries loaded => ?_, fun j entries loaded => ?_⟩
      · dsimp only at loaded
        rw [senderFree] at loaded
        cases loaded
      · rcases loaded_update loaded with ⟨rfl, here⟩ | ⟨_, there⟩
        · rw [isAfter] at here
          cases here
          refine ⟨rfl, fun k other => ?_⟩
          dsimp only
          rw [Function.update_of_ne other]
          exact allFree k
        · rw [allFree j] at there
          cases there
    | save saved =>
      subst saved
      obtain ⟨rfl, alone⟩ := filed.receiver i _ (by rw [isBefore]; rfl)
      have none : ∀ j, (Function.update g.state.receivers i r j).pc.loaded = .none := fun j =>
        loaded_update_none (by rw [isAfter]; rfl) (alone j)
      refine ⟨?_, fun entries loaded => ?_, fun j entries loaded => ?_⟩
      · dsimp only
        rw [filed.history]
        simp [Note.entry?]
      · have idle := (filed.sender entries loaded).2 i
        rw [isBefore] at idle
        cases idle
      · dsimp only at loaded
        rw [none j] at loaded
        cases loaded
    | complete same _ _ _ => exact filed.goes_on (congrArg Files.history same) rfl (by rw [isAfter]; rfl)
    | fail same _ _ _ => exact filed.goes_on (congrArg Files.history same) rfl (by rw [isAfter]; rfl)
    | refuse same => exact filed.goes_on (congrArg Files.history same) rfl (by rw [isAfter]; rfl)
    | quiet _ _ idle same _ =>
      exact filed.goes_on same rfl (by rw [isAfter]; exact ReceiverPc.loaded_of_appending idle)

/-! ### The books of the sender -/

omit [DecidableEq ι] in
@[simp]
theorem closedOf_append (claim : ReceiverClaim) (first second : List (Note ι)) :
    closedOf claim (first ++ second) = closedOf claim first ++ closedOf claim second :=
  List.filterMap_append

omit [DecidableEq ι] in
@[simp]
theorem sentOf_append (claim : ReceiverClaim) (first second : List (Note ι)) :
    sentOf claim (first ++ second) = sentOf claim first ++ sentOf claim second :=
  List.filterMap_append

@[simp]
theorem observedBy_append (i : ι) (first second : List (Note ι)) :
    observedBy i (first ++ second) = observedBy i first ++ observedBy i second :=
  List.filterMap_append

@[simp]
theorem receivedBy_append (i : ι) (first second : List (Note ι)) :
    receivedBy i (first ++ second) = receivedBy i first ++ receivedBy i second :=
  List.filterMap_append

/-- What the notes say of a claim: nothing while it is not closed; its final state while the sender
appends the entry; both when it has gone on. -/
inductive SenderBooks (claim : ReceiverClaim) (sender : Sender) (log : List Event) :
    List SessionState → List TransferHistoryEntry → Prop
  | nothing (idle : ∀ entry, sender.appending ≠ some (claim, entry)) :
    SenderBooks claim sender log [] []
  | closed {state : SessionState} (appends : sender.appending = some (claim, sendEntry claim state))
      (logged : .closed claim ∈ log) : SenderBooks claim sender log [state] []
  | sent {state : SessionState} (gone : ∀ stage, sender ≠ .serving claim stage)
      (logged : .closed claim ∈ log) :
    SenderBooks claim sender log [state] [sendEntry claim state]

omit [DecidableEq ι] in
/-- A claim that is closed and left is not served again. -/
theorem gone_after {s : State ι} {action : SenderAction} {files' : Files} {sender' : Sender}
    {events : List Event} (claim : ReceiverClaim) (ledger : Ledger s)
    (move : SenderMove session s.files s.sender action files' sender' events)
    (gone : ∀ stage, s.sender ≠ .serving claim stage) (logged : .closed claim ∈ s.log) (stage : Stage) :
    sender' ≠ .serving claim stage := by
  intro served
  rcases served_from move served with ⟨stage', serving⟩ | ⟨_, reads, present⟩
  · exact gone stage' serving
  · exact ledger.untouched present reads (.closed claim) rfl logged

omit [DecidableEq ι] in
/-- A step that does not close the claim and does not append for it. -/
theorem SenderBooks.keeps {claim : ReceiverClaim} {sender sender' : Sender} {log log' : List Event}
    {states : List SessionState} {entries : List TransferHistoryEntry}
    (books : SenderBooks claim sender log states entries)
    (same : ∀ entry, sender'.appending = some (claim, entry) ↔ sender.appending = some (claim, entry))
    (goes : (∀ stage, sender ≠ .serving claim stage) → .closed claim ∈ log →
      ∀ stage, sender' ≠ .serving claim stage) (grows : log ⊆ log') :
    SenderBooks claim sender' log' states entries := by
  cases books with
  | nothing idle => exact .nothing fun entry appends => idle entry ((same entry).mp appends)
  | closed appends logged => exact .closed ((same _).mpr appends) (grows logged)
  | sent gone logged => exact .sent (goes gone logged) (grows logged)

omit [DecidableEq ι] in
/-- A receiver closes no claim and appends nothing for the sender. -/
theorem ReceiverKind.no_close {offer : SendOffer} {claim : ReceiverClaim} {i : ι} {files files' : Files}
    {pc pc' : ReceiverPc} {notes : List (Note ι)}
    (kind : ReceiverKind offer claim i files files' pc pc' notes) (other : ReceiverClaim) :
    closedOf other notes = [] ∧ sentOf other notes = [] := by
  cases kind with
  | _ => exact ⟨rfl, rfl⟩

/-- **The sender keeps its books.** -/
theorem senderBooks_of_reach {g : Noted ι} (reach : Reach (notedMachine session) Uneventful g)
    (claim : ReceiverClaim) :
    SenderBooks claim g.state.sender g.state.log (closedOf claim g.notes) (sentOf claim g.notes) := by
  refine noted_of_reach (P := fun g => SenderBooks claim g.state.sender g.state.log
    (closedOf claim g.notes) (sentOf claim g.notes)) ?_ ?_ ?_ reach
  · intro g initial
    rw [initial.notes, initial.state.sender]
    exact .nothing fun entry same => nomatch same
  · intro g action files' sender' events notes before books move kind _
    have goes := gone_after claim (ledger_of_reach (plain_of_reach before)) move
    have grows : g.state.log ⊆ g.state.log ++ events := List.subset_append_left _ _
    obtain ⟨⟨files, sender, receivers, log⟩, earlier, old⟩ := g
    dsimp only at books move kind goes grows ⊢
    rw [closedOf_append, sentOf_append]
    generalize closedOf claim earlier = states at books ⊢
    generalize sentOf claim earlier = entries at books ⊢
    cases kind with
    | @close served stage state idle said mine final same =>
      have noEntry : sentOf claim [(.closed served state : Note ι)] = [] := rfl
      simp only [noEntry, List.append_nil]
      by_cases this : served = claim
      · subst this
        have closes : closedOf served [(.closed served state : Note ι)] = [state] := by
          simp [closedOf]
        cases books with
        | nothing _ =>
          rw [closes]
          exact .closed rfl (by simp)
        | closed appends _ =>
          rw [idle] at appends
          cases appends
        | sent gone _ => exact absurd rfl (gone stage)
      · have other : closedOf claim [(.closed served state : Note ι)] = [] := by
          simp [closedOf, this]
        simp only [other, List.append_nil]
        refine books.keeps (fun entry => ?_) goes grows
        rw [idle]
        simp [Sender.appending, this]
    | load same =>
      refine (List.append_nil states).symm ▸ (List.append_nil entries).symm ▸ ?_
      refine books.keeps (fun entry => ?_) goes grows
      rfl
    | @save served entry loaded saved =>
      have noState : closedOf claim [(.sent served entry : Note ι)] = [] := rfl
      simp only [noState, List.append_nil]
      by_cases this : served = claim
      · subst this
        have sends : sentOf served [(.sent served entry : Note ι)] = [entry] := by
          simp [sentOf]
        rw [sends]
        cases books with
        | nothing idle => exact absurd rfl (idle entry)
        | closed appends logged =>
          cases appends
          exact .sent (fun stage => loopHead_ne_serving _ stage) logged
        | sent gone _ => exact absurd rfl (gone _)
      · have other : sentOf claim [(.sent served entry : Note ι)] = [] := by
          simp [sentOf, this]
        simp only [other, List.append_nil]
        refine books.keeps (fun entry => ?_) goes (List.Subset.refl _)
        rw [loopHead_appending]
        simp [Sender.appending, this]
    | quiet idle after same unsaid =>
      refine (List.append_nil states).symm ▸ (List.append_nil entries).symm ▸ ?_
      refine books.keeps (fun entry => ?_) goes grows
      rw [idle, after]
  · intro g i files' r notes _ books kind _
    obtain ⟨noState, noEntry⟩ := kind.no_close claim
    rw [closedOf_append, sentOf_append, noState, noEntry, List.append_nil, List.append_nil]
    exact books

/-! ### The books of the receivers -/

/-- What the notes say of a receiver: nothing before it appends; while it appends, that it has refused
or what it has read; at the end what it has read, and its entry unless that was a failure. -/
inductive ReceiverBooks (offer : SendOffer) (claim : ReceiverClaim) :
    ReceiverPc → List SessionState → List TransferHistoryEntry → Prop
  | before {pc : ReceiverPc} (idle : pc.appending = none) (runs : pc ≠ .exited) :
    ReceiverBooks offer claim pc [] []
  | refused {pc : ReceiverPc} {entry : TransferHistoryEntry} (appends : pc.appending = some entry) :
    ReceiverBooks offer claim pc [] []
  | told {pc : ReceiverPc} {state : SessionState} (completed : state.state = .completed)
      (appends : pc.appending =
        some (receiveEntry offer claim .completed state.bytesDone state.bytesTotal none)) :
    ReceiverBooks offer claim pc [state] []
  | left {entries : List TransferHistoryEntry} : ReceiverBooks offer claim .exited [] entries
  | failed {state : SessionState} (failed : state.state = .failed) :
    ReceiverBooks offer claim .exited [state] []
  | done {state : SessionState} (completed : state.state = .completed) :
    ReceiverBooks offer claim .exited [state]
      [receiveEntry offer claim .completed state.bytesDone state.bytesTotal none]

/-- One step of a receiver in its books. -/
theorem ReceiverBooks.step {offer : SendOffer} {claim : ReceiverClaim} {i : ι} {files files' : Files}
    {pc pc' : ReceiverPc} {notes : List (Note ι)} {states : List SessionState}
    {entries : List TransferHistoryEntry} (books : ReceiverBooks offer claim pc states entries)
    (kind : ReceiverKind offer claim i files files' pc pc' notes) :
    ReceiverBooks offer claim pc' (states ++ observedBy i notes) (entries ++ receivedBy i notes) := by
  cases kind with
  | load same =>
    simp only [observedBy, receivedBy, List.filterMap_nil, List.append_nil]
    cases books with
    | before idle _ => cases idle
    | refused appends => exact .refused rfl
    | told completed appends => exact .told completed appends
  | save saved =>
    simp only [observedBy, receivedBy, List.filterMap_cons, List.filterMap_nil, List.append_nil, if_true]
    cases books with
    | before idle _ => cases idle
    | refused appends => exact .left
    | told completed appends =>
      cases appends
      exact .done completed
  | complete same said mine completed =>
    simp only [observedBy, receivedBy, List.filterMap_cons, List.filterMap_nil, List.append_nil, if_true]
    cases books with
    | before idle _ => exact .told completed rfl
    | refused appends => cases appends
    | told _ appends => cases appends
  | fail same said mine failed =>
    simp only [observedBy, receivedBy, List.filterMap_cons, List.filterMap_nil, List.append_nil, if_true]
    cases books with
    | before idle _ => exact .failed failed
    | refused appends => cases appends
    | told _ appends => cases appends
  | refuse same =>
    simp only [observedBy, receivedBy, List.filterMap_nil, List.append_nil]
    cases books with
    | before idle _ => exact .refused rfl
    | refused appends => cases appends
    | told _ appends => cases appends
  | quiet runs idle after same unsaid =>
    simp only [observedBy, receivedBy, List.filterMap_nil, List.append_nil]
    cases books with
    | before _ _ =>
      by_cases ended : pc' = .exited
      · subst ended
        exact .left
      · exact .before after ended
    | refused appends =>
      rw [idle] at appends
      cases appends
    | told _ appends =>
      rw [idle] at appends
      cases appends
    | left => exact absurd rfl runs
    | failed _ => exact absurd rfl runs
    | done _ => exact absurd rfl runs

omit [DecidableEq ι] in
/-- The sender notes nothing for a receiver. -/
theorem SenderKind.no_receiver [DecidableEq ι] {files files' : Files} {sender sender' : Sender}
    {events : List Event} {notes : List (Note ι)}
    (kind : SenderKind session files files' sender sender' events notes) (i : ι) :
    observedBy i notes = [] ∧ receivedBy i notes = [] := by
  cases kind with
  | _ => exact ⟨rfl, rfl⟩

/-- A receiver notes nothing for another one. -/
theorem ReceiverKind.no_other {offer : SendOffer} {claim : ReceiverClaim} {i j : ι}
    {files files' : Files} {pc pc' : ReceiverPc} {notes : List (Note ι)}
    (kind : ReceiverKind offer claim i files files' pc pc' notes) (other : j ≠ i) :
    observedBy j notes = [] ∧ receivedBy j notes = [] := by
  cases kind with
  | _ => exact ⟨by simp [observedBy, Ne.symm other], by simp [receivedBy, Ne.symm other]⟩

/-- **The receivers keep their books.** -/
theorem receiverBooks_of_reach {g : Noted ι} (reach : Reach (notedMachine session) Uneventful g) (i : ι) :
    ReceiverBooks session.offer (session.claim i) (g.state.receivers i).pc (observedBy i g.notes)
      (receivedBy i g.notes) := by
  refine noted_of_reach (P := fun g => ReceiverBooks session.offer (session.claim i)
    (g.state.receivers i).pc (observedBy i g.notes) (receivedBy i g.notes)) ?_ ?_ ?_ reach
  · intro g initial
    rw [initial.notes, initial.state.receivers i]
    exact .before rfl fun same => nomatch same
  · intro g action files' sender' events notes _ books _ kind _
    obtain ⟨noState, noEntry⟩ := kind.no_receiver i
    rw [observedBy_append, receivedBy_append, noState, noEntry, List.append_nil, List.append_nil]
    exact books
  · intro g j files' r notes _ books kind _
    rw [observedBy_append, receivedBy_append]
    dsimp only
    by_cases same : i = j
    · subst same
      rw [Function.update_self]
      exact books.step kind
    · obtain ⟨noState, noEntry⟩ := kind.no_other same
      rw [Function.update_of_ne same, noState, noEntry, List.append_nil, List.append_nil]
      exact books

/-! ### What is read was written -/

/-- A final state in the file was noted when it was written, and so was every one that was read. -/
structure Told (session : Session ι) (g : Noted ι) : Prop where
  file : ∀ i, ∀ state ∈ g.state.files.state, state.claimId = some (session.claim i).claimId →
    (state.state = .completed ∨ state.state = .failed) → state ∈ closedOf (session.claim i) g.notes
  seen : ∀ i, ∀ state ∈ observedBy i g.notes, state ∈ closedOf (session.claim i) g.notes

theorem told_of_reach {g : Noted ι} (reach : Reach (notedMachine session) Uneventful g) :
    Told session g := by
  refine noted_of_reach ?_ ?_ ?_ reach
  · intro g initial
    refine ⟨fun i state present => ?_, fun i state seen => ?_⟩
    · rw [initial.state.noState] at present
      cases present
    · rw [initial.notes] at seen
      cases seen
  · intro g action files' sender' events notes before told move kind _
    have stays : ∀ i, ∀ state ∈ closedOf (session.claim i) g.notes,
        state ∈ closedOf (session.claim i) (g.notes ++ notes) := fun i state member => by
      rw [closedOf_append]
      exact List.mem_append_left _ member
    constructor
    · intro i state present mine final
      have old : g.state.files.state = some state →
          state ∈ closedOf (session.claim i) (g.notes ++ notes) := fun there =>
        stays i state (told.file i state there mine final)
      generalize isSender : g.state.sender = sender at kind
      cases kind with
      | @close served stage written idle said about _ same =>
        obtain ⟨j, _, rfl⟩ := (origins_of_reach (plain_of_reach before)).served _ _ isSender
        obtain rfl : written = state := Option.some.inj (said.symm.trans present)
        obtain rfl : j = i := session.distinct (Option.some.inj (about.symm.trans mine))
        rw [closedOf_append]
        refine List.mem_append_right _ ?_
        simp [closedOf]
      | load same => exact old (same ▸ present)
      | save saved =>
        subst saved
        exact old present
      | quiet idle after same unsaid =>
        rcases unsaid state present with there | nobody | transferring
        · exact old there
        · rw [nobody] at mine
          cases mine
        · rw [transferring] at final
          simp at final
    · intro i state seen
      rw [observedBy_append, (kind.no_receiver i).1, List.append_nil] at seen
      exact stays i state (told.seen i state seen)
  · intro g j files' r notes _ told kind _
    have same : files'.state = g.state.files.state := by
      generalize (g.state.receivers j).pc = pc at kind
      generalize r.pc = pc' at kind
      cases kind with
      | save saved => rw [saved]
      | quiet _ _ _ _ unsaid => exact unsaid
      | load same => rw [same]
      | complete same _ _ _ => rw [same]
      | fail same _ _ _ => rw [same]
      | refuse same => rw [same]
    constructor
    · intro i state present mine final
      rw [closedOf_append, (kind.no_close _).1, List.append_nil]
      exact told.file i state (same ▸ present) mine final
    · intro i state seen
      rw [observedBy_append, List.mem_append] at seen
      rw [closedOf_append, (kind.no_close _).1, List.append_nil]
      rcases seen with before | now
      · exact told.seen i state before
      · by_cases this : i = j
        · subst this
          generalize (g.state.receivers i).pc = pc at kind
          generalize r.pc = pc' at kind
          cases kind with
          | @complete written _ said mine completed =>
            obtain rfl : state = written := by simpa [observedBy] using now
            exact told.file i state said mine (.inl completed)
          | @fail written _ said mine failed =>
            obtain rfl : state = written := by simpa [observedBy] using now
            exact told.file i state said mine (.inr failed)
          | _ => cases now
        · rw [(kind.no_other this).1] at now
          cases now

/-! ### The result -/

omit [DecidableEq ι] in
/-- An open claim asks for no record. -/
theorem senderRecorded_of_books {g : Noted ι} {claim : ReceiverClaim}
    (books : SenderBooks claim g.state.sender g.state.log (closedOf claim g.notes)
      (sentOf claim g.notes)) : SenderRecorded g claim := by
  intro state member done
  generalize closedOf claim g.notes = states at books member
  generalize sentOf claim g.notes = entries at books ⊢
  cases books with
  | nothing idle => cases member
  | closed appends logged => exact absurd appends (done _)
  | sent gone logged =>
    obtain rfl := List.mem_singleton.mp member
    exact ⟨_, rfl, rfl, rfl⟩

/-- **Every finished session is in the history of both sides**, unless the receiver has read that the
transfer failed: it then has no record. The sender has one in any case. -/
theorem sessions_recorded_iff (session : Session ι) {g : Noted ι}
    (reach : Reach (notedMachine session) Uneventful g) :
    g.state.files.history = g.old ++ g.notes.filterMap Note.entry? ∧
      ∀ i, SenderRecorded g (session.claim i) ∧
        (ReceiverRecorded session g i ↔ ¬ ReadsFailure g i) := by
  refine ⟨(filed_of_reach reach).history, fun i => ?_⟩
  refine ⟨senderRecorded_of_books (senderBooks_of_reach reach _), ?_⟩
  have seen := (told_of_reach reach).seen i
  have books := receiverBooks_of_reach reach i
  unfold ReceiverRecorded ReadsFailure
  generalize closedOf (session.claim i) g.notes = closed at seen ⊢
  generalize observedBy i g.notes = states at seen books ⊢
  generalize receivedBy i g.notes = entries at books ⊢
  generalize (g.state.receivers i).pc = pc at books ⊢
  have unread : ∀ state, state ∉ ([] : List SessionState) := fun state => List.not_mem_nil
  have notFailed : ∀ state : SessionState, state.state = .completed → state.state ≠ .failed :=
    fun state completed failed => by rw [completed] at failed; cases failed
  cases books with
  | before idle runs => exact iff_of_true (fun state _ read => absurd read (unread state)) (by simp)
  | refused appends => exact iff_of_true (fun state _ read => absurd read (unread state)) (by simp)
  | left => exact iff_of_true (fun state _ read => absurd read (unread state)) (by simp)
  | told completed appends =>
    refine iff_of_true (fun state _ _ done => ?_) (by simpa using notFailed _ completed)
    rw [appends] at done
    cases done
  | failed failed =>
    refine iff_of_false (fun recorded => ?_) (by simpa using failed)
    obtain ⟨entry, nothing, _⟩ := recorded _ (seen _ (List.mem_singleton_self _))
      (List.mem_singleton_self _) rfl
    cases nothing
  | done completed =>
    refine iff_of_true (fun state _ read _ => ?_) (by simpa using notFailed _ completed)
    obtain rfl := List.mem_singleton.mp read
    exact ⟨_, rfl, rfl, completed.symm, rfl, rfl, by simp [receiveEntry, completed]⟩

/-! ### Two sessions -/

/-- The sample session at its start, on a device whose processes trust each other. -/
def sampleNoted : Noted Bool := ⟨sampleStart ["device"], [], []⟩

theorem sampleNoted_initial : NotedInitial sampleNoted := ⟨sampleStart_initial _, rfl, rfl⟩

/-- The first receiver writes its claim and waits, and its transfer begins. -/
def sampleServing : List (Action Bool) :=
  sampleOpening ++ [.receiver false .step, .receiver false .step] ++ sampleTaking ++
    [.sender .step, .sender .step]

/-- The transfer succeeds, and both sides append their entries. -/
def sampleSuccess : List (Action Bool) :=
  sampleServing ++ [.sender (.returned (.ok (3, 3))), .sender .step, .receiver false .step,
    .sender .step, .sender .step, .receiver false .step, .receiver false .step]

/-- The transfer fails, and the receiver reads it. -/
def sampleFailure : List (Action Bool) :=
  sampleServing ++ [.sender (.returned (.error "gone")), .sender .step, .sender .step, .sender .step,
    .receiver false .step]

/-- A completed session is in the history twice. -/
theorem sessions_recorded_sample :
    ∃ g, (notedMachine sampleSession).run Uneventful sampleNoted sampleSuccess = some g ∧
      closedOf (sampleSession.claim false) g.notes =
        [⟨some "first", .completed, "transfer completed", 3, 3⟩] ∧
      g.state.files.history.map TransferHistoryEntry.role = [.send, .receive] ∧
      SenderRecorded g (sampleSession.claim false) ∧ ReceiverRecorded sampleSession g false := by
  have ends : ∃ g, (notedMachine sampleSession).run Uneventful sampleNoted sampleSuccess = some g ∧
      closedOf (sampleSession.claim false) g.notes =
        [⟨some "first", .completed, "transfer completed", 3, 3⟩] ∧
      g.state.files.history.map TransferHistoryEntry.role = [.send, .receive] ∧
      ∀ state ∈ observedBy false g.notes, state.state ≠ .failed := ⟨_, rfl, by decide⟩
  obtain ⟨g, ends, closed, roles, fine⟩ := ends
  obtain ⟨_, recorded⟩ :=
    sessions_recorded_iff sampleSession (reach_of_run _ (.start sampleNoted_initial) ends)
  refine ⟨g, ends, closed, roles, (recorded false).1, (recorded false).2.mpr ?_⟩
  exact fun ⟨state, read, failed⟩ => fine state read failed

/-- **A failed session that is not in the history of the receiver**: it has read the state and has
ended. -/
theorem failure_unrecorded :
    ∃ g, (notedMachine sampleSession).run Uneventful sampleNoted sampleFailure = some g ∧
      (g.state.receivers false).pc = .exited ∧
      closedOf (sampleSession.claim false) g.notes = [⟨some "first", .failed, "gone", 0, 3⟩] ∧
      observedBy false g.notes = [⟨some "first", .failed, "gone", 0, 3⟩] ∧
      g.state.files.history.map TransferHistoryEntry.role = [.send] ∧
      ¬ ReceiverRecorded sampleSession g false := by
  have ends : ∃ g, (notedMachine sampleSession).run Uneventful sampleNoted sampleFailure = some g ∧
      (g.state.receivers false).pc = .exited ∧
      closedOf (sampleSession.claim false) g.notes = [⟨some "first", .failed, "gone", 0, 3⟩] ∧
      observedBy false g.notes = [⟨some "first", .failed, "gone", 0, 3⟩] ∧
      g.state.files.history.map TransferHistoryEntry.role = [.send] ∧
      receivedBy false g.notes = [] := ⟨_, rfl, by decide⟩
  obtain ⟨g, ends, exited, closed, seen, roles, nothing⟩ := ends
  refine ⟨g, ends, exited, closed, seen, roles, fun recorded => ?_⟩
  obtain ⟨entry, appended, _⟩ := recorded _ (by rw [closed]; exact List.mem_singleton_self _)
    (by rw [seen]; exact List.mem_singleton_self _) (by rw [exited]; rfl)
  rw [nothing] at appended
  cases appended

end SendRs.Cli
