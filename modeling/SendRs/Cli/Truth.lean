/-
**The history says what has happened.**

Every process of a session loads the history, adds its entry and saves it, and so undoes what others
have saved in between. What was in the history at the start is still at its front after any run, and
nothing is behind it but entries that a process had a reason to write (`Witnessed`): the sender has
rejected a claim, or its transfer has ended, well or badly, as the entry says; the user of a receiver has
refused; or a receiver was told that its transfer is completed, which it is.

* `Stage.Due` is what has happened where the sender is.
* `Booked` is the invariant, `booked_of_reach` says that every run keeps it.
-/

import SendRs.Cli.Consent
import SendRs.Cli.Records

namespace SendRs.Cli

open Machines

variable {ι : Type} {session : Session ι}

/-! ### Reasons -/

/-- The transfer has ended well. -/
def Outcome.ok : Outcome → Bool
  | .done .. => true
  | .failed .. => false

/-- There is a reason to write an entry. -/
inductive Witnessed (session : Session ι) (log : List Event) (receivers : ι → Receiver) :
    TransferHistoryEntry → Prop
  | rejected (claim : ReceiverClaim) (rejected : .rejected claim ∈ log) :
    Witnessed session log receivers (sendEntry claim (rejectedState session claim))
  | sent (claim : ReceiverClaim) (outcome : Outcome) (ran : Ran log claim outcome.ok) :
    Witnessed session log receivers (sendEntry claim (resultState session claim outcome))
  | refused (i : ι) (refused : (receivers i).answer = some false) :
    Witnessed session log receivers (receiveEntry session.offer (session.claim i) .failed 0 0
      (some "receiver rejected authentication"))
  | received (i : ι) (state : SessionState) (told : (receivers i).outcome = some (.ok state))
      (ran : Ran log (session.claim i) true) :
    Witnessed session log receivers (receiveEntry session.offer (session.claim i) .completed
      state.bytesDone state.bytesTotal none)

/-- The old entries, and others that there is a reason for. -/
def Accounted (session : Session ι) (old : List TransferHistoryEntry) (log : List Event)
    (receivers : ι → Receiver) (entries : List TransferHistoryEntry) : Prop :=
  ∃ more, entries = old ++ more ∧ ∀ entry ∈ more, Witnessed session log receivers entry

section Later

variable {log log' : List Event} {receivers receivers' : ι → Receiver}

/-- What the processes know does not get less: the log grows, and answers and outcomes stay. -/
structure Later (log log' : List Event) (receivers receivers' : ι → Receiver) : Prop where
  log : ∀ event ∈ log, event ∈ log'
  answers : ∀ i answer, (receivers i).answer = some answer → (receivers' i).answer = some answer
  outcomes : ∀ i outcome, (receivers i).outcome = some outcome → (receivers' i).outcome = some outcome

/-- Reasons last. -/
theorem Witnessed.later {entry : TransferHistoryEntry} (witnessed : Witnessed session log receivers entry)
    (later : Later log log' receivers receivers') : Witnessed session log' receivers' entry := by
  cases witnessed with
  | rejected claim rejected => exact .rejected claim (later.log _ rejected)
  | sent claim outcome ran => exact .sent claim outcome ⟨later.log _ ran.1, later.log _ ran.2⟩
  | refused i refused => exact .refused i (later.answers i _ refused)
  | received i state told ran =>
    exact .received i state (later.outcomes i _ told) ⟨later.log _ ran.1, later.log _ ran.2⟩

theorem Accounted.later {old entries : List TransferHistoryEntry}
    (honest : Accounted session old log receivers entries) (later : Later log log' receivers receivers') :
    Accounted session old log' receivers' entries := by
  obtain ⟨more, same, witnessed⟩ := honest
  exact ⟨more, same, fun entry member => (witnessed entry member).later later⟩

/-- One more entry. -/
theorem Accounted.concat {old entries : List TransferHistoryEntry} {entry : TransferHistoryEntry}
    (honest : Accounted session old log receivers entries) (witnessed : Witnessed session log receivers entry) :
    Accounted session old log receivers (entries ++ [entry]) := by
  obtain ⟨more, same, all⟩ := honest
  refine ⟨more ++ [entry], by rw [same, List.append_assoc], fun other member => ?_⟩
  rcases List.mem_append.mp member with before | last
  · exact all other before
  · rwa [List.mem_singleton.mp last]

end Later

/-! ### The moves of the sender -/

/-- What has happened where the sender is. -/
def Stage.Due (log : List Event) (claim : ReceiverClaim) : Stage → Prop
  | .transferring _ => .started claim ∈ log
  | .rejecting => .rejected claim ∈ log
  | .reporting outcome => Ran log claim outcome.ok
  | _ => True

section SenderMoves

variable {files files' : Files} {sender sender' : Sender} {action : SenderAction} {events log : List Event}

/-- The sender is where it is for a reason. -/
theorem due_after (move : SenderMove session files sender action files' sender' events)
    (before : ∀ claim stage, sender = .serving claim stage → stage.Due log claim) {claim : ReceiverClaim}
    {stage : Stage} (here : sender' = .serving claim stage) : stage.Due (log ++ events) claim := by
  cases move with
  | serve move =>
    cases move with
    | succeed lastPrint => grind [Stage.Due, Ran, Outcome.ok]
    | fail lastPrint => grind [Stage.Due, Ran, Outcome.ok]
    | _ => grind [Stage.Due, loopHead_ne_serving]
  | _ => grind [Stage.Due, loopHead_ne_serving, clearNext_ne_serving]

/-- What the sender is about to append has a reason. -/
theorem appending_after {receivers : ι → Receiver}
    (move : SenderMove session files sender action files' sender' events)
    (due : ∀ claim stage, sender = .serving claim stage → stage.Due log claim)
    (before : ∀ claim entry, sender.appending = some (claim, entry) →
      Witnessed session log receivers entry) {claim : ReceiverClaim} {entry : TransferHistoryEntry}
    (here : sender'.appending = some (claim, entry)) :
    Witnessed session log receivers entry := by
  cases move with
  | serve move =>
    cases move with
    | tell =>
      obtain ⟨rfl, rfl⟩ := Prod.mk.inj (Option.some.inj here)
      exact .rejected _ (due _ _ rfl)
    | report outcome =>
      obtain ⟨rfl, rfl⟩ := Prod.mk.inj (Option.some.inj here)
      exact .sent _ outcome (due _ _ rfl)
    | readHistory entry => exact before _ _ here
    | saveHistory entry entries => cases here
    | _ => cases here
  | skip file rest => simp at here
  | clear file rest => simp at here
  | miss file rest => simp at here
  | announce => simp at here
  | _ => cases here

/-- The sender loads what is on disk. -/
theorem loaded_after (move : SenderMove session files sender action files' sender' events)
    {entries : List TransferHistoryEntry} (here : sender'.loaded = some entries) :
    entries = files.history := by
  cases move with
  | serve move =>
    cases move with
    | readHistory entry => exact (Option.some.inj here).symm
    | _ => cases here
  | skip file rest => simp at here
  | clear file rest => simp at here
  | miss file rest => simp at here
  | announce => simp at here
  | _ => cases here

/-- The sender saves what it has loaded, with the entry that it appends. -/
theorem history_after (move : SenderMove session files sender action files' sender' events) :
    files'.history = files.history ∨ ∃ claim entry entries, sender.loaded = some entries ∧
      sender.appending = some (claim, entry) ∧ files'.history = entries ++ [entry] := by
  cases move with
  | serve move =>
    cases move with
    | saveHistory entry entries => exact .inr ⟨_, entry, entries, rfl, rfl, rfl⟩
    | _ => exact .inl rfl
  | clear file rest => cases file <;> exact .inl rfl
  | _ => exact .inl rfl

end SenderMoves

/-! ### The moves of a receiver -/

/-- A receiver has no outcome before `wait_for_completion` returns. -/
def Receiver.Untold (r : Receiver) : Prop := r.pc.appending = none → r.pc ≠ .exited → r.outcome = none

section ReceiverMoves

variable {claim : ReceiverClaim} {files files' : Files} {r r' : Receiver} {action : ReceiverAction}

/-- One read: the receiver waits on, or has an outcome and is about to append what it was told. -/
theorem completionStep_cases (offer : SendOffer) (claim : ReceiverClaim) (r : Receiver)
    (said : Option SessionState) :
    completionStep offer claim r said = r ∨ (completionStep offer claim r said).pc = .exited ∨
      ∃ state, completionStep offer claim r said = { r with
        pc := .recording (receiveEntry offer claim .completed state.bytesDone state.bytesTotal none)
        outcome := some (.ok state) } := by
  cases said with
  | none => exact .inr (.inl rfl)
  | some state =>
    unfold completionStep
    dsimp only
    split
    · exact .inl rfl
    · split
      · exact .inr (.inr ⟨state, rfl⟩)
      · exact .inr (.inl rfl)
      · exact .inl rfl

theorem untold_after (move : ReceiverMove session claim files r action files' r') (before : r.Untold) :
    r'.Untold := by
  cases move with
  | look here =>
    rcases completionStep_cases session.offer claim r files.state with same | exited | ⟨state, told⟩
    · rwa [same]
    · exact fun _ runs => absurd exited runs
    · rw [told]
      intro nothing
      cases nothing
  | _ => grind [Receiver.Untold, ReceiverPc.appending]

/-- An answer stays. -/
theorem answer_after (move : ReceiverMove session claim files r action files' r') (inOrder : r.InOrder)
    {answer : Bool} (answered : r.answer = some answer) : r'.answer = some answer := by
  cases move with
  | refuse here => simp [(inOrder.asked here).2] at answered
  | approve here => simp [(inOrder.asked here).2] at answered
  | look here => rwa [completionStep_answer]
  | _ => exact answered

/-- And so does an outcome. -/
theorem outcome_after (move : ReceiverMove session claim files r action files' r') (untold : r.Untold)
    {outcome : Except String SessionState} (told : r.outcome = some outcome) :
    r'.outcome = some outcome := by
  cases move with
  | look here => simp [untold (by rw [here]; rfl) (by simp [here])] at told
  | _ => exact told

/-- What a receiver is about to append has a reason. -/
theorem appendingBy_after {log : List Event} {i : ι}
    (move : ReceiverMove session (session.claim i) files r action files' r')
    {receivers : ι → Receiver} (here : receivers i = r')
    (completed : ∀ state, r'.outcome = some (.ok state) → Ran log (session.claim i) true)
    (before : ∀ entry, r.pc.appending = some entry → Witnessed session log receivers entry)
    {entry : TransferHistoryEntry} (appends : r'.pc.appending = some entry) :
    Witnessed session log receivers entry := by
  cases move with
  | refuse at_ =>
    obtain rfl := Option.some.inj appends
    exact .refused i (by rw [here])
  | look at_ =>
    rcases completionStep_cases session.offer (session.claim i) r files.state with
      same | exited | ⟨state, told⟩
    · exact before entry (same ▸ appends)
    · rw [exited] at appends
      cases appends
    · rw [told] at appends here completed
      obtain rfl := Option.some.inj appends
      exact .received i state (by rw [here]) (completed state rfl)
  | readHistory entry at_ => exact before _ (by rw [at_]; exact appends)
  | wait at_ _ => exact before entry appends
  | _ => cases appends

theorem loadedBy_after (move : ReceiverMove session claim files r action files' r')
    {entries : List TransferHistoryEntry} (here : r'.pc.loaded = some entries) :
    entries = files.history := by
  cases move with
  | readHistory entry at_ => exact (Option.some.inj here).symm
  | look at_ =>
    rcases completionStep_cases session.offer claim r files.state with same | exited | ⟨state, told⟩
    · rw [same, at_] at here
      cases here
    · rw [exited] at here
      cases here
    · rw [told] at here
      cases here
  | wait at_ _ =>
    rw [at_] at here
    cases here
  | _ => cases here

theorem receiver_history_after (move : ReceiverMove session claim files r action files' r') :
    files'.history = files.history ∨ ∃ entry entries, r.pc.loaded = some entries ∧
      r.pc.appending = some entry ∧ files'.history = entries ++ [entry] := by
  cases move with
  | saveHistory entry entries here => exact .inr ⟨entry, entries, by rw [here]; rfl, by rw [here]; rfl, rfl⟩
  | _ => exact .inl rfl

end ReceiverMoves

/-! ### The invariant -/

/-- **What every state keeps**: the history is honest, also where it is about to be saved, and what a
process is about to append has a reason. -/
structure Booked (session : Session ι) (old : List TransferHistoryEntry) (s : State ι) : Prop where
  inOrder : ∀ i, (s.receivers i).InOrder
  untold : ∀ i, (s.receivers i).Untold
  due : ∀ claim stage, s.sender = .serving claim stage → stage.Due s.log claim
  history : Accounted session old s.log s.receivers s.files.history
  loaded : ∀ entries, s.sender.loaded = some entries → Accounted session old s.log s.receivers entries
  appending : ∀ claim entry, s.sender.appending = some (claim, entry) →
    Witnessed session s.log s.receivers entry
  loadedBy : ∀ i entries, (s.receivers i).pc.loaded = some entries →
    Accounted session old s.log s.receivers entries
  appendingBy : ∀ i entry, (s.receivers i).pc.appending = some entry →
    Witnessed session s.log s.receivers entry

/-- The sender keeps it. -/
theorem Booked.sender {old : List TransferHistoryEntry} {s : State ι} (booked : Booked session old s)
    {action : SenderAction} {files : Files} {sender : Sender} {events : List Event}
    (move : SenderMove session s.files s.sender action files sender events) :
    Booked session old ⟨files, sender, s.receivers, s.log ++ events⟩ := by
  have later : Later s.log (s.log ++ events) s.receivers s.receivers :=
    ⟨fun _ member => List.mem_append_left _ member, fun _ _ same => same, fun _ _ same => same⟩
  refine ⟨booked.inOrder, booked.untold, fun claim stage here => due_after move booked.due here, ?_,
    fun entries here => ?_, fun claim entry here => ?_,
    fun i entries here => (booked.loadedBy i entries here).later later,
    fun i entry here => (booked.appendingBy i entry here).later later⟩
  · show Accounted session old _ _ files.history
    rcases history_after move with same | ⟨claim, entry, entries, isLoaded, appends, saved⟩
    · rw [same]
      exact booked.history.later later
    · rw [saved]
      exact ((booked.loaded entries isLoaded).concat (booked.appending claim entry appends)).later later
  · rw [loaded_after move here]
    exact booked.history.later later
  · exact (appending_after move booked.due booked.appending here).later later

variable [DecidableEq ι]

/-- And so does a receiver, where it is told the truth. -/
theorem Booked.receiver {old : List TransferHistoryEntry} {s : State ι} (booked : Booked session old s)
    {i : ι} {action : ReceiverAction} {files : Files} {r : Receiver}
    (move : ReceiverMove session (session.claim i) s.files (s.receivers i) action files r)
    (completed : ∀ state, r.outcome = some (.ok state) → Ran s.log (session.claim i) true) :
    Booked session old ⟨files, s.sender, Function.update s.receivers i r, s.log⟩ := by
  have later : Later s.log s.log s.receivers (Function.update s.receivers i r) := by
    refine ⟨fun _ member => member, ?_, ?_⟩
    · apply (Function.forall_update_iff s.receivers fun j r => ∀ answer,
        (s.receivers j).answer = some answer → r.answer = some answer).mpr
      exact ⟨fun _ => answer_after move (booked.inOrder i), fun _ _ _ same => same⟩
    · apply (Function.forall_update_iff s.receivers fun j r => ∀ outcome,
        (s.receivers j).outcome = some outcome → r.outcome = some outcome).mpr
      exact ⟨fun _ => outcome_after move (booked.untold i), fun _ _ _ same => same⟩
  refine ⟨?_, ?_, booked.due, ?_, fun entries here => (booked.loaded entries here).later later,
    fun claim entry here => (booked.appending claim entry here).later later, ?_, ?_⟩
  · apply (Function.forall_update_iff s.receivers fun _ r => r.InOrder).mpr
    exact ⟨inOrder_after move (booked.inOrder i), fun j _ => booked.inOrder j⟩
  · apply (Function.forall_update_iff s.receivers fun _ r => r.Untold).mpr
    exact ⟨untold_after move (booked.untold i), fun j _ => booked.untold j⟩
  · show Accounted session old _ _ files.history
    rcases receiver_history_after move with same | ⟨entry, entries, isLoaded, appends, saved⟩
    · rw [same]
      exact booked.history.later later
    · rw [saved]
      exact ((booked.loadedBy i entries isLoaded).concat (booked.appendingBy i entry appends)).later later
  · apply (Function.forall_update_iff s.receivers fun _ r' => ∀ entries, r'.pc.loaded = some entries →
      Accounted session old s.log (Function.update s.receivers i r) entries).mpr
    refine ⟨fun entries here => ?_, fun j _ entries here => (booked.loadedBy j entries here).later later⟩
    rw [loadedBy_after move here]
    exact booked.history.later later
  · apply (Function.forall_update_iff s.receivers fun _ r' => ∀ entry, r'.pc.appending = some entry →
      Witnessed session s.log (Function.update s.receivers i r) entry).mpr
    refine ⟨fun entry here => ?_, fun j _ entry here => (booked.appendingBy j entry here).later later⟩
    exact appendingBy_after move (Function.update_self i r s.receivers) completed
      (fun entry appends => (booked.appendingBy i entry appends).later later) here

end SendRs.Cli
