/-
**What a receiver is told is true.**

The state of all claims is one file, which the sender overwrites many times. A receiver reads from it
only what is said of its own claim, and the sender says only what it has done for that claim.

* `Ledger` is the invariant of the sender and its log: a claim is consumed once, because it is removed
  before anything else happens with it; its transfer starts once, and never after a rejection.
* `Reports` is the invariant of the state file and of what the receivers were told.
* `completion_authentic` puts them together.
-/

import Mathlib.Data.List.Count
import SendRs.Cli.Origins

namespace SendRs.Cli

open Machines

variable {ι : Type} {session : Session ι}

/-- The removals of files do not fail. -/
def RemovalsSucceed (_ : State ι) : Action ι → Prop
  | .sender (.removed works) => works = true
  | _ => True

instance (s : State ι) (a : Action ι) : Decidable (RemovalsSucceed s a) :=
  match a with
  | .sender (.removed works) => inferInstanceAs (Decidable (works = true))
  | .sender .step | .sender (.answer _) | .sender (.progress ..) | .sender (.returned _)
  | .sender .stop | .receiver _ _ => .isTrue trivial

/-! ### The log of the sender -/

/-- The transfer to the directory of the claim was started and has returned. -/
def Ran (log : List Event) (claim : ReceiverClaim) (ok : Bool) : Prop :=
  .started claim ∈ log ∧ .finished claim ok ∈ log

/-- What has to have happened for a claim before its state says so. -/
def Backed (log : List Event) (claim : ReceiverClaim) : Phase → Prop
  | .completed => .consumed claim ∈ log ∧ Ran log claim true
  | .failed => .rejected claim ∈ log ∨ Ran log claim false
  | _ => True

theorem Backed.mono {log : List Event} {claim : ReceiverClaim} {phase : Phase}
    (backed : Backed log claim phase) (events : List Event) : Backed (log ++ events) claim phase := by
  cases phase with
  | completed => simp_all [Backed, Ran]
  | failed =>
    simp only [Backed, Ran, List.mem_append] at backed ⊢
    tauto
  | _ => trivial

/-- The sender has the claim and has not removed its file, or has ended. -/
def Sender.takes (claim : ReceiverClaim) : Sender → Bool
  | .serving served .taking | .serving served .removingClaim => served = claim
  | .exited => true
  | _ => false

/-- The sender serves the claim, has not rejected it and has not started its transfer. -/
def Sender.early (claim : ReceiverClaim) : Sender → Bool
  | .serving served stage => served = claim && match stage with
    | .taking | .removingClaim | .lookup | .prompt | .confirming | .waitYes | .pairing
    | .savingPair _ | .beginning => true
    | _ => false
  | _ => false

/-- What the sender is about to report, or `none`. -/
def Stage.result : Stage → Option Phase
  | .rejecting => some .failed
  | .reporting (.done ..) => some .completed
  | .reporting (.failed ..) => some .failed
  | _ => none

/-- What the log says of every claim. -/
structure Ledger (s : State ι) : Prop where
  /-- A claim that is served was consumed, -/
  consumed : ∀ claim stage, s.sender = .serving claim stage → .consumed claim ∈ s.log
  /-- and so was every claim the log mentions. -/
  followed : ∀ event ∈ s.log, .consumed event.claim ∈ s.log
  /-- A claim on disk is not consumed, unless the sender is just taking it. -/
  fresh : ∀ claim, s.files.receiver = some claim → .consumed claim ∈ s.log →
    s.sender.takes claim = true
  /-- Before the transfer it was neither started nor rejected. -/
  early : ∀ claim, s.sender.early claim = true → .started claim ∉ s.log ∧ .rejected claim ∉ s.log
  /-- During the transfer it was started. -/
  running : ∀ claim lastPrint, s.sender = .serving claim (.transferring lastPrint) →
    .started claim ∈ s.log
  /-- A report is true. -/
  backed : ∀ claim stage phase, s.sender = .serving claim stage → stage.result = some phase →
    Backed s.log claim phase
  once : ∀ claim, s.log.count (.started claim) ≤ 1
  never : ∀ claim, .rejected claim ∈ s.log → .started claim ∉ s.log

section Loop

variable (rest : List RuntimeFile) (claim : ReceiverClaim)

@[simp, grind =]
theorem clearNext_early : (clearNext rest).early claim = false := by
  cases rest <;> rfl

end Loop

/-- A claim that is read from disk has no trace in the log. -/
theorem Ledger.untouched {s : State ι} {claim : ReceiverClaim} (ledger : Ledger s)
    (present : s.files.receiver = some claim) (reads : s.sender = .reading) (event : Event)
    (about : event.claim = claim) : event ∉ s.log := by
  intro member
  have consumed := ledger.followed event member
  rw [about] at consumed
  simpa [reads, Sender.takes] using ledger.fresh claim present consumed

section SenderSteps

variable {s : State ι} {action : SenderAction} {files : Files} {sender : Sender}
  {events : List Event} {claim : ReceiverClaim}

theorem consumed_after {stage : Stage}
    (move : SenderMove session s.files s.sender action files sender events) (ledger : Ledger s)
    (served : sender = .serving claim stage) : .consumed claim ∈ s.log ++ events := by
  have before := ledger.consumed claim
  obtain ⟨files, sender, receivers, log⟩ := s
  cases move with
  | serve move => cases move <;> simp_all [loopHead_ne_serving]
  | _ => simp_all [loopHead_ne_serving, clearNext_ne_serving]

theorem followed_after (move : SenderMove session s.files s.sender action files sender events)
    (ledger : Ledger s) {event : Event} (member : event ∈ s.log ++ events) :
    .consumed event.claim ∈ s.log ++ events := by
  have consumed := ledger.consumed event.claim
  have followed := ledger.followed event
  obtain ⟨files, sender, receivers, log⟩ := s
  cases move with
  | consume claim present => grind [Event.claim]
  | serve move => cases move <;> grind [Event.claim]
  | _ => simp_all

/-- The file of a claim that is taken is removed before the claim is looked up. -/
theorem fresh_after (move : SenderMove session s.files s.sender action files sender events)
    (works : action ≠ .removed false) (ledger : Ledger s)
    (onDisk : files.receiver = some claim) (consumed : .consumed claim ∈ s.log ++ events) :
    sender.takes claim = true := by
  have before := ledger.fresh claim (onDisk_before move onDisk)
  obtain ⟨files, sender, receivers, log⟩ := s
  cases move with
  | consume claim present => grind [Sender.takes]
  | clear file rest => cases file <;> simp_all [Files.remove, Sender.takes]
  | serve move => cases move <;> simp_all [Sender.takes]
  | _ => simp_all [Sender.takes]

/-- A claim that is just consumed was neither started nor rejected. -/
theorem early_after (move : SenderMove session s.files s.sender action files sender events)
    (ledger : Ledger s) (early : sender.early claim = true) :
    .started claim ∉ s.log ++ events ∧ .rejected claim ∉ s.log ++ events := by
  have before := ledger.early claim
  have untouched := @ledger.untouched
  obtain ⟨files, sender, receivers, log⟩ := s
  simp only [List.mem_append]
  cases move with
  | consume served present =>
    obtain rfl : served = claim := by simpa [Sender.early] using early
    have unlogged : ∀ event : Event, event.claim = served → event ∉ log := untouched _ present rfl
    exact ⟨by simp [unlogged (.started served) rfl], by simp [unlogged (.rejected served) rfl]⟩
  | serve move => cases move <;> grind [Sender.early, loopHead]
  | _ => grind [Sender.early, loopHead]

theorem running_after {lastPrint : Nat}
    (move : SenderMove session s.files s.sender action files sender events) (ledger : Ledger s)
    (runs : sender = .serving claim (.transferring lastPrint)) : .started claim ∈ s.log ++ events := by
  have before := ledger.running claim
  obtain ⟨files, sender, receivers, log⟩ := s
  cases move with
  | serve move => cases move <;> simp_all [loopHead_ne_serving]
  | _ => simp_all [loopHead_ne_serving, clearNext_ne_serving]

/-- The sender reports what it has just done. -/
theorem backed_after {stage : Stage} {phase : Phase}
    (move : SenderMove session s.files s.sender action files sender events) (ledger : Ledger s)
    (served : sender = .serving claim stage) (result : stage.result = some phase) :
    Backed (s.log ++ events) claim phase := by
  have consumed := ledger.consumed claim
  have running := ledger.running claim
  obtain ⟨files, sender, receivers, log⟩ := s
  cases move with
  | serve move =>
    cases move with
    | reject => grind [Backed, Stage.result]
    | succeed lastPrint => grind [Backed, Ran, Stage.result]
    | fail lastPrint => grind [Backed, Ran, Stage.result]
    | _ => grind [Stage.result, loopHead_ne_serving]
  | _ => grind [Stage.result, loopHead_ne_serving, clearNext_ne_serving]

/-- A transfer starts where it has not started before. -/
theorem once_after (move : SenderMove session s.files s.sender action files sender events)
    (ledger : Ledger s) (claim : ReceiverClaim) :
    (s.log ++ events).count (.started claim) ≤ 1 := by
  have once := ledger.once claim
  have early := ledger.early claim
  obtain ⟨files, sender, receivers, log⟩ := s
  rw [List.count_append]
  cases move with
  | serve move =>
    cases move with
    | begin => grind [Sender.early]
    | _ => simpa using once
  | _ => simpa using once

/-- A claim is rejected before its transfer would start. -/
theorem never_after (move : SenderMove session s.files s.sender action files sender events)
    (ledger : Ledger s) (rejected : .rejected claim ∈ s.log ++ events) :
    .started claim ∉ s.log ++ events := by
  have never := ledger.never claim
  have early := ledger.early claim
  obtain ⟨files, sender, receivers, log⟩ := s
  cases move with
  | serve move =>
    cases move with
    | begin => grind [Sender.early]
    | reject => grind [Sender.early]
    | _ => simp_all
  | _ => simp_all

end SenderSteps

variable [DecidableEq ι]

/-- **Every step keeps the ledger**, where removals succeed. -/
theorem ledger_of_reach {s : State ι} (reach : Reach (machine session) RemovalsSucceed s) :
    Ledger s := by
  apply holds_of_reach _ _ _ reach
  · intro s initial
    constructor <;> simp [initial.sender, initial.log, Sender.early]
  · intro s action files sender events _ ledger works move
    have works : action ≠ .removed false := by
      rintro rfl
      simp [RemovalsSucceed] at works
    constructor
    · exact fun claim stage => consumed_after move ledger
    · exact fun event => followed_after move ledger
    · exact fun claim => fresh_after move works ledger
    · exact fun claim => early_after move ledger
    · exact fun claim lastPrint => running_after move ledger
    · exact fun claim stage phase => backed_after move ledger
    · exact once_after move ledger
    · exact fun claim => never_after move ledger
  · intro s i action files r before ledger _ move
    refine { ledger with fresh := fun claim onDisk consumed => ?_ }
    rcases receiver_onDisk move onDisk with stays | ⟨rfl, unwritten, _⟩
    · exact ledger.fresh claim stays consumed
    · -- A claim that is just written was never consumed.
      exact absurd consumed ((origins_of_reach before).unseen unwritten _ rfl)

/-! ### The state file and the receivers -/

/-- `wait_for_completion` has returned the error of a failed transfer. -/
def Receiver.ToldFailed (r : Receiver) : Prop :=
  ∃ message, r.outcome = some (.error ("transfer failed: " ++ message))

/-- What the state file says is backed by the log, and so is what the receivers were told. -/
structure Reports (session : Session ι) (s : State ι) : Prop where
  state : ∀ state, s.files.state = some state → ∀ i,
    state.claimId = some (session.claim i).claimId → Backed s.log (session.claim i) state.state
  completed : ∀ i state, (s.receivers i).outcome = some (.ok state) →
    Backed s.log (session.claim i) .completed
  failed : ∀ i, (s.receivers i).ToldFailed → Backed s.log (session.claim i) .failed

omit [DecidableEq ι] in
/-- The sender writes the state of the claim that it serves: that it transfers, or its result. -/
theorem state_before {files files' : Files} {sender sender' : Sender} {action : SenderAction}
    {events : List Event} {state : SessionState}
    (move : SenderMove session files sender action files' sender' events)
    (present : files'.state = some state) :
    files.state = some state ∨ state.claimId = none ∨ ∃ claim stage,
      sender = .serving claim stage ∧ state.claimId = some claim.claimId ∧
      (state.state = .transferring ∨ stage.result = some state.state) := by
  cases move with
  | clear file rest => cases file <;> exact .inl present
  | announce => grind
  | serve move =>
    cases move with
    | tell => grind [rejectedState, Stage.result]
    | progress => grind
    | report outcome => cases outcome <;> grind [resultState, Stage.result]
    | _ => exact .inl present
  | _ => exact .inl present

omit [DecidableEq ι] in
/-- A receiver is told what the state file says of its claim. -/
theorem outcome_before {claim : ReceiverClaim} {files files' : Files} {r r' : Receiver}
    {action : ReceiverAction} (move : ReceiverMove session claim files r action files' r') :
    files'.state = files.state ∧ (r'.outcome = r.outcome ∨ r'.outcome = some (.error "read json") ∨
      ∃ state, files.state = some state ∧ state.claimId = some claim.claimId ∧
        (state.state = .completed ∧ r'.outcome = some (.ok state) ∨
          state.state = .failed ∧
            r'.outcome = some (.error ("transfer failed: " ++ state.message)))) := by
  cases move with
  | look =>
    refine ⟨rfl, ?_⟩
    unfold completionStep
    grind
  | _ => exact ⟨rfl, .inl rfl⟩

theorem transferFailed_ne (message : String) : "read json" ≠ "transfer failed: " ++ message := by
  intro same
  have chars := congrArg String.toList same
  simp at chars

/-- **Every step keeps the reports**, where removals succeed. -/
theorem reports_of_reach {s : State ι} (reach : Reach (machine session) RemovalsSucceed s) :
    Reports session s := by
  apply holds_of_reach _ _ _ reach
  · intro s initial
    constructor
    · simp [initial.noState]
    · simp [initial.receivers]
    · simp [Receiver.ToldFailed, initial.receivers]
  · intro s action files sender events before reports works move
    constructor
    · intro state present i mine
      rcases state_before move present with stays | nobody | ⟨claim, stage, served, about, said⟩
      · exact (reports.state state stays i mine).mono events
      · simp [nobody] at mine
      · -- The claim that is served is the one of this receiver, because ids are distinct.
        obtain ⟨j, _, rfl⟩ := (origins_of_reach before).served claim stage served
        obtain rfl : j = i := session.distinct (Option.some.inj (about.symm.trans mine))
        rcases said with transferring | result
        · simp [transferring, Backed]
        · exact ((ledger_of_reach before).backed _ stage _ served result).mono events
    · exact fun i state told => (reports.completed i state told).mono events
    · exact fun i told => (reports.failed i told).mono events
  · intro s i action files r _ reports _ move
    obtain ⟨same, outcome⟩ := outcome_before move
    constructor
    · rw [same]
      exact reports.state
    · apply (Function.forall_update_iff s.receivers fun j r => ∀ state,
        r.outcome = some (.ok state) → Backed s.log (session.claim j) .completed).mpr
      refine ⟨fun state told => ?_, fun j _ => reports.completed j⟩
      rcases outcome with stays | broken | ⟨state, present, mine, ⟨done, _⟩ | ⟨_, failed⟩⟩
      · exact reports.completed i _ (stays ▸ told)
      · simp [broken] at told
      · exact done ▸ reports.state state present i mine
      · simp [failed] at told
    · apply (Function.forall_update_iff s.receivers fun j r =>
        r.ToldFailed → Backed s.log (session.claim j) .failed).mpr
      refine ⟨fun ⟨message, told⟩ => ?_, fun j _ => reports.failed j⟩
      rcases outcome with stays | broken | ⟨state, present, mine, ⟨_, done⟩ | ⟨failed, _⟩⟩
      · exact reports.failed i ⟨message, stays ▸ told⟩
      · simp [broken, transferFailed_ne] at told
      · simp [done] at told
      · exact failed ▸ reports.state state present i mine

/-! ### The result -/

/-- **The completion is authentic.** Where removals succeed, for whatever the processes do:
`wait_for_completion` returns a state only if the sender has consumed this claim and a transfer to its
directory has ended well; it returns the error of a failed transfer only if the sender has rejected
this claim or a transfer to its directory has ended badly; and the transfer of a claim starts at most
once, and never if the claim was rejected. -/
theorem completion_authentic {s : State ι} (reach : Reach (machine session) RemovalsSucceed s) :
    (∀ i state, (s.receivers i).outcome = some (.ok state) →
      .consumed (session.claim i) ∈ s.log ∧ Ran s.log (session.claim i) true) ∧
    (∀ i message, (s.receivers i).outcome = some (.error ("transfer failed: " ++ message)) →
      .rejected (session.claim i) ∈ s.log ∨ Ran s.log (session.claim i) false) ∧
    (∀ claim, s.log.count (.started claim) ≤ 1) ∧
    ∀ claim, .rejected claim ∈ s.log → .started claim ∉ s.log := by
  have reports := reports_of_reach reach
  have ledger := ledger_of_reach reach
  exact ⟨reports.completed, fun i message told => reports.failed i ⟨message, told⟩, ledger.once,
    ledger.never⟩

/-- A receiver that is trusted, and trusts the sender, is served. -/
def sampleCompleted : List (Action Bool) :=
  sampleOpening ++ [.receiver false .step, .receiver false .step] ++ sampleTaking ++
  [.sender .step, .sender .step, .sender (.progress true 3 3 "a"), .sender (.returned (.ok (3, 3))),
    .sender .step, .receiver false .step]

/-- A receiver that is told of the completion, and what has happened. -/
theorem completion_authentic_sample : ∃ s : State Bool,
    (s.receivers false).outcome =
      some (.ok ⟨some "first", .completed, "transfer completed", 3, 3⟩) ∧
    .consumed (sampleSession.claim false) ∈ s.log ∧ Ran s.log (sampleSession.claim false) true := by
  obtain ⟨s, reach, told⟩ : ∃ s, Reach (machine sampleSession) RemovalsSucceed s ∧
      (s.receivers false).outcome =
        some (.ok ⟨some "first", .completed, "transfer completed", 3, 3⟩) :=
    exists_reach_of_run (sampleStart_initial ["device"]) sampleCompleted (by decide)
  exact ⟨s, told, (completion_authentic reach).1 false _ told⟩

end SendRs.Cli
