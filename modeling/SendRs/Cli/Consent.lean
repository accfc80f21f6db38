/-
**The consent of the receiver.**

A receiver that does not trust the sender asks its user before it goes on. The sender learns of the
answer only through `receiver_yes`, which names no claim, and it does not look for that file when it
trusts the receiver itself. So a transfer may start, or a receiver be paired, without the consent of
the receiver (`transfer_without_consent`).

* `Consents` is the consent of a receiver, `Admitted` says that the sender has gone past its wait.
* `Asks` is what the steps have to meet: the sender goes on only with a receiver that consents, and a
  receiver whose claim is admitted finds the sender trusted.
* `consented_of_reach` is the invariant of these runs.
* `transfer_with_consent`: in runs of such steps no transfer is started and no receiver is paired
  without consent.
-/

import SendRs.Cli.Moves

namespace SendRs.Cli

open Machines

variable {ι : Type}

/-- A receiver that has found the sender untrusted has typed yes. -/
def Receiver.Consents (r : Receiver) : Prop := r.trusted = some false → r.answer = some true

instance (r : Receiver) : Decidable r.Consents := inferInstanceAs (Decidable (_ → _))

/-- The sender serves the claim and is between its wait for the receiver and the transfer. -/
def Sender.admits (claim : ReceiverClaim) : Sender → Bool
  | .serving served .pairing | .serving served (.savingPair _) | .serving served .beginning =>
    served = claim
  | _ => false

@[simp, grind =]
theorem clearNext_admits (rest : List RuntimeFile) (claim : ReceiverClaim) :
    (clearNext rest).admits claim = false := by
  cases rest <;> rfl

/-- The sender has gone past its wait for the receiver of the claim. -/
def Admitted (s : State ι) (claim : ReceiverClaim) : Prop :=
  s.sender.admits claim = true ∨ .paired claim ∈ s.log ∨ .started claim ∈ s.log

instance (s : State ι) (claim : ReceiverClaim) : Decidable (Admitted s claim) :=
  inferInstanceAs (Decidable (_ ∨ _))

/-- The sender goes on without waiting for a receiver that it trusts, and after its wait when
`receiver_yes` is there. -/
def GoesOn (files : Files) (claim : ReceiverClaim) (sender : Sender) : Prop :=
  sender = .serving claim .lookup ∧ claim.receiverId ∈ files.trust ∨
    sender = .serving claim .waitYes ∧ files.receiverYes = true

instance (files : Files) (claim : ReceiverClaim) (sender : Sender) :
    Decidable (GoesOn files claim sender) := inferInstanceAs (Decidable (_ ∨ _))

/-- **What keeps the consent**: the sender goes on with a claim only when its receiver consents, and a
receiver whose claim is admitted does not find the sender untrusted. -/
def Asks (session : Session ι) (s : State ι) : Action ι → Prop
  | .sender .step => ∀ i, GoesOn s.files (session.claim i) s.sender → (s.receivers i).Consents
  | .receiver i .step => (s.receivers i).pc = .lookup → session.offer.senderId ∉ s.files.trust →
      ¬ Admitted s (session.claim i)
  | _ => True

instance [Fintype ι] (session : Session ι) (s : State ι) (a : Action ι) :
    Decidable (Asks session s a) :=
  match a with
  | .sender .step => inferInstanceAs (Decidable (∀ _, _ → _))
  | .receiver _ .step => inferInstanceAs (Decidable (_ → _ → ¬ _))
  | .sender (.removed _) | .sender (.answer _) | .sender (.progress ..) | .sender (.returned _)
  | .sender .stop | .receiver _ (.answer _) | .receiver _ .stop => .isTrue trivial

/-! ### The invariant -/

/-- A receiver finds nothing before its lookup, and answers nothing before its prompt. -/
structure Receiver.InOrder (r : Receiver) : Prop where
  early : r.pc = .claiming ∨ r.pc = .lookup → r.trusted = none ∧ r.answer = none
  asked : r.pc = .prompt → r.trusted = some false ∧ r.answer = none

/-- What every state keeps: receivers do things in order, and those of admitted claims consent. -/
structure Consented (session : Session ι) (s : State ι) : Prop where
  inOrder : ∀ i, (s.receivers i).InOrder
  consents : ∀ i, Admitted s (session.claim i) → (s.receivers i).Consents

/-- The sender admits a claim only where it goes on with it. -/
theorem admitted_before {session : Session ι} {s : State ι} {action : SenderAction} {files : Files}
    {sender : Sender} {events : List Event} {claim : ReceiverClaim}
    (move : SenderMove session s.files s.sender action files sender events)
    (admitted : Admitted ⟨files, sender, s.receivers, s.log ++ events⟩ claim) :
    Admitted s claim ∨ action = .step ∧ GoesOn s.files claim s.sender := by
  obtain ⟨files, sender, receivers, log⟩ := s
  simp only [Admitted, GoesOn, List.mem_append] at *
  cases move with
  | serve move =>
    cases move with
    | trust known => grind [Sender.admits]
    | see present => grind [Sender.admits]
    | _ => grind [Sender.admits, loopHead]
  | _ => grind [Sender.admits, loopHead]

/-- A receiver goes on in order. -/
theorem inOrder_after {session : Session ι} {claim : ReceiverClaim} {files files' : Files}
    {r r' : Receiver} {action : ReceiverAction}
    (move : ReceiverMove session claim files r action files' r') (before : r.InOrder) :
    r'.InOrder := by
  obtain ⟨early, asked⟩ := before
  constructor
  · cases move <;> grind [completionStep_pc]
  · cases move <;> grind [completionStep_pc]

/-- A receiver consents after its step, or has found the sender untrusted with it. -/
theorem consents_after {session : Session ι} {claim : ReceiverClaim} {files files' : Files}
    {r r' : Receiver} {action : ReceiverAction}
    (move : ReceiverMove session claim files r action files' r') (inOrder : r.InOrder)
    (consents : r.Consents) :
    r'.Consents ∨ action = .step ∧ r.pc = .lookup ∧ session.offer.senderId ∉ files.trust := by
  cases move with
  | doubt here unknown => exact .inr ⟨rfl, here, unknown⟩
  | refuse here =>
    -- A receiver at its prompt does not consent yet.
    obtain ⟨untrusted, silent⟩ := inOrder.asked here
    simp [Receiver.Consents, untrusted, silent] at consents
  | _ => grind [Receiver.Consents]

variable [DecidableEq ι] {session : Session ι}

/-- **Every allowed step keeps the invariant.** -/
theorem consented_of_reach {s : State ι} (reach : Reach (machine session) (Asks session) s) :
    Consented session s := by
  apply holds_of_reach _ _ _ reach
  · intro s initial
    constructor
    · intro i
      constructor <;> simp [initial.receivers]
    · simp [Admitted, Sender.admits, initial.sender, initial.log]
  · intro s action files sender events _ inv asks move
    refine ⟨inv.inOrder, fun i admitted => ?_⟩
    rcases admitted_before move admitted with before | ⟨rfl, goesOn⟩
    · exact inv.consents i before
    · exact asks i goesOn
  · intro s i action files r _ inv asks move
    constructor
    · apply (Function.forall_update_iff s.receivers fun _ r => r.InOrder).mpr
      exact ⟨inOrder_after move (inv.inOrder i), fun j _ => inv.inOrder j⟩
    · apply (Function.forall_update_iff s.receivers fun j r =>
        Admitted s (session.claim j) → r.Consents).mpr
      refine ⟨fun admitted => ?_, fun j _ => inv.consents j⟩
      rcases consents_after move (inv.inOrder i) (inv.consents i admitted) with after | found
      · exact after
      · obtain ⟨rfl, here, unknown⟩ := found
        exact absurd admitted (asks here unknown)

/-! ### The result -/

/-- **No transfer without consent**: where every step asks, no transfer is started for a receiver that
has found the sender untrusted and has not typed yes, and no such receiver is paired. -/
theorem transfer_with_consent {s : State ι} (reach : Reach (machine session) (Asks session) s) (i : ι)
    (untrusted : (s.receivers i).trusted = some false) (silent : (s.receivers i).answer ≠ some true) :
    .started (session.claim i) ∉ s.log ∧ .paired (session.claim i) ∉ s.log := by
  have consents := (consented_of_reach reach).consents i
  have refused : ¬ Admitted s (session.claim i) := fun admitted => silent (consents admitted untrusted)
  simp only [Admitted, not_or] at refused
  exact ⟨refused.2.2, refused.2.1⟩

/-- The second receiver is served while the first one is at its prompt. -/
def sampleServed : List (Action Bool) :=
  sampleOpening ++ [.receiver true .step] ++ sampleTaking ++
  [.sender .step, .sender (.answer true), .sender .step,
    .receiver false .step, .receiver false .step,
    .receiver true .step, .receiver true (.answer true), .receiver true .step,
    .sender .step, .sender .step, .sender .step, .sender .step]

/-- The first receiver is not asked for its consent in a run that serves the second one. -/
theorem transfer_with_consent_sample : ∃ s : State Bool,
    (Event.started (sampleSession.claim true) ∈ s.log ∧ (s.receivers false).trusted = some false) ∧
    .started (sampleSession.claim false) ∉ s.log ∧ .paired (sampleSession.claim false) ∉ s.log := by
  obtain ⟨s, reach, started, untrusted, silent⟩ : ∃ s, Reach (machine sampleSession)
      (Asks sampleSession) s ∧ Event.started (sampleSession.claim true) ∈ s.log ∧
      (s.receivers false).trusted = some false ∧ (s.receivers false).answer ≠ some true :=
    exists_reach_of_run (sampleStart_initial []) sampleServed (by decide)
  exact ⟨s, ⟨started, untrusted⟩, transfer_with_consent reach false untrusted silent⟩

/-- The first receiver writes its claim and is at its prompt; the sender takes the claim and its user
types yes; the second receiver writes its claim and its user types yes. -/
def sampleUninvited : List (Action Bool) :=
  sampleOpening ++ [.receiver false .step, .receiver false .step] ++ sampleTaking ++
  [.sender .step, .sender (.answer true), .sender .step,
    .receiver true .step, .receiver true .step, .receiver true (.answer true), .receiver true .step,
    .sender .step, .sender .step, .sender .step, .sender .step]

/-- **A transfer without consent**: the sender reads the `receiver_yes` of the second receiver as the
answer of the first one, pairs it and starts the transfer to its directory. -/
theorem transfer_without_consent : ∃ s, Reach (machine sampleSession) Anything s ∧
    (s.receivers false).trusted = some false ∧ (s.receivers false).answer ≠ some true ∧
    Event.started (sampleSession.claim false) ∈ s.log ∧
    Event.paired (sampleSession.claim false) ∈ s.log :=
  exists_reach_of_run (sampleStart_initial []) sampleUninvited (by decide)

end SendRs.Cli
