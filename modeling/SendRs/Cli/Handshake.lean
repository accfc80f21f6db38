/-
**The yes/yes handshake.**

The receiver that has typed yes waits for `sender_yes`, the sender that has typed yes waits for
`receiver_yes`, and neither wait ends by itself. A side that trusts the other one, or whose user does
not type yes, does not write its file, and does not tell the other side (`handshake_sticks`).

* `Settles` says that the sender has decided about a claim without the handshake, or is done with it;
  `Receiver.Skips` that the receiver does not write `receiver_yes`.
* `Meets` is what the steps have to meet: nobody decides without the handshake while the other side
  waits or is about to, unless the file that ends the wait is there; and that file is not removed
  while it is needed.
* `unstuck_of_reach` is the invariant of these runs, `handshake_ends` the result.
-/

import SendRs.Cli.Moves

namespace SendRs.Cli

open Machines

variable {ι : Type}

/-- The receiver has typed yes and has not seen `sender_yes`. -/
def Receiver.Awaits (r : Receiver) : Prop := r.pc = .confirming ∨ r.pc = .waitYes

instance (r : Receiver) : Decidable r.Awaits := inferInstanceAs (Decidable (_ ∨ _))

/-- The receiver goes on, or ends, without writing `receiver_yes`. -/
def Receiver.Skips (r : Receiver) : Prop := r.trusted = some true ∨ r.answer = some false

instance (r : Receiver) : Decidable r.Skips := inferInstanceAs (Decidable (_ ∨ _))

/-- The sender has typed yes for the claim and has not seen `receiver_yes`. -/
def Sender.awaits (claim : ReceiverClaim) : Sender → Bool
  | .serving served .confirming | .serving served .waitYes => served = claim
  | _ => false

/-- The sender has written `sender_yes` for the claim and is before the transfer. -/
def Sender.confirmed : Sender → Bool
  | .serving _ .waitYes | .serving _ .pairing | .serving _ (.savingPair _) => true
  | _ => false

/-- The sender transfers to the directory of the claim, or is about to. -/
def Sender.transfers (claim : ReceiverClaim) : Sender → Bool
  | .serving served .beginning | .serving served (.transferring _) => served = claim
  | _ => false

/-- The sender has found the receiver trusted, has rejected it, or has transferred to it. -/
def Settles (s : State ι) (claim : ReceiverClaim) : Prop :=
  .trusted claim ∈ s.log ∨ .rejected claim ∈ s.log ∨
    .finished claim true ∈ s.log ∨ .finished claim false ∈ s.log

instance (s : State ι) (claim : ReceiverClaim) : Decidable (Settles s claim) :=
  inferInstanceAs (Decidable (_ ∨ _))

/-- The next removal of the sender is that of `sender_yes`. -/
def Sender.clearsYes : Sender → Bool
  | .removing .senderYes _ => true
  | _ => false

/-- **What keeps the handshake going.**

The sender finds the receiver trusted, or does not type yes, only while the receiver does not wait;
it types yes only if the receiver has not skipped its part; it does not remove a `sender_yes` that a
settled receiver waits for. A receiver types yes only for a claim that is not settled; it finds the
sender trusted, or does not type yes, only while the sender does not wait. Where the file waited for
is there, everything is allowed. -/
def Meets (session : Session ι) (s : State ι) : Action ι → Prop
  | .sender .step => ∀ i, s.sender = .serving (session.claim i) .lookup →
      (session.claim i).receiverId ∈ s.files.trust → (s.receivers i).Awaits →
      s.files.senderYes = true
  | .sender (.answer false) => ∀ i, s.sender = .serving (session.claim i) .prompt →
      (s.receivers i).Awaits → s.files.senderYes = true
  | .sender (.answer true) => ∀ i, s.sender = .serving (session.claim i) .prompt →
      (s.receivers i).Skips → s.files.receiverYes = true
  | .sender (.removed true) => s.sender.clearsYes = true → ∀ i, (s.receivers i).Awaits →
      ¬ Settles s (session.claim i)
  | .receiver i .step => (s.receivers i).pc = .lookup → session.offer.senderId ∈ s.files.trust →
      s.sender.awaits (session.claim i) = true → s.files.receiverYes = true
  | .receiver i (.answer true) => Settles s (session.claim i) → s.files.senderYes = true
  | .receiver i (.answer false) =>
      s.sender.awaits (session.claim i) = true → s.files.receiverYes = true
  | _ => True

instance [Fintype ι] (session : Session ι) (s : State ι) (a : Action ι) :
    Decidable (Meets session s a) :=
  match a with
  | .sender .step | .sender (.answer false) | .sender (.answer true) =>
    inferInstanceAs (Decidable (∀ _, _ → _))
  | .sender (.removed true) => inferInstanceAs (Decidable (_ → ∀ _, _))
  | .receiver _ .step | .receiver _ (.answer true) | .receiver _ (.answer false) =>
    inferInstanceAs (Decidable (_ → _))
  | .sender (.removed false) | .sender (.progress ..) | .sender (.returned _) | .sender .stop
  | .receiver _ .stop => .isTrue trivial

/-! ### The invariant -/

/-- What every state keeps. -/
structure Unstuck (session : Session ι) (s : State ι) : Prop where
  /-- A receiver that waits after its claim is settled finds `sender_yes`. -/
  settled : ∀ i, (s.receivers i).Awaits → Settles s (session.claim i) → s.files.senderYes = true
  /-- After its write of `sender_yes` the sender leaves it there. -/
  confirmed : s.sender.confirmed = true → s.files.senderYes = true
  /-- The sender transfers to a receiver that it trusts, or after the handshake. -/
  agreed : ∀ claim, s.sender.transfers claim = true →
    .trusted claim ∈ s.log ∨ s.files.senderYes = true
  /-- A sender that waits for a receiver that skips its part finds `receiver_yes`. -/
  skipped : ∀ i, s.sender.awaits (session.claim i) = true → (s.receivers i).Skips →
    s.files.receiverYes = true

section Loop

variable (rest : List RuntimeFile) (claim : ReceiverClaim)

@[simp, grind =]
theorem clearNext_awaits : (clearNext rest).awaits claim = false := by
  cases rest <;> rfl

@[simp, grind =]
theorem clearNext_confirmed : (clearNext rest).confirmed = false := by
  cases rest <;> rfl

@[simp, grind =]
theorem clearNext_transfers : (clearNext rest).transfers claim = false := by
  cases rest <;> rfl

end Loop

theorem transfers_of_clearsYes {sender : Sender} {claim : ReceiverClaim}
    (clears : sender.clearsYes = true) : sender.transfers claim = false := by
  cases sender <;> simp_all [Sender.clearsYes, Sender.transfers]

section SenderSteps

variable {session : Session ι} {s : State ι} {action : SenderAction} {files : Files}
  {sender : Sender} {events : List Event}

/-- What the sender settles it trusts, rejects or has transferred. -/
theorem settles_before {claim : ReceiverClaim}
    (move : SenderMove session s.files s.sender action files sender events)
    (settled : Settles ⟨files, sender, s.receivers, s.log ++ events⟩ claim) :
    Settles s claim ∨
      (action = .step ∧ s.sender = .serving claim .lookup ∧ claim.receiverId ∈ s.files.trust) ∨
      (action = .answer false ∧ s.sender = .serving claim .prompt) ∨
      s.sender.transfers claim = true := by
  obtain ⟨files, sender, receivers, log⟩ := s
  simp only [Settles, List.mem_append] at *
  cases move with
  | serve move =>
    cases move with
    | trust known => grind
    | reject => grind
    | succeed | fail => grind [Sender.transfers]
    | _ => grind
  | _ => grind

/-- Only the removal at the head of the loop takes `sender_yes` away. -/
theorem senderYes_stays (move : SenderMove session s.files s.sender action files sender events)
    (present : s.files.senderYes = true) :
    files.senderYes = true ∨ action = .removed true ∧ s.sender.clearsYes = true := by
  obtain ⟨files, sender, receivers, log⟩ := s
  cases move with
  | clear file rest => cases file <;> simp_all [Files.remove, Sender.clearsYes]
  | serve move => cases move <;> simp_all
  | _ => simp_all

/-- The sender waits for a receiver once its user has typed yes. -/
theorem awaits_before {claim : ReceiverClaim}
    (move : SenderMove session s.files s.sender action files sender events)
    (awaits : sender.awaits claim = true) :
    files.receiverYes = s.files.receiverYes ∧
      (s.sender.awaits claim = true ∨
        action = .answer true ∧ s.sender = .serving claim .prompt) := by
  obtain ⟨files, sender, receivers, log⟩ := s
  cases move with
  | serve move => cases move <;> grind [Sender.awaits, loopHead]
  | _ => grind [Sender.awaits, loopHead]

/-- After the handshake and before the transfer `sender_yes` is there. -/
theorem confirmed_after (move : SenderMove session s.files s.sender action files sender events)
    (before : s.sender.confirmed = true → s.files.senderYes = true)
    (confirmed : sender.confirmed = true) : files.senderYes = true := by
  obtain ⟨files, sender, receivers, log⟩ := s
  cases move with
  | serve move => cases move <;> grind [Sender.confirmed, loopHead]
  | _ => grind [Sender.confirmed, loopHead]

/-- The sender comes to the transfer by its lookup or by the handshake. -/
theorem agreed_after {claim : ReceiverClaim}
    (move : SenderMove session s.files s.sender action files sender events)
    (confirmed : s.sender.confirmed = true → s.files.senderYes = true)
    (before : s.sender.transfers claim = true →
      .trusted claim ∈ s.log ∨ s.files.senderYes = true)
    (transfers : sender.transfers claim = true) :
    .trusted claim ∈ s.log ++ events ∨ files.senderYes = true := by
  obtain ⟨files, sender, receivers, log⟩ := s
  simp only [List.mem_append] at *
  cases move with
  | serve move => cases move <;> grind [Sender.confirmed, Sender.transfers, loopHead]
  | _ => grind [Sender.confirmed, Sender.transfers, loopHead]

end SenderSteps

section ReceiverSteps

variable {session : Session ι} {claim : ReceiverClaim} {files files' : Files} {r r' : Receiver}
  {action : ReceiverAction}

/-- A receiver waits once its user has typed yes. -/
theorem receiver_awaits (move : ReceiverMove session claim files r action files' r')
    (awaits : r'.Awaits) : r.Awaits ∨ action = .answer true := by
  cases move <;> grind [Receiver.Awaits, completionStep_pc]

/-- A receiver skips its part once it finds the sender trusted or its user does not type yes. -/
theorem receiver_skips (move : ReceiverMove session claim files r action files' r')
    (skips : r'.Skips) :
    r.Skips ∨ (action = .step ∧ r.pc = .lookup ∧ session.offer.senderId ∈ files.trust) ∨
      action = .answer false := by
  cases move <;> grind [Receiver.Skips]

/-- Receivers leave `sender_yes` alone and do not remove `receiver_yes`. -/
theorem receiver_files (move : ReceiverMove session claim files r action files' r') :
    files'.senderYes = files.senderYes ∧
      (files.receiverYes = true → files'.receiverYes = true) := by
  cases move <;> simp

end ReceiverSteps

variable [DecidableEq ι] {session : Session ι}

/-- **Every allowed step keeps the invariant.** -/
theorem unstuck_of_reach {s : State ι} (reach : Reach (machine session) (Meets session) s) :
    Unstuck session s := by
  apply holds_of_reach _ _ _ reach
  · intro s initial
    constructor
    · simp [Receiver.Awaits, initial.receivers]
    · simp [Sender.confirmed, initial.sender]
    · simp [Sender.transfers, initial.sender]
    · simp [Sender.awaits, initial.sender]
  · intro s action files sender events _ inv meets move
    constructor
    · intro i awaits settled
      have present : s.files.senderYes = true := by
        rcases settles_before move settled with before | ⟨rfl, here, known⟩ | ⟨rfl, here⟩ | here
        · exact inv.settled i awaits before
        · exact meets i here known awaits
        · exact meets i here awaits
        · rcases inv.agreed _ here with trusted | present
          · exact inv.settled i awaits (.inl trusted)
          · exact present
      rcases senderYes_stays move present with stays | ⟨rfl, clears⟩
      · exact stays
      · -- Clearing settles nothing, so the claim was settled before.
        rcases settles_before move settled with before | ⟨other, _⟩ | ⟨other, _⟩ | here
        · exact absurd before (meets clears i awaits)
        · cases other
        · cases other
        · simp [transfers_of_clearsYes clears] at here
    · exact confirmed_after move inv.confirmed
    · exact fun claim => agreed_after move inv.confirmed (inv.agreed claim)
    · intro i awaits skips
      obtain ⟨same, before | ⟨rfl, here⟩⟩ := awaits_before move awaits
      · rw [same]
        exact inv.skipped i before skips
      · rw [same]
        exact meets i here skips
  · intro s i action files r _ inv meets move
    obtain ⟨senderYes, receiverYes⟩ := receiver_files move
    constructor
    · rw [senderYes]
      apply (Function.forall_update_iff s.receivers fun j r =>
        r.Awaits → Settles s (session.claim j) → s.files.senderYes = true).mpr
      refine ⟨fun awaits settled => ?_, fun j _ => inv.settled j⟩
      rcases receiver_awaits move awaits with before | rfl
      · exact inv.settled i before settled
      · exact meets settled
    · rw [senderYes]
      exact inv.confirmed
    · rw [senderYes]
      exact inv.agreed
    · apply (Function.forall_update_iff s.receivers fun j r =>
        s.sender.awaits (session.claim j) = true → r.Skips → files.receiverYes = true).mpr
      refine ⟨fun awaits skips => ?_, fun j _ awaits skips =>
        receiverYes (inv.skipped j awaits skips)⟩
      apply receiverYes
      rcases receiver_skips move skips with before | ⟨rfl, here, known⟩ | rfl
      · exact inv.skipped i awaits before
      · exact meets here known awaits
      · exact meets awaits

/-! ### The result -/

/-- **The handshake ends**: where every step meets the other side, a receiver that waits without
`sender_yes` has a claim that the sender has neither rejected nor transferred, and the sender does not
wait without `receiver_yes` for a receiver that has ended after a no or has not asked its user. -/
theorem handshake_ends {s : State ι} (reach : Reach (machine session) (Meets session) s) (i : ι) :
    ((s.receivers i).pc = .waitYes → s.files.senderYes = false →
      .rejected (session.claim i) ∉ s.log ∧ ∀ ok, .finished (session.claim i) ok ∉ s.log) ∧
    (s.sender = .serving (session.claim i) .waitYes → s.files.receiverYes = false →
      ¬ ((s.receivers i).pc = .exited ∧ (s.receivers i).answer = some false) ∧
      (s.receivers i).trusted ≠ some true) := by
  have inv := unstuck_of_reach reach
  constructor
  · intro waits absent
    have unsettled : ¬ Settles s (session.claim i) := fun settled => by
      simpa [absent] using inv.settled i (.inr waits) settled
    simp only [Settles, not_or] at unsettled
    exact ⟨unsettled.2.1, fun ok => by cases ok <;> simp [unsettled]⟩
  · intro waits absent
    have plays : ¬ (s.receivers i).Skips := fun skips => by
      simpa [absent] using inv.skipped i (by simp [Sender.awaits, waits]) skips
    simp only [Receiver.Skips, not_or] at plays
    exact ⟨fun ⟨_, refused⟩ => plays.2 refused, plays.1⟩

/-- The receiver has typed yes and waits, the sender is at its prompt. -/
def sampleAsked : List (Action Bool) :=
  sampleOpening ++ [.receiver false .step, .receiver false .step, .receiver false (.answer true),
    .receiver false .step] ++ sampleTaking ++ [.sender .step]

/-- In a run where the receiver is the first to type yes, its claim is still open. -/
theorem handshake_ends_sample : ∃ s : State Bool, (s.receivers false).pc = .waitYes ∧
    .rejected (sampleSession.claim false) ∉ s.log ∧
    ∀ ok, .finished (sampleSession.claim false) ok ∉ s.log := by
  obtain ⟨s, reach, waits, absent⟩ : ∃ s, Reach (machine sampleSession) (Meets sampleSession) s ∧
      (s.receivers false).pc = .waitYes ∧ s.files.senderYes = false :=
    exists_reach_of_run (sampleStart_initial []) sampleAsked (by decide)
  exact ⟨s, waits, (handshake_ends reach false).1 waits absent⟩

/-- **Both waits stick**: in the first run the receiver types yes and the user of the sender does not;
in the second one the user of the receiver does not type yes, the receiver ends, and then the user of
the sender types yes. -/
theorem handshake_sticks :
    (∃ s, Reach (machine sampleSession) Anything s ∧ (s.receivers false).pc = .waitYes ∧
      s.files.senderYes = false ∧ .rejected (sampleSession.claim false) ∈ s.log) ∧
    ∃ s, Reach (machine sampleSession) Anything s ∧
      s.sender = .serving (sampleSession.claim false) .waitYes ∧ s.files.receiverYes = false ∧
      (s.receivers false).pc = .exited ∧ (s.receivers false).answer = some false := by
  constructor
  · exact exists_reach_of_run (sampleStart_initial [])
      (sampleAsked ++ [.sender (.answer false)]) (by decide)
  · exact exists_reach_of_run (sampleStart_initial [])
      (sampleOpening ++ [.receiver false .step, .receiver false .step,
        .receiver false (.answer false), .receiver false .step, .receiver false .step] ++
        sampleTaking ++ [.sender .step, .sender (.answer true), .sender .step]) (by decide)

end SendRs.Cli
