/-
**Results that are lost.**

`state.json` holds one state for all claims. A receiver that has not read the result of its claim
before the sender writes about another claim never reads it (`result_lost`).

* `Receiver.waits` says that a receiver is in `wait_for_completion` or on its way to it.
* `Spares` is what the steps have to meet: the sender does not take the next claim while the receiver
  of a closed one waits.
* `result_kept`: in runs of such steps the state file does not carry another id than the claim of a
  receiver that waits for a result that was written.
-/

import SendRs.Cli.Completion

namespace SendRs.Cli

open Machines

variable {ι : Type}

/-- The receiver has written its claim and has not read its result. -/
def Receiver.waits (r : Receiver) : Bool :=
  match r.pc with
  | .lookup | .prompt | .confirming | .waitYes | .pairing | .savingPair _ | .completing => true
  | _ => false

/-- The result of the claim of the receiver was written, and the receiver has not read it. -/
def Due (session : Session ι) (s : State ι) (i : ι) : Prop :=
  (s.receivers i).waits = true ∧ .closed (session.claim i) ∈ s.log

instance (session : Session ι) (s : State ι) (i : ι) : Decidable (Due session s i) :=
  inferInstanceAs (Decidable (_ ∧ _))

/-- **What keeps the results**: the sender does not take a claim while the result of another one is
due. -/
def Spares (session : Session ι) (s : State ι) : Action ι → Prop
  | .sender .step => s.sender = .reading → ∀ claim ∈ s.files.receiver, ∀ i, Due session s i →
      session.claim i = claim
  | _ => True

instance [Fintype ι] (session : Session ι) (s : State ι) (a : Action ι) :
    Decidable (Spares session s a) :=
  match a with
  | .sender .step => inferInstanceAs (Decidable (_ → ∀ claim ∈ s.files.receiver, ∀ _, _ → _))
  | .sender (.removed _) | .sender (.answer _) | .sender (.progress ..) | .sender (.returned _)
  | .sender .stop | .receiver _ _ => .isTrue trivial

/-! ### The invariant -/

/-- What every state keeps. -/
structure Spared (session : Session ι) (s : State ι) : Prop where
  /-- The state file is about a claim whose result is due, or about none. -/
  state : ∀ i, Due session s i → ∀ state ∈ s.files.state,
    state.claimId = none ∨ state.claimId = some (session.claim i).claimId
  /-- The sender serves that claim or none. -/
  served : ∀ i, Due session s i → ∀ claim stage, s.sender = .serving claim stage →
    session.claim i = claim

variable {session : Session ι}

section SenderSteps

variable {files files' : Files} {sender sender' : Sender} {action : SenderAction}
  {events : List Event} {claim : ReceiverClaim}

/-- The sender closes the claim that it serves by writing its state. -/
theorem closed_writes (move : SenderMove session files sender action files' sender' events)
    (closed : .closed claim ∈ events) : (∃ stage, sender = .serving claim stage) ∧
      ∃ state, files'.state = some state ∧ state.claimId = some claim.claimId := by
  cases move with
  | serve move =>
    cases move with
    | tell => simp_all [rejectedState]
    | report outcome => cases outcome <;> simp_all [resultState]
    | _ => simp at closed
  | _ => simp at closed

/-- The sender serves the claim it has served, or the one it has just read. -/
theorem served_from {stage : Stage}
    (move : SenderMove session files sender action files' sender' events)
    (served : sender' = .serving claim stage) :
    (∃ stage, sender = .serving claim stage) ∨
      action = .step ∧ sender = .reading ∧ files.receiver = some claim := by
  cases move with
  | serve move => cases move <;> simp_all [loopHead_ne_serving]
  | _ => simp_all [loopHead_ne_serving, clearNext_ne_serving]

end SenderSteps

/-- A receiver waits from the write of its claim on. -/
theorem receiver_waits {claim : ReceiverClaim} {files files' : Files} {r r' : Receiver}
    {action : ReceiverAction} (move : ReceiverMove session claim files r action files' r')
    (waits : r'.waits = true) : r.waits = true ∨ r.pc = .claiming := by
  cases move with
  | look here => exact .inl (by simp [Receiver.waits, here])
  | _ => simp_all [Receiver.waits]

variable [DecidableEq ι]

/-- **Every allowed step keeps the invariant.** -/
theorem spared_of_reach {s : State ι} (reach : Reach (machine session) (Spares session) s) :
    Spared session s := by
  apply holds_of_reach _ _ _ reach
  · intro s initial
    have nothing : ∀ i, ¬ Due session s i := by simp [Due, initial.log]
    exact ⟨fun i due => absurd due (nothing i), fun i due => absurd due (nothing i)⟩
  · intro s action files sender events _ inv spares move
    have due_before : ∀ i, Due session ⟨files, sender, s.receivers, s.log ++ events⟩ i →
        Due session s i ∨ .closed (session.claim i) ∈ events := by
      intro i ⟨waits, closed⟩
      rcases List.mem_append.mp closed with before | now
      · exact .inl ⟨waits, before⟩
      · exact .inr now
    constructor
    · intro i due state present
      rcases due_before i due with before | now
      · rcases state_before move present with stays | nobody | ⟨claim, stage, served, about, _⟩
        · exact inv.state i before state stays
        · exact .inl nobody
        · rw [inv.served i before claim stage served]
          exact .inr about
      · obtain ⟨_, written, holds, about⟩ := closed_writes move now
        obtain rfl : written = state := Option.some.inj (holds.symm.trans present)
        exact .inr about
    · intro i due claim stage served
      rcases due_before i due with before | now
      · rcases served_from move served with ⟨stage, still⟩ | ⟨rfl, reads, onDisk⟩
        · exact inv.served i before claim stage still
        · exact spares reads claim onDisk i before
      · obtain ⟨⟨stage', serves⟩, _⟩ := closed_writes move now
        rcases served_from move served with ⟨stage, still⟩ | ⟨_, reads, _⟩
        · rw [serves] at still
          exact (Sender.serving.inj still).1
        · simp [serves] at reads
  · intro s i action files r before inv _ move
    have same := (outcome_before move).1
    have due_before : ∀ j, Due session
        ⟨files, s.sender, Function.update s.receivers i r, s.log⟩ j → Due session s j := by
      intro j ⟨waits, closed⟩
      by_cases this : j = i
      · subst this
        rcases receiver_waits move (by simpa using waits) with stays | unwritten
        · exact ⟨stays, closed⟩
        · exact absurd closed ((origins_of_reach before).unseen unwritten _ rfl)
      · exact ⟨by simpa [this] using waits, closed⟩
    constructor
    · rw [same]
      exact fun j due => inv.state j (due_before j due)
    · exact fun j due => inv.served j (due_before j due)

/-! ### The result -/

/-- **No result is lost**, where the sender spares the receivers: while the receiver of a closed claim
waits, the state file carries no other claim's id. -/
theorem result_kept {s : State ι} (reach : Reach (machine session) (Spares session) s) (i : ι)
    (waits : (s.receivers i).waits = true) (closed : .closed (session.claim i) ∈ s.log)
    (state : SessionState) (present : s.files.state = some state) (id : String)
    (about : state.claimId = some id) : id = (session.claim i).claimId := by
  rcases (spared_of_reach reach).state i ⟨waits, closed⟩ state present with nobody | mine
  · simp [nobody] at about
  · exact Option.some.inj (about.symm.trans mine)

/-- The first claim is served while its receiver does not look. -/
def sampleUnread : List (Action Bool) :=
  sampleOpening ++ [.receiver false .step, .receiver false .step] ++ sampleTaking ++ [.sender .step,
    .sender .step, .sender (.returned (.ok (3, 3))), .sender .step, .sender .step, .sender .step,
    .sender .step, .sender .step, .sender .step]

/-- As long as no other claim is taken the result is there. -/
theorem result_kept_sample : ∃ s : State Bool, (s.receivers false).waits = true ∧
    ∃ state, s.files.state = some state ∧ ∀ id, state.claimId = some id →
      id = (sampleSession.claim false).claimId := by
  obtain ⟨s, reach, waits, closed, present⟩ : ∃ s, Reach (machine sampleSession)
      (Spares sampleSession) s ∧ (s.receivers false).waits = true ∧
      .closed (sampleSession.claim false) ∈ s.log ∧
      s.files.state = some ⟨some "first", .completed, "transfer completed", 3, 3⟩ :=
    exists_reach_of_run (sampleStart_initial ["device"]) sampleUnread (by decide)
  exact ⟨s, waits, _, present, fun id about => result_kept reach false waits closed _ present id about⟩

/-- **A result that is lost**: the second receiver writes its claim, and a progress event of its
transfer overwrites the result of the first one. -/
theorem result_lost : ∃ s, Reach (machine sampleSession) Anything s ∧
    (s.receivers false).waits = true ∧ .closed (sampleSession.claim false) ∈ s.log ∧
    s.files.state = some ⟨some (sampleSession.claim true).claimId, .transferring, "transferring a", 1,
      3⟩ :=
  exists_reach_of_run (sampleStart_initial ["device"])
    (sampleUnread ++ [.receiver true .step] ++ sampleTaking ++
      [.sender .step, .sender .step, .sender (.progress true 1 3 "a")]) (by decide)

end SendRs.Cli
