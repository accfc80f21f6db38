/-
**Claims that are lost.**

`receiver.json` is one file for all receivers. The sender removes it at the head of its loop and after
it has read a claim, and a receiver overwrites what is there; so a claim may be gone before the sender
has seen it (`claim_lost`).

* `Sender.Listens` are the places from which the sender reads the next claim without removing one.
* `Waits` is what the steps have to meet: a receiver writes its claim while the sender listens, and
  over no claim that is still to be read.
* `claim_kept`: in runs of such steps every claim is on disk or was consumed.
-/

import SendRs.Cli.Origins

namespace SendRs.Cli

open Machines

variable {ι : Type}

/-- The sender reads the next claim before it removes `receiver.json` again, or has ended. -/
def Sender.listens : Sender → Bool
  | .clearing file rest | .removing file rest => (file :: rest).all (· ≠ .receiverClaim)
  | .polling | .reading | .exited => true
  | .starting | .serving .. => false

/-- **What keeps the claims**: a receiver writes its claim while the sender listens, and not over a
claim that the sender has not consumed. -/
def Waits (s : State ι) : Action ι → Prop
  | .receiver i .step => (s.receivers i).pc = .claiming → s.sender.listens = true ∧
      ∀ claim ∈ s.files.receiver, .consumed claim ∈ s.log
  | _ => True

instance (s : State ι) (a : Action ι) : Decidable (Waits s a) :=
  match a with
  | .receiver _ .step => inferInstanceAs (Decidable (_ → _ ∧ ∀ claim ∈ s.files.receiver, _))
  | .sender _ | .receiver _ (.answer _) | .receiver _ .stop => .isTrue trivial

/-! ### The invariant -/

/-- What every state keeps. -/
structure Kept (session : Session ι) (s : State ι) : Prop where
  /-- A claim that is written is on disk or consumed. -/
  kept : ∀ i, (s.receivers i).pc ≠ .claiming →
    s.files.receiver = some (session.claim i) ∨ .consumed (session.claim i) ∈ s.log
  /-- While the sender does not listen, the claim on disk is consumed. -/
  heard : ∀ claim ∈ s.files.receiver, .consumed claim ∉ s.log → s.sender.listens = true

/-- Clearing the other files, the sender listens. -/
@[grind =]
theorem clearNext_listens (rest : List RuntimeFile) :
    (clearNext rest).listens = true ↔ ∀ file ∈ rest, file ≠ .receiverClaim := by
  cases rest with
  | nil => simp [clearNext, Sender.listens]
  | cons file rest => simp [clearNext, Sender.listens]

variable {session : Session ι}

/-- A sender that listens goes on listening until it consumes the claim on disk. -/
theorem listens_after {files files' : Files} {sender sender' : Sender} {action : SenderAction}
    {events : List Event} (move : SenderMove session files sender action files' sender' events)
    (listens : sender.listens = true) :
    files'.receiver = files.receiver ∧
      (sender'.listens = true ∨ ∀ claim ∈ files.receiver, .consumed claim ∈ events) := by
  cases move with
  | clear file rest => cases file <;> grind [Sender.listens, Files.remove]
  | serve move => simp [Sender.listens] at listens
  | _ => grind [Sender.listens]

/-- The first step of a receiver writes its claim. -/
theorem receiver_writes {claim : ReceiverClaim} {files files' : Files} {r r' : Receiver}
    {action : ReceiverAction} (move : ReceiverMove session claim files r action files' r')
    (here : r.pc = .claiming) : action = .step ∧ files'.receiver = some claim := by
  cases move <;> simp_all

/-- The other steps leave the claim on disk alone. -/
theorem receiver_leaves {claim : ReceiverClaim} {files files' : Files} {r r' : Receiver}
    {action : ReceiverAction} (move : ReceiverMove session claim files r action files' r')
    (elsewhere : r.pc ≠ .claiming) : files'.receiver = files.receiver := by
  cases move <;> simp_all

variable [DecidableEq ι]

/-- **Every allowed step keeps the invariant.** -/
theorem kept_of_reach {s : State ι} (reach : Reach (machine session) Waits s) : Kept session s := by
  apply holds_of_reach _ _ _ reach
  · intro s initial
    constructor
    · simp [initial.receivers]
    · simp [initial.noClaim]
  · intro s action files sender events _ inv _ move
    constructor
    · intro i written
      rcases inv.kept i written with onDisk | consumed
      · by_cases listens : s.sender.listens = true
        · rw [(listens_after move listens).1]
          exact .inl onDisk
        · by_contra lost
          exact listens (inv.heard _ onDisk fun consumed =>
            lost (.inr (List.mem_append_left events consumed)))
      · exact .inr (List.mem_append_left events consumed)
    · intro claim onDisk unread
      have before := onDisk_before move onDisk
      have listens := inv.heard claim before fun consumed =>
        unread (List.mem_append_left events consumed)
      rcases (listens_after move listens).2 with still | consumes
      · exact still
      · exact absurd (List.mem_append_right s.log (consumes claim before)) unread
  · intro s i action files r _ inv waits move
    by_cases here : (s.receivers i).pc = .claiming
    · -- The claim that is overwritten was consumed.
      obtain ⟨rfl, onDisk⟩ := receiver_writes move here
      obtain ⟨listens, spent⟩ := waits here
      constructor
      · apply (Function.forall_update_iff s.receivers fun j r => r.pc ≠ .claiming →
          files.receiver = some (session.claim j) ∨ .consumed (session.claim j) ∈ s.log).mpr
        refine ⟨fun _ => .inl onDisk, fun j _ written => .inr ?_⟩
        rcases inv.kept j written with before | consumed
        · exact spent _ before
        · exact consumed
      · exact fun _ _ _ => listens
    · have onDisk := receiver_leaves move here
      constructor
      · apply (Function.forall_update_iff s.receivers fun j r => r.pc ≠ .claiming →
          files.receiver = some (session.claim j) ∨ .consumed (session.claim j) ∈ s.log).mpr
        rw [onDisk]
        exact ⟨fun _ => inv.kept i here, fun j _ => inv.kept j⟩
      · intro claim present
        exact inv.heard claim (onDisk ▸ present)

/-! ### The result -/

/-- **No claim is lost**, where the receivers wait for the sender: a claim that is written is still on
disk or was consumed. -/
theorem claim_kept {s : State ι} (reach : Reach (machine session) Waits s) (i : ι)
    (written : (s.receivers i).pc ≠ .claiming) :
    s.files.receiver = some (session.claim i) ∨ .consumed (session.claim i) ∈ s.log :=
  (kept_of_reach reach).kept i written

/-- The second receiver writes its claim when the first one is served and the sender listens again. -/
def sampleTurns : List (Action Bool) :=
  sampleOpening ++ [.receiver false .step] ++ sampleTaking ++ [.sender .step, .sender .step,
    .sender (.returned (.error "gone")), .sender .step, .sender .step, .sender .step,
    .sender .step, .receiver true .step]

/-- In that run the first claim was consumed and the second one is on disk. -/
theorem claim_kept_sample : ∃ s : State Bool,
    s.files.receiver = some (sampleSession.claim true) ∧
    (s.files.receiver = some (sampleSession.claim false) ∨
      .consumed (sampleSession.claim false) ∈ s.log) := by
  obtain ⟨s, reach, onDisk, written⟩ : ∃ s, Reach (machine sampleSession) Waits s ∧
      s.files.receiver = some (sampleSession.claim true) ∧ (s.receivers false).pc ≠ .claiming :=
    exists_reach_of_run (sampleStart_initial ["device"]) sampleTurns (by decide)
  exact ⟨s, onDisk, claim_kept reach false written⟩

/-- The receiver writes its claim before the sender has cleared the session directory. -/
def sampleHasty : List (Action Bool) :=
  [.receiver false .step, .sender .step, .sender .step, .sender (.removed true)]

/-- **A claim that is lost**: the first removal of the sender deletes it. -/
theorem claim_lost : ∃ s, Reach (machine sampleSession) Anything s ∧
    (s.receivers false).pc ≠ .claiming ∧
    s.files.receiver ≠ some (sampleSession.claim false) ∧
    .consumed (sampleSession.claim false) ∉ s.log :=
  exists_reach_of_run (sampleStart_initial []) sampleHasty (by decide)

end SendRs.Cli
