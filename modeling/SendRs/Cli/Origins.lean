/-
**Where claims come from.**

Every claim on disk, in the hands of the sender or in its log was written by a receiver
(`origins_of_reach`), whatever steps are taken. So a receiver that has not written its claim finds no
trace of it (`Origins.unseen`).
-/

import SendRs.Cli.Moves

namespace SendRs.Cli

open Machines

variable {ι : Type} {session : Session ι}

/-- A receiver has written the claim. -/
def Written (session : Session ι) (receivers : ι → Receiver) (claim : ReceiverClaim) : Prop :=
  ∃ i, (receivers i).pc ≠ .claiming ∧ session.claim i = claim

/-- The claims of a state were written by receivers. -/
structure Origins (session : Session ι) (s : State ι) : Prop where
  onDisk : ∀ claim, s.files.receiver = some claim → Written session s.receivers claim
  served : ∀ claim stage, s.sender = .serving claim stage → Written session s.receivers claim
  logged : ∀ event ∈ s.log, Written session s.receivers event.claim

/-- Different receivers write different claims. -/
theorem Session.claim_injective (session : Session ι) : Function.Injective session.claim :=
  fun _ _ same => session.distinct (congrArg ReceiverClaim.claimId same)

/-- A claim that is not written yet is not logged. -/
theorem Origins.unseen {s : State ι} {i : ι} (origins : Origins session s)
    (unwritten : (s.receivers i).pc = .claiming) (event : Event) (about : event.claim = session.claim i) :
    event ∉ s.log := by
  intro logged
  obtain ⟨j, written, same⟩ := origins.logged event logged
  rw [about] at same
  rw [session.claim_injective same] at written
  exact written unwritten

theorem clearNext_ne_serving (rest : List RuntimeFile) (claim : ReceiverClaim) (stage : Stage) :
    clearNext rest ≠ .serving claim stage := by
  cases rest <;> simp [clearNext]

theorem loopHead_ne_serving (claim : ReceiverClaim) (stage : Stage) :
    loopHead ≠ .serving claim stage :=
  clearNext_ne_serving _ _ _

section SenderSteps

variable {files files' : Files} {sender sender' : Sender} {action : SenderAction}
  {events : List Event}

/-- The sender does not write claims. -/
theorem onDisk_before {claim : ReceiverClaim}
    (move : SenderMove session files sender action files' sender' events)
    (onDisk : files'.receiver = some claim) : files.receiver = some claim := by
  cases move with
  | clear file rest => cases file <;> simp_all [Files.remove]
  | serve move => cases move <;> simp_all
  | _ => simp_all

/-- The sender serves claims from disk. -/
theorem served_before {claim : ReceiverClaim} {stage : Stage}
    (move : SenderMove session files sender action files' sender' events)
    (served : sender' = .serving claim stage) :
    files.receiver = some claim ∨ ∃ stage, sender = .serving claim stage := by
  cases move with
  | serve move => cases move <;> simp_all [loopHead_ne_serving]
  | _ => simp_all [loopHead_ne_serving, clearNext_ne_serving]

/-- The events of the sender are about claims from disk. -/
theorem events_about {event : Event}
    (move : SenderMove session files sender action files' sender' events)
    (member : event ∈ events) :
    files.receiver = some event.claim ∨ ∃ stage, sender = .serving event.claim stage := by
  cases move with
  | serve move => cases move <;> simp_all [Event.claim]
  | _ => simp_all [Event.claim]

end SenderSteps

/-- A claim on disk was there, or the receiver has written it. -/
theorem receiver_onDisk {claim claim' : ReceiverClaim} {files files' : Files} {r r' : Receiver}
    {action : ReceiverAction} (move : ReceiverMove session claim files r action files' r')
    (onDisk : files'.receiver = some claim') :
    files.receiver = some claim' ∨ claim' = claim ∧ r.pc = .claiming ∧ r'.pc = .lookup := by
  cases move <;> grind

/-- A receiver writes its claim once. -/
theorem receiver_written {claim : ReceiverClaim} {files files' : Files} {r r' : Receiver}
    {action : ReceiverAction} (move : ReceiverMove session claim files r action files' r')
    (written : r.pc ≠ .claiming) : r'.pc ≠ .claiming := by
  cases move <;> grind [completionStep_pc]

variable [DecidableEq ι]

/-- What is written stays written. -/
theorem Written.update {receivers : ι → Receiver} {i : ι} {r : Receiver} {claim : ReceiverClaim}
    (stays : (receivers i).pc ≠ .claiming → r.pc ≠ .claiming)
    (written : Written session receivers claim) :
    Written session (Function.update receivers i r) claim := by
  obtain ⟨j, before, same⟩ := written
  refine ⟨j, ?_, same⟩
  by_cases this : j = i
  · subst this
    simpa using stays before
  · rwa [Function.update_of_ne this]

/-- **Claims come from receivers**, in every state reached. -/
theorem origins_of_reach {allowed : State ι → Action ι → Prop} {s : State ι}
    (reach : Reach (machine session) allowed s) : Origins session s := by
  apply holds_of_reach _ _ _ reach
  · intro s initial
    constructor
    · simp [initial.noClaim]
    · simp [initial.sender]
    · simp [initial.log]
  · intro s action files sender events _ inv _ move
    have source : ∀ claim, s.files.receiver = some claim ∨ (∃ stage, s.sender = .serving claim stage) →
        Written session s.receivers claim := by
      rintro claim (onDisk | ⟨stage, served⟩)
      · exact inv.onDisk claim onDisk
      · exact inv.served claim stage served
    constructor
    · exact fun claim onDisk => inv.onDisk claim (onDisk_before move onDisk)
    · exact fun claim stage served => source claim (served_before move served)
    · intro event member
      rcases List.mem_append.mp member with before | now
      · exact inv.logged event before
      · exact source _ (events_about move now)
  · intro s i action files r _ inv _ move
    have stays : ∀ claim, Written session s.receivers claim →
        Written session (Function.update s.receivers i r) claim :=
      fun claim => Written.update (receiver_written move)
    constructor
    · intro claim onDisk
      rcases receiver_onDisk move onDisk with before | ⟨rfl, _, now⟩
      · exact stays claim (inv.onDisk claim before)
      · exact ⟨i, by simp [now], rfl⟩
    · exact fun claim stage served => stays claim (inv.served claim stage served)
    · exact fun event member => stays _ (inv.logged event member)

end SendRs.Cli
