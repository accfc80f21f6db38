/-
**Whom a session trusts.**

The sender and the receivers of a session load the trust store, add to it and save it, and so undo what
others have saved in between. Still, in every run, whoever was trusted at the start stays trusted, and
whoever is trusted in the end was so at the start, or is a receiver that the user of the sender has
approved, or is the sender, when the user of a receiver has approved it (`trusting_of_run`).
-/

import SendRs.Cli.Consent

namespace SendRs.Cli

open Machines

variable {ι : Type}

/-- There is a reason to trust a peer: it was trusted at the start, or somebody has typed yes. -/
def Vouched (session : Session ι) (peers : List String) (log : List Event) (receivers : ι → Receiver)
    (peerId : String) : Prop :=
  peerId ∈ peers ∨ (∃ claim, .approved claim ∈ log ∧ claim.receiverId = peerId) ∨
    peerId = session.offer.senderId ∧ ∃ i, (receivers i).answer = some true

/-- The stages between the approval of a receiver and the save of its pairing. -/
def Stage.pairs : Stage → Bool
  | .confirming | .waitYes | .pairing | .savingPair _ => true
  | _ => false

/-- The same of a receiver. -/
def ReceiverPc.pairs : ReceiverPc → Bool
  | .confirming | .waitYes | .pairing | .savingPair _ => true
  | _ => false

/-- Everybody in a store is vouched for, and nobody of the start is missing. -/
structure Sincere (session : Session ι) (peers : List String) (s : State ι) (store : List String) :
    Prop where
  kept : ∀ id ∈ peers, id ∈ store
  vouched : ∀ id ∈ store, Vouched session peers s.log s.receivers id

/-- What every state keeps: the stores are sincere, also those that a process is about to save, and who
is about to pair has an approval. -/
structure Trusting (session : Session ι) (peers : List String) (s : State ι) : Prop where
  inOrder : ∀ i, (s.receivers i).InOrder
  trust : Sincere session peers s s.files.trust
  approved : ∀ claim stage, s.sender = .serving claim stage → stage.pairs = true → .approved claim ∈ s.log
  loaded : ∀ claim store, s.sender = .serving claim (.savingPair store) → Sincere session peers s store
  answered : ∀ i, (s.receivers i).pc.pairs = true → (s.receivers i).answer = some true
  loadedBy : ∀ i store, (s.receivers i).pc = .savingPair store → Sincere session peers s store

/-- Reasons last: the log grows, and answers are not taken back. -/
theorem Sincere.later {session : Session ι} {peers store : List String} {s s' : State ι}
    (sincere : Sincere session peers s store) (log : ∀ event ∈ s.log, event ∈ s'.log)
    (answers : ∀ i, (s.receivers i).answer = some true → (s'.receivers i).answer = some true) :
    Sincere session peers s' store := by
  refine ⟨sincere.kept, fun id member => ?_⟩
  rcases sincere.vouched id member with before | ⟨claim, approved, same⟩ | ⟨same, i, answered⟩
  · exact Or.inl before
  · exact Or.inr (Or.inl ⟨claim, log _ approved, same⟩)
  · exact Or.inr (Or.inr ⟨same, i, answers i answered⟩)

/-- A store with one more peer that is vouched for. -/
theorem Sincere.insert {session : Session ι} {peers store : List String} {s : State ι} {peerId : String}
    (sincere : Sincere session peers s store) (vouched : Vouched session peers s.log s.receivers peerId) :
    Sincere session peers s (store.insert peerId) := by
  refine ⟨fun id member => List.mem_insert_of_mem (sincere.kept id member), fun id member => ?_⟩
  rcases List.mem_insert_iff.mp member with rfl | member
  · exact vouched
  · exact sincere.vouched id member

theorem clearNext_ne_pairs {rest : List RuntimeFile} {claim : ReceiverClaim} {stage : Stage} :
    clearNext rest ≠ .serving claim stage := by
  cases rest <;> exact fun same => nomatch same

section Moves

variable {session : Session ι} {files files' : Files}

/-- The sender pairs what it has an approval for. -/
theorem pairs_after {sender sender' : Sender} {action : SenderAction} {events log : List Event}
    (move : SenderMove session files sender action files' sender' events)
    (before : ∀ claim stage, sender = .serving claim stage → stage.pairs = true → .approved claim ∈ log)
    {claim : ReceiverClaim} {stage : Stage} (here : sender' = .serving claim stage)
    (pairs : stage.pairs = true) : .approved claim ∈ log ++ events := by
  cases move with
  | serve move =>
    cases move with
    | approve => grind
    | _ => grind [Stage.pairs, loopHead, clearNext_ne_pairs]
  | _ => grind [Stage.pairs, loopHead, clearNext_ne_pairs]

/-- What the sender has loaded is the store. -/
theorem loaded_now {sender sender' : Sender} {action : SenderAction} {events : List Event}
    (move : SenderMove session files sender action files' sender' events) {claim : ReceiverClaim}
    {store : List String} (here : sender' = .serving claim (.savingPair store)) : store = files.trust := by
  cases move with
  | serve move => cases move <;> grind [loopHead, clearNext_ne_pairs]
  | _ => grind [loopHead, clearNext_ne_pairs]

/-- The sender saves what it has loaded, with the receiver. -/
theorem trust_after {sender sender' : Sender} {action : SenderAction} {events : List Event}
    (move : SenderMove session files sender action files' sender' events) :
    files'.trust = files.trust ∨ ∃ claim store, sender = .serving claim (.savingPair store) ∧
      files'.trust = store.insert claim.receiverId := by
  cases move with
  | serve move =>
    cases move with
    | savePair store => exact Or.inr ⟨_, store, rfl, rfl⟩
    | _ => exact Or.inl rfl
  | clear file rest => cases file <;> exact Or.inl rfl
  | _ => exact Or.inl rfl

variable {claim : ReceiverClaim} {r r' : Receiver} {action : ReceiverAction}

/-- A receiver pairs the sender when its user has typed yes. -/
theorem answered_after (move : ReceiverMove session claim files r action files' r')
    (before : r.pc.pairs = true → r.answer = some true) (pairs : r'.pc.pairs = true) :
    r'.answer = some true := by
  cases move with
  | look here =>
    rcases completionStep_pc session.offer claim r files.state with same | same | ⟨entry, same⟩ <;>
      simp [same, here, ReceiverPc.pairs] at pairs
  | _ => grind [ReceiverPc.pairs]

/-- An answer is not taken back. -/
theorem answer_stays (move : ReceiverMove session claim files r action files' r') (inOrder : r.InOrder)
    (answered : r.answer = some true) : r'.answer = some true := by
  cases move with
  | refuse here => simp [(inOrder.asked here).2] at answered
  | approve here => rfl
  | look here => rwa [completionStep_answer]
  | _ => exact answered

theorem loadedBy_now (move : ReceiverMove session claim files r action files' r') {store : List String}
    (here : r'.pc = .savingPair store) : store = files.trust := by
  cases move with
  | look at_ =>
    rcases completionStep_pc session.offer claim r files.state with same | same | ⟨entry, same⟩ <;>
      simp [same, at_] at here
  | _ => grind

/-- A receiver saves what it has loaded, with the sender. -/
theorem receiver_trust_after (move : ReceiverMove session claim files r action files' r') :
    files'.trust = files.trust ∨ ∃ store, r.pc = .savingPair store ∧
      files'.trust = store.insert session.offer.senderId := by
  cases move with
  | savePair store here => exact Or.inr ⟨store, here, rfl⟩
  | _ => exact Or.inl rfl

end Moves

/-! ### The invariant -/

section Run

variable [DecidableEq ι] {session : Session ι} {peers : List String} {s s' : State ι}

/-- **Every step keeps the invariant.** -/
theorem trusting_after {a : Action ι} (step : (machine session).step s a = some s')
    (before : Trusting session peers s) : Trusting session peers s' := by
  obtain ⟨action, files, sender, events, rfl, move, rfl⟩ | ⟨i, action, files, r, rfl, move, rfl⟩ :=
    machine_step step
  · have later {store : List String} (sincere : Sincere session peers s store) :
        Sincere session peers ⟨files, sender, s.receivers, s.log ++ events⟩ store :=
      sincere.later (fun _ member => List.mem_append_left _ member) fun _ answered => answered
    refine ⟨before.inOrder, ?_, fun claim stage here pairs => pairs_after move before.approved here pairs,
      fun claim store here => ?_, before.answered, fun i store here => later (before.loadedBy i store here)⟩
    · show Sincere session peers _ files.trust
      rcases trust_after move with same | ⟨claim, store, here, saved⟩
      · rw [same]
        exact later before.trust
      · rw [saved]
        refine later ((before.loaded claim store here).insert ?_)
        exact Or.inr (Or.inl ⟨claim, before.approved claim _ here rfl, rfl⟩)
    · rw [loaded_now move here]
      exact later before.trust
  · have answers (j : ι) (answered : (s.receivers j).answer = some true) :
        (Function.update s.receivers i r j).answer = some true := by
      by_cases same : j = i
      · subst same
        rw [Function.update_self]
        exact answer_stays move (before.inOrder j) answered
      · rw [Function.update_of_ne same]
        exact answered
    have later {store : List String} (sincere : Sincere session peers s store) :
        Sincere session peers ⟨files, s.sender, Function.update s.receivers i r, s.log⟩ store :=
      sincere.later (fun _ member => member) answers
    refine ⟨fun j => ?_, ?_, before.approved, fun claim store here => later (before.loaded claim store here),
      fun j => ?_, fun j => ?_⟩
    · by_cases same : j = i
      · subst same
        simp only [Function.update_self]
        exact inOrder_after move (before.inOrder j)
      · simp only [Function.update_of_ne same]
        exact before.inOrder j
    · show Sincere session peers _ files.trust
      rcases receiver_trust_after move with same | ⟨store, here, saved⟩
      · rw [same]
        exact later before.trust
      · rw [saved]
        have pairs : (s.receivers i).pc.pairs = true := by
          rw [here]
          rfl
        refine later ((before.loadedBy i store here).insert ?_)
        exact Or.inr (Or.inr ⟨rfl, i, before.answered i pairs⟩)
    · by_cases same : j = i
      · subst same
        simp only [Function.update_self]
        exact answered_after move (before.answered j)
      · simp only [Function.update_of_ne same]
        exact before.answered j
    · by_cases same : j = i
      · subst same
        simp only [Function.update_self]
        intro store here
        rw [loadedBy_now move here]
        exact later before.trust
      · simp only [Function.update_of_ne same]
        exact fun store here => later (before.loadedBy j store here)

omit [DecidableEq ι] in
theorem trusting_start (initial : Initial s) : Trusting session s.files.trust s where
  inOrder i := by
    rw [initial.receivers]
    exact ⟨fun _ => ⟨rfl, rfl⟩, fun here => nomatch here⟩
  trust := ⟨fun _ member => member, fun _ member => Or.inl member⟩
  approved claim stage here := by
    rw [initial.sender] at here
    cases here
  loaded claim store here := by
    rw [initial.sender] at here
    cases here
  answered i pairs := by
    rw [initial.receivers] at pairs
    cases pairs
  loadedBy i store here := by
    rw [initial.receivers] at here
    cases here

/-- **Nobody is trusted without a reason, and nobody is forgotten.** -/
theorem trusting_of_run {actions : List (Action ι)} (initial : Initial s)
    (ends : (machine session).run Anything s actions = some s') : Trusting session s.files.trust s' :=
  run_keeps (P := Trusting session s.files.trust) (fun _ _ _ step before => trusting_after step before) actions ends (trusting_start initial)

end Run

end SendRs.Cli
