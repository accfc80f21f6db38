/-
**The registry of the signaling server.**

A connection remembers the last id that it has registered, and at its end the entry of that id is
removed, whoever has registered it since. So a client that reconnects is lost when its old connection
ends (`registration_removed`); and the other ids of a connection stay registered after its end, and
messages to them are dropped (`registration_dangles`).

* `Sheltered` is what the cleanups have to meet for the first: no entry of a connection that still
  reads is removed by another one. `registration_survives` is the result.
* `Tidy` is what the steps have to meet for the second: all entries of a connection that ends are
  under the id it remembers, and messages are sent to channels whose sender task runs.
  `registry_open` is the result.
-/

import Mathlib.Data.Fintype.Basic
import SendRs.Signaling.Moves

namespace SendRs.Signaling

open Machines

variable {ι : Type}

theorem lastRegister_cons {server server' : Server ι} {registered : String} {i : ι}
    (registers : server'.registers = (registered, i) :: server.registers) (peerId : String) :
    server'.lastRegister peerId =
      if registered = peerId then some i else server.lastRegister peerId := by
  by_cases same : registered = peerId <;> simp [Server.lastRegister, registers, same]

theorem lastRegister_same {server server' : Server ι}
    (registers : server'.registers = server.registers) (peerId : String) :
    server'.lastRegister peerId = server.lastRegister peerId := by
  rw [Server.lastRegister, registers, Server.lastRegister]

variable [DecidableEq ι] {codec : Codec}

/-! ### Registrations survive -/

/-- **What keeps a registration**: a connection does not remove the entry of another one that reads. -/
def Sheltered (server : Server ι) : ServerAction ι → Prop
  | .unregister i => ∀ peerId ∈ (server.connections i).registeredPeer, ∀ c ∈ server.peers peerId,
      c = i ∨ (server.connections c).place ≠ .reading
  | _ => True

instance (server : Server ι) (action : ServerAction ι) : Decidable (Sheltered server action) :=
  match action with
  | .unregister i => inferInstanceAs (Decidable
      (∀ peerId ∈ (server.connections i).registeredPeer, ∀ c ∈ server.peers peerId, _))
  | .accept _ | .receive .. | .abort _ | .transmit .. => .isTrue trivial

/-- What every state keeps. -/
structure Current (server : Server ι) : Prop where
  opened : ∀ peerId c, server.lastRegister peerId = some c →
    (server.connections c).place ≠ .unopened
  current : ∀ peerId c, server.lastRegister peerId = some c →
    (server.connections c).place = .reading → server.peers peerId = some c

/-- **Every allowed step keeps the invariant.** -/
theorem current_of_reach {server : Server ι}
    (reach : Reach (serverMachine codec) Sheltered server) : Current server := by
  apply Reach.invariant _ _ reach
  · intro server initial
    constructor <;> simp [Server.lastRegister, initial.registers]
  · intro server action server' inv sheltered step
    have move := serverMove_of_step step
    have opens : ∀ c, (server.connections c).place ≠ .unopened →
        (server'.connections c).place ≠ .unopened := by
      intro c opened
      have := place_after move c
      grind
    have reads : ∀ c, (server.connections c).place ≠ .unopened →
        (server'.connections c).place = .reading → (server.connections c).place = .reading := by
      intro c opened
      have := place_after move c
      grind
    rcases registry_after move with ⟨i, rfl, leaves, rfl⟩ |
      ⟨_, ⟨peers, registers⟩ | ⟨i, registered, reading, _, peers, registers⟩⟩
    · constructor
      · intro peerId c newest
        exact opens c (inv.opened peerId c newest)
      · intro peerId c newest still
        have reading := reads c (inv.opened peerId c newest) still
        have here := inv.current peerId c newest reading
        have kept : (server.connections i).registeredPeer ≠ some peerId := by
          intro remembered
          rcases sheltered peerId remembered c here with rfl | gone
          · simp [leaves] at reading
          · exact gone reading
        rw [unregister_peers, if_neg kept]
        exact here
    · constructor
      · intro peerId c newest
        rw [lastRegister_same registers] at newest
        exact opens c (inv.opened peerId c newest)
      · intro peerId c newest still
        rw [lastRegister_same registers] at newest
        rw [peers]
        exact inv.current peerId c newest (reads c (inv.opened peerId c newest) still)
    · constructor
      · intro peerId c newest
        rw [lastRegister_cons registers] at newest
        by_cases same : registered = peerId
        · obtain rfl : i = c := by simpa [same] using newest
          exact opens i (by simp [reading])
        · rw [if_neg same] at newest
          exact opens c (inv.opened peerId c newest)
      · intro peerId c newest still
        rw [lastRegister_cons registers] at newest
        rw [peers]
        by_cases same : registered = peerId
        · obtain rfl : i = c := by simpa [same] using newest
          simp [same]
        · rw [if_neg same] at newest
          rw [Function.update_of_ne (Ne.symm same)]
          exact inv.current peerId c newest (reads c (inv.opened peerId c newest) still)

/-- **A live registration survives**, where connections shelter those that read: the newest `Register`
of an id by a connection that is still in its loop stands. -/
theorem registration_survives {server : Server ι}
    (reach : Reach (serverMachine codec) Sheltered server) (peerId : String) (c : ι)
    (newest : server.lastRegister peerId = some c)
    (reads : (server.connections c).place = .reading) : server.peers peerId = some c :=
  (current_of_reach reach).current peerId c newest reads

/-- The client reconnects before its old connection is gone. -/
def sampleReconnect : List (ServerAction Bool) :=
  [.accept false, .receive false (saying (.register "p")), .accept true,
    .receive true (saying (.register "p")), .receive false .finished]

/-- The new connection is registered while the old one ends. -/
theorem registration_survives_sample : ∃ server : Server Bool,
    (server.connections false).place = .leaving ∧ server.peers "p" = some true := by
  obtain ⟨server, reach, ends, newest, reads⟩ : ∃ server,
      Reach (serverMachine jsonCodec) Sheltered server ∧
      (server.connections false).place = .leaving ∧ server.lastRegister "p" = some true ∧
      (server.connections true).place = .reading :=
    exists_reach_of_run sampleServer_initial sampleReconnect (by decide)
  exact ⟨server, ends, registration_survives reach "p" true newest reads⟩

/-- **A registration that is removed**: the end of the old connection removes the new one. -/
theorem registration_removed : ∃ server : Server Bool,
    Reach (serverMachine jsonCodec) Anything server ∧ server.lastRegister "p" = some true ∧
    (server.connections true).place = .reading ∧ server.peers "p" = none :=
  exists_reach_of_run sampleServer_initial (sampleReconnect ++ [.unregister false]) (by decide)

/-! ### Registrations do not dangle -/

/-- The channel that the answer to a message goes to, or the message itself. -/
def Server.channel (server : Server ι) (i : ι) (target : String) : ι := (server.peers target).getD i

/-- **What keeps the registry tidy**: a connection that ends has no entry under another id than the
one it remembers, and a message with a target is read only while the sender task runs of the channel
that it, or the answer to it, is put on. -/
def Tidy (codec : Codec) (server : Server ι) : ServerAction ι → Prop
  | .unregister i => ∀ entry ∈ server.registers, server.peers entry.1 = some i →
      (server.connections i).registeredPeer = some entry.1
  | .receive i incoming => ∀ message ∈ incoming.message codec, ∀ target ∈ message.targetPeer,
      (server.connections (server.channel i target)).senderTask = true
  | _ => True

instance (server : Server ι) (action : ServerAction ι) : Decidable (Tidy codec server action) :=
  match action with
  | .unregister _ => inferInstanceAs (Decidable (∀ entry ∈ server.registers, _ → _))
  | .receive i incoming => inferInstanceAs (Decidable
      (∀ message ∈ incoming.message codec, ∀ target ∈ message.targetPeer,
        (server.connections (server.channel i target)).senderTask = true))
  | .accept _ | .abort _ | .transmit .. => .isTrue trivial

/-- What every state keeps: every entry comes from a `Register` message, and is a connection that is
not removed yet. -/
structure Registered (server : Server ι) : Prop where
  known : ∀ peerId c, server.peers peerId = some c → ∃ entry ∈ server.registers, entry.1 = peerId
  live : ∀ peerId c, server.peers peerId = some c →
    (server.connections c).place = .reading ∨ (server.connections c).place = .leaving

/-- **Every allowed step keeps the invariant.** -/
theorem registered_of_reach {server : Server ι}
    (reach : Reach (serverMachine codec) (Tidy codec) server) : Registered server := by
  apply Reach.invariant _ _ reach
  · intro server initial
    constructor <;> simp [initial.peers]
  · intro server action server' inv tidy step
    have move := serverMove_of_step step
    rcases registry_after move with ⟨i, rfl, leaves, rfl⟩ |
      ⟨notEnd, ⟨peers, registers⟩ | ⟨i, registered, _, reading, peers, registers⟩⟩
    · constructor
      · intro peerId c found
        rw [unregister_peers] at found
        split_ifs at found
        exact inv.known peerId c found
      · intro peerId c found
        rw [unregister_peers] at found
        split_ifs at found with forgotten
        -- The entries of the connection that ends are all removed.
        have other : c ≠ i := by
          rintro rfl
          obtain ⟨entry, member, rfl⟩ := inv.known peerId c found
          exact forgotten (tidy entry member found)
        simpa [other] using inv.live peerId c found
    · constructor
      · rw [peers, registers]
        exact inv.known
      · intro peerId c found
        rw [peers] at found
        have place := place_after move c
        have live := inv.live peerId c found
        grind
    · constructor
      · intro peerId c found
        rw [registers]
        by_cases same : peerId = registered
        · exact ⟨_, List.mem_cons_self, same.symm⟩
        · rw [peers, Function.update_of_ne same] at found
          obtain ⟨entry, member, named⟩ := inv.known peerId c found
          exact ⟨entry, List.mem_cons_of_mem _ member, named⟩
      · intro peerId c found
        by_cases same : peerId = registered
        · obtain rfl : i = c := by simpa [peers, same] using found
          exact .inl reading
        · rw [peers, Function.update_of_ne same] at found
          have place := place_after move c
          have live := inv.live peerId c found
          grind

/-- **No registration dangles**, where the registry is kept tidy: every entry is a connection whose
task has not ended, and a message with a target is put on the channel of such a connection, or its
sender is told that the target is not connected. -/
theorem registry_open (encodes : ∀ message, (codec.encode message).isSome = true) {server : Server ι}
    (reach : Reach (serverMachine codec) (Tidy codec) server) :
    (∀ peerId c, server.peers peerId = some c → (server.connections c).place ≠ .unopened ∧
      (server.connections c).place ≠ .ended) ∧
    ∀ i incoming message target server', incoming.message codec = some message →
      message.targetPeer = some target → Tidy codec server (.receive i incoming) →
      serverStep codec server (.receive i incoming) = some server' →
      (∃ b payload, server.peers target = some b ∧ (server.connections b).place ≠ .ended ∧
        codec.encode message = some payload ∧
        (server'.connections b).queue =
          (server.connections b).queue ++ [⟨some i, .text payload⟩]) ∨
      server.peers target = none ∧ (server'.connections i).queue =
        (server.connections i).queue ++ [targetNotConnected codec target] := by
  have inv := registered_of_reach reach
  constructor
  · intro peerId c found
    rcases inv.live peerId c found with reading | leaving
    · simp [reading]
    · simp [leaving]
  · intro i incoming message target server' reads targeted tidy step
    have runs := tidy message reads target targeted
    obtain ⟨payload, encoded⟩ := Option.isSome_iff_exists.mp (encodes message)
    cases found : server.peers target with
    | none =>
      simp only [Server.channel, found, Option.getD_none] at runs
      exact .inr ⟨rfl, queue_of_missing step reads targeted found runs⟩
    | some b =>
      simp only [Server.channel, found, Option.getD_some] at runs
      refine .inl ⟨b, payload, rfl, ?_, encoded,
        queue_of_found step reads targeted found runs encoded⟩
      rcases inv.live target b found with reading | leaving
      · simp [reading]
      · simp [leaving]

/-- A peer is registered, and another client is connected. -/
def sampleRelay : List (ServerAction Bool) :=
  [.accept false, .receive false (saying (.register "a")), .accept true]

/-- The offer of the other client is put on the channel of the peer. -/
theorem registry_open_sample : ∃ server server' : Server Bool,
    serverStep jsonCodec server (.receive true (saying sampleOffer)) = some server' ∧
    server.peers "a" = some false ∧ (server.connections false).place ≠ .ended ∧
    ((∃ b payload, server.peers "a" = some b ∧ (server.connections b).place ≠ .ended ∧
        jsonCodec.encode sampleOffer = some payload ∧
        (server'.connections b).queue =
          (server.connections b).queue ++ [⟨some true, .text payload⟩]) ∨
      server.peers "a" = none ∧ (server'.connections true).queue =
        (server.connections true).queue ++ [targetNotConnected jsonCodec "a"]) := by
  obtain ⟨server, reach, found, steps, reads, tidy⟩ : ∃ server : Server Bool,
      Reach (serverMachine jsonCodec) (Tidy jsonCodec) server ∧ server.peers "a" = some false ∧
      (serverStep jsonCodec server (.receive true (saying sampleOffer))).isSome = true ∧
      (saying sampleOffer).message jsonCodec = some sampleOffer ∧
      Tidy jsonCodec server (.receive true (saying sampleOffer)) :=
    exists_reach_of_run sampleServer_initial sampleRelay (by decide +kernel)
  obtain ⟨server', step⟩ := Option.isSome_iff_exists.mp steps
  have result := registry_open (fun _ => rfl) reach
  exact ⟨server, server', step, found, (result.1 "a" false found).2,
    result.2 true _ sampleOffer "a" server' reads rfl tidy step⟩

/-- A client registers two ids and leaves; another client is connected. -/
def sampleTwoIds : List (ServerAction Bool) :=
  [.accept false, .receive false (saying (.register "a")), .receive false (saying (.register "b")),
    .receive false .finished, .unregister false, .abort false, .accept true]

/-- **A registration that dangles**: the first id stays registered after the end of its connection, and
an offer to it reaches nobody and is not answered. -/
theorem registration_dangles : ∃ server : Server Bool,
    Reach (serverMachine jsonCodec) Anything server ∧ server.peers "a" = some false ∧
    (server.connections false).place = .ended ∧
    ∃ server' ∈ serverStep jsonCodec server (.receive true (saying sampleOffer)),
      (server'.connections false).queue = [] ∧ (server'.connections true).queue = [] :=
  exists_reach_of_run sampleServer_initial sampleTwoIds (by decide +kernel)

end SendRs.Signaling
