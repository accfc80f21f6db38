/-
**Who receives what.**

A client may register any id, and may send anything to anybody. What it receives is nevertheless due
to it (`deliveries_due`): the messages of other clients were sent, as they are, to an id that the
receiver has registered; and the errors of the server answer messages that the receiver has sent
itself, each at most once and in the order of the messages.

* `pending` is what a client has received, and what is on its way to it. The moves of clients only
  take from it (`pending_client`), and a move of the server adds at most what it has put on the channel
  of the client (`pending_server`), which is `New`.
* `Deliverable` is the invariant of the network.
-/

import SendRs.Signaling.Relay

namespace SendRs.Signaling

open Machines

variable {ι : Type} {codec : Codec}

/-- The answer to a message whose target is not connected. -/
def SignalMessage.refusal (message : SignalMessage) : Option SignalMessage :=
  message.targetPeer.map fun target => .error ("target peer not connected: " ++ target)

/-- The messages in the packets on the way to a client, with their origins. -/
def carried (codec : Codec) (packets : List (Packet ι)) : List (Option ι × SignalMessage) :=
  packets.filterMap fun packet =>
    (packet.frame.reads codec).map fun message => (packet.origin, message)

/-- What a client has received, and what is on its way to it. -/
def pending (codec : Codec) (client : Client ι) (down queue : List (Packet ι)) :
    List (Option ι × SignalMessage) :=
  client.received ++ client.inbound ++ carried codec (down ++ queue)

/-- The messages that do not come from a connection. -/
def fromServer (items : List (Option ι × SignalMessage)) : List SignalMessage :=
  (items.filter fun item => item.1 = none).map Prod.snd

theorem fromServer_append (items more : List (Option ι × SignalMessage)) :
    fromServer (items ++ more) = fromServer items ++ fromServer more := by
  simp [fromServer]

theorem fromServer_sublist {items more : List (Option ι × SignalMessage)} (kept : items.Sublist more) :
    (fromServer items).Sublist (fromServer more) :=
  (kept.filter _).map _

theorem carried_append (packets more : List (Packet ι)) :
    carried codec (packets ++ more) = carried codec packets ++ carried codec more :=
  List.filterMap_append

theorem carried_silent {packet : Packet ι} (silent : packet.frame.reads codec = none) :
    carried codec [packet] = [] := by
  simp [carried, silent]

theorem carried_of_reads {packet : Packet ι} {message : SignalMessage}
    (reads : packet.frame.reads codec = some message) :
    carried codec [packet] = [(packet.origin, message)] := by
  simp [carried, reads]

/-- Frames of the library carry no message. -/
theorem control_empty {frame : Frame} (control : frame.isControl = true) :
    frame.signal codec = none ∧ frame.reads codec = none := by
  cases frame with
  | text | binary => cases control
  | ping | pong | close => exact ⟨rfl, rfl⟩

/-- The text of an error is read back. -/
theorem errorPacket_reads (faithful : codec.Faithful) (text fallback : String) :
    (errorPacket codec text fallback : Packet ι).frame.reads codec = some (.error text) := by
  obtain ⟨written, encoded⟩ := Option.isSome_iff_exists.mp (faithful.encodes (.error text))
  simp [errorPacket, Frame.reads, encoded, faithful.decodes _ _ encoded, Except.toOption]

/-! ### A move of a client -/

section Client

variable {peerId : String} {client client' : Client ι} {up up' : List Frame}
  {down down' : List (Packet ι)}

/-- The reader task adds the message of its packet to the inbound queue, or nothing. -/
theorem inbound_of_read (client : Client ι) (packet : Packet ι) :
    (client.read codec packet).inbound.Sublist (client.inbound ++ carried codec [packet]) := by
  unfold Client.read
  cases reads : packet.frame.reads codec with
  | none =>
    simp only [apply_ite Client.inbound, ite_self]
    exact List.sublist_append_left _ _
  | some message =>
    rw [carried_of_reads reads]
    by_cases dropped : client.dropped = true
    · simp [dropped]
    · simp [dropped]

/-- **A client** only takes from what is pending. -/
theorem pending_client (move : ClientMove codec peerId client up down client' up' down')
    (queue : List (Packet ι)) :
    (pending codec client' down' queue).Sublist (pending codec client down queue) := by
  cases move with
  | recv item rest next =>
    rw [pending, pending, next]
    simp
  | drop connected =>
    refine List.Sublist.append_right ?_ _
    simp
  | read packet rest next =>
    obtain ⟨_, _, _, _, received⟩ := @read_sends _ codec client packet
    have first : carried codec (packet :: down' ++ queue) =
        carried codec [packet] ++ carried codec (down' ++ queue) := carried_append [packet] _
    rw [pending, pending, received, next, first, List.append_assoc, List.append_assoc,
      ← List.append_assoc client.inbound]
    exact ((inbound_of_read client packet).append_right _).append_left _
  | controlDown frame control =>
    rw [pending, pending, carried_append, carried_append, carried_append,
      carried_silent (control_empty control).2, List.append_nil]
  | _ => exact List.Sublist.refl _

/-- A client writes what the server can read. -/
theorem valid_client (faithful : codec.Faithful)
    (valid : ∀ frame ∈ up, ∀ err, frame.signal codec ≠ some (.error err))
    (move : ClientMove codec peerId client up down client' up' down') :
    ∀ frame ∈ up', ∀ err, frame.signal codec ≠ some (.error err) := by
  have writes : ∀ frame : Frame, (∀ err, frame.signal codec ≠ some (.error err)) →
      ∀ frame' ∈ up ++ [frame], ∀ err, frame'.signal codec ≠ some (.error err) := by
    intro frame new frame' member
    rcases List.mem_append.mp member with old | last
    · exact valid frame' old
    · rw [List.mem_singleton.mp last]
      exact new
  cases move with
  | write message rest text runs next encoded =>
    apply writes
    simp [Frame.signal, faithful.decodes message text encoded]
  | closeFrame ends =>
    apply writes
    simp [Frame.signal]
  | controlUp frame control =>
    apply writes
    simp [(control_empty control).1]
  | _ => exact valid

end Client

variable [DecidableEq ι]

/-! ### A move of the server -/

section ServerMoves

variable {server server' : Server ι} {action : ServerAction ι}

/-- What was heard stays heard. -/
theorem heard_grows (move : ServerMove codec server action server') (a : ι) :
    server.heard a <+: server'.heard a := by
  rw [heard_after move]
  exact List.prefix_append _ _

/-- An id is registered by a `Register` message. -/
theorem registered_after (move : ServerMove codec server action server')
    (registered : ∀ target b, server.peers target = some b → .register target ∈ server.heard b)
    (target : String) (b : ι) (found : server'.peers target = some b) :
    .register target ∈ server'.heard b := by
  have stays : server.peers target = some b → .register target ∈ server'.heard b :=
    fun found => (heard_grows move b).subset (registered target b found)
  cases move with
  | register i incoming peerId reads signal =>
    by_cases same : target = peerId
    · obtain rfl : i = b := by simpa [Server.register, same] using found
      subst same
      show _ ∈ (server.hear i (.register target)).heard i
      simp
    · exact stays (by simpa [Server.register, Server.hear, same] using found)
  | unregister i leaves =>
    rw [unregister_peers] at found
    split_ifs at found
    exact stays found
  | _ => exact stays found

/-- What a move of the server puts on a channel. -/
inductive New (server server' : Server ι) (b : ι) : List (Option ι × SignalMessage) → Prop
  | nothing : New server server' b []
  /-- A message that was heard, to an id of the connection. -/
  | relayed (i : ι) (message : SignalMessage) (target : String) (heard : message ∈ server'.heard i)
      (targeted : message.targetPeer = some target) (found : server.peers target = some b) :
      New server server' b [(some i, message)]
  /-- The answer to a message that was just heard from the connection. -/
  | refused (message answer : SignalMessage) (heard : server'.heard b = server.heard b ++ [message])
      (answers : message.refusal = some answer) : New server server' b [(none, answer)]

omit [DecidableEq ι] in
theorem carried_push (connection : Connection ι) (packet : Packet ι) :
    (carried codec (connection.push packet).queue).Sublist
      (carried codec connection.queue ++ carried codec [packet]) := by
  unfold Connection.push
  split
  · rw [carried_append]
  · exact List.sublist_append_left _ _

/-- **The server** puts on a channel what is new, where what it reads is valid. -/
theorem carried_after (faithful : codec.Faithful) (move : ServerMove codec server action server')
    (valid : ∀ i incoming, action = .receive i incoming →
      ∀ err, incoming.signal codec ≠ some (.error err)) (b : ι) :
    ∃ new, New server server' b new ∧ (carried codec (server'.connections b).queue).Sublist
      (carried codec (server.connections b).queue ++ new) := by
  have quiet : (server'.connections b).queue.Sublist (server.connections b).queue →
      ∃ new, New server server' b new ∧ (carried codec (server'.connections b).queue).Sublist
        (carried codec (server.connections b).queue ++ new) := by
    intro kept
    refine ⟨[], .nothing, ?_⟩
    rw [List.append_nil]
    exact kept.filterMap _
  cases move with
  | forward i b' incoming message target payload reads signal targeted found encoded =>
    by_cases same : b = b'
    · subst same
      have isNew : carried codec [⟨some i, .text payload⟩] = [(some i, message)] := by
        simp [carried, Frame.reads, faithful.decodes message payload encoded, Except.toOption]
      refine ⟨_, .relayed i message target ?_ targeted found, ?_⟩
      · show message ∈ (server.hear i message).heard i
        simp
      · rw [forward_connections, if_pos rfl, ← isNew]
        exact carried_push _ _
    · exact quiet (by simp [same])
  | answer i incoming message target reads signal targeted missing =>
    by_cases same : b = i
    · subst same
      have isNew : carried codec [(targetNotConnected codec target : Packet ι)] =
          [(none, .error ("target peer not connected: " ++ target))] :=
        carried_of_reads (errorPacket_reads faithful _ _)
      refine ⟨_, .refused message _ ?_ (congrArg (Option.map _) targeted), ?_⟩
      · simp
      · rw [update_connections, if_pos rfl, ← isNew]
        exact carried_push _ _
    · exact quiet (by simp [same])
  | refuse i incoming err reads invalid => exact absurd invalid (valid i incoming rfl err)
  | transmit i packet rest next =>
    apply quiet
    by_cases same : b = i
    · subst same
      simp [next]
    · simp [same]
  | accept i | leave i | register i | unregister i | abort i | breaks i =>
    apply quiet
    by_cases same : b = i <;> simp [same, Connection.mute]
  | skip | ignore | drop => exact quiet (List.Sublist.refl _)

variable {net : Network ι} {up : ι → List Frame} {down : ι → List (Packet ι)}

/-- What leaves a channel is on the link. -/
theorem pending_server (faithful : codec.Faithful) (move : ServerMove codec net.server action server')
    (linked : Linked codec net action up down)
    (valid : ∀ i incoming, action = .receive i incoming →
      ∀ err, incoming.signal codec ≠ some (.error err)) (b : ι) :
    ∃ new, New net.server server' b new ∧
      (pending codec (net.clients b) (down b) (server'.connections b).queue).Sublist
        (pending codec (net.clients b) (net.down b) (net.server.connections b).queue ++ new) := by
  have unlinked : ∃ new, New net.server server' b new ∧
      (pending codec (net.clients b) (net.down b) (server'.connections b).queue).Sublist
        (pending codec (net.clients b) (net.down b) (net.server.connections b).queue ++ new) := by
    obtain ⟨new, isNew, kept⟩ := carried_after faithful move valid b
    have later := kept.append_left
      ((net.clients b).received ++ (net.clients b).inbound ++ carried codec (net.down b))
    exact ⟨new, isNew, by simpa only [pending, carried_append, List.append_assoc] using later⟩
  cases linked with
  | put i packet rest next =>
    by_cases same : b = i
    · subst same
      refine ⟨[], .nothing, ?_⟩
      simp [pending, queue_of_transmit move next, next]
    · rw [Function.update_of_ne same]
      exact unlinked
  | take | quiet => exact unlinked

end ServerMoves

/-! ### The network -/

/-- The way of a message from a connection: it was heard, and is for an id of the receiver. -/
def Relayed (server : Server ι) (b a : ι) (message : SignalMessage) : Prop :=
  message ∈ server.heard a ∧
    ∃ target, message.targetPeer = some target ∧ .register target ∈ server.heard b

theorem Relayed.after {server server' : Server ι} {action : ServerAction ι} {a b : ι}
    {message : SignalMessage} (relayed : Relayed server b a message)
    (move : ServerMove codec server action server') : Relayed server' b a message := by
  obtain ⟨heard, target, targeted, registered⟩ := relayed
  exact ⟨(heard_grows move a).subset heard, target, targeted, (heard_grows move b).subset registered⟩

/-- Everything that is pending is due. -/
structure Deliverable (codec : Codec) (net : Network ι) : Prop where
  valid : ∀ i, ∀ frame ∈ net.up i, ∀ err, frame.signal codec ≠ some (.error err)
  registered : ∀ target b, net.server.peers target = some b → .register target ∈ net.server.heard b
  relayed : ∀ b a message, (some a, message) ∈ pending codec (net.clients b) (net.down b)
    (net.server.connections b).queue → Relayed net.server b a message
  refused : ∀ b, (fromServer (pending codec (net.clients b) (net.down b)
    (net.server.connections b).queue)).Sublist
      ((net.server.heard b).filterMap SignalMessage.refusal)

/-- A move of a client keeps the invariant. -/
theorem Deliverable.client {ids : ι → String} {net net' : Network ι} (faithful : codec.Faithful)
    (inv : Deliverable codec net) (moves : ByClient codec ids net net') : Deliverable codec net' := by
  obtain ⟨i, client, up, down, move, rfl⟩ := moves
  refine ⟨fun j => ?_, inv.registered, fun b => ?_, fun b => ?_⟩
  · by_cases same : j = i
    · subst same
      simpa using valid_client faithful (inv.valid j) move
    · simpa [same] using inv.valid j
  · by_cases same : b = i
    · subst same
      intro a message member
      refine inv.relayed b a message ((pending_client move _).subset ?_)
      simpa using member
    · simpa [same] using inv.relayed b
  · by_cases same : b = i
    · subst same
      refine List.Sublist.trans ?_ (inv.refused b)
      simpa using fromServer_sublist (pending_client move _)
    · simpa [same] using inv.refused b

/-- What the server takes from a link was there. -/
theorem up_of_linked {net : Network ι} {action : ServerAction ι} {up : ι → List Frame}
    {down : ι → List (Packet ι)} (linked : Linked codec net action up down) (i : ι) :
    up i ⊆ net.up i := by
  cases linked with
  | take j frame rest next =>
    by_cases same : i = j
    · subst same
      simp [next]
    · simp [same]
  | put | quiet => exact List.Subset.refl _

/-- The server reads what is on a link. -/
theorem taken_of_step {net net' : Network ι} {i : ι} {frame : Frame}
    (step : net.serverStep codec (.receive i (.frame frame)) = some net') : frame ∈ net.up i := by
  unfold Network.serverStep at step
  grind

/-- A move of the server keeps the invariant. -/
theorem Deliverable.server {net net' : Network ι} {action : ServerAction ι} (faithful : codec.Faithful)
    (inv : Deliverable codec net) (step : net.serverStep codec action = some net') :
    Deliverable codec net' := by
  obtain ⟨move, linked, clients⟩ := linked_of_step step
  have valid : ∀ i incoming, action = .receive i incoming →
      ∀ err, incoming.signal codec ≠ some (.error err) := by
    rintro i incoming rfl
    cases incoming with
    | frame frame => exact inv.valid i frame (taken_of_step step)
    | failed | finished => simp [Incoming.signal]
  refine ⟨fun i frame member => inv.valid i frame (up_of_linked linked i member),
    registered_after move inv.registered, fun b a message member => ?_, fun b => ?_⟩
  · obtain ⟨new, isNew, kept⟩ := pending_server faithful move linked valid b
    rw [clients] at member
    rcases List.mem_append.mp (kept.subset member) with old | added
    · exact (inv.relayed b a message old).after move
    · -- The target was looked up in the registry, where it is only under a registered id.
      cases isNew with
      | nothing => cases added
      | relayed i message' target heard targeted found =>
        cases List.mem_singleton.mp added
        exact ⟨heard, target, targeted, (heard_grows move b).subset (inv.registered target b found)⟩
      | refused message' answer heard answers => cases List.mem_singleton.mp added
  · obtain ⟨new, isNew, kept⟩ := pending_server faithful move linked valid b
    rw [clients]
    refine (fromServer_sublist kept).trans ?_
    rw [fromServer_append]
    -- Only the answer to a message comes from the server, and the message was heard just now.
    cases isNew with
    | refused message answer heard answers =>
      rw [heard, List.filterMap_append]
      exact (inv.refused b).append (by simp [fromServer, answers])
    | nothing | relayed =>
      refine List.Sublist.trans ?_ ((heard_grows move b).sublist.filterMap SignalMessage.refusal)
      simpa [fromServer] using inv.refused b

/-- **Every state that is reached** keeps the invariant. -/
theorem deliverable_of_reach {ids : ι → String} (faithful : codec.Faithful) {net : Network ι}
    (reach : Reach (networkMachine codec ids) Anything net) : Deliverable codec net := by
  apply Reach.invariant _ _ reach
  · intro net initial
    constructor <;> simp [initial.server.peers, initial.server.connections, initial.clients, initial.up,
      initial.down, pending, carried, fromServer]
  · intro net action net' inv _ step
    by_cases isServer : ∃ act, action = .server act
    · obtain ⟨act, rfl⟩ := isServer
      exact inv.server faithful step
    · exact inv.client faithful (byClient_of_step (fun act same => isServer ⟨act, same⟩) step)

/-- **What a client receives is due to it.** In every state that the network reaches: a message from
another connection was sent by its client, to an id that the receiver has registered; everything else
is an error that answers a message of the receiver, and the errors are in the order of the messages, at
most one for each. -/
theorem deliveries_due {ids : ι → String} (faithful : codec.Faithful) {net : Network ι}
    (reach : Reach (networkMachine codec ids) Anything net) (b : ι) :
    (∀ a message, (some a, message) ∈ (net.clients b).received →
      message ∈ (net.clients a).sent ∧ ∃ target, message.targetPeer = some target ∧
        .register target ∈ .register (ids b) :: (net.clients b).sent) ∧
    (((net.clients b).received.filter fun item => item.1 = none).map Prod.snd).Sublist
      ((net.clients b).sent.filterMap SignalMessage.refusal) := by
  have inv := deliverable_of_reach faithful reach
  have begun := fun a => (List.prefix_append _ _).trans ((flow_of_reach faithful reach).sends a).begun
  have received : (net.clients b).received.Sublist (pending codec (net.clients b) (net.down b)
      (net.server.connections b).queue) := by
    rw [pending, List.append_assoc]
    exact List.sublist_append_left _ _
  constructor
  · intro a message member
    obtain ⟨heard, target, targeted, registered⟩ := inv.relayed b a message (received.subset member)
    refine ⟨?_, target, targeted, (begun b).subset registered⟩
    rcases List.mem_cons.mp ((begun a).subset heard) with rfl | sent
    · cases targeted
    · exact sent
  · exact ((fromServer_sublist received).trans (inv.refused b)).trans
      ((begun b).sublist.filterMap SignalMessage.refusal)

/-- A client sends an offer before its target is connected, and again afterwards. -/
def sampleRetry : List (NetworkAction Bool) :=
  sampleJoin true ++ [.send true sampleOffer, .write true true,
    .server (.receive true (saying sampleOffer)), .server (.transmit true true), .read true,
    .recv true] ++
  sampleJoin false ++ [.send true sampleOffer, .write true true,
    .server (.receive true (saying sampleOffer)), .server (.transmit false true), .read false,
    .recv false]

/-- The error answers the first offer, and the second one was sent to a registered id. -/
theorem deliveries_due_sample : ∃ net : Network Bool,
    (net.clients true).received = [(none, .error "target peer not connected: a")] ∧
    (net.clients false).received = [(some true, sampleOffer)] ∧
    [.error "target peer not connected: a"].Sublist
      ((net.clients true).sent.filterMap SignalMessage.refusal) ∧
    sampleOffer ∈ (net.clients true).sent := by
  obtain ⟨net, reach, answered, received⟩ : ∃ net,
      Reach (networkMachine jsonCodec sampleIds) Anything net ∧
      (net.clients true).received = [(none, .error "target peer not connected: a")] ∧
      (net.clients false).received = [(some true, sampleOffer)] :=
    exists_reach_of_run sampleNetwork_initial sampleRetry (by decide +kernel)
  have errors := (deliveries_due jsonCodec_faithful reach true).2
  rw [answered] at errors
  exact ⟨net, answered, received, errors,
    ((deliveries_due jsonCodec_faithful reach false).1 true sampleOffer (by simp [received])).1⟩

end SendRs.Signaling
