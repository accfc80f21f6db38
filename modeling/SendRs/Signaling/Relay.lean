/-
**Messages on their way.**

* `ClientMove` and `Linked` list what a step of the network does: a client moves with its two links, or
  the server moves and takes a frame from a link or puts one on it (`network_step`).
* `Line` is what holds of one connection: what the server has heard from it and what is on its way
  there are the messages that were sent, in order, with `Register` first; what its client has
  received and what is on its way to it was put on its channel, in order.
* `Relays` says that what was put on a channel was heard, in order.
* `relay_in_order` composes them.
-/

import SendRs.Signaling.History
import SendRs.Signaling.Network

namespace SendRs.Signaling

open Machines

variable {ι : Type} {codec : Codec}

/-! ### What a step can do -/

/-- The moves of a client, with the links of its connection. -/
inductive ClientMove (codec : Codec) (peerId : String) (client : Client ι) (up : List Frame)
    (down : List (Packet ι)) : Client ι → List Frame → List (Packet ι) → Prop
  | connect (new : client.connected = false) :
    ClientMove codec peerId client up down (client.connect peerId) up down
  | send (message : SignalMessage) (connected : client.connected = true) :
    ClientMove codec peerId client up down (client.send message) up down
  | recv (item : Option ι × SignalMessage) (rest : List (Option ι × SignalMessage))
      (next : client.inbound = item :: rest) : ClientMove codec peerId client up down
      { client with inbound := rest, received := client.received ++ [item] } up down
  | drop (connected : client.connected = true) :
    ClientMove codec peerId client up down { client with dropped := true, inbound := [] } up down
  | skip (message : SignalMessage) (rest : List SignalMessage) (runs : client.writer = .running)
      (next : client.outbound = message :: rest) (unencoded : codec.encode message = none) :
    ClientMove codec peerId client up down { client with outbound := rest } up down
  | write (message : SignalMessage) (rest : List SignalMessage) (text : String)
      (runs : client.writer = .running) (next : client.outbound = message :: rest)
      (encoded : codec.encode message = some text) :
    ClientMove codec peerId client up down { client with outbound := rest } (up ++ [.text text]) down
  | fail (rest : List SignalMessage) (runs : client.writer = .running) :
    ClientMove codec peerId client up down { client with outbound := rest, writer := .closing } up down
  | close (ends : client.writer = .closing) :
    ClientMove codec peerId client up down { client with writer := .done, outbound := [] } up down
  | closeFrame (ends : client.writer = .closing) :
    ClientMove codec peerId client up down { client with writer := .done, outbound := [] }
      (up ++ [.close]) down
  | read (packet : Packet ι) (rest : List (Packet ι)) (next : down = packet :: rest) :
    ClientMove codec peerId client up down (client.read codec packet) up rest
  | lose : ClientMove codec peerId client up down { client with reader := false } up down
  | controlUp (frame : Frame) (control : frame.isControl = true) :
    ClientMove codec peerId client up down client (up ++ [frame]) down
  | controlDown (frame : Frame) (control : frame.isControl = true) :
    ClientMove codec peerId client up down client up (down ++ [⟨none, frame⟩])

variable [DecidableEq ι]

/-- What a step of the server does to the links. -/
inductive Linked (codec : Codec) (net : Network ι) :
    ServerAction ι → (ι → List Frame) → (ι → List (Packet ι)) → Prop
  | take (i : ι) (frame : Frame) (rest : List Frame) (next : net.up i = frame :: rest) :
    Linked codec net (.receive i (.frame frame)) (Function.update net.up i rest) net.down
  | put (i : ι) (packet : Packet ι) (rest : List (Packet ι))
      (next : (net.server.connections i).queue = packet :: rest) :
    Linked codec net (.transmit i true) net.up
      (Function.update net.down i (net.down i ++ [packet]))
  | quiet (action : ServerAction ι) (silent : action.news codec = [])
      (stays : ∀ i, action ≠ .transmit i true) : Linked codec net action net.up net.down

/-- A client moves, and takes its links with it. -/
def ByClient (codec : Codec) (ids : ι → String) (net net' : Network ι) : Prop :=
  ∃ i client up down,
    ClientMove codec (ids i) (net.clients i) (net.up i) (net.down i) client up down ∧
    net' = ⟨net.server, Function.update net.clients i client, Function.update net.up i up,
      Function.update net.down i down⟩

/-- The server moves, and the links with it. -/
def ByServer (codec : Codec) (net net' : Network ι) : Prop :=
  ∃ action server up down, ServerMove codec net.server action server ∧
    Linked codec net action up down ∧ net' = ⟨server, net.clients, up, down⟩

/-- A step of the server in the network is a move of the server and of the links. -/
theorem linked_of_step {net net' : Network ι} {action : ServerAction ι}
    (step : net.serverStep codec action = some net') :
    ServerMove codec net.server action net'.server ∧ Linked codec net action net'.up net'.down ∧
      net'.clients = net.clients := by
  unfold Network.serverStep at step
  split at step
  case h_1 i frame =>
    split at step
    case h_1 head rest next =>
      split at step
      case isTrue same =>
        obtain ⟨server, moves, rfl⟩ := Option.map_eq_some_iff.mp step
        exact ⟨serverMove_of_step moves, .take i frame rest (same ▸ next), rfl⟩
      case isFalse => cases step
    case h_2 => cases step
  case h_2 i =>
    split at step
    case h_1 packet rest next =>
      obtain ⟨server, moves, rfl⟩ := Option.map_eq_some_iff.mp step
      exact ⟨serverMove_of_step moves, .put i packet rest next, rfl⟩
    case h_2 => cases step
  case h_3 notFrame notSent =>
    obtain ⟨server, moves, rfl⟩ := Option.map_eq_some_iff.mp step
    refine ⟨serverMove_of_step moves, .quiet action ?_ notSent, rfl⟩
    cases action with
    | receive i incoming =>
      cases incoming with
      | frame frame => exact absurd rfl (notFrame i frame)
      | failed | finished => rfl
    | _ => rfl

theorem byServer_of_step {net net' : Network ι} {action : ServerAction ι}
    (step : net.serverStep codec action = some net') : ByServer codec net net' := by
  obtain ⟨move, linked, clients⟩ := linked_of_step step
  exact ⟨action, net'.server, net'.up, net'.down, move, linked, by rw [← clients]⟩

/-- The other steps of the network are moves of a client. -/
theorem byClient_of_step {ids : ι → String} {net net' : Network ι} {action : NetworkAction ι}
    (client : ∀ act, action ≠ .server act)
    (step : (networkMachine codec ids).step net action = some net') : ByClient codec ids net net' := by
  have alone : ∀ i client, ClientMove codec (ids i) (net.clients i) (net.up i) (net.down i) client
      (net.up i) (net.down i) → ByClient codec ids net (net.updateClient i client) := by
    intro i client move
    exact ⟨i, client, _, _, move, by simp [Network.updateClient]⟩
  cases action with
  | server action => exact absurd rfl (client action)
  | connect i =>
    simp only [networkMachine, networkStep, Option.ite_none_left_eq_some] at step
    obtain ⟨new, same⟩ := step
    obtain rfl := Option.some.inj same
    exact alone i _ (.connect (by simpa using new))
  | send i message =>
    simp only [networkMachine, networkStep, Option.ite_none_right_eq_some] at step
    obtain ⟨⟨connected, _⟩, same⟩ := step
    obtain rfl := Option.some.inj same
    exact alone i _ (.send message connected)
  | recv i =>
    simp only [networkMachine, networkStep] at step
    split at step
    case h_1 item rest next =>
      simp only [Option.ite_none_left_eq_some] at step
      obtain ⟨_, same⟩ := step
      obtain rfl := Option.some.inj same
      exact alone i _ (.recv item rest next)
    case h_2 => cases step
  | drop i =>
    simp only [networkMachine, networkStep, Option.ite_none_right_eq_some] at step
    obtain ⟨connected, same⟩ := step
    obtain rfl := Option.some.inj same
    exact alone i _ (.drop connected)
  | write i works =>
    simp only [networkMachine, networkStep] at step
    split at step
    case h_1 message rest runs next =>
      split at step
      case h_1 unencoded =>
        obtain rfl := Option.some.inj step
        exact alone i _ (.skip message rest runs next unencoded)
      case h_2 text encoded =>
        split at step
        case isTrue =>
          obtain rfl := Option.some.inj step
          exact ⟨i, _, _, _, .write message rest text runs next encoded,
            by simp [Network.updateClient]⟩
        case isFalse =>
          obtain rfl := Option.some.inj step
          exact alone i _ (.fail rest runs)
    case h_2 => cases step
  | finish i =>
    simp only [networkMachine, networkStep, Option.ite_none_right_eq_some] at step
    obtain ⟨⟨runs, empty, _⟩, same⟩ := step
    obtain rfl := Option.some.inj same
    exact alone i _ (.fail _ runs)
  | close i works =>
    simp only [networkMachine, networkStep, Option.ite_none_right_eq_some] at step
    obtain ⟨ends, same⟩ := step
    obtain rfl := Option.some.inj same
    cases works with
    | true => exact ⟨i, _, _, _, .closeFrame ends, by simp [Network.updateClient]⟩
    | false => exact alone i _ (.close ends)
  | read i =>
    simp only [networkMachine, networkStep] at step
    split at step
    case h_1 packet rest next =>
      simp only [Option.ite_none_right_eq_some] at step
      obtain ⟨_, same⟩ := step
      obtain rfl := Option.some.inj same
      exact ⟨i, _, _, _, .read packet rest next, by simp [Network.updateClient]⟩
    case h_2 => cases step
  | lose i =>
    simp only [networkMachine, networkStep, Option.ite_none_right_eq_some] at step
    obtain ⟨_, same⟩ := step
    obtain rfl := Option.some.inj same
    exact alone i _ .lose
  | control i toServer frame =>
    simp only [networkMachine, networkStep, Option.ite_none_right_eq_some] at step
    obtain ⟨control, step⟩ := step
    cases toServer with
    | true =>
      obtain rfl := Option.some.inj step
      exact ⟨i, _, _, _, .controlUp frame control, by simp⟩
    | false =>
      obtain rfl := Option.some.inj step
      exact ⟨i, _, _, _, .controlDown frame control, by simp⟩

/-- A step of the network is a move of a client or of the server. -/
theorem network_step {ids : ι → String} {net net' : Network ι} {action : NetworkAction ι}
    (step : (networkMachine codec ids).step net action = some net') :
    ByClient codec ids net net' ∨ ByServer codec net net' := by
  cases action with
  | server action => exact .inr (byServer_of_step step)
  | _ => exact .inl (byClient_of_step (by simp) step)

/-! ### One connection -/

section Lines

omit [DecidableEq ι]

/-- The messages in the frames on the way to the server. -/
def uplink (codec : Codec) (frames : List Frame) : List SignalMessage :=
  frames.filterMap fun frame => (Incoming.frame frame).message codec

/-- The relayed messages in the packets on the way to a client. -/
def downlink (codec : Codec) (packets : List (Packet ι)) : List (ι × SignalMessage) :=
  packets.filterMap (Packet.relays codec)

/-- The relayed messages among those a client has. -/
def fromPeers (items : List (Option ι × SignalMessage)) : List (ι × SignalMessage) :=
  items.filterMap fun item => item.1.map fun a => (a, item.2)

/-- The way of a client to the server, with what the server has heard from it. -/
structure Sends (codec : Codec) (peerId : String) (client : Client ι) (up : List Frame)
    (heard : List SignalMessage) : Prop where
  fresh : client.connected = false →
    heard = [] ∧ uplink codec up = [] ∧ client.sent = [] ∧ client.writer = .done
  running : client.writer = .running →
    heard ++ uplink codec up ++ client.outbound = .register peerId :: client.sent
  begun : heard ++ uplink codec up <+: .register peerId :: client.sent

/-- The way of the server to a client, with what was put on its channel. -/
def Receives (codec : Codec) (client : Client ι) (down : List (Packet ι))
    (channel relayed : List (ι × SignalMessage)) : Prop :=
  (fromPeers (client.received ++ client.inbound) ++ downlink codec down ++ channel).Sublist relayed

theorem message_of_control {frame : Frame} (control : frame.isControl = true) :
    (Incoming.frame frame).message codec = none := by
  cases frame <;> simp_all [Frame.isControl, Incoming.message, Incoming.signal, Frame.signal]

theorem message_of_encode (faithful : codec.Faithful) {message : SignalMessage} {text : String}
    (encoded : codec.encode message = some text) :
    (Incoming.frame (.text text)).message codec = some message := by
  simp [Incoming.message, Incoming.signal, Frame.signal, faithful.decodes message text encoded]

/-- Reading a frame leaves what a client sends. -/
theorem read_sends (client : Client ι) (packet : Packet ι) :
    (client.read codec packet).connected = client.connected ∧
      (client.read codec packet).sent = client.sent ∧
      (client.read codec packet).writer = client.writer ∧
      (client.read codec packet).outbound = client.outbound ∧
      (client.read codec packet).received = client.received := by
  unfold Client.read
  grind

variable {peerId : String} {client client' : Client ι} {up up' : List Frame}
  {down down' : List (Packet ι)}

/-- Frames of the library carry no message to the server. -/
theorem uplink_control {frame : Frame} (control : frame.isControl = true) :
    uplink codec (up ++ [frame]) = uplink codec up := by
  simp [uplink, message_of_control control]

/-- A client keeps the order of what it sends. -/
theorem Sends.after {heard : List SignalMessage} (faithful : codec.Faithful)
    (sends : Sends codec peerId client up heard)
    (move : ClientMove codec peerId client up down client' up' down') :
    Sends codec peerId client' up' heard := by
  obtain ⟨fresh, running, begun⟩ := sends
  cases move with
  | connect new =>
    obtain ⟨nothing, empty, unsent, _⟩ := fresh new
    constructor <;> simp [Client.connect, nothing, empty, unsent]
  | send message connected =>
    constructor
    · simp [Client.send, connected]
    · intro runs
      have runs : client.writer = .running := runs
      rw [Client.send, if_neg (by simp [runs]), ← List.append_assoc, running runs]
      simp
    · exact begun.trans (by simp [Client.send])
  | skip message rest runs next unencoded => simpa [unencoded] using faithful.encodes message
  | write message rest text runs next encoded =>
    have whole := running runs
    have said : uplink codec (up ++ [.text text]) = uplink codec up ++ [message] := by
      simp [uplink, message_of_encode faithful encoded]
    rw [next] at whole
    constructor
    · intro new
      simp [fresh new] at runs
    · intro _
      rw [said, ← whole]
      simp
    · rw [said, ← whole]
      simp
  | fail rest runs => exact ⟨fun new => by simp [fresh new] at runs, by simp, begun⟩
  | close ends =>
    exact ⟨fun new => by simp [fresh new] at ends, by simp, begun⟩
  | closeFrame ends =>
    rw [← @uplink_control _ _ .close rfl] at begun
    exact ⟨fun new => by simp [fresh new] at ends, by simp, begun⟩
  | read packet rest next =>
    obtain ⟨connected, sent, writer, outbound, _⟩ := @read_sends _ codec client packet
    constructor
    · rw [connected, sent, writer]
      exact fresh
    · rw [writer, outbound, sent]
      exact running
    · rw [sent]
      exact begun
  | controlUp frame control =>
    rw [← @uplink_control _ up _ control] at fresh running begun
    exact ⟨fresh, running, begun⟩
  | recv | drop | lose | controlDown => exact ⟨fresh, running, begun⟩

theorem fromPeers_append (items more : List (Option ι × SignalMessage)) :
    fromPeers (items ++ more) = fromPeers items ++ fromPeers more :=
  List.filterMap_append

/-- The reader task puts a relayed message into the inbound queue, or drops it. -/
theorem read_inbound (client : Client ι) (packet : Packet ι) :
    (fromPeers (client.read codec packet).inbound).Sublist
      (fromPeers client.inbound ++ (packet.relays codec).toList) := by
  unfold Client.read
  cases reads : packet.frame.reads codec with
  | none => simp only [apply_ite Client.inbound, ite_self, List.sublist_append_left]
  | some message =>
    by_cases dropped : client.dropped = true
    · simp [dropped]
    · have same : fromPeers [(packet.origin, message)] = (packet.relays codec).toList := by
        cases origin : packet.origin <;> simp [fromPeers, Packet.relays, origin, reads]
      simp [dropped, fromPeers_append, same]

/-- A client keeps the order of what it receives. -/
theorem Receives.after {channel relayed : List (ι × SignalMessage)}
    (receives : Receives codec client down channel relayed)
    (move : ClientMove codec peerId client up down client' up' down') :
    Receives codec client' down' channel relayed := by
  unfold Receives at *
  cases move with
  | recv item rest next => simpa [next] using receives
  | drop connected =>
    refine List.Sublist.trans ?_ receives
    simp [fromPeers_append]
  | read packet rest next =>
    obtain ⟨_, _, _, _, received⟩ := @read_sends _ codec client packet
    refine List.Sublist.trans ?_ receives
    have first : downlink codec down = (packet.relays codec).toList ++ downlink codec down' := by
      rw [next]
      cases relays : packet.relays codec <;> simp [downlink, relays]
    have moved := (@read_inbound _ codec client packet).append_right
      (downlink codec down' ++ channel)
    rw [received, first]
    simpa only [fromPeers_append, List.append_assoc] using moved.append_left (fromPeers client.received)
  | controlDown frame control =>
    have silent : (⟨none, frame⟩ : Packet ι).relays codec = none := rfl
    simpa [downlink, silent] using receives
  | _ => exact receives

end Lines

/-! ### The network -/

/-- Everything is on its way in order: to the server, to the clients, and from one to the other. -/
structure Flow (codec : Codec) (ids : ι → String) (net : Network ι) : Prop where
  sends : ∀ a, Sends codec (ids a) (net.clients a) (net.up a) (net.server.heard a)
  receives : ∀ b, Receives codec (net.clients b) (net.down b)
    ((net.server.connections b).carries codec) (net.server.relayed b)
  relays : ∀ a b, (((net.server.relayed b).filter fun item => item.1 = a).map Prod.snd).Sublist
    ((net.server.heard a).filter fun message => message.targetPeer.isSome)

section ServerSteps

variable {net : Network ι} {server : Server ι} {action : ServerAction ι} {up : ι → List Frame}
  {down : ι → List (Packet ι)}

/-- What the server hears it takes from the link. -/
theorem heard_uplink (move : ServerMove codec net.server action server)
    (linked : Linked codec net action up down) (a : ι) :
    server.heard a ++ uplink codec (up a) = net.server.heard a ++ uplink codec (net.up a) := by
  rw [heard_after move]
  cases linked with
  | take i frame rest next =>
    by_cases same : a = i
    · subst same
      cases said : (Incoming.frame frame).message codec <;>
        simp [ServerAction.news, uplink, next, said]
    · simp [ServerAction.news, same, Ne.symm same]
  | put i packet rest next => simp [ServerAction.news]
  | quiet _ silent => simp [silent]

/-- A frame that is sent leaves the channel. -/
theorem queue_of_transmit {i : ι} {packet : Packet ι} {rest : List (Packet ι)}
    (move : ServerMove codec net.server (.transmit i true) server)
    (next : (net.server.connections i).queue = packet :: rest) :
    (server.connections i).queue = rest := by
  cases move with
  | transmit _ _ rest' there =>
    obtain ⟨_, rfl⟩ := List.cons.inj (there.symm.trans next)
    simp

/-- What leaves a channel is on the link. -/
theorem receives_server {b : ι} (faithful : codec.Faithful)
    (move : ServerMove codec net.server action server)
    (linked : Linked codec net action up down)
    (receives : Receives codec (net.clients b) (net.down b)
      ((net.server.connections b).carries codec) (net.server.relayed b)) :
    Receives codec (net.clients b) (down b) ((server.connections b).carries codec)
      (server.relayed b) := by
  unfold Receives at *
  have unlinked : (fromPeers ((net.clients b).received ++ (net.clients b).inbound) ++
      downlink codec (net.down b) ++ (server.connections b).carries codec).Sublist
      (server.relayed b) := by
    rw [relayed_after faithful.encodes move]
    have added := (carries_after faithful move b).append_left
      (fromPeers ((net.clients b).received ++ (net.clients b).inbound) ++
        downlink codec (net.down b))
    rw [← List.append_assoc] at added
    exact added.trans (receives.append_right _)
  cases linked with
  | put i packet rest next =>
    by_cases same : b = i
    · subst same
      have gone : (server.connections b).carries codec = downlink codec rest := by
        rw [Connection.carries, queue_of_transmit move next, downlink]
      have moved : downlink codec (net.down b ++ [packet]) ++ downlink codec rest =
          downlink codec (net.down b) ++ (net.server.connections b).carries codec := by
        rw [Connection.carries, next, downlink, downlink, downlink, List.filterMap_append,
          List.append_assoc, ← List.filterMap_append, List.singleton_append]
      have silent : server.relayed b = net.server.relayed b := by
        rw [relayed_after faithful.encodes move]
        simp [ServerAction.news]
      rw [Function.update_self, gone, List.append_assoc, moved, ← List.append_assoc, silent]
      exact receives
    · rw [Function.update_of_ne same]
      exact unlinked
  | take | quiet => exact unlinked

/-- What is put on a channel was just heard. -/
theorem relays_server {a b : ι} (faithful : codec.Faithful)
    (move : ServerMove codec net.server action server)
    (relays : (((net.server.relayed b).filter fun item => item.1 = a).map Prod.snd).Sublist
      ((net.server.heard a).filter fun message => message.targetPeer.isSome)) :
    (((server.relayed b).filter fun item => item.1 = a).map Prod.snd).Sublist
      ((server.heard a).filter fun message => message.targetPeer.isSome) := by
  rw [relayed_after faithful.encodes move, heard_after move]
  simp only [List.filter_append, List.map_append]
  apply relays.append
  rw [List.filter_map, List.filter_filter, List.filter_filter]
  apply List.Sublist.map
  apply List.monotone_filter_right
  intro item chosen
  cases targeted : item.2.targetPeer with
  | none => simp [Server.receiver, targeted] at chosen
  | some target =>
    simp [targeted] at chosen ⊢
    exact chosen.1

end ServerSteps

/-- **Every step keeps the flow.** -/
theorem flow_of_reach {ids : ι → String} (faithful : codec.Faithful) {net : Network ι}
    (reach : Reach (networkMachine codec ids) Anything net) : Flow codec ids net := by
  apply Reach.invariant _ _ reach
  · intro net initial
    constructor
    · intro a
      constructor <;> simp [initial.server.heard, initial.up, initial.clients, uplink]
    · intro b
      simp [Receives, initial.clients, initial.down, initial.server.connections,
        initial.server.relayed, fromPeers, downlink, Connection.carries]
    · simp [initial.server.relayed]
  · intro net action net' flow _ step
    rcases network_step step with ⟨i, client, up, down, move, rfl⟩ |
      ⟨action, server, up, down, move, linked, rfl⟩
    · constructor
      · intro a
        by_cases same : a = i
        · subst same
          simpa using (flow.sends a).after faithful move
        · simpa [same] using flow.sends a
      · intro b
        by_cases same : b = i
        · subst same
          simpa using (flow.receives b).after move
        · simpa [same] using flow.receives b
      · exact flow.relays
    · constructor
      · intro a
        have kept := heard_uplink move linked a
        obtain ⟨fresh, running, begun⟩ := flow.sends a
        rw [← kept] at running begun
        refine ⟨fun new => ?_, running, begun⟩
        obtain ⟨nothing, empty, rest⟩ := fresh new
        rw [nothing, empty] at kept
        obtain ⟨nothing, empty⟩ := List.append_eq_nil_iff.mp kept
        exact ⟨nothing, empty, rest⟩
      · intro b
        have kept := receives_server faithful move linked (flow.receives b)
        exact kept
      · intro a b
        have kept := relays_server faithful move (flow.relays a b)
        exact kept

/-! ### The result -/

/-- The items from one connection, among those a client has. -/
theorem filter_fromPeers (items : List (Option ι × SignalMessage)) (a : ι) :
    ((fromPeers items).filter fun item => item.1 = a).map Prod.snd =
      (items.filter fun item => item.1 = some a).map Prod.snd := by
  induction items with
  | nil => rfl
  | cons item items ih =>
    obtain ⟨origin, message⟩ := item
    cases origin with
    | none => simpa [fromPeers] using ih
    | some b =>
      by_cases same : b = a
      · simpa [fromPeers, same] using ih
      · simpa [fromPeers, same] using ih

/-- The id stays registered for a connection, and both connections stay open. -/
def Stays (a b : ι) (target : String) (net : Network ι) (_ : NetworkAction ι) : Prop :=
  net.server.peers target = some b ∧ (net.server.connections a).place = .reading ∧
    (net.server.connections b).place = .reading ∧
    (net.server.connections b).senderTask = true

/-- Between two states of a run, the messages for a target that were heard from a connection are those
that were put on the channel of the target. -/
def NoneMissing (a b : ι) (target : String) (net net' : Network ι) : Prop :=
  ∃ read put, net'.server.heard a = net.server.heard a ++ read ∧
    net'.server.relayed b = net.server.relayed b ++ put ∧
    (put.filter fun item => item.1 = a ∧ item.2.targetPeer = some target).map Prod.snd =
      read.filter fun message => message.targetPeer = some target

/-- While an id stays registered, none of its messages is missing. -/
theorem noneMissing_of_stays {ids : ι → String} (faithful : codec.Faithful) {a b : ι}
    {target : String} {net net' : Network ι}
    (reach : Reach ((networkMachine codec ids).restart net) (Stays a b target) net') :
    NoneMissing a b target net net' := by
  apply Reach.invariant _ _ reach
  · rintro _ rfl
    exact ⟨[], [], by simp, by simp, rfl⟩
  · intro before action after missing stays step
    obtain ⟨read, put, heard, relayed, same⟩ := missing
    rcases network_step step with ⟨i, client, up, down, move, rfl⟩ |
      ⟨action, server, up, down, move, linked, rfl⟩
    · exact ⟨read, put, heard, relayed, same⟩
    · obtain ⟨found, _, _, runs⟩ := stays
      have receiver : ∀ message : SignalMessage, message.targetPeer = some target →
          before.server.receiver message = some b := by
        intro message targeted
        simp [Server.receiver, targeted, found, Option.filter, runs]
      refine ⟨_, _, (heard_after move a).trans (by rw [heard, List.append_assoc]),
        (relayed_after faithful.encodes move b).trans (by rw [relayed, List.append_assoc]), ?_⟩
      simp only [List.filter_append, List.map_append, same]
      congr 1
      rw [List.filter_map, List.filter_filter, List.filter_filter]
      congr 1
      apply List.filter_congr
      intro item _
      by_cases targeted : item.2.targetPeer = some target
      · simp [targeted, receiver item.2 targeted]
      · simp [targeted]

/-- **In order and at most once.** In every state that the network reaches: the messages from one
connection that a client has received are a subsequence of the messages with a target that its client
has sent; the server has heard the `Register` message of a client, then the messages it has sent, in
that order; while an id stays registered, every message for it that the server reads is put on the
channel of its connection; and the step that reads it puts it there. -/
theorem relay_in_order {ids : ι → String} (faithful : codec.Faithful) {net : Network ι}
    (reach : Reach (networkMachine codec ids) Anything net) :
    (∀ a b, (((net.clients b).received.filter fun item => item.1 = some a).map Prod.snd).Sublist
      ((net.clients a).sent.filter fun message => message.targetPeer.isSome)) ∧
    (∀ a, net.server.heard a <+: .register (ids a) :: (net.clients a).sent) ∧
    (∀ a b target net', Reach ((networkMachine codec ids).restart net) (Stays a b target) net' →
      NoneMissing a b target net net') ∧
    ∀ a b target incoming message server', Stays a b target net (.server (.receive a incoming)) →
      incoming.message codec = some message → message.targetPeer = some target →
      serverStep codec net.server (.receive a incoming) = some server' →
      ∃ payload, codec.encode message = some payload ∧ (server'.connections b).queue =
        (net.server.connections b).queue ++ [⟨some a, .text payload⟩] := by
  have flow := flow_of_reach faithful reach
  refine ⟨fun a b => ?_, fun a => ?_, fun a b target net' => noneMissing_of_stays faithful, ?_⟩
  · have received : (fromPeers (net.clients b).received).Sublist (net.server.relayed b) := by
      refine List.Sublist.trans ?_ (flow.receives b)
      rw [fromPeers_append, List.append_assoc, List.append_assoc]
      exact List.sublist_append_left _ _
    have heard : ((net.server.heard a).filter fun message => message.targetPeer.isSome).Sublist
        ((net.clients a).sent.filter fun message => message.targetPeer.isSome) := by
      have begun := (List.prefix_append _ _).trans (flow.sends a).begun
      exact begun.sublist.filter _
    rw [← filter_fromPeers]
    exact (((received.filter _).map _).trans (flow.relays a b)).trans heard
  · exact (List.prefix_append _ _).trans (flow.sends a).begun
  · rintro a b target incoming message server' ⟨found, _, _, runs⟩ reads targeted step
    obtain ⟨payload, encoded⟩ := Option.isSome_iff_exists.mp (faithful.encodes message)
    exact ⟨payload, encoded, queue_of_found step reads targeted found runs encoded⟩

/-- Two clients. -/
def sampleNetwork : Network Bool where
  server := sampleServer
  clients _ := ⟨false, false, [], .done, false, [], [], []⟩
  up _ := []
  down _ := []

theorem sampleNetwork_initial : sampleNetwork.Initial :=
  ⟨sampleServer_initial, fun _ => rfl, fun _ => rfl, fun _ => rfl⟩

def sampleIds : Bool → String
  | false => "a"
  | true => "b"

/-- A client connects, and the server reads its `Register` message. -/
def sampleJoin (i : Bool) : List (NetworkAction Bool) :=
  [.connect i, .server (.accept i), .write i true,
    .server (.receive i (saying (.register (sampleIds i))))]

/-- Two clients connect, and one of them sends an offer to the other one. -/
def sampleDelivery : List (NetworkAction Bool) :=
  sampleJoin false ++ sampleJoin true ++ [.send true sampleOffer, .write true true,
    .server (.receive true (saying sampleOffer)), .server (.transmit false true), .read false,
    .recv false]

/-- The offer that is received was sent. -/
theorem relay_in_order_sample : ∃ net : Network Bool,
    (net.clients false).received = [(some true, sampleOffer)] ∧
    (((net.clients false).received.filter fun item => item.1 = some true).map Prod.snd).Sublist
      ((net.clients true).sent.filter fun message => message.targetPeer.isSome) := by
  obtain ⟨net, reach, received⟩ : ∃ net, Reach (networkMachine jsonCodec sampleIds) Anything net ∧
      (net.clients false).received = [(some true, sampleOffer)] :=
    exists_reach_of_run sampleNetwork_initial sampleDelivery (by decide +kernel)
  exact ⟨net, received, (relay_in_order jsonCodec_faithful reach).1 true false⟩

end SendRs.Signaling
