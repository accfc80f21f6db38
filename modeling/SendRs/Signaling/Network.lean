/-
**Signaling clients and the server.**

Any number of `SignalingClient`s, each with its queues, its writer task and its reader task, on the
connections of the server, over links that keep the order of frames. A message that is sent passes the
outbound queue, the link to the server, the channel of its target, the link to that client and its
inbound queue. Tasks and links may stop at any point, and the WebSocket library may put frames of its
own on a link.

What the clients have sent and received, and the connection that a message comes from, are history.
-/

import SendRs.Signaling.Server

namespace SendRs.Signaling

open Machines

variable {ι : Type}

/-! ### State -/

/-- The writer task of a client. -/
inductive WriterTask where
  | running
  /-- After its loop: `writer.close()`. -/
  | closing
  | done
deriving DecidableEq

/-- A `SignalingClient` with its tasks. -/
structure Client (ι : Type) where
  /-- `connect` has returned. -/
  connected : Bool
  /-- The client was dropped. -/
  dropped : Bool
  outbound : List SignalMessage
  writer : WriterTask
  /-- The reader task runs. -/
  reader : Bool
  inbound : List (Option ι × SignalMessage)
  /-- The messages given to `send`. -/
  sent : List SignalMessage
  /-- The messages that `recv` has returned. -/
  received : List (Option ι × SignalMessage)

/-- The server, the clients, and the frames on the links to the server and back. -/
structure Network (ι : Type) where
  server : Server ι
  clients : ι → Client ι
  up : ι → List Frame
  down : ι → List (Packet ι)

/-- A step of the network. -/
inductive NetworkAction (ι : Type) where
  | connect (i : ι)
  | send (i : ι) (message : SignalMessage)
  | recv (i : ι)
  | drop (i : ι)
  /-- The writer task takes a message, and its `writer.send` works or not. -/
  | write (i : ι) (works : Bool)
  /-- The writer task finds its queue empty and closed. -/
  | finish (i : ι)
  /-- `writer.close()`. -/
  | close (i : ι) (works : Bool)
  /-- The reader task takes a frame. -/
  | read (i : ι)
  /-- The reader task is at the end of its stream, or has an error. -/
  | lose (i : ι)
  /-- A step of the server. -/
  | server (action : ServerAction ι)
  /-- A frame of the WebSocket library on a link. -/
  | control (i : ι) (toServer : Bool) (frame : Frame)

/-- Frames without a payload. -/
def Frame.isControl : Frame → Bool
  | .ping | .pong | .close => true
  | .text _ | .binary _ => false

/-! ### Steps -/

/-- `SignalingClient::connect`: the tasks are spawned, and the `Register` message is sent. -/
def Client.connect (client : Client ι) (peerId : String) : Client ι :=
  { client with
    connected := true
    outbound := [.register peerId]
    writer := .running
    reader := true }

/-- `SignalingClient::send`. -/
def Client.send (client : Client ι) (message : SignalMessage) : Client ι :=
  { client with
    sent := client.sent ++ [message]
    outbound := if client.writer = .done then client.outbound else client.outbound ++ [message] }

/-- The reader task, with a frame. -/
def Client.read (codec : Codec) (client : Client ι) (packet : Packet ι) : Client ι :=
  match packet.frame.reads codec with
  | some message =>
    if client.dropped then { client with reader := false }
    else { client with inbound := client.inbound ++ [(packet.origin, message)] }
  | none => if packet.frame = .close then { client with reader := false } else client

variable [DecidableEq ι]

/-- Change one client. -/
def Network.updateClient (net : Network ι) (i : ι) (client : Client ι) : Network ι :=
  { net with clients := Function.update net.clients i client }

/-- A step of the server: it takes the frames it reads from the link, and puts those it sends on the
link back. -/
def Network.serverStep (codec : Codec) (net : Network ι) (action : ServerAction ι) :
    Option (Network ι) :=
  match action with
  | .receive i (.frame frame) =>
    match net.up i with
    | head :: rest =>
      if head = frame then
        (Signaling.serverStep codec net.server action).map fun server =>
          { net with server, up := Function.update net.up i rest }
      else none
    | [] => none
  | .transmit i true =>
    match (net.server.connections i).queue with
    | packet :: _ =>
      (Signaling.serverStep codec net.server action).map fun server =>
        { net with server, down := Function.update net.down i (net.down i ++ [packet]) }
    | [] => none
  | _ => (Signaling.serverStep codec net.server action).map fun server => { net with server }

/-- A step of the network; `ids` are the ids that the clients register with. -/
def networkStep (codec : Codec) (ids : ι → String) (net : Network ι) :
    NetworkAction ι → Option (Network ι)
  | .connect i =>
    let client := net.clients i
    if client.connected then none else some (net.updateClient i (client.connect (ids i)))
  | .send i message =>
    let client := net.clients i
    if client.connected ∧ ¬ client.dropped then some (net.updateClient i (client.send message))
    else none
  | .recv i =>
    let client := net.clients i
    match client.inbound with
    | item :: rest =>
      if client.dropped then none
      else some (net.updateClient i
        { client with inbound := rest, received := client.received ++ [item] })
    | [] => none
  | .drop i =>
    let client := net.clients i
    if client.connected then some (net.updateClient i { client with dropped := true, inbound := [] })
    else none
  | .write i works =>
    let client := net.clients i
    match client.writer, client.outbound with
    | .running, message :: rest =>
      match codec.encode message with
      | none => some (net.updateClient i { client with outbound := rest })
      | some text =>
        if works then
          some { net.updateClient i { client with outbound := rest } with
            up := Function.update net.up i (net.up i ++ [.text text]) }
        else some (net.updateClient i { client with outbound := rest, writer := .closing })
    | _, _ => none
  | .finish i =>
    let client := net.clients i
    if client.writer = .running ∧ client.outbound = [] ∧ client.dropped then
      some (net.updateClient i { client with writer := .closing })
    else none
  | .close i works =>
    let client := net.clients i
    if client.writer = .closing then
      some { net.updateClient i { client with writer := .done, outbound := [] } with
        up := if works then Function.update net.up i (net.up i ++ [.close]) else net.up }
    else none
  | .read i =>
    let client := net.clients i
    match net.down i with
    | packet :: rest =>
      if client.reader then
        some { net.updateClient i (client.read codec packet) with
          down := Function.update net.down i rest }
      else none
    | [] => none
  | .lose i =>
    let client := net.clients i
    if client.reader then some (net.updateClient i { client with reader := false }) else none
  | .server action => net.serverStep codec action
  | .control i toServer frame =>
    if frame.isControl then
      if toServer then some { net with up := Function.update net.up i (net.up i ++ [frame]) }
      else some { net with down := Function.update net.down i (net.down i ++ [⟨none, frame⟩]) }
    else none

/-- A new server, and clients that have not connected. -/
structure Network.Initial (net : Network ι) : Prop where
  server : net.server.Initial
  clients : ∀ i, net.clients i = ⟨false, false, [], .done, false, [], [], []⟩
  up : ∀ i, net.up i = []
  down : ∀ i, net.down i = []

/-- The network of clients that register with the given ids. -/
def networkMachine (codec : Codec) (ids : ι → String) : Machine (Network ι) (NetworkAction ι) :=
  ⟨Network.Initial, networkStep codec ids⟩

end SendRs.Signaling
