/-
**The signaling server.**

Any number of `handle_socket` tasks with their sender tasks, over the shared registry. A step of a task
runs up to its next wait: the read of a frame with all that follows it is one step, because the lock of
the registry is held from the lookup of a target to the end of the `if let`, and nothing in between
waits. The channels of the connections are unbounded; a channel whose sender task has ended has lost
its receiver, and what is sent to it is dropped.

The server also keeps a history that the program does not have: the `Register` messages, the messages
read from each connection, and what was put on each channel.
-/

import Mathlib.Logic.Function.Basic
import SendRs.Library.Machine
import SendRs.Signaling.Message

namespace SendRs.Signaling

open Machines

variable {ι : Type}

/-! ### State -/

/-- A frame on the way to a client, with the connection whose message it relays. -/
structure Packet (ι : Type) where
  origin : Option ι
  frame : Frame
deriving DecidableEq

/-- Where a `handle_socket` task is. -/
inductive Place where
  | unopened
  /-- `receiver.next()`. -/
  | reading
  /-- After the loop: the removal from the registry, -/
  | leaving
  /-- and the abort of the sender task. -/
  | closing
  | ended
deriving DecidableEq

/-- A connection: its task, `registered_peer`, whether its sender task runs, and its channel. -/
structure Connection (ι : Type) where
  place : Place
  registeredPeer : Option String
  senderTask : Bool
  queue : List (Packet ι)

/-- The server: `peers` with the channels as values, the connections, and the history. -/
structure Server (ι : Type) where
  peers : String → Option ι
  connections : ι → Connection ι
  /-- The `Register` messages, the newest first. -/
  registers : List (String × ι)
  /-- The messages that were read from a connection. -/
  heard : ι → List SignalMessage
  /-- The messages that were put on the channel of a connection, with their origin. -/
  relayed : ι → List (ι × SignalMessage)

/-- What `receiver.next()` returns: a frame, an error, or the end of the stream. -/
inductive Incoming where
  | frame (frame : Frame)
  | failed
  | finished

/-- The connection of the newest `Register` of an id. -/
def Server.lastRegister (server : Server ι) (peerId : String) : Option ι :=
  (server.registers.find? fun entry => entry.1 = peerId).map Prod.snd

/-! ### `handle_socket` -/

/-- `out_tx.send` and `peer_tx.send`. -/
def Connection.push (connection : Connection ι) (packet : Packet ι) : Connection ι :=
  if connection.senderTask then { connection with queue := connection.queue ++ [packet] }
  else connection

/-- The text of an `Error`, or of the fallback. -/
def errorPacket (codec : Codec) (message fallback : String) : Packet ι where
  origin := none
  frame := .text ((codec.encode (.error message)).getD fallback)

def invalidPayload (codec : Codec) (err : String) : Packet ι :=
  errorPacket codec ("invalid payload: " ++ err)
    "\x7b\"type\":\"error\",\"message\":\"invalid payload\"\x7d"

def targetNotConnected (codec : Codec) (target : String) : Packet ι :=
  errorPacket codec ("target peer not connected: " ++ target)
    "\x7b\"type\":\"error\",\"message\":\"target peer not connected\"\x7d"

/-- The message in a frame. -/
def Frame.signal (codec : Codec) : Frame → Option (Except String SignalMessage)
  | .text body => some (codec.decode body)
  | .binary bytes => some (codec.decode (fromUtf8Lossy bytes))
  | .ping | .pong | .close => none

section Steps

variable [DecidableEq ι] (codec : Codec)

/-- Change one connection. -/
def Server.update (server : Server ι) (i : ι) (change : Connection ι → Connection ι) : Server ι :=
  { server with
    connections := Function.update server.connections i (change (server.connections i)) }

/-- `SignalMessage::Register`. -/
def Server.register (server : Server ι) (i : ι) (peerId : String) : Server ι :=
  { server.update i fun connection => { connection with registeredPeer := some peerId } with
    peers := Function.update server.peers peerId (some i)
    registers := (peerId, i) :: server.registers }

/-- `peer_tx.send`. -/
def Server.forward (server : Server ι) (i b : ι) (message : SignalMessage) (payload : String) :
    Server ι :=
  { server.update b fun connection => connection.push ⟨some i, .text payload⟩ with
    relayed := if (server.connections b).senderTask then
        Function.update server.relayed b (server.relayed b ++ [(i, message)])
      else server.relayed }

/-- The messages that are relayed to their target; those without one are ignored. -/
def Server.relay (server : Server ι) (i : ι) (message : SignalMessage) : Server ι :=
  match message.targetPeer with
  | none => server
  | some target =>
    match server.peers target with
    | none => server.update i fun connection => connection.push (targetNotConnected codec target)
    | some b =>
      match codec.encode message with
      | none => server
      | some payload => server.forward i b message payload

/-- The message of a client. -/
def Server.handleSignal (server : Server ι) (i : ι) (message : SignalMessage) : Server ι :=
  match message with
  | .register peerId => server.register i peerId
  | other => server.relay codec i other

/-- A message was read. -/
def Server.hear (server : Server ι) (i : ι) (message : SignalMessage) : Server ι :=
  { server with heard := Function.update server.heard i (server.heard i ++ [message]) }

/-- One round of the loop. -/
def Server.receive (server : Server ι) (i : ι) : Incoming → Server ι
  | .failed | .finished | .frame .close =>
    server.update i fun connection => { connection with place := .leaving }
  | .frame frame =>
    match frame.signal codec with
    | none => server
    | some (.error err) => server.update i fun connection => connection.push (invalidPayload codec err)
    | some (.ok message) => (server.hear i message).handleSignal codec i message

/-- The removal of `registered_peer` from the registry. -/
def Server.unregister (server : Server ι) (i : ι) : Server ι :=
  { server.update i fun connection => { connection with place := .closing } with
    peers := match (server.connections i).registeredPeer with
      | some peerId => Function.update server.peers peerId none
      | none => server.peers }

/-- A step of the server. -/
inductive ServerAction (ι : Type) where
  /-- `handle_socket` is called. -/
  | accept (i : ι)
  | receive (i : ι) (incoming : Incoming)
  | unregister (i : ι)
  /-- `sender_task.abort()`. -/
  | abort (i : ι)
  /-- The sender task sends a frame, which may fail. -/
  | transmit (i : ι) (works : Bool)

/-- The end of a sender task. -/
def Connection.mute (connection : Connection ι) : Connection ι :=
  { connection with senderTask := false, queue := [] }

def serverStep (server : Server ι) : ServerAction ι → Option (Server ι)
  | .accept i =>
    if (server.connections i).place = .unopened then
      some (server.update i fun _ => ⟨.reading, none, true, []⟩)
    else none
  | .receive i incoming =>
    if (server.connections i).place = .reading then some (server.receive codec i incoming) else none
  | .unregister i =>
    if (server.connections i).place = .leaving then some (server.unregister i) else none
  | .abort i =>
    if (server.connections i).place = .closing then
      some (server.update i fun connection => { connection.mute with place := .ended })
    else none
  | .transmit i works =>
    match (server.connections i).queue with
    | [] => none
    | _ :: rest =>
      some (server.update i fun connection =>
        if works then { connection with queue := rest } else connection.mute)

end Steps

/-- A server without connections. -/
structure Server.Initial (server : Server ι) : Prop where
  peers : ∀ peerId, server.peers peerId = none
  connections : ∀ i, server.connections i = ⟨.unopened, none, false, []⟩
  registers : server.registers = []
  heard : ∀ i, server.heard i = []
  relayed : ∀ i, server.relayed i = []

/-- The server, with clients that send what they like. -/
def serverMachine [DecidableEq ι] (codec : Codec) : Machine (Server ι) (ServerAction ι) :=
  ⟨Server.Initial, serverStep codec⟩

/-! ### A sample server -/

/-- Two connections to a server. -/
def sampleServer : Server Bool where
  peers _ := none
  connections _ := ⟨.unopened, none, false, []⟩
  registers := []
  heard _ := []
  relayed _ := []

theorem sampleServer_initial : sampleServer.Initial :=
  ⟨fun _ => rfl, fun _ => rfl, rfl, fun _ => rfl, fun _ => rfl⟩

/-- A text frame with a message. -/
def saying (message : SignalMessage) : Incoming :=
  .frame (.text ((jsonCodec.encode message).getD ""))

def sampleOffer : SignalMessage := .offer "b" "a" "v=0"

end SendRs.Signaling
