/-
**What one step of the server can do.**

`ServerMove` lists the moves of the server, one constructor for each branch of `serverStep`, and
`serverMove_of_step` says that a step is one of them. From the moves: what a step does to the places of
the connections (`place_after`), to the registry (`registry_after`), and to the channels when it reads
a message with a target (`queue_of_found`, `queue_of_missing`).
-/

import SendRs.Signaling.Server

namespace SendRs.Signaling

variable {ι : Type}

/-! ### The pieces of a step -/

section Update

variable [DecidableEq ι] (server : Server ι) (i : ι) (change : Connection ι → Connection ι)

@[simp, grind =]
theorem update_connections (j : ι) : (server.update i change).connections j =
    if j = i then change (server.connections i) else server.connections j := by
  simp [Server.update, Function.update_apply]

@[simp, grind =]
theorem update_peers : (server.update i change).peers = server.peers := rfl

@[simp, grind =]
theorem update_registers : (server.update i change).registers = server.registers := rfl

@[simp, grind =]
theorem update_heard : (server.update i change).heard = server.heard := rfl

@[simp, grind =]
theorem update_relayed : (server.update i change).relayed = server.relayed := rfl

@[simp, grind =]
theorem register_connections (peerId : String) (j : ι) :
    (server.register i peerId).connections j =
      if j = i then { server.connections i with registeredPeer := some peerId }
      else server.connections j :=
  update_connections server i (fun connection => { connection with registeredPeer := some peerId }) j

@[simp, grind =]
theorem forward_connections (b j : ι) (message : SignalMessage) (payload : String) :
    (server.forward i b message payload).connections j =
      if j = b then (server.connections b).push ⟨some i, .text payload⟩ else server.connections j :=
  update_connections server b _ j

@[simp, grind =]
theorem hear_connections (message : SignalMessage) :
    (server.hear i message).connections = server.connections := rfl

@[simp, grind =]
theorem unregister_connections (j : ι) : (server.unregister i).connections j =
    if j = i then { server.connections i with place := .closing } else server.connections j :=
  update_connections server i (fun connection => { connection with place := .closing }) j

@[simp, grind =]
theorem hear_heard (message : SignalMessage) (j : ι) : (server.hear i message).heard j =
    if j = i then server.heard i ++ [message] else server.heard j := by
  simp [Server.hear, Function.update_apply]

@[simp, grind =]
theorem forward_relayed (b j : ι) (message : SignalMessage) (payload : String) :
    (server.forward i b message payload).relayed j =
      if j = b ∧ (server.connections b).senderTask = true then server.relayed b ++ [(i, message)]
      else server.relayed j := by
  unfold Server.forward
  grind [Function.update_apply]

/-- Only the remembered id is removed. -/
theorem unregister_peers (peerId : String) : (server.unregister i).peers peerId =
    if (server.connections i).registeredPeer = some peerId then none else server.peers peerId := by
  unfold Server.unregister
  cases remembered : (server.connections i).registeredPeer with
  | none => simp
  | some registered =>
    by_cases same : peerId = registered
    · simp [same]
    · simp [same, Ne.symm same]

end Update

section Push

variable (connection : Connection ι) (packet : Packet ι)

@[simp, grind =]
theorem push_place : (connection.push packet).place = connection.place := by
  unfold Connection.push
  split <;> rfl

@[simp, grind =]
theorem push_registeredPeer :
    (connection.push packet).registeredPeer = connection.registeredPeer := by
  unfold Connection.push
  split <;> rfl

@[simp, grind =]
theorem push_senderTask : (connection.push packet).senderTask = connection.senderTask := by
  unfold Connection.push
  split <;> rfl

theorem push_queue (runs : connection.senderTask = true) :
    (connection.push packet).queue = connection.queue ++ [packet] := by
  simp [Connection.push, runs]

end Push

/-! ### The moves -/

/-- The frame ends the loop. -/
def Incoming.ends : Incoming → Bool
  | .failed | .finished | .frame .close => true
  | .frame _ => false

/-- The message in what is read. -/
def Incoming.signal (codec : Codec) : Incoming → Option (Except String SignalMessage)
  | .frame body => body.signal codec
  | .failed | .finished => none

/-- The message that is read. -/
def Incoming.message (codec : Codec) (incoming : Incoming) : Option SignalMessage :=
  match incoming.signal codec with
  | some (.ok message) => some message
  | _ => none

theorem message_of_signal {codec : Codec} {incoming : Incoming} {message : SignalMessage}
    (signal : incoming.signal codec = some (.ok message)) :
    incoming.message codec = some message := by
  simp [Incoming.message, signal]

variable [DecidableEq ι] {codec : Codec}

/-- The moves of the server. -/
inductive ServerMove (codec : Codec) (server : Server ι) : ServerAction ι → Server ι → Prop
  | accept (i : ι) (fresh : (server.connections i).place = .unopened) :
    ServerMove codec server (.accept i) (server.update i fun _ => ⟨.reading, none, true, []⟩)
  | leave (i : ι) (incoming : Incoming) (reads : (server.connections i).place = .reading)
      (ends : incoming.ends = true) : ServerMove codec server (.receive i incoming)
      (server.update i fun connection => { connection with place := .leaving })
  | skip (i : ι) (incoming : Incoming) (reads : (server.connections i).place = .reading)
      (empty : incoming.signal codec = none) : ServerMove codec server (.receive i incoming) server
  | refuse (i : ι) (incoming : Incoming) (err : String)
      (reads : (server.connections i).place = .reading)
      (invalid : incoming.signal codec = some (.error err)) :
    ServerMove codec server (.receive i incoming)
      (server.update i fun connection => connection.push (invalidPayload codec err))
  | register (i : ι) (incoming : Incoming) (peerId : String)
      (reads : (server.connections i).place = .reading)
      (signal : incoming.signal codec = some (.ok (.register peerId))) :
    ServerMove codec server (.receive i incoming)
      ((server.hear i (.register peerId)).register i peerId)
  | ignore (i : ι) (incoming : Incoming) (message : SignalMessage)
      (reads : (server.connections i).place = .reading)
      (signal : incoming.signal codec = some (.ok message))
      (untargeted : message.targetPeer = none) :
    ServerMove codec server (.receive i incoming) (server.hear i message)
  | answer (i : ι) (incoming : Incoming) (message : SignalMessage) (target : String)
      (reads : (server.connections i).place = .reading)
      (signal : incoming.signal codec = some (.ok message))
      (targeted : message.targetPeer = some target) (missing : server.peers target = none) :
    ServerMove codec server (.receive i incoming) ((server.hear i message).update i
      fun connection => connection.push (targetNotConnected codec target))
  | drop (i : ι) (incoming : Incoming) (message : SignalMessage) (target : String)
      (reads : (server.connections i).place = .reading)
      (signal : incoming.signal codec = some (.ok message))
      (targeted : message.targetPeer = some target) (unencoded : codec.encode message = none) :
    ServerMove codec server (.receive i incoming) (server.hear i message)
  | forward (i b : ι) (incoming : Incoming) (message : SignalMessage) (target payload : String)
      (reads : (server.connections i).place = .reading)
      (signal : incoming.signal codec = some (.ok message))
      (targeted : message.targetPeer = some target) (found : server.peers target = some b)
      (encoded : codec.encode message = some payload) :
    ServerMove codec server (.receive i incoming)
      ((server.hear i message).forward i b message payload)
  | unregister (i : ι) (leaves : (server.connections i).place = .leaving) :
    ServerMove codec server (.unregister i) (server.unregister i)
  | abort (i : ι) (closes : (server.connections i).place = .closing) :
    ServerMove codec server (.abort i)
      (server.update i fun connection => { connection.mute with place := .ended })
  | transmit (i : ι) (packet : Packet ι) (rest : List (Packet ι))
      (next : (server.connections i).queue = packet :: rest) :
    ServerMove codec server (.transmit i true)
      (server.update i fun connection => { connection with queue := rest })
  | breaks (i : ι) (packet : Packet ι) (rest : List (Packet ι))
      (next : (server.connections i).queue = packet :: rest) :
    ServerMove codec server (.transmit i false) (server.update i Connection.mute)

/-- The message that is read is registered, relayed, answered or ignored. -/
theorem move_of_signal {server : Server ι} {i : ι} {incoming : Incoming} {message : SignalMessage}
    (reads : (server.connections i).place = .reading)
    (signal : incoming.signal codec = some (.ok message)) :
    ServerMove codec server (.receive i incoming)
      ((server.hear i message).handleSignal codec i message) := by
  have relayed : ServerMove codec server (.receive i incoming)
      ((server.hear i message).relay codec i message) := by
    unfold Server.relay
    split
    case h_1 untargeted => exact .ignore i incoming message reads signal untargeted
    case h_2 target targeted =>
      split
      case h_1 missing => exact .answer i incoming message target reads signal targeted missing
      case h_2 b found =>
        split
        case h_1 unencoded => exact .drop i incoming message target reads signal targeted unencoded
        case h_2 payload encoded =>
          exact .forward i b incoming message target payload reads signal targeted found encoded
  cases message with
  | register peerId => exact .register i incoming peerId reads signal
  | _ => exact relayed

/-- A step of the server is one of the moves. -/
theorem serverMove_of_step {server server' : Server ι} {action : ServerAction ι}
    (step : serverStep codec server action = some server') :
    ServerMove codec server action server' := by
  cases action with
  | accept i =>
    obtain ⟨fresh, same⟩ := Option.ite_none_right_eq_some.mp step
    obtain rfl := Option.some.inj same
    exact .accept i fresh
  | receive i incoming =>
    obtain ⟨reads, same⟩ := Option.ite_none_right_eq_some.mp step
    obtain rfl := Option.some.inj same
    unfold Server.receive
    split
    case h_1 | h_2 | h_3 => exact .leave i _ reads rfl
    case h_4 frame _ =>
      split
      case h_1 empty => exact .skip i _ reads empty
      case h_2 err invalid => exact .refuse i _ err reads invalid
      case h_3 message signal => exact move_of_signal reads signal
  | unregister i =>
    obtain ⟨leaves, same⟩ := Option.ite_none_right_eq_some.mp step
    obtain rfl := Option.some.inj same
    exact .unregister i leaves
  | abort i =>
    obtain ⟨closes, same⟩ := Option.ite_none_right_eq_some.mp step
    obtain rfl := Option.some.inj same
    exact .abort i closes
  | transmit i works =>
    simp only [serverStep] at step
    split at step
    case h_1 => cases step
    case h_2 packet rest next =>
      obtain rfl := Option.some.inj step
      cases works with
      | true => exact .transmit i packet rest next
      | false => exact .breaks i packet rest next

/-! ### What a move does -/

section Relay

variable {server server' : Server ι} {i : ι} {incoming : Incoming} {message : SignalMessage}
  {target : String}

/-- A message with a target is relayed. -/
theorem step_of_targeted (step : serverStep codec server (.receive i incoming) = some server')
    (reads : incoming.message codec = some message) (targeted : message.targetPeer = some target) :
    server' = (server.hear i message).relay codec i message := by
  obtain ⟨_, same⟩ := Option.ite_none_right_eq_some.mp step
  obtain rfl := Option.some.inj same
  have signal : incoming.signal codec = some (.ok message) := by
    unfold Incoming.message at reads
    grind
  have relays : (server.hear i message).handleSignal codec i message =
      (server.hear i message).relay codec i message := by
    cases message <;> simp_all [SignalMessage.targetPeer, Server.handleSignal]
  unfold Server.receive
  split
  case h_1 | h_2 | h_3 => simp [Incoming.signal, Frame.signal] at signal
  case h_4 frame _ =>
    rw [Incoming.signal] at signal
    simp [signal, relays]

/-- A message whose target is connected is put on its channel. -/
theorem queue_of_found {b : ι} {payload : String}
    (step : serverStep codec server (.receive i incoming) = some server')
    (reads : incoming.message codec = some message) (targeted : message.targetPeer = some target)
    (found : server.peers target = some b) (runs : (server.connections b).senderTask = true)
    (encoded : codec.encode message = some payload) : (server'.connections b).queue =
      (server.connections b).queue ++ [⟨some i, .text payload⟩] := by
  rw [step_of_targeted step reads targeted, Server.relay, targeted]
  simp [Server.hear, found, encoded, push_queue _ _ runs]

/-- A message whose target is not connected is answered. -/
theorem queue_of_missing (step : serverStep codec server (.receive i incoming) = some server')
    (reads : incoming.message codec = some message) (targeted : message.targetPeer = some target)
    (missing : server.peers target = none) (runs : (server.connections i).senderTask = true) :
    (server'.connections i).queue =
      (server.connections i).queue ++ [targetNotConnected codec target] := by
  rw [step_of_targeted step reads targeted, Server.relay, targeted]
  simp [Server.hear, missing, push_queue _ _ runs]

end Relay

section Move

variable {server server' : Server ι} {action : ServerAction ι}

/-- A connection goes from one place to the next one. -/
theorem place_after (move : ServerMove codec server action server') (c : ι) :
    (server'.connections c).place = (server.connections c).place ∨
      ((server.connections c).place = .unopened ∧ (server'.connections c).place = .reading) ∨
      ((server.connections c).place = .reading ∧ (server'.connections c).place = .leaving) ∨
      (action = .unregister c ∧ (server.connections c).place = .leaving ∧
        (server'.connections c).place = .closing) ∨
      ((server.connections c).place = .closing ∧ (server'.connections c).place = .ended) := by
  cases move <;> grind [Connection.mute]

/-- The registry changes with a `Register` message and with the end of a connection. -/
theorem registry_after (move : ServerMove codec server action server') :
    (∃ i, action = .unregister i ∧ (server.connections i).place = .leaving ∧
      server' = server.unregister i) ∨
    (∀ i, action ≠ .unregister i) ∧
      (server'.peers = server.peers ∧ server'.registers = server.registers ∨
        ∃ i peerId, (server.connections i).place = .reading ∧
          (server'.connections i).place = .reading ∧
          server'.peers = Function.update server.peers peerId (some i) ∧
          server'.registers = (peerId, i) :: server.registers) := by
  cases move with
  | register i incoming peerId reads =>
    exact .inr ⟨by simp, .inr ⟨i, peerId, reads, by simp [reads], rfl, rfl⟩⟩
  | unregister i leaves => exact .inl ⟨i, rfl, leaves, rfl⟩
  | _ => exact .inr ⟨by simp, .inl ⟨rfl, rfl⟩⟩

end Move

end SendRs.Signaling
