/-
**What the server does with a message.**

A step of the server reads at most one message (`ServerAction.news`). It is added to what was heard
from its connection (`heard_after`), and put on the channel of its receiver, if there is one
(`relayed_after`); the channels carry what was put on them, in that order, and nothing else is relayed
(`queue_after`).
-/

import SendRs.Signaling.Moves

namespace SendRs.Signaling

variable {ι : Type}

/-- The message that a step of the server reads, with its connection. -/
def ServerAction.news (codec : Codec) : ServerAction ι → List (ι × SignalMessage)
  | .receive i incoming => (incoming.message codec).toList.map fun message => (i, message)
  | _ => []

/-- The connection on whose channel a message is put. -/
def Server.receiver (server : Server ι) (message : SignalMessage) : Option ι :=
  message.targetPeer.bind fun target =>
    (server.peers target).filter fun b => (server.connections b).senderTask

/-- The message that a packet relays, with its origin. -/
def Packet.relays (codec : Codec) (packet : Packet ι) : Option (ι × SignalMessage) :=
  packet.origin.bind fun a => (packet.frame.reads codec).map fun message => (a, message)

/-- The messages on a channel, with their origins. -/
def Connection.carries (codec : Codec) (connection : Connection ι) : List (ι × SignalMessage) :=
  connection.queue.filterMap (Packet.relays codec)

variable {codec : Codec} {server server' : Server ι} {action : ServerAction ι}

theorem news_of_ends {i : ι} {incoming : Incoming} (ends : incoming.ends = true) :
    (ServerAction.receive i incoming).news codec = [] := by
  cases incoming with
  | frame frame => cases frame <;> simp_all [Incoming.ends, ServerAction.news, Incoming.message,
      Incoming.signal, Frame.signal]
  | _ => rfl

theorem news_of_signal {i : ι} {incoming : Incoming} {message : SignalMessage}
    (signal : incoming.signal codec = some (.ok message)) :
    (ServerAction.receive i incoming).news codec = [(i, message)] := by
  simp [ServerAction.news, message_of_signal signal]

variable [DecidableEq ι]

/-- What is heard is added at the end. -/
theorem heard_after (move : ServerMove codec server action server') (a : ι) :
    server'.heard a =
      server.heard a ++ ((action.news codec).filter fun item => item.1 = a).map Prod.snd := by
  have added : ∀ (i : ι) (message : SignalMessage), (server.hear i message).heard a =
      server.heard a ++ (([(i, message)] : List _).filter fun item => item.1 = a).map Prod.snd := by
    intro i message
    by_cases same : a = i
    · simp [same]
    · simp [same, Ne.symm same]
  cases move with
  | leave i incoming reads ends => simp [news_of_ends ends]
  | skip i incoming reads empty => simp [ServerAction.news, Incoming.message, empty]
  | refuse i incoming err reads invalid => simp [ServerAction.news, Incoming.message, invalid]
  | register i incoming peerId reads signal =>
    rw [news_of_signal signal]
    exact added i _
  | ignore i incoming message reads signal | answer i incoming message target reads signal
  | drop i incoming message target reads signal
  | forward i b incoming message target payload reads signal =>
    rw [news_of_signal signal]
    exact added i message
  | _ => simp [ServerAction.news, Server.unregister]

/-- What is put on a channel is added at the end. -/
theorem relayed_after (encodes : ∀ message, (codec.encode message).isSome = true)
    (move : ServerMove codec server action server') (b : ι) :
    server'.relayed b = server.relayed b ++
      (action.news codec).filter fun item => server.receiver item.2 = some b := by
  cases move with
  | leave i incoming reads ends => simp [news_of_ends ends]
  | skip i incoming reads empty => simp [ServerAction.news, Incoming.message, empty]
  | refuse i incoming err reads invalid => simp [ServerAction.news, Incoming.message, invalid]
  | register i incoming peerId reads signal =>
    rw [news_of_signal signal]
    simp [Server.receiver, SignalMessage.targetPeer, Server.register, Server.hear]
  | ignore i incoming message reads signal untargeted =>
    rw [news_of_signal signal]
    simp [Server.receiver, untargeted, Server.hear]
  | answer i incoming message target reads signal targeted missing =>
    rw [news_of_signal signal]
    simp [Server.receiver, targeted, missing, Server.hear]
  | drop i incoming message target reads signal targeted unencoded =>
    simpa [unencoded] using encodes message
  | forward i b' incoming message target payload reads signal targeted found =>
    rw [news_of_signal signal]
    by_cases runs : (server.connections b').senderTask = true
    · have receiver : server.receiver message = some b' := by
        simp [Server.receiver, targeted, found, Option.filter, runs]
      by_cases same : b = b'
      · simp [same, receiver, runs, Server.hear]
      · simp [same, Ne.symm same, receiver, Server.hear]
    · have receiver : server.receiver message = none := by
        simp [Server.receiver, targeted, found, Option.filter, runs]
      simp [receiver, runs, Server.hear]
  | _ => simp [ServerAction.news, Server.unregister]

omit [DecidableEq ι] in
theorem carries_push (connection : Connection ι) (packet : Packet ι) :
    (connection.push packet).carries codec = connection.carries codec ++
      if connection.senderTask then (packet.relays codec).toList else [] := by
  unfold Connection.push Connection.carries
  split
  · cases relays : packet.relays codec <;> simp [relays]
  · simp

/-- **A channel carries what was put on it**, in that order; what a step takes from it or drops is
gone. -/
theorem carries_after (faithful : codec.Faithful)
    (move : ServerMove codec server action server') (b : ι) :
    ((server'.connections b).carries codec).Sublist ((server.connections b).carries codec ++
      (action.news codec).filter fun item => server.receiver item.2 = some b) := by
  have quiet : ((server'.connections b).carries codec).Sublist
      ((server.connections b).carries codec) → ((server'.connections b).carries codec).Sublist
      ((server.connections b).carries codec ++
        (action.news codec).filter fun item => server.receiver item.2 = some b) :=
    fun kept => kept.trans (List.sublist_append_left _ _)
  have answers : ∀ i packet, packet.relays codec = none → Connection.carries codec
      (if b = i then (server.connections i).push packet else server.connections b) =
      (server.connections b).carries codec := by
    intro i packet silent
    by_cases same : b = i
    · simp [same, carries_push, silent]
    · simp [same]
  cases move with
  | forward i b' incoming message target payload reads signal targeted found encoded =>
    rw [news_of_signal signal]
    have relays : (⟨some i, .text payload⟩ : Packet ι).relays codec = some (i, message) := by
      simp [Packet.relays, Frame.reads, faithful.decodes message payload encoded, Except.toOption]
    by_cases same : b = b'
    · subst same
      by_cases runs : (server.connections b).senderTask = true
      · have receiver : server.receiver message = some b := by
          simp [Server.receiver, targeted, found, Option.filter, runs]
        simp [carries_push, relays, receiver, runs]
      · simp [carries_push, runs]
    · simp [same]
  | refuse i incoming err reads invalid =>
    apply quiet
    rw [update_connections, answers i _ rfl]
  | answer i incoming message target reads signal targeted missing =>
    apply quiet
    rw [update_connections, hear_connections, answers i _ rfl]
  | transmit i packet rest next =>
    apply quiet
    by_cases same : b = i
    · subst same
      simpa [Connection.carries, next] using
        ((List.sublist_cons_self packet rest).filterMap (Packet.relays codec))
    · simp [same]
  | accept i | leave i | register i | unregister i | abort i | breaks i =>
    apply quiet
    by_cases same : b = i <;> simp [same, Connection.carries, Connection.mute]
  | skip | ignore | drop => exact quiet (List.Sublist.refl _)

end SendRs.Signaling
