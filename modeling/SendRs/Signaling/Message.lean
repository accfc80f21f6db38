/-
**The messages of the signaling protocol.**

`SignalMessage` with its target, the frames of a WebSocket, and the codec that turns messages into the
text of frames (`serde_json`), which is a parameter of the model: `Codec.Faithful` is what is assumed
of it. `jsonCodec` is one such codec: it writes the JSON that `serde` writes for the messages, and reads
exactly that (`jsonCodec_faithful`).
-/

import SendRs.Library.Json
import SendRs.Os.Text

namespace SendRs.Signaling

/-- `SignalMessage`. -/
inductive SignalMessage where
  | register (peerId : String)
  | offer («from» «to» sdp : String)
  | answer («from» «to» sdp : String)
  | candidate («from» «to» candidate : String)
  | punchResult («from» «to» : String) (success : Bool) (reason : Option String)
  | disconnect («from» «to» : String) (reason : Option String)
  | error (message : String)
deriving DecidableEq

/-- `target_peer`. -/
def SignalMessage.targetPeer : SignalMessage → Option String
  | .offer _ target _ | .answer _ target _ | .candidate _ target _ | .punchResult _ target _ _
  | .disconnect _ target _ => some target
  | .register _ | .error _ => none

/-- `Message`, a frame of a WebSocket. -/
inductive Frame where
  | text (body : String)
  | binary (body : Bytes)
  | ping
  | pong
  | close
deriving DecidableEq

/-- `serde_json` on messages: `to_string`, `from_str` and `from_slice`. -/
structure Codec where
  encode : SignalMessage → Option String
  decode : String → Except String SignalMessage
  decodeBytes : Bytes → Except String SignalMessage

/-- Every message is written, and what is written is read back. -/
structure Codec.Faithful (codec : Codec) : Prop where
  encodes : ∀ message, (codec.encode message).isSome = true
  decodes : ∀ message text, codec.encode message = some text → codec.decode text = .ok message

/-- The message that the reader task of a client finds in a frame. -/
def Frame.reads (codec : Codec) : Frame → Option SignalMessage
  | .text body => (codec.decode body).toOption
  | .binary bytes => (codec.decodeBytes bytes).toOption
  | .ping | .pong | .close => none

/-! ### JSON -/

/-- The members of a message, in the order of its fields; the tag is the name of the variant in snake
case. -/
def SignalMessage.members : SignalMessage → List (String × Json.Value)
  | .register peerId => [("type", .string "register"), ("peer_id", .string peerId)]
  | .offer source target sdp =>
    [("type", .string "offer"), ("from", .string source), ("to", .string target),
      ("sdp", .string sdp)]
  | .answer source target sdp =>
    [("type", .string "answer"), ("from", .string source), ("to", .string target),
      ("sdp", .string sdp)]
  | .candidate source target address =>
    [("type", .string "candidate"), ("from", .string source), ("to", .string target),
      ("candidate", .string address)]
  | .punchResult source target success reason =>
    [("type", .string "punch_result"), ("from", .string source), ("to", .string target),
      ("success", .bool success), ("reason", reason.elim .null .string)]
  | .disconnect source target reason =>
    [("type", .string "disconnect"), ("from", .string source), ("to", .string target),
      ("reason", reason.elim .null .string)]
  | .error message => [("type", .string "error"), ("message", .string message)]

/-- A string or null. -/
def optional : Json.Value → Option (Option String)
  | .string s => some (some s)
  | .null => some none
  | .bool _ => none

/-- The message with these members. -/
def SignalMessage.ofMembers : List (String × Json.Value) → Option SignalMessage
  | [("type", .string "register"), ("peer_id", .string peerId)] => some (.register peerId)
  | [("type", .string "offer"), ("from", .string source), ("to", .string target),
      ("sdp", .string sdp)] => some (.offer source target sdp)
  | [("type", .string "answer"), ("from", .string source), ("to", .string target),
      ("sdp", .string sdp)] => some (.answer source target sdp)
  | [("type", .string "candidate"), ("from", .string source), ("to", .string target),
      ("candidate", .string address)] => some (.candidate source target address)
  | [("type", .string "punch_result"), ("from", .string source), ("to", .string target),
      ("success", .bool success), ("reason", reason)] =>
    (optional reason).map (.punchResult source target success)
  | [("type", .string "disconnect"), ("from", .string source), ("to", .string target),
      ("reason", reason)] => (optional reason).map (.disconnect source target)
  | [("type", .string "error"), ("message", .string message)] => some (.error message)
  | _ => none

/-- The JSON that `serde` writes for the messages, and a reader of exactly that. -/
def jsonCodec : Codec where
  encode message := some (Json.write message.members)
  decode text :=
    match (Json.read text).bind SignalMessage.ofMembers with
    | some message => .ok message
    | none => .error "unexpected payload"
  decodeBytes bytes :=
    match (toStr bytes).bind fun text => (Json.read text).bind SignalMessage.ofMembers with
    | some message => .ok message
    | none => .error "unexpected payload"

theorem ofMembers_members (message : SignalMessage) :
    SignalMessage.ofMembers message.members = some message := by
  cases message with
  | punchResult source target success reason => cases reason <;> rfl
  | disconnect source target reason => cases reason <;> rfl
  | _ => rfl

theorem members_ne_nil (message : SignalMessage) :
    ∃ member members, message.members = member :: members := by
  cases message <;> exact ⟨_, _, rfl⟩

theorem jsonCodec_faithful : jsonCodec.Faithful where
  encodes _ := rfl
  decodes message text written := by
    obtain ⟨member, members, shape⟩ := members_ne_nil message
    have back : (Json.read text).bind SignalMessage.ofMembers = some message := by
      rw [← Option.some.inj written, shape, Json.read_write, ← shape, Option.bind_some,
        ofMembers_members]
    simp [jsonCodec, back]

end SendRs.Signaling
