/-
**The chat history.**

`append_message` inserts a row with the time in seconds, `list_messages` selects rows of one peer by time
and id, the latest first, cuts them to the limit and turns them around. The limit is cast to a signed
integer, and SQLite takes a negative limit for none.

Result: `listMessages_tail`. After any calls of `append_message` whose clock never goes back, a listing has
the last messages that were appended for its peer.
-/

import Mathlib.Algebra.Ring.Nat
import Mathlib.Data.List.DropRight
import Mathlib.Data.List.Induction
import SendRs.Library.SqlTable

namespace SendRs.Chat

open SqlTable

/-! ### Times and directions -/

/-- The first second of `DateTime<Utc>`. -/
def minTimestamp : Int := -8334601228800

/-- The last one. -/
def maxTimestamp : Int := 8210266876799

/-- `DateTime<Utc>`, of seconds since 1970 and nanoseconds. -/
structure DateTime where
  timestamp : Int
  nanos : Nat
  inRange : minTimestamp ≤ timestamp ∧ timestamp ≤ maxTimestamp
deriving DecidableEq

/-- The time that was read first, or the same. -/
instance : LE DateTime where
  le first second := first.timestamp < second.timestamp ∨
    (first.timestamp = second.timestamp ∧ first.nanos ≤ second.nanos)

instance (first second : DateTime) : Decidable (first ≤ second) := inferInstanceAs (Decidable (_ ∨ _))

/-- `DateTime::from_timestamp(ts, 0)`. -/
def DateTime.fromTimestamp (ts : Int) : Option DateTime :=
  if inRange : minTimestamp ≤ ts ∧ ts ≤ maxTimestamp then some ⟨ts, 0, inRange⟩ else none

/-- The time without its nanoseconds. -/
def DateTime.truncated (time : DateTime) : DateTime := { time with nanos := 0 }

/-- `ChatDirection`. -/
inductive ChatDirection where
  | incoming
  | outgoing
deriving DecidableEq

/-- `direction_to_str`. -/
def directionToStr : ChatDirection → String
  | .incoming => "incoming"
  | .outgoing => "outgoing"

/-- `str::eq_ignore_ascii_case`. -/
def eqIgnoreAsciiCase (first second : String) : Bool :=
  first.toList.map Char.toLower == second.toList.map Char.toLower

/-- `str_to_direction`. -/
def strToDirection (raw : String) : ChatDirection :=
  if eqIgnoreAsciiCase raw "incoming" then .incoming else .outgoing

/-! ### The store -/

/-- `ChatMessage`. -/
structure ChatMessage where
  id : Int
  peerId : String
  direction : ChatDirection
  body : String
  sentAt : DateTime
deriving DecidableEq

/-- The columns of `chat_messages` but the id. -/
structure Columns where
  peerId : String
  direction : String
  body : String
  sentAt : Int
deriving DecidableEq

/-- `ChatStore`: the table behind the connection. -/
abbrev ChatStore := Table Columns

/-- What a call of `append_message` reads: the clock, and whether the statement fails, with the number of
ids it then uses up. -/
structure AppendTurn where
  now : DateTime
  failed : Option Nat
deriving DecidableEq

/-- `append_message`. -/
def appendMessage (store : ChatStore) (peerId : String) (direction : ChatDirection) (body : String)
    (turn : AppendTurn) : Except String ChatMessage × ChatStore :=
  match turn.failed with
  | some skipped => (.error "insert chat message", store.skip skipped)
  | none =>
    match store.insert ⟨peerId, directionToStr direction, body, turn.now.timestamp⟩ with
    | none => (.error "insert chat message", store)
    | some (id, store) => (.ok ⟨id, peerId, direction, body, turn.now⟩, store)

/-- The step of `list_messages` that may fail. -/
inductive ListStep where
  | prepareQuery
  | queryMessages
  | collectMessages
deriving DecidableEq

/-- The context of its error. -/
def ListStep.context : ListStep → String
  | prepareQuery => "prepare query"
  | queryMessages => "query messages"
  | collectMessages => "collect messages"

/-- What a call of `list_messages` reads: the clock when a row is read, and the step that fails. -/
structure ListTurn where
  clock : Int → DateTime
  failed : Option ListStep

/-- A row of the query as a message. -/
def messageOf (clock : Int → DateTime) (row : Row Columns) : ChatMessage where
  id := row.rowid
  peerId := row.values.peerId
  direction := strToDirection row.values.direction
  body := row.values.body
  sentAt := (DateTime.fromTimestamp row.values.sentAt).getD (clock row.rowid)

/-- `limit as i64`. -/
def castLimit (limit : UInt64) : Int := limit.toInt64.toInt

/-- `list_messages`. -/
def listMessages (store : ChatStore) (peerId : String) (limit : UInt64) (turn : ListTurn) :
    Except String (List ChatMessage) :=
  match turn.failed with
  | some step => .error step.context
  | none =>
    let out := (store.latest (fun columns => columns.peerId = peerId) Columns.sentAt
      (castLimit limit)).map (messageOf turn.clock)
    .ok out.reverse

/-! ### What is appended -/

/-- A call of `append_message`. -/
structure AppendCall where
  peerId : String
  direction : ChatDirection
  body : String
  turn : AppendTurn
deriving DecidableEq

/-- A run of calls: the messages that were returned, and the store. -/
def appendAll (store : ChatStore) : List AppendCall → List ChatMessage × ChatStore
  | [] => ([], store)
  | call :: calls =>
    let appended := appendMessage store call.peerId call.direction call.body call.turn
    let rest := appendAll appended.2 calls
    (appended.1.toOption.toList ++ rest.1, rest.2)

/-- The row of a message. -/
def ChatMessage.row (message : ChatMessage) : Row Columns :=
  ⟨message.id, message.peerId, directionToStr message.direction, message.body,
    message.sentAt.timestamp⟩

/-- The message without the nanoseconds of its time. -/
def ChatMessage.truncated (message : ChatMessage) : ChatMessage :=
  { message with sentAt := message.sentAt.truncated }

/-- A direction is read back as it was written. -/
theorem strToDirection_directionToStr (direction : ChatDirection) :
    strToDirection (directionToStr direction) = direction := by
  cases direction with
  | incoming => decide
  | outgoing => decide

/-- **A message is read back** from its row, without the nanoseconds. -/
theorem messageOf_row (clock : Int → DateTime) (message : ChatMessage) :
    messageOf clock message.row = message.truncated := by
  have time : DateTime.fromTimestamp message.sentAt.timestamp = some message.sentAt.truncated :=
    dif_pos message.sentAt.inRange
  simp only [messageOf, ChatMessage.row, strToDirection_directionToStr, time, Option.getD_some,
    ChatMessage.truncated]

/-- The times of messages never fall in seconds if they never fall. -/
theorem timestamp_le {first second : DateTime} (before : first ≤ second) :
    first.timestamp ≤ second.timestamp := by
  rcases before with less | ⟨same, _⟩
  · exact Int.le_of_lt less
  · exact Int.le_of_eq same

section Append

variable {store : ChatStore} {call : AppendCall} {calls : List AppendCall}

/-- **One call** adds the row of the message that it returns, and no row if it fails. -/
theorem rows_appendMessage {peerId body : String} {direction : ChatDirection} {turn : AppendTurn} :
    (appendMessage store peerId direction body turn).2.rows = store.rows ++
      ((appendMessage store peerId direction body turn).1.toOption.toList.map ChatMessage.row) := by
  unfold appendMessage
  cases turn.failed with
  | some skipped => exact (List.append_nil _).symm
  | none =>
    cases inserted : store.insert ⟨peerId, directionToStr direction, body, turn.now.timestamp⟩ with
    | none => exact (List.append_nil _).symm
    | some result => exact Table.rows_insert inserted

/-- A message has the clock of the call that it was appended by. -/
theorem sentAt_appendMessage (store : ChatStore) (peerId : String) (direction : ChatDirection)
    (body : String) (turn : AppendTurn) :
    ∀ message ∈ (appendMessage store peerId direction body turn).1.toOption,
      message.sentAt = turn.now := by
  unfold appendMessage
  cases turn.failed with
  | some skipped =>
    intro message isMessage
    cases isMessage
  | none =>
    cases store.insert ⟨peerId, directionToStr direction, body, turn.now.timestamp⟩ with
    | none =>
      intro message isMessage
      cases isMessage
    | some result =>
      intro message isMessage
      obtain rfl := Option.some.inj isMessage
      rfl

/-- **A run of calls** adds the rows of the messages that it returns. -/
theorem rows_appendAll :
    (appendAll store calls).2.rows = store.rows ++ (appendAll store calls).1.map ChatMessage.row := by
  induction calls generalizing store with
  | nil => exact (List.append_nil _).symm
  | cons call calls ih =>
    rw [appendAll]
    dsimp only
    rw [ih, rows_appendMessage, List.map_append, List.append_assoc]

/-- The messages have the clocks of the calls, in order. -/
theorem sentAt_appendAll (store : ChatStore) (calls : List AppendCall) :
    ((appendAll store calls).1.map ChatMessage.sentAt).Sublist (calls.map fun call => call.turn.now) := by
  induction calls generalizing store with
  | nil => exact List.Sublist.refl _
  | cons call calls ih =>
    rw [appendAll]
    dsimp only
    rw [List.map_append, List.map_cons]
    have first := sentAt_appendMessage store call.peerId call.direction call.body call.turn
    cases appended : (appendMessage store call.peerId call.direction call.body call.turn).1.toOption with
    | none => exact (ih _).cons _
    | some message =>
      rw [appended] at first
      rw [← first message rfl]
      exact (ih _).cons_cons _

end Append

/-! ### What is listed -/

/-- The cast makes the limits from 2⁶³ on negative. -/
theorem castLimit_eq (limit : UInt64) :
    castLimit limit = if limit.toNat < 2 ^ 63 then (limit.toNat : Int) else limit.toNat - 2 ^ 64 := by
  have cast : castLimit limit = limit.toBitVec.toInt := rfl
  rw [cast, BitVec.toInt_eq_toNat_cond]
  have small : limit.toBitVec.toNat = limit.toNat := rfl
  rw [small]
  split
  · rw [if_pos (by omega)]
  · rw [if_neg (by omega)]
    rfl

/-- **The cut keeps the last rows**, since there are never so many that a limit becomes negative that is
not above their number. -/
theorem reverse_limitTo {rows : List (Row Columns)} (limit : UInt64)
    (count : (rows.length : Int) ≤ maxRowid) :
    (limitTo (castLimit limit) rows.reverse).reverse = rows.rtake limit.toNat := by
  have bound : limit.toNat < 2 ^ 64 := limit.toNat_lt
  rw [limitTo, castLimit_eq]
  by_cases small : limit.toNat < 2 ^ 63
  · rw [if_pos small, if_neg (by omega), List.rtake_eq_reverse_take_reverse, Int.toNat_natCast]
  · rw [if_neg small, if_pos (by omega), List.reverse_reverse, List.rtake]
    unfold maxRowid at count
    rw [Nat.sub_eq_zero_of_le (by omega), List.drop_zero]

theorem rtake_map {α β : Type} (f : α → β) (l : List α) (n : Nat) :
    (l.map f).rtake n = (l.rtake n).map f := by
  rw [List.rtake, List.rtake, List.length_map, List.map_drop]

theorem rtake_min_length {α : Type} (l : List α) (n : Nat) : l.rtake (min n l.length) = l.rtake n := by
  rw [List.rtake, List.rtake]
  congr 1
  omega

/-- **A listing is the tail of the conversation.** -/
theorem listMessages_tail (calls : List AppendCall)
    (clocks : calls.Pairwise fun first second => first.turn.now ≤ second.turn.now) (peerId : String)
    (limit : UInt64) (clock : Int → DateTime) :
    let appended := appendAll Table.empty calls
    let ofPeer := appended.1.filter fun message => message.peerId = peerId
    listMessages appended.2 peerId limit ⟨clock, none⟩ =
      .ok ((ofPeer.rtake (min limit.toNat ofPeer.length)).map ChatMessage.truncated) := by
  intro appended ofPeer
  have rows : appended.2.rows = appended.1.map ChatMessage.row := rows_appendAll
  have ranked : appended.2.rows.Pairwise fun first second =>
      first.values.sentAt ≤ second.values.sentAt := by
    have times := (List.pairwise_map.mpr clocks).sublist (sentAt_appendAll Table.empty calls)
    rw [rows]
    exact List.pairwise_map.mpr ((List.pairwise_map.mp times).imp timestamp_le)
  have kept : (appended.2.rows.filter fun row => decide (row.values.peerId = peerId)) =
      ofPeer.map ChatMessage.row := by
    rw [rows, List.filter_map]
    rfl
  have count : ((ofPeer.map ChatMessage.row).length : Int) ≤ maxRowid := by
    have all := appended.2.length_le
    have fewer := List.length_filter_le (fun row : Row Columns => decide (row.values.peerId = peerId))
      appended.2.rows
    rw [kept] at fewer
    omega
  show Except.ok _ = _
  rw [Table.latest_eq _ _ _ ranked, kept, ← List.map_reverse, reverse_limitTo limit count, rtake_map,
    List.map_map, rtake_min_length]
  exact congrArg Except.ok (List.map_congr_left fun message _ => messageOf_row clock message)

/-- Two conversations, with messages in one second, and a statement that fails and uses up an id. -/
def sampleCalls : List AppendCall :=
  [⟨"a", .outgoing, "one", ⟨⟨5, 900, by decide⟩, none⟩⟩,
    ⟨"b", .incoming, "two", ⟨⟨5, 950, by decide⟩, none⟩⟩,
    ⟨"a", .incoming, "lost", ⟨⟨5, 960, by decide⟩, some 1⟩⟩,
    ⟨"a", .incoming, "three", ⟨⟨5, 970, by decide⟩, none⟩⟩,
    ⟨"a", .outgoing, "four", ⟨⟨7, 0, by decide⟩, none⟩⟩]

/-- The last two messages of `a`, and with a limit above the signed ones all of them. -/
theorem listMessages_tail_sample :
    listMessages (appendAll Table.empty sampleCalls).2 "a" 2 ⟨fun _ => ⟨9, 0, by decide⟩, none⟩ =
        .ok [⟨4, "a", .incoming, "three", ⟨5, 0, by decide⟩⟩,
          ⟨5, "a", .outgoing, "four", ⟨7, 0, by decide⟩⟩] ∧
      listMessages (appendAll Table.empty sampleCalls).2 "a" 18446744073709551615
          ⟨fun _ => ⟨9, 0, by decide⟩, none⟩ =
        .ok [⟨1, "a", .outgoing, "one", ⟨5, 0, by decide⟩⟩,
          ⟨4, "a", .incoming, "three", ⟨5, 0, by decide⟩⟩,
          ⟨5, "a", .outgoing, "four", ⟨7, 0, by decide⟩⟩] := by
  have tail := listMessages_tail sampleCalls (by decide) "a"
  exact ⟨(tail 2 _).trans (by decide +kernel), (tail 18446744073709551615 _).trans (by decide +kernel)⟩

end SendRs.Chat
