/-
**The conversation that the app shows.**

The exported functions share one table of messages, and any of them may fail at any point. What
`list_chat_messages` returns is nevertheless the end of the conversation: of the messages that were
there, followed by the texts for which `send_chat` has reported success, in the order of the calls
(`conversation_listed`).

* `Goes` is what a part of a run does to a device, as far as messages are concerned; it composes
  (`Goes.trans`), and every operation goes without saying anything but `append_message`.
-/

import SendRs.Ffi.Runtime

namespace SendRs.Ffi

open Effect Discovery Chat SqlTable

/-! ### Lines -/

/-- What the user sees of a message. -/
structure Line where
  peerId : String
  direction : ChatDirection
  body : String
deriving DecidableEq

/-- The line of a message. -/
def lineOf (message : ChatMessage) : Line := ⟨message.peerId, message.direction, message.body⟩

/-- The line of a row. -/
def lineOfRow (row : Row Columns) : Line :=
  ⟨row.values.peerId, strToDirection row.values.direction, row.values.body⟩

/-- The conversations with all peers. -/
def linesOf (store : ChatStore) : List Line := store.rows.map lineOfRow

/-- The rows are in the order of their times. -/
def Ranked (store : ChatStore) : Prop :=
  store.rows.Pairwise fun first second => first.values.sentAt ≤ second.values.sentAt

theorem lineOfRow_row (message : ChatMessage) : lineOfRow message.row = lineOf message := by
  simp [lineOfRow, lineOf, ChatMessage.row, strToDirection_directionToStr]

/-- **A listing** has the last lines of its peer, with ascending ids. -/
theorem listMessages_lines {store : ChatStore} (ranked : Ranked store) (peerId : String) (limit : UInt64)
    (clock : Int → DateTime) :
    ∃ messages, Chat.listMessages store peerId limit ⟨clock, none⟩ = .ok messages ∧
      messages.map lineOf = ((linesOf store).filter fun line => line.peerId = peerId).rtake limit.toNat ∧
      messages.Pairwise fun first second => first.id < second.id := by
  have count : ((store.rows.filter fun row => decide (row.values.peerId = peerId)).length : Int) ≤
      maxRowid := by
    have all := store.length_le
    have fewer := List.length_filter_le (fun row : Row Columns => decide (row.values.peerId = peerId))
      store.rows
    omega
  refine ⟨((store.rows.filter fun row => decide (row.values.peerId = peerId)).rtake limit.toNat).map
    (messageOf clock), ?_, ?_, ?_⟩
  · show Except.ok _ = _
    rw [Table.latest_eq _ _ _ ranked, ← List.map_reverse, reverse_limitTo limit count]
  · rw [linesOf, List.filter_map, rtake_map, List.map_map]
    rfl
  · refine List.pairwise_map.mpr ?_
    rw [List.rtake]
    exact (store.ascending.filter _).drop

/-! ### What an operation does to the messages -/

/-- The clock does not go back, and no row is later than the clock. -/
structure Timely (device : Device) : Prop where
  clocks : ∀ i j, i ≤ j → (device.turns i).append.now ≤ (device.turns j).append.now
  ranked : Ranked device.chats
  past : ∀ row ∈ device.chats.rows,
    row.values.sentAt ≤ (device.turns device.clock).append.now.timestamp

/-- Some lines are said, and the device is as timely as before. -/
structure Goes (before : Device) (said : List Line) (after : Device) : Prop where
  lines : linesOf after.chats = linesOf before.chats ++ said
  timely : Timely before → Timely after

/-- What goes on from there. -/
theorem Goes.trans {first second third : Device} {said said' : List Line} (goes : Goes first said second)
    (goes' : Goes second said' third) : Goes first (said ++ said') third where
  lines := by rw [goes'.lines, goes.lines, List.append_assoc]
  timely timely := goes'.timely (goes.timely timely)

/-- The rows and the clock readings are those of the device, and time goes on. -/
structure Same (before after : Device) : Prop where
  turns : after.turns = before.turns
  clock : before.clock ≤ after.clock
  rows : after.chats.rows = before.chats.rows

theorem Same.refl (device : Device) : Same device device := ⟨rfl, Nat.le_refl _, rfl⟩

/-- Then nothing is said. -/
theorem Same.goes {before after : Device} (same : Same before after) : Goes before [] after where
  lines := by rw [linesOf, linesOf, same.rows, List.append_nil]
  timely timely := by
    refine ⟨same.turns ▸ timely.clocks, ?_, fun row member => ?_⟩
    · rw [Ranked, same.rows]
      exact timely.ranked
    · rw [same.rows] at member
      rw [same.turns]
      exact (timely.past row member).trans (timestamp_le (timely.clocks _ _ same.clock))

/-- A row with the time of a turn that has just begun. -/
theorem goes_of_appended {before after : Device} {message : ChatMessage} {turn : Nat}
    (turns : after.turns = before.turns) (begun : before.clock ≤ turn) (ended : turn ≤ after.clock)
    (time : message.sentAt = (before.turns turn).append.now)
    (rows : after.chats.rows = before.chats.rows ++ [message.row]) :
    Goes before [lineOf message] after where
  lines := by
    rw [linesOf, rows, List.map_append, List.map_singleton, lineOfRow_row]
    rfl
  timely timely := by
    have isTime : message.row.values.sentAt = (before.turns turn).append.now.timestamp :=
      congrArg DateTime.timestamp time
    refine ⟨turns ▸ timely.clocks, ?_, fun row member => ?_⟩
    · rw [Ranked, rows]
      refine List.pairwise_append.mpr ⟨timely.ranked, List.pairwise_singleton _ _, ?_⟩
      intro row member last isLast
      rw [List.mem_singleton.mp isLast, isTime]
      exact (timely.past row member).trans (timestamp_le (timely.clocks _ _ begun))
    · rw [turns]
      rw [rows] at member
      rcases List.mem_append.mp member with old | isLast
      · exact (timely.past row old).trans (timestamp_le (timely.clocks _ _ (begun.trans ended)))
      · rw [List.mem_singleton.mp isLast, isTime]
        exact timestamp_le (timely.clocks _ _ ended)

/-! ### The operations -/

section Operations

variable {before : Device} {α : Type}

/-- A turn takes time, and nothing else. -/
theorem turn_same {next : DeviceTurn → Prog Error Device α} (quiet : ∀ t, Keeps (Same before) (next t)) :
    Keeps (Same before) (nextTurn >>= next) := by
  refine Triple.bind (M := fun _ => Same before) (fun device same => ?_) quiet
  exact ⟨same.turns, same.clock.trans (Nat.le_succ _), same.rows⟩

/-- What works on the files says nothing. -/
theorem inWorld_same (prog : Sys α) : Keeps (Same before) (inWorld prog) :=
  Triple.zoom fun _ same => (Triple.anything prog).conseq (fun _ _ => trivial)
    (fun _ _ _ => ⟨same.turns, same.clock, same.rows⟩) fun _ _ _ => ⟨same.turns, same.clock, same.rows⟩

theorem failWith_same (err : Option Error) : Keeps (Same before) (failWith err) := by
  cases err with
  | none => exact Triple.pure fun _ same => same
  | some err => exact Triple.throw fun _ same => same

theorem discoverPeers_same (installation : Installation) (timeout : Nat) :
    Keeps (Same before) (installation.discoverPeers timeout) := by
  refine turn_same fun t => Triple.bind (failWith_same _) fun _ => ?_
  cases installation.decoder.listenForSnapshot installation.order t.socket (1000 * timeout) with
  | ok snapshot => exact Triple.pure fun _ same => same
  | error step => exact Triple.throw fun _ same => same

/-- The message that is appended has the given line. -/
theorem lineOf_appendMessage (store : ChatStore) (peerId : String) (direction : ChatDirection)
    (body : String) (turn : AppendTurn) :
    ∀ message ∈ (Chat.appendMessage store peerId direction body turn).1.toOption,
      lineOf message = ⟨peerId, direction, body⟩ := by
  unfold Chat.appendMessage
  intro message isMessage
  cases failed : turn.failed with
  | some skipped =>
    rw [failed] at isMessage
    cases isMessage
  | none =>
    rw [failed] at isMessage
    dsimp only at isMessage
    cases inserted : store.insert ⟨peerId, directionToStr direction, body, turn.now.timestamp⟩ with
    | none =>
      rw [inserted] at isMessage
      cases isMessage
    | some result =>
      rw [inserted] at isMessage
      obtain rfl := Option.some.inj isMessage
      rfl

/-- A turn has begun. -/
def Begun (before : Device) (t : DeviceTurn) (after : Device) : Prop :=
  ∃ turn, before.clock ≤ turn ∧ turn ≤ after.clock ∧ t = before.turns turn ∧ after.turns = before.turns

/-- **`append_message`** says its line, and nothing if it fails. -/
theorem appendChat_spec (peerId : String) (direction : ChatDirection) (body : String) :
    Triple (Same before) (appendChat peerId direction body)
      (fun _ after => Goes before [⟨peerId, direction, body⟩] after) fun _ after => Goes before [] after := by
  refine Triple.bind (M := fun t after => after.chats.rows = before.chats.rows ∧ Begun before t after)
    (fun device same => ?_) fun t => ?_
  · exact ⟨same.rows, device.clock, same.clock, Nat.le_succ _, by rw [same.turns], same.turns⟩
  refine Triple.bind (M := fun chats after => chats.rows = before.chats.rows ∧ Begun before t after)
    (Triple.observe fun device begun => begun) fun chats => Triple.given fun isChats => ?_
  have rows := @rows_appendMessage chats peerId body direction t.append
  have time := sentAt_appendMessage chats peerId direction body t.append
  have line := lineOf_appendMessage chats peerId direction body t.append
  rw [isChats] at rows
  refine Triple.bind (M := fun _ after => after.chats = (Chat.appendMessage chats peerId direction body
    t.append).2 ∧ Begun before t after) (Triple.update fun device begun => ⟨rfl, begun⟩) fun _ => ?_
  cases result : (Chat.appendMessage chats peerId direction body t.append).1 with
  | ok message =>
    rw [result] at rows time line
    rw [← line message rfl]
    refine Triple.pure ?_
    rintro after ⟨isStore, turn, begun, ended, rfl, turns⟩
    exact goes_of_appended turns begun ended (time message rfl) (isStore ▸ rows)
  | error err =>
    rw [result] at rows
    refine Triple.throw ?_
    rintro after ⟨isStore, turn, begun, ended, rfl, turns⟩
    exact Same.goes ⟨turns, begun.trans ended, isStore ▸ rows.trans (List.append_nil _)⟩

theorem listChat_same (peerId : String) (limit : UInt64) : Keeps (Same before) (listChat peerId limit) := by
  refine turn_same fun t => Triple.bind (M := fun _ => Same before) (Triple.observe fun _ same => same)
    fun chats => ?_
  cases Chat.listMessages chats peerId limit t.list with
  | ok messages => exact Triple.pure fun _ same => same
  | error err => exact Triple.throw fun _ same => same

/-- **`list_messages`** returns the last lines of the peer, if the query does not fail. -/
theorem listChat_works (ranked : Ranked before.chats)
    (works : (before.turns before.clock).list.failed = none) (peerId : String) (limit : UInt64) :
    Triple (fun device => device = before) (listChat peerId limit) (fun messages _ =>
      messages.map lineOf =
          ((linesOf before.chats).filter fun line => line.peerId = peerId).rtake limit.toNat ∧
        messages.Pairwise fun first second => first.id < second.id) Never := by
  refine Triple.bind (M := fun t device => t = before.turns before.clock ∧ device.chats = before.chats)
    (fun device same => ?_) fun t => Triple.given fun isTurn => ?_
  · rw [same]
    exact ⟨rfl, rfl⟩
  refine Triple.bind (M := fun chats _ => chats = before.chats ∧ True)
    (Triple.observe fun device same => ⟨same, trivial⟩) fun chats => Triple.given fun isChats => ?_
  rw [← isTurn] at works
  obtain ⟨secret, notSent, socket, notOpened, append, clock, failed⟩ := t
  obtain rfl : failed = none := works
  obtain ⟨messages, listed, lines⟩ := listMessages_lines ranked peerId limit clock
  rw [isChats, listed]
  exact Triple.pure fun _ _ => lines

end Operations

/-! ### The calls -/

/-- The line that a call has sent. -/
def Call.sent {ω : Type} (ops : Operations ω) (serde : Serde) (call : Call) (r : Runtime ω) : Option Line :=
  match call with
  | .sendChat peerId message =>
    if (call.run ops serde r).1 = .code 0 then do
      let peer ← (readCstr peerId).toOption
      let text ← (readCstr message).toOption
      some ⟨peer, .outgoing, text⟩
    else none
  | _ => none

/-- The lines that a run of calls has sent. -/
def Call.sentAll {ω : Type} (ops : Operations ω) (serde : Serde) (r : Runtime ω) : List Call → List Line
  | [] => []
  | call :: calls =>
    (call.sent ops serde r).toList ++ Call.sentAll ops serde (call.run ops serde r).2 calls

section Calls

variable {before : Device} {α : Type} (installation : Installation) (serde : Serde)

/-- The device of the app is as it was, but for time. -/
abbrev Resting (before : Device) (r : Runtime Device) : Prop := Same before r.outside

/-- An operation in the app does what it does. -/
theorem outside_goes {operation : Prog Error Device α} {after : α → Device → Prop}
    {failed : Error → Device → Prop} (spec : Triple (Same before) operation after failed) :
    Triple (Resting before) (outside operation) (fun a r => after a r.outside)
      fun err r => failed err r.outside :=
  Triple.zoom fun _ same => spec.conseq (fun _ here => here ▸ same) (fun _ _ holds => holds)
    fun _ _ holds => holds

theorem readCstr_rests (pointer : Pointer) :
    Triple (Resting before) (MonadExcept.ofExcept (readCstr pointer) : Prog Error (Runtime Device) String)
      (fun text r => readCstr pointer = .ok text ∧ Resting before r) fun _ => Resting before :=
  Triple.ofExcept (fun _ isText _ rests => ⟨isText, rests⟩) fun _ _ _ rests => rests

/-- The conversions do not touch the device. -/
theorem jsonBody_rests {toString : α → Except Error String} {f : Prog Error (Runtime Device) α}
    (rests : Keeps (Resting before) f) : Keeps (Resting before) (jsonBody toString f) := by
  refine Triple.bind (Triple.bind rests fun value => ?_) fun cstring => Triple.pure fun _ rests => rests
  refine Triple.bind (M := fun _ => Resting before)
    (Triple.ofExcept (fun _ _ _ rests => rests) fun _ _ _ rests => rests) fun text => ?_
  exact Triple.ofExcept (fun _ _ _ rests => rests) fun _ _ _ rests => rests

/-- **Every other call** leaves the messages alone. -/
theorem body_rests {call : Call} (other : ∀ peerId message, call ≠ .sendChat peerId message) :
    Keeps (Resting before) (call.body installation.operations serde) := by
  have quiet {prog : Prog Error (Runtime Device) Unit} (rests : Keeps (Resting before) prog) :
      Keeps (Resting before) (resultBody prog) := Triple.bind rests fun _ => Triple.pure fun _ rests => rests
  cases call with
  | startDiscovery =>
    refine quiet (Triple.bind (outside_goes (turn_same fun t => inWorld_same _)) fun identity => ?_)
    refine Triple.bind (outside_goes (discoverPeers_same installation 2)) fun peers => ?_
    exact Triple.update fun _ rests => rests
  | listPeers => exact jsonBody_rests (Triple.observe fun _ rests => rests)
  | pairPeer peerId code =>
    refine quiet (Triple.bind (readCstr_rests peerId) fun peer => Triple.given fun _ => ?_)
    refine Triple.bind (readCstr_rests code) fun text => Triple.given fun _ => ?_
    exact Triple.bind (outside_goes (inWorld_same _)) fun paired => Triple.pure fun _ rests => rests
  | sendPath peerId path publicMode uuid now =>
    refine jsonBody_rests (Triple.bind (readCstr_rests peerId) fun peer => Triple.given fun _ => ?_)
    refine Triple.bind (readCstr_rests path) fun source => Triple.given fun _ => ?_
    refine Triple.bind (outside_goes (inWorld_same _)) fun manifest => ?_
    exact Triple.bind (Triple.update fun _ rests => rests) fun _ => Triple.pure fun _ rests => rests
  | acceptTransfer requestId target now =>
    refine quiet (Triple.bind (readCstr_rests requestId) fun request => Triple.given fun _ => ?_)
    refine Triple.bind (readCstr_rests target) fun path => Triple.given fun _ => ?_
    refine Triple.bind (M := fun _ => Resting before) (Triple.observe fun _ rests => rests) fun tasks => ?_
    cases tasks.findIdx? fun task => task.taskId = request with
    | none => exact Triple.throw fun _ rests => rests
    | some idx => exact Triple.update fun _ rests => rests
  | listTasks => exact jsonBody_rests (Triple.observe fun _ rests => rests)
  | sendChat peerId message => exact absurd rfl (other peerId message)
  | listChatMessages peerId =>
    refine jsonBody_rests (Triple.bind (readCstr_rests peerId) fun peer => Triple.given fun _ => ?_)
    refine Triple.bind (outside_goes (turn_same fun t => failWith_same _)) fun _ => ?_
    exact outside_goes (listChat_same peer 200)
  | lastErrorMessage => exact jsonBody_rests (Triple.observe fun _ rests => rests)

/-- Where an operation fails without a trace, nothing is said. -/
theorem unsaid_of_fails {prog : Prog Error (Runtime Device) α} {after : α → Runtime Device → Prop}
    (spec : Triple (Resting before) prog after fun _ => Resting before) :
    Triple (Resting before) prog after fun _ r => Goes before [] r.outside :=
  spec.conseq (fun _ rests => rests) (fun _ _ holds => holds) fun _ _ rests => rests.goes

/-- **`send_chat`** says its line and reports success, or it says nothing. -/
theorem sendChat_goes (peerId message : Pointer) :
    Triple (Resting before) (Call.body installation.operations serde (.sendChat peerId message))
      (fun reply r => reply = .code 0 ∧ ∃ peer text, readCstr peerId = .ok peer ∧
        readCstr message = .ok text ∧ Goes before [⟨peer, .outgoing, text⟩] r.outside)
      fun _ r => Goes before [] r.outside := by
  refine Triple.bind (M := fun _ r => ∃ peer text, readCstr peerId = .ok peer ∧
    readCstr message = .ok text ∧ Goes before [⟨peer, .outgoing, text⟩] r.outside) ?_
    fun _ => Triple.pure fun _ goes => ⟨rfl, goes⟩
  refine Triple.bind (unsaid_of_fails (readCstr_rests peerId)) fun peer => Triple.given fun isPeer => ?_
  refine Triple.bind (unsaid_of_fails (readCstr_rests message)) fun text =>
    Triple.given fun isText => ?_
  refine Triple.bind (unsaid_of_fails (outside_goes (turn_same fun t => failWith_same t.notOpened)))
    fun _ => ?_
  refine Triple.bind (outside_goes (appendChat_spec peer .outgoing text)) fun appended => ?_
  exact Triple.pure fun _ goes => ⟨peer, text, isPeer, isText, goes⟩

/-- **One call** says what it has sent. -/
theorem run_goes (call : Call) (r : Runtime Device) :
    Goes r.outside (call.sent installation.operations serde r).toList
      (call.run installation.operations serde r).2.outside := by
  by_cases chats : ∃ peerId message, call = .sendChat peerId message
  · obtain ⟨peerId, message, rfl⟩ := chats
    have spec := sendChat_goes installation serde peerId message r (Same.refl r.outside)
    rw [Call.sent, Call.run_eq, report]
    cases run : Call.body installation.operations serde (.sendChat peerId message) r with
    | ok reply r' =>
      rw [run] at spec
      obtain ⟨rfl, peer, text, isPeer, isText, goes⟩ := spec
      rw [if_pos rfl, isPeer, isText]
      exact goes
    | error err r' =>
      rw [run] at spec
      show Goes _ (Option.toList (if Reply.code (-1) = .code 0 then _ else none)) _
      rw [if_neg (by decide)]
      exact spec
  · have other : ∀ peerId message, call ≠ .sendChat peerId message :=
      fun peerId message same => chats ⟨peerId, message, same⟩
    have spec := body_rests installation serde other r (Same.refl r.outside)
    have unsaid : call.sent installation.operations serde r = none := by
      cases call with
      | sendChat peerId message => exact absurd rfl (other peerId message)
      | _ => rfl
    rw [unsaid, Call.run_eq, report]
    cases run : call.body installation.operations serde r with
    | ok reply r' =>
      rw [run] at spec
      exact spec.goes
    | error err r' =>
      rw [run] at spec
      exact spec.goes

/-- **A run of calls** says what it has sent. -/
theorem runAll_goes (calls : List Call) (r : Runtime Device) :
    Goes r.outside (Call.sentAll installation.operations serde r calls)
      (Call.runAll installation.operations serde r calls).outside := by
  induction calls generalizing r with
  | nil => exact (Same.refl _).goes
  | cons call calls ih => exact (run_goes installation serde call r).trans (ih _)

/-- What can be written is returned. -/
theorem jsonBody_writes {start : Runtime Device → Prop} {toString : α → Except Error String}
    (writes : Writes toString) {f : Prog Error (Runtime Device) α} {A : α → Prop}
    (spec : Triple start f (fun value _ => A value) Never) :
    Triple start (jsonBody toString f) (fun reply _ => ∃ value, A value ∧ reply.Holds (toString value))
      Never := by
  refine Triple.bind (M := fun cstring _ => ∃ value, A value ∧ toString value = .ok cstring.text)
    (Triple.bind spec fun value => ?_) fun cstring => Triple.pure ?_
  · obtain ⟨text, written, noNul⟩ := writes value
    have new : CString.new text = .ok ⟨text, noNul⟩ := dif_pos noNul
    unfold toCString
    rw [written]
    show Triple _ (MonadExcept.ofExcept (CString.new text)) _ _
    rw [new]
    exact Triple.pure fun r holds => ⟨value, holds, written⟩
  · rintro r ⟨value, holds, written⟩
    exact ⟨value, holds, cstring, rfl, written⟩

/-- A listing of a timely device, if the database opens and the query does not fail. -/
theorem listChatMessages_works {r : Runtime Device} (timely : Timely r.outside) {peerId : Pointer}
    {peer : String} (isPeer : readCstr peerId = .ok peer)
    (opens : (r.outside.turns r.outside.clock).notOpened = none)
    (works : (r.outside.turns (r.outside.clock + 1)).list.failed = none) :
    Triple (fun r' => r' = r) (Closure.listChatMessages installation.operations peerId)
      (fun messages _ => messages.map lineOf =
          ((linesOf r.outside.chats).filter fun line => line.peerId = peer).rtake 200 ∧
        messages.Pairwise fun first second => first.id < second.id) Never := by
  unfold Closure.listChatMessages
  rw [isPeer]
  refine Triple.bind (M := fun text r' => text = peer ∧ r' = r) (Triple.pure fun _ same => ⟨rfl, same⟩)
    fun text => Triple.given fun isText => ?_
  subst isText
  refine Triple.bind (M := fun _ r' => r'.outside = { r.outside with clock := r.outside.clock + 1 }) ?_
    fun _ => Triple.zoom fun r' opened => ?_
  · refine Triple.zoom fun r' same => ?_
    rw [same]
    refine Triple.bind (M := fun t device => t = r.outside.turns r.outside.clock ∧
      device = { r.outside with clock := r.outside.clock + 1 }) (fun device same => ?_)
      fun t => Triple.given fun isTurn => ?_
    · rw [same]
      exact ⟨rfl, rfl⟩
    · rw [isTurn, opens]
      exact Triple.pure fun _ after => after
  · rw [opened]
    exact @listChat_works { r.outside with clock := r.outside.clock + 1 } timely.ranked works text 200

/-- **What the app shows is the conversation.** After any calls, a listing of a peer returns, where the
database can be read, the last 200 lines of the peer: of those that were there, and those that
`send_chat` has reported as sent. -/
theorem conversation_listed (sound : serde.Sound) (device : Device) (timely : Timely device)
    (calls : List Call) {peerId : Pointer} {peer : String} (isPeer : readCstr peerId = .ok peer)
    (opens : let now := (Call.runAll installation.operations serde (.initial device) calls).outside
      (now.turns now.clock).notOpened = none)
    (works : let now := (Call.runAll installation.operations serde (.initial device) calls).outside
      (now.turns (now.clock + 1)).list.failed = none) :
    ∃ messages, (listChatMessages installation.operations serde peerId
        (Call.runAll installation.operations serde (.initial device) calls)).1.Holds
        (serde.messages messages) ∧
      messages.map lineOf = ((linesOf device.chats ++
        Call.sentAll installation.operations serde (.initial device) calls).filter
          fun line => line.peerId = peer).rtake 200 ∧
      messages.Pairwise fun first second => first.id < second.id := by
  have goes : Goes device _ (Call.runAll installation.operations serde (.initial device) calls).outside :=
    runAll_goes installation serde calls (.initial device)
  obtain ⟨reply, r, run, messages, ⟨lines, ascending⟩, holds⟩ := (jsonBody_writes sound.messages
    (listChatMessages_works installation (goes.timely timely) isPeer opens works)).returns rfl
  rw [goes.lines] at lines
  rw [listChatMessages, withJson_eq, report, run]
  exact ⟨messages, holds, lines, ascending⟩

end Calls

/-! ### A conversation -/

theorem secondOne_inRange : minTimestamp ≤ 1 ∧ 1 ≤ maxTimestamp := by decide

/-- A reading of the clock. -/
def secondOne : DateTime := ⟨1, 0, secondOne_inRange⟩

/-- A device on which a message of the peer `b` is stored. -/
def chattingDevice : Device :=
  { sampleDevice with chats := (appendAll Table.empty [⟨"b", .incoming, "hi", ⟨secondOne, none⟩⟩]).2 }

/-- A message to `b`, one to `c`, and one that is not a text. -/
def sampleChats : List Call :=
  [.sendChat (textPointer "b") (textPointer "yes"), .sendChat (textPointer "c") (textPointer "no"),
    .sendChat (textPointer "b") .null]

theorem chattingDevice_timely : Timely chattingDevice where
  clocks _ _ _ := .inr ⟨rfl, Nat.le_refl _⟩
  ranked := by
    unfold Ranked
    decide +kernel
  past := by decide +kernel

/-- The stored message and the sent one are listed. -/
theorem conversation_listed_sample :
    ∃ messages, (listChatMessages sampleInstallation.operations sampleSerde (textPointer "b")
        (Call.runAll sampleInstallation.operations sampleSerde (.initial chattingDevice) sampleChats)).1.Holds
        (sampleSerde.messages messages) ∧
      messages.map lineOf = [⟨"b", .incoming, "hi"⟩, ⟨"b", .outgoing, "yes"⟩] := by
  have isPeer : readCstr (textPointer "b") = .ok "b" := by decide +kernel
  have sent : linesOf chattingDevice.chats ++ Call.sentAll sampleInstallation.operations sampleSerde
      (.initial chattingDevice) sampleChats =
      [⟨"b", .incoming, "hi"⟩, ⟨"b", .outgoing, "yes"⟩, ⟨"c", .outgoing, "no"⟩] := by decide +kernel
  obtain ⟨messages, holds, lines, _⟩ := conversation_listed sampleInstallation sampleSerde sampleSerde_sound
    chattingDevice chattingDevice_timely sampleChats isPeer (by decide +kernel) (by decide +kernel)
  rw [sent] at lines
  exact ⟨messages, holds, lines⟩

/-- The text of such a list. -/
example : sampleSerde.messages [⟨1, "b", .incoming, "hi", secondOne⟩, ⟨2, "b", .outgoing, "yes", secondOne⟩] =
    .ok ("[\x7b\"id\":1,\"peer_id\":\"b\",\"direction\":\"incoming\",\"body\":\"hi\"," ++
      "\"sent_at\":\"1970-01-01T00:00:01Z\"\x7d,\x7b\"id\":2,\"peer_id\":\"b\"," ++
      "\"direction\":\"outgoing\",\"body\":\"yes\",\"sent_at\":\"1970-01-01T00:00:01Z\"\x7d]") := by
  decide +kernel

end SendRs.Ffi
