/-
**The session on the disk follows the session.**

The processes work on records in JSON files; the session has what the records say. In calm
surroundings every step on the disk is the step of the session, from a tree that shows the files to a
tree that shows the files afterwards, and one is possible exactly when the other one is
(`session_lockstep`). Whole runs go on together (`disk_run`), whatever is done elsewhere in between.
-/

import SendRs.Disk.Shared
import SendRs.Library.Lockstep

namespace SendRs.Disk

open Effect Cli Machines

variable {ι : Type}

/-! ### Related states -/

/-- What a process is about to write is in its memory, not in its program counter. -/
def eraseStage : Stage → Stage
  | .savingPair _ => .savingPair []
  | .savingRecord entry _ => .savingRecord entry []
  | stage => stage

def eraseSender : Sender → Sender
  | .serving claim stage => .serving claim (eraseStage stage)
  | sender => sender

def erasePc : ReceiverPc → ReceiverPc
  | .savingPair _ => .savingPair []
  | .savingRecord entry _ => .savingRecord entry []
  | pc => pc

def eraseReceiver (r : Receiver) : Receiver := { r with pc := erasePc r.pc }

/-- The memory of the sender has what it is about to write. -/
def StageKept (memory : Memory) (peerId : String) : Stage → Prop
  | .savingPair store => Knows memory.trust (store.insert peerId)
  | .savingRecord entry entries =>
    List.Forall₂ TransferHistoryEntry.Tells memory.history (entries ++ [entry])
  | _ => True

def SenderKept (memory : Memory) : Sender → Prop
  | .serving claim stage => StageKept memory claim.receiverId stage
  | _ => True

/-- And so has the memory of a receiver. -/
def PcKept (memory : Memory) (peerId : String) : ReceiverPc → Prop
  | .savingPair store => Knows memory.trust (store.insert peerId)
  | .savingRecord entry entries =>
    List.Forall₂ TransferHistoryEntry.Tells memory.history (entries ++ [entry])
  | _ => True

/-- **A state on the disk and a state of the session.** -/
structure Related (host : Host) (serving : Serving ι) (env : Surroundings) (disk : DiskState ι)
    (s : State ι) : Prop where
  now : Now host serving.code env s.files disk.world
  sender : disk.sender = eraseSender s.sender
  senderKept : SenderKept disk.senderMemory s.sender
  receivers : ∀ i, disk.receivers i = eraseReceiver (s.receivers i)
  kept : ∀ i, PcKept (disk.memories i) serving.offer.senderId (s.receivers i).pc
  log : disk.log = s.log

/-! ### One step of the sender -/

section Steps

variable {host : Host} {serving : Serving ι} {env : Surroundings} {fs : FileSystem} {files : Files}
  {memory : Memory}

/-- What a step of the sender on the disk leaves is what the step of the session leaves. -/
structure SenderLeaves (host : Host) (code : Code) (env : Surroundings)
    (result : Files × Sender × List Event) (out : SenderResult) (w : World) : Prop where
  now : Now host code env result.1 w
  sender : out.1 = eraseSender result.2.1
  events : out.2.1 = result.2.2
  kept : SenderKept out.2.2 result.2.1

/-- A program follows a step. -/
def SenderFollows (host : Host) (code : Code) (env : Surroundings) (fs : FileSystem)
    (prog : Sys SenderResult) (result : Files × Sender × List Event) : Prop :=
  Triple (Stands env fs) prog (SenderLeaves host code env result) Never

/-- The next file to be cleared. -/
theorem clearNext_follows (calm : env.Calm) (shows : Shows host serving.code fs files)
    (memory : Memory) (rest : List RuntimeFile) :
    SenderFollows host serving.code env fs (host.clearNext memory rest) (files, Cli.clearNext rest, []) := by
  cases rest with
  | nil =>
    refine Triple.bind (calm_now calm) fun startedAt => Triple.pure fun w stands => ?_
    exact ⟨now_of_stands stands shows, rfl, rfl, trivial⟩
  | cons file rest =>
    exact Triple.pure fun w stands => ⟨now_of_stands stands shows, rfl, rfl, trivial⟩

/-- A step that looks at nothing. -/
theorem pure_follows (shows : Shows host serving.code fs files) {sender : Sender} {events : List Event}
    (kept : SenderKept memory sender) :
    SenderFollows host serving.code env fs (pure (eraseSender sender, events, memory))
      (files, sender, events) :=
  Triple.pure fun _ stands => ⟨now_of_stands stands shows, rfl, rfl, kept⟩

/-- A step that writes and goes on. -/
theorem write_follows (sender : Sender) {prog : Sys Unit} {files' : Files} {events : List Event}
    (writes : Triple (Stands env fs) prog (fun _ => Now host serving.code env files') Never)
    (kept : SenderKept memory sender) :
    SenderFollows host serving.code env fs
      (do prog; pure (eraseSender sender, events, memory)) (files', sender, events) :=
  Triple.bind writes fun _ => Triple.pure fun _ now => ⟨now, rfl, rfl, kept⟩

/-- **Serving a claim on the disk** is serving it in the session. -/
theorem serve_follows (calm : env.Calm) (faithful : host.Faithful) (shows : Shows host serving.code fs files)
    (claim : Cli.ReceiverClaim) (stage : Stage) (action : SenderAction)
    (kept : StageKept memory claim.receiverId stage) :
    Option.Rel (SenderFollows host serving.code env fs)
      (host.serveProgram serving memory claim (eraseStage stage) action)
      (serve serving.session files claim stage action) := by
  cases action with
  | stop => cases stage <;> exact .some (pure_follows shows trivial)
  | answer answer =>
    cases stage <;> try exact .none
    cases answer <;> exact .some (pure_follows shows trivial)
  | removed works =>
    cases stage <;> try exact .none
    exact .some (write_follows (.serving claim .lookup)
      (remove_shared calm shows .receiverClaim works) trivial)
  | progress works bytesDone bytesTotal currentFile =>
    cases stage <;> try exact .none
    refine .some ?_
    cases works with
    | false => exact pure_follows shows trivial
    | true =>
      refine Triple.bind (M := fun _ => Now host serving.code env _)
        ((Triple.attempt_never (writeSaid_shared calm shows _)).post fun _ w ⟨_, _, now⟩ => now)
        fun _ => Triple.pure fun _ now => ⟨now, rfl, rfl, trivial⟩
  | returned result =>
    cases stage <;> try exact .none
    cases result <;> exact .some (pure_follows shows trivial)
  | step =>
    cases stage with
    | removingClaim | prompt | transferring => exact .none
    | taking =>
      refine .some (Triple.bind (exists_shared calm shows .receiverClaim) fun there => ?_)
      refine Triple.given fun isThere => ?_
      subst isThere
      show SenderFollows host serving.code env fs (pure (Sender.serving claim
        (if files.receiver.isSome then .removingClaim else .lookup), [], memory)) _
      split <;> exact pure_follows shows trivial
    | lookup =>
      show Option.Rel _ _ (if claim.receiverId ∈ files.trust then some _ else some _)
      rw [← apply_ite some]
      refine .some (Triple.bind (isTrusted_shared calm faithful shows _) fun trusted => ?_)
      refine Triple.given fun isTrusted => ?_
      by_cases member : claim.receiverId ∈ files.trust
      · rw [if_pos (isTrusted.mpr member), if_pos member]
        exact pure_follows shows trivial
      · rw [if_neg (mt isTrusted.mp member), if_neg member]
        exact pure_follows shows trivial
    | rejecting =>
      exact .some (write_follows (.serving claim (.recording (sendEntry claim _)))
        (writeSaid_shared calm shows _) trivial)
    | confirming =>
      exact .some (write_follows (.serving claim .waitYes)
        (Triple.context (senderYes_shared calm shows)) trivial)
    | waitYes =>
      refine .some (Triple.bind (exists_shared calm shows .receiverYes) fun there => ?_)
      refine Triple.given fun isThere => ?_
      subst isThere
      show SenderFollows host serving.code env fs (pure (Sender.serving claim
        (if files.receiverYes then .pairing else .waitYes), [], memory)) _
      split <;> exact pure_follows shows trivial
    | pairing =>
      refine .some (Triple.bind (preparePair_shared calm faithful shows _) fun prepared => ?_)
      exact Triple.pure fun w ⟨knows, now⟩ => ⟨now, rfl, rfl, knows⟩
    | savingPair store =>
      exact .some (write_follows (.serving claim .beginning)
        (Triple.context (saveTrust_shared calm shows kept)) trivial)
    | beginning => exact .some (pure_follows shows trivial)
    | reporting outcome =>
      exact .some (write_follows (.serving claim (.recording (sendEntry claim _)))
        (writeSaid_shared calm shows _) trivial)
    | recording entry =>
      refine .some ?_
      refine Triple.bind (prepareEntry_shared calm faithful shows memory entry) fun after => ?_
      exact Triple.pure fun w prepared => ⟨now_of_stands prepared.2 shows, rfl, rfl, prepared.1⟩
    | savingRecord entry entries =>
      exact .some (write_follows loopHead (saveHistory_shared calm shows kept) trivial)

/-- The read of a claim in the session. -/
theorem reading_eq (session : Session ι) (files : Files) :
    senderStep session files .reading .step =
      some (files.receiver.elim (files, .polling, [])
        fun claim => (files, .serving claim .taking, [.consumed claim])) := by
  obtain ⟨receiver, senderYes, receiverYes, state, trust, history⟩ := files
  cases receiver <;> rfl

/-- **A step of the sender.** -/
theorem sender_follows (calm : env.Calm) (faithful : host.Faithful)
    (shows : Shows host serving.code fs files) (sender : Sender) (action : SenderAction)
    (kept : SenderKept memory sender) :
    Option.Rel (SenderFollows host serving.code env fs)
      (host.senderProgram serving memory (eraseSender sender) action)
      (senderStep serving.session files sender action) := by
  cases sender with
  | serving claim stage => exact serve_follows calm faithful shows claim stage action kept
  | exited => exact .none
  | starting =>
    cases action with
    | stop => exact .some (pure_follows shows trivial)
    | step => exact .some (write_follows loopHead (writeSaid_shared calm shows _) trivial)
    | _ => exact .none
  | clearing file rest =>
    cases action with
    | stop => exact .some (pure_follows shows trivial)
    | step =>
      refine .some (Triple.bind (exists_shared calm shows file) fun there => ?_)
      refine Triple.given fun isThere => ?_
      subst isThere
      show SenderFollows host serving.code env fs (if files.exists file then _ else _) _
      split
      · exact pure_follows shows trivial
      · exact clearNext_follows calm shows memory rest
    | _ => exact .none
  | removing file rest =>
    cases action with
    | stop => exact .some (pure_follows shows trivial)
    | removed works =>
      refine .some (Triple.bind (remove_shared calm shows file works) fun _ w now => ?_)
      exact clearNext_follows (now.env_eq ▸ calm) now.shows memory rest w ⟨now.env_eq, rfl⟩
    | _ => exact .none
  | polling =>
    cases action with
    | stop => exact .some (pure_follows shows trivial)
    | step =>
      refine .some (Triple.bind (exists_shared calm shows .receiverClaim) fun there => ?_)
      refine Triple.given fun isThere => ?_
      subst isThere
      show SenderFollows host serving.code env fs
        (pure (if files.receiver.isSome then .reading else .polling, [], memory)) _
      split <;> exact pure_follows shows trivial
    | _ => exact .none
  | reading =>
    cases action with
    | stop => exact .some (pure_follows shows trivial)
    | step =>
      rw [reading_eq]
      cases receiver : files.receiver with
      | some claim =>
        refine .some (Triple.bind (readClaim_shared calm faithful shows) fun read => ?_)
        refine Triple.given fun isRead => ?_
        cases read with
        | ok record =>
          obtain rfl := Option.some.inj (receiver.symm.trans isRead)
          exact pure_follows shows trivial
        | error error =>
          rw [receiver] at isRead
          cases isRead
      | none =>
        refine .some (Triple.bind (readClaim_shared calm faithful shows) fun read => ?_)
        refine Triple.given fun isRead => ?_
        cases read with
        | ok record =>
          rw [receiver] at isRead
          cases isRead
        | error error => exact pure_follows shows trivial
    | _ => exact .none

/-! ### One step of a receiver -/

/-- What a step of a receiver leaves. -/
structure ReceiverLeaves (host : Host) (serving : Serving ι) (env : Surroundings)
    (result : Files × Receiver) (out : Receiver × Memory) (w : World) : Prop where
  now : Now host serving.code env result.1 w
  receiver : out.1 = eraseReceiver result.2
  kept : PcKept out.2 serving.offer.senderId result.2.pc

def ReceiverFollows (host : Host) (serving : Serving ι) (env : Surroundings) (fs : FileSystem)
    (prog : Sys (Receiver × Memory)) (result : Files × Receiver) : Prop :=
  Triple (Stands env fs) prog (ReceiverLeaves host serving env result) Never

theorem pure_receives (shows : Shows host serving.code fs files) (r : Receiver)
    (kept : PcKept memory serving.offer.senderId r.pc) :
    ReceiverFollows host serving env fs (pure (eraseReceiver r, memory)) (files, r) :=
  Triple.pure fun _ stands => ⟨now_of_stands stands shows, rfl, kept⟩

theorem write_receives (r : Receiver) {prog : Sys Unit} {files' : Files}
    (writes : Triple (Stands env fs) prog (fun _ => Now host serving.code env files') Never)
    (kept : PcKept memory serving.offer.senderId r.pc) :
    ReceiverFollows host serving env fs (do prog; pure (eraseReceiver r, memory)) (files', r) :=
  Triple.bind writes fun _ => Triple.pure fun _ now => ⟨now, rfl, kept⟩

/-- What follows a read of the state: the texts tell the phases apart. -/
theorem completionOf_tells {claim : ReceiverClaim} {r : Receiver} {record : SessionState}
    {said : Cli.SessionState} (tells : record.Tells said) :
    completionOf serving.offer claim r (.ok record) =
      completionStep serving.session.offer claim.brief r (some said) := by
  obtain ⟨claimId, state, message, bytesDone, bytesTotal⟩ := said
  unfold completionOf completionStep
  dsimp only
  rw [tells.claimId, tells.state, tells.message, tells.bytesDone, tells.bytesTotal]
  by_cases other : claimId ≠ some claim.claimId
  · rw [if_pos other]
    exact (if_pos other).symm
  · rw [if_neg other]
    refine Eq.trans ?_ (if_neg other).symm
    cases state <;> simp [phaseText, Serving.session]

theorem pc_completionStep (offer : Cli.SendOffer) (claim : Cli.ReceiverClaim) {r : Receiver}
    (completing : r.pc = .completing) (state : Option Cli.SessionState) :
    eraseReceiver (completionStep offer claim r state) = completionStep offer claim r state ∧
      ∀ memory peerId, PcKept memory peerId (completionStep offer claim r state).pc := by
  obtain ⟨pc, trusted, answer, outcome⟩ := r
  obtain rfl : pc = .completing := completing
  unfold completionStep
  split
  · exact ⟨rfl, fun _ _ => trivial⟩
  · split
    · exact ⟨rfl, fun _ _ => trivial⟩
    · split <;> exact ⟨rfl, fun _ _ => trivial⟩

/-- **A step of a receiver.** -/
theorem receiver_follows (calm : env.Calm) (faithful : host.Faithful)
    (shows : Shows host serving.code fs files) (claim : ReceiverClaim) (r : Receiver)
    (action : ReceiverAction) (kept : PcKept memory serving.offer.senderId r.pc) :
    Option.Rel (ReceiverFollows host serving env fs)
      (host.receiverProgram serving claim memory (eraseReceiver r) action)
      (receiverStep serving.session claim.brief files r action) := by
  obtain ⟨pc, trusted, answer, outcome⟩ := r
  cases action with
  | stop =>
    cases pc <;> first
      | exact .none
      | exact .some (pure_receives shows ⟨.exited, trusted, answer, outcome⟩ trivial)
  | answer answered =>
    cases pc <;> try exact .none
    cases answered <;> exact .some (pure_receives shows ⟨_, trusted, some _, outcome⟩ trivial)
  | step =>
    cases pc with
    | prompt | exited => exact .none
    | claiming =>
      exact .some (write_receives ⟨.lookup, trusted, answer, outcome⟩
        (writeClaim_shared calm shows claim) trivial)
    | lookup =>
      show Option.Rel _ _ (if serving.offer.senderId ∈ files.trust then some _ else some _)
      rw [← apply_ite some]
      refine .some (Triple.bind (isTrusted_shared calm faithful shows _) fun trusted => ?_)
      refine Triple.given fun isTrusted => ?_
      by_cases member : serving.offer.senderId ∈ files.trust
      · rw [if_pos (isTrusted.mpr member), if_pos member]
        exact pure_receives shows ⟨.completing, some true, answer, outcome⟩ trivial
      · rw [if_neg (mt isTrusted.mp member), if_neg member]
        exact pure_receives shows ⟨.prompt, some false, answer, outcome⟩ trivial
    | confirming =>
      exact .some (write_receives ⟨.waitYes, trusted, answer, outcome⟩
        (Triple.context (receiverYes_shared calm shows)) trivial)
    | waitYes =>
      refine .some (Triple.bind (exists_shared calm shows .senderYes) fun there => ?_)
      refine Triple.given fun isThere => ?_
      subst isThere
      show ReceiverFollows host serving env fs
        (pure (if files.senderYes then ⟨.pairing, trusted, answer, outcome⟩
          else ⟨.waitYes, trusted, answer, outcome⟩, memory))
        (files, if files.senderYes then ⟨.pairing, trusted, answer, outcome⟩
          else ⟨.waitYes, trusted, answer, outcome⟩)
      split
      · exact pure_receives shows ⟨.pairing, trusted, answer, outcome⟩ trivial
      · exact pure_receives shows ⟨.waitYes, trusted, answer, outcome⟩ trivial
    | pairing =>
      refine .some (Triple.bind (preparePair_shared calm faithful shows _) fun prepared => ?_)
      exact Triple.pure fun w prepared => ⟨prepared.2, rfl, prepared.1⟩
    | savingPair store =>
      exact .some (write_receives ⟨.completing, trusted, answer, outcome⟩
        (Triple.context (saveTrust_shared calm shows kept)) trivial)
    | completing =>
      refine .some (Triple.bind (readState_shared calm faithful shows) fun read => ?_)
      refine Triple.given fun isRead => Triple.pure fun w stands => ?_
      obtain ⟨erased, keeps⟩ := pc_completionStep serving.session.offer claim.brief
        (r := ⟨.completing, trusted, answer, outcome⟩) rfl files.state
      refine ⟨now_of_stands stands shows, Eq.trans ?_ erased.symm, keeps memory _⟩
      cases read with
      | ok record =>
        obtain ⟨said, isState, tells⟩ := isRead
        rw [isState]
        exact completionOf_tells tells
      | error error =>
        obtain ⟨isState, isError⟩ := isRead
        rw [isState]
        unfold completionOf completionStep
        dsimp only
        rw [isError]
        rfl
    | recording entry =>
      refine .some ?_
      refine Triple.bind (prepareEntry_shared calm faithful shows memory entry) fun after => ?_
      exact Triple.pure fun w prepared => ⟨now_of_stands prepared.2 shows, rfl, prepared.1⟩
    | savingRecord entry entries =>
      exact .some (write_receives ⟨.exited, trusted, answer, outcome⟩
        (saveHistory_shared calm shows kept) trivial)

end Steps

/-! ### The system -/

/-- What is done elsewhere leaves the places that the session looks at alone. -/
def Considerate (host : Host) (code : Code) : DiskAction ι → Prop
  | .elsewhere edit => ∀ fs loc, host.Looks code loc → (edit fs).node loc = fs.node loc
  | _ => True

/-- The start: the session directory is new, and the trust store and the history can be read. -/
structure DiskStart (host : Host) (serving : Serving ι) (env : Surroundings) (s : DiskState ι) : Prop where
  env_eq : s.world.env = env
  dir : s.world.fs.IsDir (host.at [sessionsName, serving.code.dirName])
  new : ∀ file, file ≠ .trust → file ≠ .history →
    s.world.fs.node (host.sharedLoc serving.code file) = none
  trust : ∃ stored, s.world.fs.Stores host.trust (host.sharedLoc serving.code .trust) stored
  history : ∃ stored said, s.world.fs.Stores host.history (host.sharedLoc serving.code .history) stored ∧
    List.Forall₂ TransferHistoryEntry.Tells (stored.getD []) said
  sender : s.sender = .starting
  receivers : ∀ i, s.receivers i = ⟨.claiming, none, none, none⟩
  log : s.log = []

theorem knows_keys (store : TrustStore) : Knows store store.peers.keys := fun id => by
  rw [AList.lookup_isSome, AList.mem_keys]

/-- A session before its first step, with a trust store and a history. -/
def newSession (trust : List String) (history : List Cli.TransferHistoryEntry) : State ι :=
  ⟨⟨none, false, false, none, trust, history⟩, .starting, fun _ => ⟨.claiming, none, none, none⟩, []⟩

theorem newSession_initial (trust : List String) (history : List Cli.TransferHistoryEntry) :
    Initial (newSession trust history : State ι) := ⟨rfl, rfl, rfl, rfl, rfl, fun _ => rfl, rfl⟩

/-- A start on the disk is a new session with what is stored there. -/
theorem DiskStart.related_new {host : Host} {serving : Serving ι} {env : Surroundings} {s : DiskState ι}
    (start : DiskStart host serving env s) {stored : Option TrustStore}
    (holds : s.world.fs.Stores host.trust (host.sharedLoc serving.code .trust) stored)
    {entries : Option (List TransferHistoryEntry)} {said : List Cli.TransferHistoryEntry}
    (lists : s.world.fs.Stores host.history (host.sharedLoc serving.code .history) entries)
    (tell : List.Forall₂ TransferHistoryEntry.Tells (entries.getD []) said) :
    Related host serving env s (newSession (stored.getD .default).peers.keys said) := by
  have flag {file : SharedFile} (absent : s.world.fs.node (host.sharedLoc serving.code file) = none) :
      FileSystem.Flag s.world.fs (host.sharedLoc serving.code file) false := by
    refine ⟨by rw [absent]; rfl, ?_⟩
    rw [FileSystem.IsDir, absent]
    simp
  have shows : Shows host serving.code s.world.fs
      ⟨none, false, false, none, (stored.getD .default).peers.keys, said⟩ := by
    refine ⟨start.dir, fun file => ?_⟩
    cases file with
    | claim => exact ⟨none, start.new .claim (by decide) (by decide), rfl⟩
    | senderYes => exact flag (start.new .senderYes (by decide) (by decide))
    | receiverYes => exact flag (start.new .receiverYes (by decide) (by decide))
    | state => exact ⟨none, start.new .state (by decide) (by decide), .none⟩
    | trust => exact ⟨stored, holds, knows_keys _⟩
    | history => exact ⟨entries, lists, tell⟩
  exact ⟨⟨start.env_eq, shows⟩, start.sender, trivial, fun i => start.receivers i, fun _ => trivial,
    start.log⟩

/-- A start on the disk is a start of the session. -/
theorem DiskStart.related {host : Host} {serving : Serving ι} {env : Surroundings} {s : DiskState ι}
    (start : DiskStart host serving env s) : ∃ t, Initial t ∧ Related host serving env s t := by
  obtain ⟨stored, holds⟩ := start.trust
  obtain ⟨entries, said, lists, tell⟩ := start.history
  exact ⟨_, newSession_initial _ _, start.related_new holds lists tell⟩

variable [DecidableEq ι]

/-- **The session on the disk.** -/
def diskMachine (host : Host) (serving : Serving ι) (env : Surroundings) :
    Machine (DiskState ι) (DiskAction ι) := ⟨DiskStart host serving env, diskStep host serving⟩

/-- Related options, mapped to related options. -/
theorem rel_map {α β γ δ : Type} {S : α → β → Prop} {R : γ → δ → Prop} {f : α → γ} {g : β → δ}
    {a : Option α} {b : Option β} (related : Option.Rel S a b) (maps : ∀ a b, S a b → R (f a) (g b)) :
    Option.Rel R (a.map f) (b.map g) := by
  cases related with
  | none => exact .none
  | some holds => exact .some (maps _ _ holds)

/-- **Every step on the disk is a step of the session.** -/
theorem session_lockstep {host : Host} {serving : Serving ι} {env : Surroundings} (calm : env.Calm)
    (faithful : host.Faithful) :
    Lockstep (diskMachine host serving env) (machine serving.session) DiskAction.view
      (Considerate host serving.code) (Related host serving env) := by
  refine ⟨fun s t action related considerate => ?_⟩
  have stands : Stands env s.world.fs s.world := ⟨related.now.env_eq, rfl⟩
  cases action with
  | elsewhere edit =>
    refine .some { related with now := ⟨related.now.env_eq, ?_⟩ }
    exact related.now.shows.congr (considerate s.world.fs)
  | sender action =>
    have both := sender_follows calm faithful related.now.shows t.sender action related.senderKept
    rw [← related.sender] at both
    refine rel_map both fun prog result follows => ?_
    obtain ⟨⟨sender, events, memory⟩, w, ends, leaves⟩ := Triple.returns follows stands
    dsimp only
    rw [ends]
    exact { related with
      now := leaves.now
      sender := leaves.sender
      senderKept := leaves.kept
      log := congrArg₂ (· ++ ·) related.log leaves.events }
  | receiver i action =>
    have both := receiver_follows calm faithful related.now.shows (serving.claim i) (t.receivers i) action
      (related.kept i)
    rw [← related.receivers i] at both
    refine rel_map both fun prog result follows => ?_
    obtain ⟨⟨r, memory⟩, w, ends, leaves⟩ := Triple.returns follows stands
    dsimp only
    rw [ends]
    refine { related with now := leaves.now, receivers := fun j => ?_, kept := fun j => ?_ }
    · show Function.update s.receivers i r j = eraseReceiver (Function.update t.receivers i result.2 j)
      by_cases same : j = i
      · subst same
        rw [Function.update_self, Function.update_self]
        exact leaves.receiver
      · rw [Function.update_of_ne same, Function.update_of_ne same]
        exact related.receivers j
    · show PcKept (Function.update s.memories i memory j) _ (Function.update t.receivers i result.2 j).pc
      by_cases same : j = i
      · subst same
        rw [Function.update_self, Function.update_self]
        exact leaves.kept
      · rw [Function.update_of_ne same, Function.update_of_ne same]
        exact related.kept j

/-- **A run on the disk** is a run of the session, whatever is done elsewhere in between: one is
possible exactly when the other one is, and the files on the disk show those of the session at its
end. -/
theorem disk_run {host : Host} {serving : Serving ι} {env : Surroundings} (calm : env.Calm)
    (faithful : host.Faithful) {s : DiskState ι} (start : DiskStart host serving env s)
    (actions : List (DiskAction ι)) (considerate : ∀ a ∈ actions, Considerate host serving.code a) :
    ∃ t, Initial t ∧ Related host serving env s t ∧
      Option.Rel (Related host serving env) ((diskMachine host serving env).run Anything s actions)
        ((machine serving.session).run Anything t (actions.flatMap fun a => a.view.toList)) := by
  obtain ⟨t, initial, related⟩ := start.related
  exact ⟨t, initial, related, (session_lockstep calm faithful).run actions related considerate⟩

/-! ### A session on the disk -/

/-- One receiver. -/
def sampleServing : Serving Unit where
  code := sampleCode
  offer := sampleOffer
  bytesTotal := 2
  claim _ := sampleClaim
  distinct := fun _ _ _ => rfl

/-- The home directory, with a session directory. -/
def sessionTree : FileSystem :=
  ((homeTree.put [homeName, sendrsName] .dir).put [homeName, sendrsName, sessionsName] .dir).put
    [homeName, sendrsName, sessionsName, sampleCode.dirName] .dir

def sampleDisk : DiskState Unit where
  world := ⟨quietEnv, sessionTree, 0⟩
  sender := .starting
  senderMemory := ⟨.default, [], ""⟩
  receivers _ := ⟨.claiming, none, none, none⟩
  memories _ := ⟨.default, [], ""⟩
  log := []

theorem sampleDisk_trust : sampleDisk.world.fs.Stores sampleHost.trust
    (sampleHost.sharedLoc sampleServing.code .trust) none := by
  show sessionTree.node _ = none
  decide +kernel

theorem sampleDisk_history : sampleDisk.world.fs.Stores sampleHost.history
    (sampleHost.sharedLoc sampleServing.code .history) none := by
  show sessionTree.node _ = none
  decide +kernel

theorem sampleDisk_start : DiskStart sampleHost sampleServing quietEnv sampleDisk where
  env_eq := rfl
  dir := by decide +kernel
  new file _ _ := by
    show sessionTree.node _ = none
    cases file <;> decide +kernel
  trust := ⟨none, sampleDisk_trust⟩
  history := ⟨none, [], sampleDisk_history, .nil⟩
  sender := rfl
  receivers _ := rfl
  log := rfl

/-- The sender announces the session and clears the files, the receiver leaves its claim, somebody
leaves a file elsewhere, and the sender takes the claim. Both users type yes, both processes pair, the
transfer ends well and both record it; the sender clears the files for its next round. -/
def sampleActions : List (DiskAction Unit) :=
  [.sender .step, .sender .step, .sender .step, .sender .step, .receiver () .step,
    .elsewhere fun fs => fs.put [targetName, homeName] (.file [] 1), .sender .step, .sender .step,
    .sender .step, .sender (.removed true), .sender .step, .receiver () .step, .sender (.answer true),
    .sender .step, .receiver () (.answer true), .receiver () .step, .receiver () .step,
    .receiver () .step, .receiver () .step, .sender .step, .sender .step, .sender .step, .sender .step,
    .sender (.progress true 2 2 "s"), .sender (.returned (.ok (2, 2))), .sender .step, .sender .step,
    .sender .step, .receiver () .step, .receiver () .step, .receiver () .step, .sender .step,
    .sender .step, .sender (.removed true), .sender .step, .sender (.removed true)]

theorem sampleActions_considerate : ∀ a ∈ sampleActions, Considerate sampleHost sampleServing.code a := by
  have elsewhere : Considerate sampleHost sampleServing.code
      (.elsewhere fun fs => fs.put [targetName, homeName] (.file [] 1) : DiskAction Unit) := by
    intro fs loc looks
    refine FileSystem.node_put_ne fs (fun same => ?_) _
    -- the session looks at places in the data directory only
    have inside : ∃ names, loc = sampleHost.at names := by
      rcases looks with here | ⟨file, here⟩
      · exact ⟨_, here⟩
      · exact ⟨_, here⟩
    obtain ⟨names, rfl⟩ := inside
    have head : homeName = targetName := (List.cons.inj same).1
    exact absurd head (by decide)
  intro a member
  cases a with
  | sender action => trivial
  | receiver i action => trivial
  | elsewhere edit =>
    simp only [sampleActions, List.mem_cons, List.not_mem_nil, or_false, false_or, reduceCtorEq,
      DiskAction.elsewhere.injEq] at member
    exact member ▸ elsewhere

/-- Where the session ends. -/
def sampleEnd : State Unit where
  files := {
    receiver := none
    senderYes := false
    receiverYes := false
    state := some ⟨some sampleClaim.claimId, .completed, "transfer completed", 2, 2⟩
    trust := [sampleClaim.receiverId]
    history := [sendEntry sampleClaim.brief ⟨some sampleClaim.claimId, .completed, "transfer completed",
        2, 2⟩,
      receiveEntry sampleServing.session.offer sampleClaim.brief .completed 2 2 none] }
  sender := .polling
  receivers _ := ⟨.exited, some false, some true,
    some (.ok ⟨some sampleClaim.claimId, .completed, "transfer completed", 2, 2⟩)⟩
  log := [.consumed sampleClaim.brief, .approved sampleClaim.brief, .paired sampleClaim.brief,
    .started sampleClaim.brief, .finished sampleClaim.brief true, .closed sampleClaim.brief]

/-- The session goes through. -/
theorem sampleActions_session :
    (machine sampleServing.session).run Anything (newSession [] [])
      (sampleActions.flatMap fun a => (DiskAction.view a).toList) = some sampleEnd := by
  rfl

/-- And so does the run on the disk. -/
theorem sampleActions_run :
    ∃ s', (diskMachine sampleHost sampleServing quietEnv).run Anything sampleDisk sampleActions =
      some s' ∧ Related sampleHost sampleServing quietEnv s' sampleEnd :=
  (session_lockstep quiet_calm sampleHost_faithful).run_mirrors
    (sampleDisk_start.related_new sampleDisk_trust sampleDisk_history .nil) sampleActions_considerate
    sampleActions_session

/-- The session goes on as on the disk. -/
theorem disk_run_sample :
    ∃ s' t t', (diskMachine sampleHost sampleServing quietEnv).run Anything sampleDisk sampleActions =
        some s' ∧
      Related sampleHost sampleServing quietEnv sampleDisk t ∧
      (machine sampleServing.session).run Anything t
        (sampleActions.flatMap fun a => a.view.toList) = some t' ∧
      Related sampleHost sampleServing quietEnv s' t' ∧ t'.log = sampleEnd.log := by
  obtain ⟨s', ends, atEnd⟩ := sampleActions_run
  obtain ⟨t, _, related, both⟩ := disk_run quiet_calm sampleHost_faithful sampleDisk_start sampleActions
    sampleActions_considerate
  rw [ends] at both
  generalize run : (machine sampleServing.session).run Anything t
    (sampleActions.flatMap fun a => (DiskAction.view a).toList) = other at both
  cases both with
  | @some _ t' related' =>
    exact ⟨s', t, t', ends, related, run, related', related'.log.symm.trans atEnd.log⟩

end SendRs.Disk
