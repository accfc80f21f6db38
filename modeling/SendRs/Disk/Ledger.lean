/-
**Offers and history, over any commands.**

The offers are a map from codes to offers, and the history is a list: `Ledger`. Publishing an offer,
appending an entry and cleaning up are what the files show of it: `Represents` relates a tree to a
ledger, `represents_run` says that every run of commands in calm surroundings keeps them related.

* `history_newest`: `history` prints the newest entries since the history was cleaned up, the last one
  first.
-/

import Mathlib.Logic.Function.Basic
import SendRs.Chat.Messages
import SendRs.Disk.Calm
import SendRs.Store.Crash

namespace SendRs.Disk

open Effect Cli

/-! ### `history` -/

/-- A line of `cmd_history`; `humanBytes` is `human_bytes`, which computes with floats. -/
def TransferHistoryEntry.line (humanBytes : Nat → String) (item : TransferHistoryEntry) : String :=
  let source := item.source.getD "-"
  let target := item.target.getD "-"
  let peer := (item.peerName <|> item.peerId).getD "Unknown"
  let file := ((fileName (.ofString source)).bind toStr).getD source
  let direction := if Chat.eqIgnoreAsciiCase item.role "receive" then "RECV" else "SEND"
  direction ++ " From:" ++ peer ++ " File:" ++ file ++ " Size:" ++ humanBytes item.bytesTotal ++
    " Saved:" ++ target ++ " Status:" ++ item.status

/-- What `cmd_history` prints of a history. -/
def historyLines (humanBytes : Nat → String) (limit : Nat) (entries : List TransferHistoryEntry) :
    List String :=
  let out := entries.reverse.take limit
  if out = [] then ["No transfer history."] else out.map (TransferHistoryEntry.line humanBytes)

/-- `cmd_history`, with the lines that it prints. -/
def Host.cmdHistory (host : Host) (humanBytes : Nat → String) (limit : Nat) : Sys (List String) := do
  let entries ← host.loadHistory
  pure (historyLines humanBytes limit entries)

/-! ### The ledger -/

/-- What the commands leave for later commands. -/
structure Ledger where
  offers : Code → Option SendOffer
  history : Option (List TransferHistoryEntry)

/-- What changes the ledger: the write of an offer in `cmd_send`, `append_history` and `cmd_clean`. -/
inductive Command where
  | publish (code : Code) (offer : SendOffer)
  | append (entry : TransferHistoryEntry)
  | clean (flags : CleanFlags)
deriving DecidableEq

/-- What a command makes of the ledger. -/
def Ledger.after (ledger : Ledger) : Command → Ledger
  | .publish code offer => { ledger with offers := Function.update ledger.offers code (some offer) }
  | .append entry => { ledger with history := some (ledger.history.getD [] ++ [entry]) }
  | .clean flags =>
    { offers := if flags.selects .offers then fun _ => none else ledger.offers
      history := if flags.selects .history then none else ledger.history }

/-- What a command does on the disk. -/
def Command.run (host : Host) : Command → Sys Unit
  | .publish code offer => writeJson host.offers (offerPath host.table host.home code.text) offer
  | .append entry => host.appendHistory entry
  | .clean flags => do
    let _ ← cmdClean host.home flags
    pure ()

/-- The codecs read back what they have written. -/
structure Host.Faithful (host : Host) : Prop where
  offers : host.offers.Faithful
  claims : host.claims.Faithful
  states : host.states.Faithful
  history : host.history.Faithful
  trust : host.trust.Faithful
  identities : host.identities.Faithful

section Places

variable (host : Host)

/-- A location in the data directory. -/
def Host.at (names : List Name) : Loc := host.homeLoc ++ sendrsName :: names

/-- `offers/CODE.json`. -/
def Host.offerLoc (code : Code) : Loc := host.at [offersName, code.fileName]

/-- `sessions/CODE/receiver.json`. -/
def Host.claimLoc (code : Code) : Loc := host.at [sessionsName, code.dirName, claimName]

/-- `history.json`. -/
def Host.historyLoc : Loc := host.at [historyName]

def identityName : Name := nameOf "identity.json" (by decide)

/-- `identity.json`. -/
def Host.identityLoc : Loc := host.at [identityName]

end Places

/-- The tree holds the ledger, and no file is where the data directory and the offers belong. -/
structure Represents (host : Host) (fs : FileSystem) (ledger : Ledger) : Prop where
  homeDir : fs.IsDir host.homeLoc
  dataRoot : fs.content (host.at []) = none
  offersRoot : fs.content (host.at [offersName]) = none
  offers : ∀ code, fs.Stores host.offers (host.offerLoc code) (ledger.offers code)
  history : fs.Stores host.history host.historyLoc ledger.history

/-- What the commands leave alone: everything outside the data directory, the identity, and what there
is of the sessions, unless it goes. -/
structure Spared (host : Host) (fs after : FileSystem) : Prop where
  outside : ∀ loc, ¬ host.at [] <+: loc → after.node loc = fs.node loc
  identity : after.node host.identityLoc = fs.node host.identityLoc
  sessions : ∀ loc, host.at [sessionsName] <+: loc →
    after.node loc = fs.node loc ∨ after.node loc = none

/-! ### Locations in the data directory -/

section Places

variable {host : Host}

theorem at_prefix_at {first second : List Name} :
    host.at first <+: host.at second ↔ first <+: second := by
  unfold Host.at
  rw [List.prefix_append_right_inj, List.cons_prefix_cons, and_iff_right rfl]

theorem at_inj {first second : List Name} : host.at first = host.at second ↔ first = second := by
  unfold Host.at
  rw [List.append_cancel_left_eq, List.cons.injEq, and_iff_right rfl]

theorem home_ne_at {names : List Name} : host.homeLoc ≠ host.at names := fun same => by
  have := congrArg List.length same
  simp [Host.at] at this

theorem not_at_prefix_home {names : List Name} : ¬ host.at names <+: host.homeLoc := fun below => by
  have := below.length_le
  simp [Host.at] at this

theorem down_home (names : List Name) : down host.home (sendrsName :: names) = .ofLoc (host.at names) :=
  down_ofLoc _ _

theorem offerPath_loc {raw : String} {code : Code} (typed : normalizeCode host.table raw = code.text) :
    offerPath host.table host.home raw = .ofLoc (host.offerLoc code) := by
  rw [offerPath_eq host.home typed, down_home]
  rfl

theorem claimPath_loc {raw : String} {code : Code} (typed : normalizeCode host.table raw = code.text) :
    receiverClaimPath host.table host.home raw = .ofLoc (host.claimLoc code) := by
  rw [receiverClaimPath, sessionFile_eq host.home typed claimName rfl, down_home]
  rfl

theorem historyPath_loc : historyPath host.home = .ofLoc host.historyLoc := by
  rw [historyPath_eq, down_home]
  rfl

/-- The path of the home directory does not pass through the data directory. -/
theorem stops_names (names : List Name) :
    ∀ {cur stop : Loc}, stop ∈ stops cur (names.map Name.bytes) → stop.length < cur.length + names.length := by
  induction names with
  | nil => exact fun member => nomatch member
  | cons name names ih =>
    intro cur stop member
    rw [List.map_cons, stops, Loc.step_bytes] at member
    rw [List.length_cons]
    rcases List.mem_cons.mp member with rfl | later
    · omega
    · have deeper := ih later
      rw [List.length_append, List.length_singleton] at deeper
      omega

theorem homeDir_ofLoc {fs : FileSystem} {cwd : Loc} (isDir : fs.IsDir host.homeLoc) :
    HomeDir fs cwd host.home host.homeLoc := by
  refine ⟨FileSystem.resolve_ofLoc isDir, fun stop member below => ?_⟩
  have deep : stop.length < [].length + host.homeLoc.length := stops_names host.homeLoc member
  have long := below.length_le
  rw [List.length_append, List.length_singleton] at long
  rw [List.length_nil] at deep
  omega

end Places

/-! ### One command -/

section Commands

variable {host : Host} {env : Surroundings} {fs : FileSystem} {ledger : Ledger}

/-- What is stored depends on the one location only. -/
theorem stores_congr {α : Type} {codec : JsonCodec α} {other : FileSystem} {loc : Loc} {stored : Option α}
    (same : other.node loc = fs.node loc) (holds : fs.Stores codec loc stored) :
    other.Stores codec loc stored := by
  unfold FileSystem.Stores FileSystem.content at holds ⊢
  rwa [same]

theorem notDir_of_stores {α : Type} {codec : JsonCodec α} {loc : Loc} {stored : Option α}
    (holds : fs.Stores codec loc stored) : ¬ fs.IsDir loc := by
  intro isDir
  cases stored with
  | none =>
    have absent : fs.node loc = none := holds
    rw [isDir] at absent
    cases absent
  | some value =>
    obtain ⟨modified, found⟩ := FileSystem.content_eq_some.mp holds
    rw [isDir] at found
    cases found

theorem Saved.content_none {up loc : Loc} {content : Bytes} {w : World}
    (saved : Saved env fs up loc content w) {other : Loc} (different : other ≠ loc)
    (noFile : fs.content other = none) : w.fs.content other = none := by
  rcases saved.node_eq other different with same | ⟨_, _, isDir⟩
  · rw [FileSystem.content, same]
    exact noFile
  · rw [FileSystem.content, isDir]

theorem Spared.trans {between after : FileSystem} (first : Spared host fs between)
    (second : Spared host between after) : Spared host fs after := by
  refine ⟨fun loc aside => ?_, ?_, fun loc below => ?_⟩
  · rw [second.outside loc aside, first.outside loc aside]
  · rw [second.identity, first.identity]
  · rcases second.sessions loc below with same | gone
    · rw [same]
      exact first.sessions loc below
    · exact Or.inr gone

/-- A file that is neither the identity nor of a session spares what the commands leave alone. -/
theorem Saved.spared {up names : List Name} {content : Bytes} {w : World}
    (saved : Saved env fs (host.at up) (host.at names) content w) (homeDir : fs.IsDir host.homeLoc)
    (differs : names ≠ [identityName] ∧ ¬ [identityName] <+: up)
    (noSession : ¬ [sessionsName] <+: names ∧ ¬ [sessionsName] <+: up) : Spared host fs w.fs := by
  refine ⟨fun loc aside => ?_, ?_, fun loc below => Or.inl ?_⟩
  · have different : loc ≠ host.at names := fun same => by
      rw [same, at_prefix_at] at aside
      exact aside List.nil_prefix
    rcases saved.node_eq loc different with same | ⟨below, absent, _⟩
    · exact same
    · -- a directory above the data directory is above the home directory or is this
      have shorter : loc <+: host.homeLoc := by
        rcases List.prefix_or_prefix_of_prefix below
          (at_prefix_at.mpr (List.nil_prefix (l := up))) with above | inside
        · rcases List.prefix_concat_iff.mp (show loc <+: host.homeLoc ++ [sendrsName] from above) with same | above
          · exact absurd (same ▸ List.prefix_refl _) aside
          · exact above
        · exact absurd inside aside
      obtain ⟨rest, split⟩ := shorter
      have there : fs.IsDir loc := by
        by_cases here : rest = []
        · rw [here, List.append_nil] at split
          rw [split]
          exact homeDir
        · rw [← split] at homeDir
          exact FileSystem.isDir_prefix rest here homeDir
      rw [there] at absent
      cases absent
  · exact saved.elsewhere (fun same => differs.1 (at_inj.mp same).symm)
      fun below => differs.2 (at_prefix_at.mp below)
  · have different : loc ≠ host.at names := fun same => by
      rw [same, at_prefix_at] at below
      exact noSession.1 below
    exact saved.elsewhere different fun above => noSession.2 (at_prefix_at.mp (below.trans above))

/-- Nothing that the ledger shows is in the way of a write to the data directory. -/
theorem Represents.unblocked (represents : Represents host fs ledger) {names : List Name}
    (isOffers : names = [] ∨ names = [offersName]) : Unblocked fs host.homeLoc (sendrsName :: names) := by
  have homeClear : fs.content (host.homeLoc ++ []) = none := by
    rw [List.append_nil, FileSystem.content, represents.homeDir]
  intro front below
  rcases List.prefix_cons_iff.mp below with rfl | ⟨rest, rfl, under⟩
  · exact homeClear
  · rcases isOffers with rfl | rfl
    · obtain rfl := List.prefix_nil.mp under
      exact represents.dataRoot
    · rcases List.prefix_cons_iff.mp under with rfl | ⟨deeper, rfl, last⟩
      · exact represents.dataRoot
      · obtain rfl := List.prefix_nil.mp last
        exact represents.offersRoot

theorem represents_publish (calm : env.Calm) (represents : Represents host fs ledger) (code : Code)
    (offer : SendOffer) :
    Triple (Stands env fs) (Command.run host (.publish code offer))
      (fun _ w => w.env = env ∧ Represents host w.fs (ledger.after (.publish code offer)) ∧
        Spared host fs w.fs) Never := by
  show Triple _ (writeJson _ _ _) _ _
  rw [offerPath_loc (normalizeCode_code host.table code)]
  have split : host.offerLoc code = host.homeLoc ++ [sendrsName, offersName] ++ [code.fileName] := by
    simp [Host.offerLoc, Host.at]
  have noDir := notDir_of_stores (represents.offers code)
  rw [split] at noDir ⊢
  refine (calm_writeJson_at calm represents.homeDir (represents.unblocked (.inr rfl)) noDir offer).post
    fun _ w saved => ?_
  rw [← split] at saved
  have spared : Spared host fs w.fs := by
    have saved : Saved env fs (host.at [offersName]) (host.at [offersName, code.fileName])
      (host.offers.body offer) w := saved
    refine saved.spared represents.homeDir ⟨by simp, by decide⟩ ⟨fun below => ?_, by decide⟩
    exact absurd (List.cons_prefix_cons.mp below).1 (by decide)
  have aside {names : List Name} (beyond : ¬ names <+: [offersName]) :
      ¬ host.at names <+: host.homeLoc ++ [sendrsName, offersName] := fun below =>
    beyond (at_prefix_at.mp below)
  have apart {names : List Name} (differ : names ≠ [offersName, code.fileName]) :
      host.at names ≠ host.offerLoc code := fun same => differ (at_inj.mp same)
  refine ⟨saved.env_eq, ⟨saved.there home_ne_at represents.homeDir, ?_, ?_, fun other => ?_, ?_⟩, spared⟩
  · exact saved.content_none (apart (by simp)) represents.dataRoot
  · exact saved.content_none (apart (by simp)) represents.offersRoot
  · show w.fs.Stores host.offers (host.offerLoc other) (Function.update ledger.offers code (some offer) other)
    by_cases same : other = code
    · subst same
      rw [Function.update_self]
      exact saved.content_eq
    · rw [Function.update_of_ne same]
      have differ : [offersName, other.fileName] ≠ [offersName, code.fileName] := fun equal =>
        same (Code.fileName_inj (List.cons.inj (List.cons.inj equal).2).1)
      exact stores_congr (saved.elsewhere (apart differ) (aside (by simp))) (represents.offers other)
  · have differ : [historyName] ≠ [offersName, code.fileName] := by simp
    have beyond : ¬ [historyName] <+: [offersName] := by decide
    exact stores_congr (saved.elsewhere (apart differ) (aside beyond)) represents.history

/-- **`load_history`** loads the history of the ledger. -/
theorem calm_loadHistory (calm : env.Calm) (faithful : host.Faithful) {stored : Option (List TransferHistoryEntry)}
    (holds : fs.Stores host.history host.historyLoc stored) :
    Triple (Stands env fs) host.loadHistory (fun entries w => entries = stored.getD [] ∧ Stands env fs w)
      Never := by
  unfold Host.loadHistory
  rw [historyPath_loc]
  refine Triple.bind (calm_pathExists_at calm _) fun there => Triple.given fun isThere => ?_
  cases stored with
  | some entries =>
    obtain ⟨modified, found⟩ := FileSystem.content_eq_some.mp holds
    rw [found] at isThere
    subst isThere
    exact calm_readJson_at calm faithful.history holds
  | none =>
    have absent : fs.node host.historyLoc = none := holds
    rw [absent] at isThere
    subst isThere
    exact Triple.pure fun _ stands => ⟨rfl, stands⟩

theorem represents_append (calm : env.Calm) (faithful : host.Faithful)
    (represents : Represents host fs ledger) (entry : TransferHistoryEntry) :
    Triple (Stands env fs) (Command.run host (.append entry))
      (fun _ w => w.env = env ∧ Represents host w.fs (ledger.after (.append entry)) ∧
        Spared host fs w.fs) Never := by
  refine Triple.bind (calm_loadHistory calm faithful represents.history) fun entries => ?_
  refine Triple.given fun isStored => ?_
  subst isStored
  rw [historyPath_loc]
  have split : host.historyLoc = host.homeLoc ++ [sendrsName] ++ [historyName] := by
    simp [Host.historyLoc, Host.at]
  have noDir := notDir_of_stores represents.history
  rw [split] at noDir ⊢
  refine (calm_writeJson_at calm represents.homeDir (represents.unblocked (.inl rfl)) noDir _).post
    fun _ w saved => ?_
  rw [← split] at saved
  have spared : Spared host fs w.fs := by
    have saved : Saved env fs (host.at []) (host.at [historyName])
      (host.history.body (ledger.history.getD [] ++ [entry])) w := saved
    exact saved.spared represents.homeDir ⟨by decide, by decide⟩ ⟨by decide, by decide⟩
  have aside {names : List Name} (nonempty : names ≠ []) :
      ¬ host.at names <+: host.homeLoc ++ [sendrsName] := fun below =>
    nonempty (List.prefix_nil.mp (at_prefix_at.mp below))
  have apart {names : List Name} (differ : names ≠ [historyName]) : host.at names ≠ host.historyLoc :=
    fun same => differ (at_inj.mp same)
  refine ⟨saved.env_eq, ⟨saved.there home_ne_at represents.homeDir, ?_, ?_, fun other => ?_,
    saved.content_eq⟩, spared⟩
  · exact saved.content_none (apart (by simp)) represents.dataRoot
  · exact saved.content_none (apart (by decide)) represents.offersRoot
  · exact stores_congr (saved.elsewhere (apart (by simp)) (aside (by simp))) (represents.offers other)

theorem represents_clean (calm : env.Calm) (represents : Represents host fs ledger) (flags : CleanFlags) :
    Triple (Stands env fs) (Command.run host (.clean flags))
      (fun _ w => w.env = env ∧ Represents host w.fs (ledger.after (.clean flags)) ∧
        Spared host fs w.fs) Never := by
  refine Triple.bind ?_ fun _ => Triple.pure fun _ holds => holds
  rw [cmdClean_eq]
  refine Triple.bind (calm_cleanAll calm flags.targets (homeDir_ofLoc represents.homeDir)) fun _ =>
    Triple.pure fun w cut => ?_
  -- what is gone is at or below the entry of a target
  have goneAt (names : List Name) {target : CleanTarget} (selected : flags.selects target)
      (below : [target.name] <+: names) : w.fs.node (host.at names) = none :=
    cut.gone_eq _ ⟨target, mem_targets.mpr selected, at_prefix_at.mpr below⟩
  have keptAt (names : List Name) (aside : ∀ target, flags.selects target → ¬ [target.name] <+: names) :
      w.fs.node (host.at names) = fs.node (host.at names) :=
    cut.node_eq _ fun ⟨target, selected, below⟩ =>
      aside target (mem_targets.mp selected) (at_prefix_at.mp below)
  have spared : Spared host fs w.fs := by
    refine ⟨fun loc aside => cut.node_eq loc ?_, keptAt [identityName] fun target _ below => ?_,
      fun loc _ => ?_⟩
    · rintro ⟨target, _, below⟩
      have inside : host.at [target.name] <+: loc := below
      exact aside ((at_prefix_at.mpr List.nil_prefix).trans inside)
    · cases target <;> exact absurd below (by decide)
    · by_cases gone : ∃ target ∈ flags.targets, host.homeLoc ++ [sendrsName, target.name] <+: loc
      · exact Or.inr (cut.gone_eq loc gone)
      · exact Or.inl (cut.node_eq loc gone)
  refine ⟨cut.env_eq, ⟨?_, ?_, ?_, fun code => ?_, ?_⟩, spared⟩
  · refine (cut.node_eq _ ?_).trans represents.homeDir
    rintro ⟨target, _, below⟩
    have inside : host.at [target.name] <+: host.homeLoc := below
    exact not_at_prefix_home inside
  · rw [FileSystem.content, keptAt [] fun _ _ => by simp]
    exact represents.dataRoot
  · by_cases offers : flags.selects .offers
    · exact content_none_of_node (goneAt [offersName] offers (List.prefix_refl _))
    · rw [FileSystem.content, keptAt [offersName] fun target selected below => ?_]
      · exact represents.offersRoot
      · cases target <;> first | exact offers selected | exact absurd below (by decide)
  · show w.fs.Stores host.offers _ ((if flags.selects .offers then fun _ => none else ledger.offers) code)
    by_cases offers : flags.selects .offers
    · rw [if_pos offers]
      exact goneAt [offersName, code.fileName] offers (List.cons_prefix_cons.mpr ⟨rfl, List.nil_prefix⟩)
    · rw [if_neg offers]
      refine stores_congr (keptAt [offersName, code.fileName] fun target selected below => ?_)
        (represents.offers code)
      have head := (List.cons_prefix_cons.mp below).1
      cases target <;> first | exact offers selected | exact absurd head (by decide)
  · show w.fs.Stores host.history _ (if flags.selects .history then none else ledger.history)
    by_cases history : flags.selects .history
    · rw [if_pos history]
      exact goneAt [historyName] history (List.prefix_refl _)
    · rw [if_neg history]
      refine stores_congr (keptAt [historyName] fun target selected below => ?_) represents.history
      cases target <;> first | exact history selected | exact absurd below (by decide)

/-- **One command** does to the tree what it does to the ledger. -/
theorem represents_command (calm : env.Calm) (faithful : host.Faithful)
    (represents : Represents host fs ledger) (command : Command) :
    Triple (Stands env fs) (command.run host)
      (fun _ w => w.env = env ∧ Represents host w.fs (ledger.after command) ∧ Spared host fs w.fs)
      Never := by
  cases command with
  | publish code offer => exact represents_publish calm represents code offer
  | append entry => exact represents_append calm faithful represents entry
  | clean flags => exact represents_clean calm represents flags

end Commands

/-! ### Any number of commands -/

/-- The ledger after a run. -/
def Ledger.run (ledger : Ledger) (commands : List Command) : Ledger := commands.foldl Ledger.after ledger

/-- A run of commands on the disk. -/
def runAll (host : Host) (commands : List Command) : Sys Unit := commands.forM (Command.run host)

/-- **A run of commands** keeps the tree and the ledger related. -/
theorem represents_run {host : Host} {env : Surroundings} (calm : env.Calm) (faithful : host.Faithful)
    (commands : List Command) :
    ∀ {fs : FileSystem} {ledger : Ledger}, Represents host fs ledger →
      Triple (Stands env fs) (runAll host commands)
        (fun _ w => w.env = env ∧ Represents host w.fs (ledger.run commands) ∧ Spared host fs w.fs)
        Never := by
  induction commands with
  | nil =>
    intro fs ledger represents
    refine Triple.pure fun w stands => ⟨stands.env_eq, ?_⟩
    rw [stands.fs_eq]
    exact ⟨represents, fun _ _ => rfl, rfl, fun _ _ => Or.inl rfl⟩
  | cons command commands ih =>
    intro fs ledger represents
    refine Triple.bind (represents_command calm faithful represents command) fun _ w after => ?_
    obtain ⟨sameEnv, after, spared⟩ := after
    refine ((ih after).post fun _ w' later => ?_) w ⟨sameEnv, rfl⟩
    exact ⟨later.1, later.2.1, spared.trans later.2.2⟩

/-- **`history`** prints the last entries that were appended since the history was cleaned up, the
newest first, and changes nothing. -/
theorem history_newest {host : Host} {env : Surroundings} (calm : env.Calm) (faithful : host.Faithful)
    {fs : FileSystem} {ledger : Ledger} (represents : Represents host fs ledger)
    (commands : List Command) (humanBytes : Nat → String) (limit : Nat) :
    Triple (Stands env fs) (do runAll host commands; host.cmdHistory humanBytes limit)
      (fun lines w => Represents host w.fs (ledger.run commands) ∧
        ∃ shown, shown <:+ ((ledger.run commands).history.getD []) ∧
          shown.length = min limit ((ledger.run commands).history.getD []).length ∧
          lines = if shown = [] then ["No transfer history."]
            else (shown.map (TransferHistoryEntry.line humanBytes)).reverse) Never := by
  refine Triple.bind (represents_run calm faithful commands represents) fun _ => ?_
  rintro w ⟨sameEnv, after, _⟩
  refine (Triple.bind (calm_loadHistory (sameEnv ▸ calm) faithful after.history) fun entries =>
    Triple.given fun isStored => Triple.pure fun w' stands => ?_) w ⟨rfl, rfl⟩
  subst isStored
  refine ⟨by rw [stands.fs_eq]; exact after, ?_⟩
  generalize (ledger.run commands).history.getD [] = entries
  refine ⟨entries.drop (entries.length - limit), List.drop_suffix _ _, ?_, ?_⟩
  · rw [List.length_drop]
    omega
  · unfold historyLines
    dsimp only
    simp only [List.take_reverse, List.reverse_eq_nil_iff, List.map_reverse]

/-! ### The JSON of the records -/

open Json (Format)
open Json.Format

/-- `SendOffer`. -/
def offerFormat : Format SendOffer :=
  record (both (member "code" string) <| both (member "sender_id" string) <|
      both (member "sender_name" string) <| both (member "source_path" string) <|
      both (member "manifest_path" string) <| both (member "public_enabled" bool)
      (member "created_at" string))
    (fun (code, senderId, senderName, sourcePath, manifestPath, publicEnabled, createdAt) =>
      ⟨code, senderId, senderName, sourcePath, manifestPath, publicEnabled, createdAt⟩)
    (fun offer => (offer.code, offer.senderId, offer.senderName, offer.sourcePath, offer.manifestPath,
      offer.publicEnabled, offer.createdAt)) fun _ => rfl

/-- `ReceiverClaim`. -/
def claimFormat : Format ReceiverClaim :=
  record (both (member "claim_id" string) <| both (member "receiver_id" string) <|
      both (member "receiver_name" string) <| both (member "target_dir" string) (member "created_at" string))
    (fun (claimId, receiverId, receiverName, targetDir, createdAt) =>
      ⟨claimId, receiverId, receiverName, targetDir, createdAt⟩)
    (fun claim => (claim.claimId, claim.receiverId, claim.receiverName, claim.targetDir, claim.createdAt))
    fun _ => rfl

/-- `SessionState`. -/
def stateFormat : Format SessionState :=
  record (both (member "claim_id" optional) <| both (member "state" string) <|
      both (member "message" string) <| both (member "bytes_done" nat) <| both (member "bytes_total" nat)
      (member "updated_at" string))
    (fun (claimId, state, message, bytesDone, bytesTotal, updatedAt) =>
      ⟨claimId, state, message, bytesDone, bytesTotal, updatedAt⟩)
    (fun said => (said.claimId, said.state, said.message, said.bytesDone, said.bytesTotal, said.updatedAt))
    fun _ => rfl

/-- `TransferHistoryEntry`. -/
def entryFormat : Format TransferHistoryEntry :=
  record (historyMembers string string)
    (fun (id, code, role, status, source, target, peerId, peerName, bytesDone, bytesTotal, startedAt,
        finishedAt, error) =>
      ⟨id, code, role, status, source, target, peerId, peerName, bytesDone, bytesTotal, startedAt,
        finishedAt, error⟩)
    (fun entry => (entry.id, entry.code, entry.role, entry.status, entry.source, entry.target, entry.peerId,
      entry.peerName, entry.bytesDone, entry.bytesTotal, entry.startedAt, entry.finishedAt, entry.error))
    fun _ => rfl

/-! ### A device -/

/-- A receive that was finished. -/
def savedEntry : TransferHistoryEntry where
  id := "5d1c2c3e-52a1-4f5e-8d39-7a61b8c1f0aa"
  code := "0B0C-1D5E"
  role := "receive"
  status := "completed"
  source := some "/h/s"
  target := some "/t"
  peerId := some "0b0c1d5e-8a52-4a7e-9c43-2f7d1c9e3a60"
  peerName := some "192.168.1.7"
  bytesDone := 2
  bytesTotal := 2
  startedAt := "2026-02-11T08:00:00+00:00"
  finishedAt := "2026-02-11T08:00:05+00:00"
  error := none

/-- A send of the same file that failed. -/
def failedEntry : TransferHistoryEntry where
  id := "c7b0a1d2-93e4-4b7a-8f15-2d6e9a0c4b31"
  code := "0B0C-1D5E"
  role := "send"
  status := "failed"
  source := some "/h/s"
  target := some "/u"
  peerId := some "7f9d3c52-6b1e-4a0f-9d7e-3f3c5b8a1e42"
  peerName := some "192.168.1.9"
  bytesDone := 0
  bytesTotal := 2
  startedAt := "2026-02-11T08:01:00+00:00"
  finishedAt := "2026-02-11T08:01:02+00:00"
  error := some "sender rejected authentication"

/-- An offer of the file `/h/s`. -/
def sampleOffer : SendOffer where
  code := "0B0C-1D5E"
  senderId := "0b0c1d5e-8a52-4a7e-9c43-2f7d1c9e3a60"
  senderName := "192.168.1.7"
  sourcePath := "/h/s"
  manifestPath := "/h/.sendrs/manifests/0B0C-1D5E.json"
  publicEnabled := true
  createdAt := "2026-02-11T08:00:00+00:00"

/-- A claim of the device for the offer. -/
def sampleClaim : ReceiverClaim where
  claimId := "7f9d3c52-6b1e-4a0f-9d7e-3f3c5b8a1e42"
  receiverId := "0b0c1d5e-8a52-4a7e-9c43-2f7d1c9e3a60"
  receiverName := "sendrs-device"
  targetDir := "/t"
  createdAt := "2026-02-11T08:00:00+00:00"

theorem homeName_proper : Name.Proper (utf8 "h") := by decide

theorem targetName_proper : Name.Proper (utf8 "t") := by decide

def homeName : Name := nameOf "h" homeName_proper

def targetName : Name := nameOf "t" targetName_proper

/-- A device with the home directory `/h`. -/
def sampleHost : Host where
  homeLoc := [homeName]
  table := ⟨fun c => [c.toUpper], fun _ _ => rfl⟩
  platform := samplePlatform
  keys := sampleKeys
  rfc3339 _ := "2026-02-11T08:00:00+00:00"
  offers := codecOf offerFormat
  claims := codecOf claimFormat
  states := codecOf stateFormat
  history := codecOf (many entryFormat .square)
  trust := codecOf trustStoreFormat
  identities := codecOf identityFormat

theorem sampleHost_faithful : sampleHost.Faithful where
  offers := codecOf_faithful (closed_record _)
  claims := codecOf_faithful (closed_record _)
  states := codecOf_faithful (closed_record _)
  history := codecOf_faithful (closed_many _ _)
  trust := codecOf_faithful ((closed_object _).as _)
  identities := codecOf_faithful (closed_record _)

/-- The home directory, and the directory `/t`. -/
def homeTree : FileSystem := (FileSystem.empty.put [homeName] .dir).put [targetName] .dir

/-- There is no data directory yet. -/
theorem homeTree_bare (names : List Name) : homeTree.node (sampleHost.at names) = none := by
  have deep : sampleHost.at names = homeName :: sendrsName :: names := rfl
  rw [deep, homeTree, FileSystem.node_put_ne _ (by simp), FileSystem.node_put_ne _ (by simp)]
  rfl

theorem homeTree_represents : Represents sampleHost homeTree ⟨fun _ => none, none⟩ where
  homeDir := by decide +kernel
  dataRoot := content_none_of_node (homeTree_bare _)
  offersRoot := content_none_of_node (homeTree_bare _)
  offers _ := homeTree_bare _
  history := homeTree_bare _

/-- The history is cleaned up once; of the three entries that are appended then, the last two are shown,
the newest first. -/
theorem history_newest_saved :
    ∃ w, (do
        runAll sampleHost [.append failedEntry, .clean ⟨false, false, false, false, true⟩,
          .append failedEntry, .append savedEntry, .clean ⟨false, false, false, false, false⟩,
          .append failedEntry]
        sampleHost.cmdHistory (fun n => toString n ++ "B") 2) ⟨quietEnv, homeTree, 0⟩ =
      .ok ["SEND From:192.168.1.9 File:s Size:2B Saved:/u Status:failed",
        "RECV From:192.168.1.7 File:s Size:2B Saved:/t Status:completed"] w := by
  obtain ⟨lines, w, ends, _, shown, isSuffix, length, isLines⟩ :=
    (history_newest quiet_calm sampleHost_faithful homeTree_represents
      [.append failedEntry, .clean ⟨false, false, false, false, true⟩, .append failedEntry,
        .append savedEntry, .clean ⟨false, false, false, false, false⟩, .append failedEntry]
      (fun n => toString n ++ "B") 2).returns
        (⟨rfl, rfl⟩ : Stands quietEnv homeTree ⟨quietEnv, homeTree, 0⟩)
  refine ⟨w, ?_⟩
  have isHistory : ((⟨fun _ => none, none⟩ : Ledger).run [.append failedEntry,
      .clean ⟨false, false, false, false, true⟩, .append failedEntry, .append savedEntry,
      .clean ⟨false, false, false, false, false⟩, .append failedEntry]).history.getD [] =
      [failedEntry] ++ [savedEntry, failedEntry] := rfl
  rw [isHistory] at isSuffix length
  have two : shown = [savedEntry, failedEntry] :=
    List.IsSuffix.eq_of_length (List.suffix_of_suffix_length_le isSuffix (List.suffix_append _ _)
      (Nat.le_of_eq length)) length
  rw [ends, isLines, two]
  congr 1

end SendRs.Disk
