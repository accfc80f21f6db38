/-
**What the shared files show.**

`Shows` relates a tree to the files of a session: each of the six files holds a record that says what
the session has there. A call of a process on one of them returns what the file shows, or changes what
it shows and leaves the others alone; there is one lemma for each call.
-/

import SendRs.Disk.Receive
import SendRs.Disk.Session

namespace SendRs.Disk

open Effect Cli

/-! ### Places -/

def trustName : Name := nameOf "trusted_peers.json" (by decide)

/-- The names below the data directory. -/
def SharedFile.names (code : Code) : SharedFile → List Name
  | .claim => [sessionsName, code.dirName, claimName]
  | .senderYes => [sessionsName, code.dirName, senderYesName]
  | .receiverYes => [sessionsName, code.dirName, receiverYesName]
  | .state => [sessionsName, code.dirName, stateName]
  | .trust => [trustName]
  | .history => [historyName]

/-- The directory in which a file is, and its own name. -/
def SharedFile.up (code : Code) : SharedFile → List Name
  | .claim | .senderYes | .receiverYes | .state => [sessionsName, code.dirName]
  | .trust | .history => []

def SharedFile.name : SharedFile → Name
  | .claim => claimName
  | .senderYes => senderYesName
  | .receiverYes => receiverYesName
  | .state => stateName
  | .trust => trustName
  | .history => historyName

def Host.sharedLoc (host : Host) (code : Code) (file : SharedFile) : Loc := host.at (file.names code)

section Places

variable {host : Host} {code : Code}

theorem sharedLoc_eq (host : Host) (code : Code) (file : SharedFile) :
    host.sharedLoc code file = host.at (file.up code) ++ [file.name] := by
  cases file <;> simp [Host.sharedLoc, Host.at, SharedFile.names, SharedFile.up, SharedFile.name]

/-- No file is at or below another one. -/
theorem sharedLoc_apart {first second : SharedFile}
    (below : host.sharedLoc code first <+: host.sharedLoc code second) : first = second := by
  have names : first.names code <+: second.names code := at_prefix_at.mp below
  cases first <;> cases second <;> first
    | rfl
    | exact absurd (List.cons_prefix_cons.mp (List.cons_prefix_cons.mp
        (List.cons_prefix_cons.mp names).2).2).1 (by decide)
    | exact absurd (List.cons_prefix_cons.mp names).1 (by decide)

theorem sharedPath_loc (host : Host) (code : Code) (file : SharedFile) :
    host.sharedPath code.text file = .ofLoc (host.sharedLoc code file) := by
  have session {s : String} (name : Name) (spells : utf8 s = name.bytes) :
      (sessionRoot host.table host.home code.text).join (.ofString s) =
        .ofLoc (host.at [sessionsName, code.dirName, name]) := by
    rw [sessionFile_eq host.home (normalizeCode_code host.table code) name spells, down_home]
  cases file with
  | claim => exact session claimName rfl
  | senderYes => exact session senderYesName rfl
  | receiverYes => exact session receiverYesName rfl
  | state => exact session stateName rfl
  | history => exact historyPath_loc
  | trust =>
    show host.dataDir.join (.ofString "trusted_peers.json") = _
    rw [dataDir_loc, join_name trustName rfl, down_ofLoc, sharedLoc_eq]
    rfl

/-- The files that are cleared. -/
def shared : RuntimeFile → SharedFile
  | .receiverClaim => .claim
  | .senderYes => .senderYes
  | .receiverYes => .receiverYes

theorem runtimePath_loc (host : Host) (code : Code) (file : RuntimeFile) :
    host.runtimePath code.text file = .ofLoc (host.sharedLoc code (shared file)) := by
  rw [← sharedPath_loc]
  cases file <;> rfl

end Places

/-! ### What the files show -/

/-- There is a file, or there is nothing. -/
def FileSystem.Flag (fs : FileSystem) (loc : Loc) (there : Bool) : Prop :=
  (fs.node loc).isSome = there ∧ ¬ fs.IsDir loc

/-- The stores know the same peers. -/
def Knows (store : TrustStore) (peers : List String) : Prop :=
  ∀ id, (store.peers.lookup id).isSome ↔ id ∈ peers

/-- What one file shows. -/
def Shown (host : Host) (code : Code) (fs : FileSystem) (files : Files) : SharedFile → Prop
  | .claim => ∃ stored, fs.Stores host.claims (host.sharedLoc code .claim) stored ∧
    stored.map ReceiverClaim.brief = files.receiver
  | .senderYes => FileSystem.Flag fs (host.sharedLoc code .senderYes) files.senderYes
  | .receiverYes => FileSystem.Flag fs (host.sharedLoc code .receiverYes) files.receiverYes
  | .state => ∃ stored, fs.Stores host.states (host.sharedLoc code .state) stored ∧
    Option.Rel SessionState.Tells stored files.state
  | .trust => ∃ stored, fs.Stores host.trust (host.sharedLoc code .trust) stored ∧
    Knows (stored.getD .default) files.trust
  | .history => ∃ stored, fs.Stores host.history (host.sharedLoc code .history) stored ∧
    List.Forall₂ TransferHistoryEntry.Tells (stored.getD []) files.history

/-- **The tree shows the files of the session.** -/
structure Shows (host : Host) (code : Code) (fs : FileSystem) (files : Files) : Prop where
  dir : fs.IsDir (host.at [sessionsName, code.dirName])
  each : ∀ file, Shown host code fs files file

section Shows

variable {host : Host} {code : Code} {env : Surroundings} {fs : FileSystem} {files : Files}

/-- What one file shows depends on its place. -/
theorem Shown.congr {other : FileSystem} {file : SharedFile} (shown : Shown host code fs files file)
    (same : other.node (host.sharedLoc code file) = fs.node (host.sharedLoc code file)) :
    Shown host code other files file := by
  have flag {loc : Loc} {there : Bool} (same : other.node loc = fs.node loc)
      (holds : FileSystem.Flag fs loc there) : FileSystem.Flag other loc there := by
    unfold FileSystem.Flag FileSystem.IsDir at holds ⊢
    rwa [same]
  cases file with
  | claim =>
    obtain ⟨stored, holds, told⟩ := shown
    exact ⟨stored, stores_congr same holds, told⟩
  | state =>
    obtain ⟨stored, holds, told⟩ := shown
    exact ⟨stored, stores_congr same holds, told⟩
  | trust =>
    obtain ⟨stored, holds, told⟩ := shown
    exact ⟨stored, stores_congr same holds, told⟩
  | history =>
    obtain ⟨stored, holds, told⟩ := shown
    exact ⟨stored, stores_congr same holds, told⟩
  | senderYes => exact flag same shown
  | receiverYes => exact flag same shown

theorem Shown.noDir {file : SharedFile} (shown : Shown host code fs files file) :
    ¬ fs.IsDir (host.sharedLoc code file) := by
  cases file with
  | claim | state | trust | history => exact notDir_of_stores shown.choose_spec.1
  | senderYes | receiverYes => exact shown.2

/-- The directory of each file is there. -/
theorem Shows.up (shows : Shows host code fs files) (file : SharedFile) : fs.IsDir (host.at (file.up code)) := by
  have dataDir : fs.IsDir (host.at []) := by
    have split : host.at [sessionsName, code.dirName] = host.at [] ++ [sessionsName, code.dirName] := by
      simp [Host.at]
    have isDir := shows.dir
    rw [split] at isDir
    exact FileSystem.isDir_prefix _ (List.cons_ne_nil _ _) isDir
  cases file with
  | claim | senderYes | receiverYes | state => exact shows.dir
  | trust | history => exact dataDir

/-- The places that the session looks at. -/
def Host.Looks (host : Host) (code : Code) (loc : Loc) : Prop :=
  loc = host.at [sessionsName, code.dirName] ∨ ∃ file, loc = host.sharedLoc code file

/-- A tree that is the same there shows the same. -/
theorem Shows.congr {other : FileSystem} (shows : Shows host code fs files)
    (same : ∀ loc, host.Looks code loc → other.node loc = fs.node loc) : Shows host code other files :=
  ⟨(same _ (Or.inl rfl)).trans shows.dir, fun file => (shows.each file).congr (same _ (Or.inr ⟨file, rfl⟩))⟩

/-- **A change at one file** changes what this file shows. -/
theorem Shows.change {after : FileSystem} {files' : Files} (shows : Shows host code fs files)
    {file : SharedFile} (same : ∀ loc, ¬ host.sharedLoc code file <+: loc → after.node loc = fs.node loc)
    (others : ∀ other, other ≠ file → Shown host code fs files other → Shown host code fs files' other)
    (own : Shown host code after files' file) : Shows host code after files' := by
  refine ⟨(same _ fun below => ?_).trans shows.dir, fun other => ?_⟩
  · -- the directory of the session is at or below none of its files
    have names : file.names code <+: [sessionsName, code.dirName] := at_prefix_at.mp below
    cases file with
    | claim | senderYes | receiverYes | state => exact absurd names.length_le (by simp [SharedFile.names])
    | trust | history => exact absurd (List.cons_prefix_cons.mp names).1 (by decide)
  · by_cases isFile : other = file
    · exact isFile ▸ own
    · refine (others other isFile (shows.each other)).congr (same _ fun below => isFile ?_)
      exact (sharedLoc_apart below).symm

end Shows

/-! ### The calls -/

section Calls

variable {host : Host} {code : Code} {env : Surroundings} {fs : FileSystem} {files : Files} {α : Type}
  {codec : JsonCodec α}

/-- The world, with a tree that shows the files. -/
structure Now (host : Host) (code : Code) (env : Surroundings) (files : Files) (w : World) : Prop where
  env_eq : w.env = env
  shows : Shows host code w.fs files

theorem now_of_stands {w : World} (stands : Stands env fs w) (shows : Shows host code fs files) :
    Now host code env files w :=
  ⟨stands.env_eq, stands.fs_eq ▸ shows⟩

theorem isSome_of_stores {loc : Loc} {stored : Option α} (holds : fs.Stores codec loc stored) :
    (fs.node loc).isSome = stored.isSome := by
  cases stored with
  | none =>
    have absent : fs.node loc = none := holds
    rw [absent]
    rfl
  | some value =>
    obtain ⟨modified, found⟩ := FileSystem.content_eq_some.mp holds
    rw [found]
    rfl

/-- **The test for a file.** -/
theorem exists_shared (calm : env.Calm) (shows : Shows host code fs files) (file : RuntimeFile) :
    Triple (Stands env fs) (pathExists (host.runtimePath code.text file))
      (fun there w => there = files.exists file ∧ Stands env fs w) Never := by
  rw [runtimePath_loc]
  refine (calm_pathExists_at calm _).post fun there w ⟨isThere, stands⟩ => ⟨isThere.trans ?_, stands⟩
  cases file with
  | receiverClaim =>
    obtain ⟨stored, holds, told⟩ := shows.each .claim
    show _ = files.receiver.isSome
    rw [← told, Option.isSome_map]
    exact isSome_of_stores holds
  | senderYes => exact (shows.each .senderYes).1
  | receiverYes => exact (shows.each .receiverYes).1

/-- Writing a record into a directory that is there. -/
theorem calm_writeJson_there (calm : env.Calm) {up : Loc} {name : Name} (isDir : fs.IsDir up)
    (noDir : ¬ fs.IsDir (up ++ [name])) (value : α) :
    Triple (Stands env fs) (writeJson codec (.ofLoc (up ++ [name])) value)
      (fun _ => Wrote env fs (up ++ [name]) (codec.body value)) Never := by
  have split : up ++ [name] = up ++ [] ++ [name] := by rw [List.append_nil]
  have clear : Unblocked fs up [] := unblocked_of_isDir (by rwa [List.append_nil])
  rw [split] at noDir ⊢
  refine (calm_writeJson_at calm isDir clear noDir value).post fun _ w saved => ?_
  refine ⟨saved.env_eq, saved.content_eq, fun other different => ?_⟩
  rcases saved.node_eq other different with same | ⟨above, absent, _⟩
  · exact same
  · -- all directories down to `up` are there
    rw [List.append_nil] at above
    obtain ⟨rest, rfl⟩ := above
    have there : fs.IsDir other := by
      by_cases last : rest = []
      · rwa [last, List.append_nil] at isDir
      · exact FileSystem.isDir_prefix rest last isDir
    rw [there] at absent
    cases absent

/-- A write to a shared file shows what is written. -/
theorem now_of_wrote {files' : Files} {file : SharedFile} {body : Bytes} {w : World}
    (wrote : Wrote env fs (host.sharedLoc code file) body w) (shows : Shows host code fs files)
    (others : ∀ other, other ≠ file → Shown host code fs files other → Shown host code fs files' other)
    (own : Shown host code w.fs files' file) : Now host code env files' w := by
  refine ⟨wrote.env_eq, shows.change (fun loc aside => wrote.node_eq loc ?_) others own⟩
  rintro rfl
  exact aside (List.prefix_refl _)

/-- **Writing a record to a shared file.** -/
theorem writeJson_shared (calm : env.Calm) (shows : Shows host code fs files) {files' : Files}
    (file : SharedFile) (value : α)
    (others : ∀ other, other ≠ file → Shown host code fs files other → Shown host code fs files' other)
    (own : ∀ after : FileSystem, after.content (host.sharedLoc code file) = some (codec.body value) →
      Shown host code after files' file) :
    Triple (Stands env fs) (writeJson codec (host.sharedPath code.text file) value)
      (fun _ => Now host code env files') Never := by
  have noDir := (shows.each file).noDir
  rw [sharedPath_loc]
  rw [sharedLoc_eq] at noDir ⊢
  refine (calm_writeJson_there calm (shows.up file) noDir value).post fun _ w wrote => ?_
  rw [← sharedLoc_eq] at wrote
  exact now_of_wrote wrote shows others (own w.fs wrote.content_eq)

/-- **Writing a shared file** without the creation of directories. -/
theorem fsWrite_shared (calm : env.Calm) (shows : Shows host code fs files) {files' : Files}
    (file : SharedFile) (body : Bytes)
    (others : ∀ other, other ≠ file → Shown host code fs files other → Shown host code fs files' other)
    (own : ∀ after : FileSystem, after.content (host.sharedLoc code file) = some body →
      Shown host code after files' file) :
    Triple (Stands env fs) (fsWrite (host.sharedPath code.text file) body)
      (fun _ => Now host code env files') Never := by
  have noDir := (shows.each file).noDir
  have free : fs.Free (host.sharedLoc code file) := by
    refine ⟨?_, noDir⟩
    rw [sharedLoc_eq, List.dropLast_concat]
    exact shows.up file
  have leads : fs.resolve env.cwd (.ofLoc (host.sharedLoc code file)) =
      some (host.sharedLoc code file) := by
    rw [sharedLoc_eq]
    exact resolve_under (shows.up file) file.name
  rw [sharedPath_loc]
  exact (calm_fsWrite calm leads free body).post fun _ w wrote =>
    now_of_wrote wrote shows others (own w.fs wrote.content_eq)

/-- `write_state`. -/
theorem writeSaid_shared {ι : Type} {serving : Serving ι} (calm : env.Calm)
    (shows : Shows host serving.code fs files) (said : Cli.SessionState) :
    Triple (Stands env fs) (host.writeSaid serving said)
      (fun _ => Now host serving.code env { files with state := some said }) Never := by
  refine Triple.bind (calm_now calm) fun updatedAt => ?_
  refine writeJson_shared calm shows .state _ (fun other different shown => ?_) fun after holds =>
    ⟨some _, holds, .some ⟨rfl, rfl, rfl, rfl, rfl⟩⟩
  cases other <;> first | exact shown | exact absurd rfl different

/-- The claim of a `receive`. -/
theorem writeClaim_shared (calm : env.Calm) (shows : Shows host code fs files) (claim : ReceiverClaim) :
    Triple (Stands env fs)
      (writeJson host.claims (receiverClaimPath host.table host.home code.text) claim)
      (fun _ => Now host code env { files with receiver := some claim.brief }) Never := by
  refine writeJson_shared calm shows .claim claim (fun other different shown => ?_) fun after holds =>
    ⟨some claim, holds, rfl⟩
  cases other <;> first | exact shown | exact absurd rfl different

/-- The confirmation of the sender. -/
theorem senderYes_shared (calm : env.Calm) (shows : Shows host code fs files) :
    Triple (Stands env fs) (fsWrite (senderYesPath host.table host.home code.text) yes)
      (fun _ => Now host code env { files with senderYes := true }) Never := by
  refine fsWrite_shared calm shows .senderYes yes (fun other different shown => ?_) fun after holds => ?_
  · cases other <;> first | exact shown | exact absurd rfl different
  · obtain ⟨modified, found⟩ := FileSystem.content_eq_some.mp holds
    refine ⟨by rw [found]; rfl, ?_⟩
    rw [FileSystem.IsDir, found]
    simp

/-- The confirmation of a receiver. -/
theorem receiverYes_shared (calm : env.Calm) (shows : Shows host code fs files) :
    Triple (Stands env fs) (fsWrite (receiverYesPath host.table host.home code.text) yes)
      (fun _ => Now host code env { files with receiverYes := true }) Never := by
  refine fsWrite_shared calm shows .receiverYes yes (fun other different shown => ?_) fun after holds => ?_
  · cases other <;> first | exact shown | exact absurd rfl different
  · obtain ⟨modified, found⟩ := FileSystem.content_eq_some.mp holds
    refine ⟨by rw [found]; rfl, ?_⟩
    rw [FileSystem.IsDir, found]
    simp

/-- The save of a trust store. -/
theorem saveTrust_shared (calm : env.Calm) (shows : Shows host code fs files) {store : TrustStore}
    {peers : List String} (knows : Knows store peers) :
    Triple (Stands env fs) (fsWrite host.trustFile (host.trust.body store))
      (fun _ => Now host code env { files with trust := peers }) Never := by
  refine fsWrite_shared calm shows .trust (host.trust.body store) (fun other different shown => ?_)
    fun after holds => ⟨some store, holds, knows⟩
  cases other <;> first | exact shown | exact absurd rfl different

/-- The save of a history. -/
theorem saveHistory_shared (calm : env.Calm) (shows : Shows host code fs files)
    {entries : List TransferHistoryEntry} {said : List Cli.TransferHistoryEntry}
    (tell : List.Forall₂ TransferHistoryEntry.Tells entries said) :
    Triple (Stands env fs) (writeJson host.history (historyPath host.home) entries)
      (fun _ => Now host code env { files with history := said }) Never := by
  refine writeJson_shared calm shows .history entries (fun other different shown => ?_)
    fun after holds => ⟨some entries, holds, tell⟩
  cases other <;> first | exact shown | exact absurd rfl different

/-! ### Reading -/

theorem readClaim_shared (calm : env.Calm) (faithful : host.Faithful) (shows : Shows host code fs files) :
    Triple (Stands env fs)
      (attempt (readJson host.claims (receiverClaimPath host.table host.home code.text)))
      (fun read w => (match read with
        | .ok claim => files.receiver = some claim.brief
        | .error _ => files.receiver = none) ∧ Stands env fs w) Never := by
  obtain ⟨stored, holds, told⟩ := shows.each .claim
  have path := sharedPath_loc host code .claim
  rw [← told]
  show Triple _ (attempt (readJson _ (host.sharedPath code.text .claim))) _ _
  rw [path]
  cases stored with
  | some claim =>
    refine Triple.attempt ?_
    refine (calm_readJson_at calm faithful.claims holds).conseq (fun _ stands => stands) ?_
      fun _ _ none => none.elim
    rintro read w ⟨rfl, stands⟩
    exact ⟨rfl, stands⟩
  | none =>
    refine Triple.attempt ?_
    exact (calm_readJson_absent calm (content_none_of_node holds)).conseq (fun _ stands => stands)
      (fun _ _ none => none.elim) fun _ _ holds => ⟨rfl, holds.2⟩

theorem readState_shared (calm : env.Calm) (faithful : host.Faithful) (shows : Shows host code fs files) :
    Triple (Stands env fs) (attempt (host.readState code.text))
      (fun read w => (match read with
        | .ok record => ∃ said, files.state = some said ∧ record.Tells said
        | .error error => files.state = none ∧ error.headD "" = "read json") ∧ Stands env fs w)
      Never := by
  obtain ⟨stored, holds, told⟩ := shows.each .state
  have path := sharedPath_loc host code .state
  show Triple _ (attempt (readJson _ (host.sharedPath code.text .state))) _ _
  rw [path]
  generalize files.state = state at told
  cases told with
  | some tells =>
    refine Triple.attempt ?_
    refine (calm_readJson_at calm faithful.states holds).conseq (fun _ stands => stands) ?_
      fun _ _ none => none.elim
    rintro read w ⟨rfl, stands⟩
    exact ⟨⟨_, rfl, tells⟩, stands⟩
  | none =>
    refine Triple.attempt ?_
    refine (calm_readJson_absent calm (content_none_of_node holds)).conseq (fun _ stands => stands)
      (fun _ _ none => none.elim) ?_
    rintro error w ⟨rfl, stands⟩
    exact ⟨⟨rfl, rfl⟩, stands⟩

theorem loadTrust_shared (calm : env.Calm) (faithful : host.Faithful) (shows : Shows host code fs files) :
    Triple (Stands env fs) (loadTrustStore host.trust host.trustFile)
      (fun store w => Knows store files.trust ∧ Stands env fs w) Never := by
  obtain ⟨stored, holds, knows⟩ := shows.each .trust
  have path : host.trustFile = .ofLoc (host.at [] ++ [trustName]) :=
    (sharedPath_loc host code .trust).trans (by rw [sharedLoc_eq]; rfl)
  rw [sharedLoc_eq] at holds
  rw [path]
  refine (loadTrustStore_calm calm faithful.trust (shows.up .trust) holds).post ?_
  rintro store w ⟨rfl, stands⟩
  exact ⟨knows, stands⟩

/-- `is_trusted`. -/
theorem isTrusted_shared (calm : env.Calm) (faithful : host.Faithful) (shows : Shows host code fs files)
    (peerId : String) :
    Triple (Stands env fs) (host.isTrusted peerId)
      (fun trusted w => (trusted = true ↔ peerId ∈ files.trust) ∧ Stands env fs w) Never := by
  refine Triple.bind (loadTrust_shared calm faithful shows) fun store => Triple.given fun knows => ?_
  exact Triple.pure fun _ stands => ⟨knows peerId, stands⟩

/-- A store with one more peer. -/
theorem knows_insert {store : TrustStore} {peers : List String} (knows : Knows store peers)
    (peerId : String) (peer : PairedPeer) :
    Knows ⟨store.peers.insert peerId peer⟩ (peers.insert peerId) := by
  intro id
  rw [List.mem_insert_iff, ← knows id]
  by_cases same : id = peerId
  · subst same
    simp [AList.lookup_insert]
  · rw [AList.lookup_insert_ne same]
    simp [same]

/-- `pair_peer` up to the write. -/
theorem preparePair_shared (calm : env.Calm) (faithful : host.Faithful) (shows : Shows host code fs files)
    (peerId : String) :
    Triple (Stands env fs) (host.preparePair peerId)
      (fun prepared w => Knows prepared.2 (files.trust.insert peerId) ∧ Now host code env files w)
      Never := by
  unfold Host.preparePair preparePairing
  rw [dataDir_loc]
  refine Triple.bind (Triple.context (calm_createDirAll_there calm (shows.up .trust))) fun _ => ?_
  rintro w ⟨rfl, sameNodes⟩
  have shows' : Shows host code w.fs files := shows.congr fun loc _ => sameNodes loc
  refine (Triple.bind (loadTrust_shared calm faithful shows') fun store => Triple.given fun knows =>
    Triple.bind (calm_turn calm) fun t => Triple.given fun _ =>
      Triple.pure fun v stands => ?_) w ⟨rfl, rfl⟩
  exact ⟨knows_insert knows peerId _, now_of_stands stands shows'⟩

theorem loadHistory_shared (calm : env.Calm) (faithful : host.Faithful) (shows : Shows host code fs files) :
    Triple (Stands env fs) host.loadHistory
      (fun entries w => List.Forall₂ TransferHistoryEntry.Tells entries files.history ∧ Stands env fs w)
      Never := by
  obtain ⟨stored, holds, tell⟩ := shows.each .history
  exact (calm_loadHistory calm faithful holds).post fun entries w isStored => ⟨isStored.1 ▸ tell, isStored.2⟩

/-- `append_history` up to the write. -/
theorem prepareEntry_shared {ι : Type} {serving : Serving ι} (calm : env.Calm) (faithful : host.Faithful)
    (shows : Shows host serving.code fs files) (memory : Memory) (said : Cli.TransferHistoryEntry) :
    Triple (Stands env fs) (host.prepareEntry serving memory said)
      (fun memory w => List.Forall₂ TransferHistoryEntry.Tells memory.history (files.history ++ [said]) ∧
        Stands env fs w) Never := by
  refine Triple.bind (M := fun entry w => entry.Tells said ∧ Stands env fs w) ?_ fun entry => ?_
  · refine Triple.bind (calm_turn calm) fun t => Triple.given fun _ => ?_
    refine Triple.bind (calm_now calm) fun finishedAt => ?_
    exact Triple.pure fun _ stands => ⟨⟨rfl, rfl, rfl, rfl, rfl, rfl, rfl, rfl⟩, stands⟩
  · refine Triple.given fun tells => ?_
    refine Triple.bind (loadHistory_shared calm faithful shows) fun entries => Triple.given fun tell => ?_
    exact Triple.pure fun _ stands => ⟨List.rel_append tell (.cons tells .nil), stands⟩

/-! ### Removing -/

/-- Where nothing is, there is nothing to look at. -/
theorem calm_metadataIsDir_absent (calm : env.Calm) {loc : Loc} (absent : fs.node loc = none) :
    Triple (Stands env fs) (metadataIsDir (.ofLoc loc)) (fun _ _ => False)
      (fun _ => Stands env fs) := by
  have nothing : (fs.resolve env.cwd (.ofLoc loc)).bind fs.node = none := by
    rw [bind_resolve_ofLoc fs env.cwd loc fs.node id, absent]
  refine Triple.bind ((calm_call calm).conseq (fun _ holds => holds) (fun _ _ holds => holds)
    fun _ _ none => none.elim) fun _ => Triple.given fun _ => ?_
  refine Triple.bind (M := fun _ _ => False) ?_ fun _ _ none => none.elim
  cases leads : fs.resolve env.cwd (.ofLoc loc) with
  | none =>
    refine Triple.bind (M := fun _ _ => False) ?_ fun _ _ none => none.elim
    refine Triple.bind (stands_observe (a := none) ?_) fun found => Triple.given fun isFound => ?_
    · rintro w ⟨rfl, rfl⟩
      exact leads
    · subst isFound
      exact Triple.throw fun _ stands => stands
  | some target =>
    rw [leads, Option.bind_some] at nothing
    refine Triple.bind ((calm_resolveNow leads).conseq (fun _ holds => holds) (fun _ _ holds => holds)
      fun _ _ none => none.elim) fun found => Triple.given fun isFound => ?_
    subst isFound
    refine Triple.bind (stands_observe (a := none) ?_) fun there => Triple.given fun isThere => ?_
    · rintro w ⟨rfl, rfl⟩
      exact nothing
    · subst isThere
      exact Triple.throw fun _ stands => stands

/-- A shared file that is gone shows that it is gone. -/
theorem shown_removed {after : FileSystem} {file : RuntimeFile}
    (absent : after.node (host.sharedLoc code (shared file)) = none) :
    Shown host code after (files.remove file) (shared file) := by
  have noDir : ¬ after.IsDir (host.sharedLoc code (shared file)) := by
    rw [FileSystem.IsDir, absent]
    simp
  cases file with
  | receiverClaim => exact ⟨none, absent, rfl⟩
  | senderYes | receiverYes => exact ⟨congrArg Option.isSome absent, noDir⟩

/-- **A removal** of a shared file, which may fail. -/
theorem remove_shared (calm : env.Calm) (shows : Shows host code fs files) (file : RuntimeFile)
    (works : Bool) :
    Triple (Stands env fs) (removeAnyway works (host.runtimePath code.text file))
      (fun _ => Now host code env (if works then files.remove file else files)) Never := by
  have noDir := (shows.each (shared file)).noDir
  have others : ∀ other, other ≠ shared file → Shown host code fs files other →
      Shown host code fs (files.remove file) other := by
    intro other different shown
    cases file <;> cases other <;> first | exact shown | exact absurd rfl different
  cases works with
  | false => exact Triple.pure fun _ stands => now_of_stands stands shows
  | true =>
    refine Triple.bind (M := fun _ => Now host code env (files.remove file)) (Triple.attempt ?_)
      fun _ => Triple.pure fun _ now => now
    rw [runtimePath_loc]
    cases found : fs.node (host.sharedLoc code (shared file)) with
    | none =>
      have shows' : Shows host code fs (files.remove file) :=
        shows.change (fun _ _ => rfl) others (shown_removed found)
      refine Triple.bind (M := fun _ _ => False) ?_ fun _ _ none => none.elim
      exact (calm_metadataIsDir_absent calm found).conseq (fun _ holds => holds)
        (fun _ _ none => none) fun _ _ stands => now_of_stands stands shows'
    | some node =>
      have leads : fs.resolve env.cwd (.ofLoc (host.sharedLoc code (shared file))) =
          some (host.sharedLoc code (shared file)) := FileSystem.resolve_ofLoc found
      refine Triple.bind ((calm_metadataIsDir calm leads found).conseq (fun _ holds => holds)
        (fun _ _ holds => holds) fun _ _ none => none.elim) fun isDir => Triple.given fun answer => ?_
      rw [decide_eq_false noDir] at answer
      subst answer
      cases node with
      | dir => exact absurd found noDir
      | file content modified =>
        refine Triple.context ?_
        refine (calm_removeFile calm leads (FileSystem.content_eq_some.mpr ⟨modified, found⟩)).conseq
          (fun _ holds => holds) (fun _ w cut => ?_) fun _ _ none => none.elim
        exact ⟨cut.env_eq, shows.change cut.node_eq others
          (shown_removed (cut.gone_eq _ (List.prefix_refl _)))⟩

end Calls

end SendRs.Disk
