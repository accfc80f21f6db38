/-
**Values that are kept in JSON files.**

A `JsonCodec` is what the programs use of `serde_json` for one type; `Faithful` is what they rely
on: a text that was written is read back, and a proper part of one, cut off at any byte, is not read
at all, since the bracket it opens with is not closed.

The programs that load and save the manifest, the history and the trust store follow the source call
by call. In calm surroundings they do what they are for (`appendHistory_calm`, `pairPeer_calm`):
`pushEntry` and `insertPeer` are what they make of the value that is stored.
-/

import SendRs.Cli.Session
import SendRs.Os.Persist
import SendRs.Transfer.Manifest

namespace SendRs

open Effect Cli

/-- `serde_json::to_string_pretty` and `serde_json::from_str` at one type. -/
structure JsonCodec (α : Type) where
  encode : α → String
  decode : String → Option α

/-- The bytes of the file that holds a value. -/
def JsonCodec.body {α : Type} (codec : JsonCodec α) (value : α) : Bytes := utf8 (codec.encode value)

/-- What is written is read back; what is cut short is not read. -/
structure JsonCodec.Faithful {α : Type} (codec : JsonCodec α) : Prop where
  roundTrip : ∀ value, codec.decode (codec.encode value) = some value
  torn : ∀ value n s, n < (codec.body value).length →
    toStr ((codec.body value).take n) = some s → codec.decode s = none

/-! ### Reading and writing -/

/-- `fs::read_to_string`. -/
def readToString (path : Path) : Sys String := do
  let _ ← call
  let loc ← resolveNow path
  let there ← observe fun w => w.fs.content loc
  match there with
  | some bytes =>
    match toStr bytes with
    | some s => pure s
    | none => throw ["stream did not contain valid UTF-8"]
  | none => throw osError

/-- `Path::exists`: false when the call fails. -/
def pathExists (path : Path) : Sys Bool := do
  let t ← turn
  let found ← observe fun w => (w.fs.resolve w.env.cwd path).bind w.fs.node
  pure (t.fault.isNone && found.isSome)

/-- `serde_json::from_str`. -/
def fromStr {α : Type} (codec : JsonCodec α) (body : String) : Sys α :=
  match codec.decode body with
  | some value => pure value
  | none => throw ["JSON error"]

/-- `read_json`. -/
def readJson {α : Type} (codec : JsonCodec α) (path : Path) : Sys α := do
  let body ← withContext "read json" (readToString path)
  withContext "parse json" (fromStr codec body)

/-- `if let Some(parent) = path.as_ref().parent() { fs::create_dir_all(parent)?; }` -/
def createJsonParent (path : Path) : Sys Unit :=
  match path.parent with
  | some parent => withContext "create parent dir" (createDirAll parent)
  | none => pure ()

/-- `write_json`. -/
def writeJson {α : Type} (codec : JsonCodec α) (path : Path) (value : α) : Sys Unit := do
  createJsonParent path
  withContext "write json" (fsWrite path (codec.body value))

/-- `load_manifest`. -/
def loadManifest (codec : JsonCodec TransferManifest) (path : Path) : Sys TransferManifest := do
  let body ← withContext "read manifest" (readToString path)
  withContext "parse manifest" (fromStr codec body)

/-! ### The history -/

/-- `load_history`. -/
def loadHistory (codec : JsonCodec (List TransferHistoryEntry)) (path : Path) :
    Sys (List TransferHistoryEntry) := do
  let there ← pathExists path
  if there then readJson codec path else pure []

/-- `append_history`. -/
def appendHistory (codec : JsonCodec (List TransferHistoryEntry)) (path : Path)
    (entry : TransferHistoryEntry) : Sys Unit := do
  let entries ← loadHistory codec path
  writeJson codec path (entries ++ [entry])

/-- What `append_history` makes of the stored history. -/
def pushEntry (entry : TransferHistoryEntry) (stored : Option (List TransferHistoryEntry)) :
    Option (List TransferHistoryEntry) := some (stored.getD [] ++ [entry])

/-! ### The trust store -/

/-- `PairedPeer`. -/
structure PairedPeer where
  peerId : String
  codeHash : String
  pairedAt : Int
deriving DecidableEq

/-- `TrustStore`: the peers by their ids. -/
structure TrustStore where
  peers : AList fun _ : String => PairedPeer

/-- `TrustStore::default`. -/
def TrustStore.default : TrustStore := ⟨∅⟩

/-- `hash_code`. -/
def hashCode (platform : Platform) (code : String) : String := platform.blake3 (utf8 code)

/-- `load_trust_store`, and the same lines of `pair_peer`. -/
def loadTrustStore (codec : JsonCodec TrustStore) (path : Path) : Sys TrustStore := do
  let there ← pathExists path
  if there then do
    let content ← withContext "read trust store" (readToString path)
    withContext "parse trust store" (fromStr codec content)
  else pure .default

/-- A call of `pair_peer`: its arguments, and the clock it reads. -/
structure Pairing where
  peerId : String
  shortCode : String
  pairedAt : Int
deriving DecidableEq

/-- The peer that is stored for a call. -/
def Pairing.peer (platform : Platform) (pairing : Pairing) : PairedPeer :=
  ⟨pairing.peerId, hashCode platform pairing.shortCode, pairing.pairedAt⟩

/-- What `pair_peer` makes of the stored trust store. -/
def insertPeer (platform : Platform) (pairing : Pairing) (stored : Option TrustStore) :
    Option TrustStore :=
  some ⟨(stored.getD .default).peers.insert pairing.peerId (pairing.peer platform)⟩

/-- `pair_peer` up to the write: the peer, and the store that is saved. -/
def preparePairing (platform : Platform) (codec : JsonCodec TrustStore) (dataDir path : Path)
    (peerId shortCode : String) : Sys (PairedPeer × TrustStore) := do
  withContext "create app data dir" (createDirAll dataDir)
  let store ← loadTrustStore codec path
  let t ← turn
  let paired : PairedPeer := ⟨peerId, hashCode platform shortCode, t.now⟩
  pure (paired, ⟨store.peers.insert peerId paired⟩)

/-- `pair_peer`. -/
def pairPeer (platform : Platform) (codec : JsonCodec TrustStore) (dataDir path : Path)
    (peerId shortCode : String) : Sys PairedPeer := do
  let prepared ← preparePairing platform codec dataDir path peerId shortCode
  withContext "write json file" (fsWrite path (codec.body prepared.2))
  pure prepared.1

/-- `store.peers.get(peer_id).map(|peer| peer.code_hash == hash_code(short_code)).unwrap_or(false)` -/
def TrustStore.paired (platform : Platform) (store : TrustStore) (peerId shortCode : String) : Bool :=
  match store.peers.lookup peerId with
  | some peer => peer.codeHash == hashCode platform shortCode
  | none => false

/-! ### What is stored -/

/-- What the file at a location is to hold: a value, or nothing because there is no file. -/
def FileSystem.Stores {α : Type} (fs : FileSystem) (codec : JsonCodec α) (loc : Loc)
    (stored : Option α) : Prop :=
  match stored with
  | some value => fs.content loc = some (codec.body value)
  | none => fs.node loc = none

/-- A name in a directory that is there leads to what it names. -/
theorem resolve_under {fs : FileSystem} {cwd up : Loc} (isDir : fs.IsDir up) (name : Name) :
    fs.resolve cwd (.ofLoc (up ++ [name])) = some (up ++ [name]) := by
  have down : fs.walk [] ((up ++ [name]).map Name.bytes) = some ([] ++ (up ++ [name])) := by
    refine FileSystem.walk_names _ fun front last split => ?_
    obtain ⟨rfl, _⟩ := List.append_inj' split rfl
    exact isDir
  rwa [List.nil_append] at down

section Calm

variable {α : Type} {codec : JsonCodec α} {env : Surroundings} {fs : FileSystem}

theorem calm_readToString (calm : env.Calm) {path : Path} {loc : Loc} {s : String}
    (leads : fs.resolve env.cwd path = some loc) (found : fs.content loc = some (utf8 s)) :
    Triple (Stands env fs) (readToString path) (fun read w => read = s ∧ Stands env fs w) Never := by
  refine Triple.bind (calm_call calm) fun _ => Triple.given fun _ => ?_
  refine Triple.bind (calm_resolveNow leads) fun _ => Triple.given fun same => ?_
  subst same
  refine Triple.bind (stands_observe (a := some (utf8 s)) ?_) fun there => Triple.given fun isThere => ?_
  · rintro w ⟨rfl, rfl⟩
    exact found
  · simp only [isThere, toStr_utf8]
    exact Triple.pure fun _ stands => ⟨rfl, stands⟩

theorem calm_fromStr (faithful : codec.Faithful) (value : α) :
    Triple (Stands env fs) (fromStr codec (codec.encode value))
      (fun read w => read = value ∧ Stands env fs w) Never := by
  rw [fromStr, faithful.roundTrip]
  exact Triple.pure fun _ stands => ⟨rfl, stands⟩

theorem calm_readJson (calm : env.Calm) (faithful : codec.Faithful) {path : Path} {loc : Loc}
    {value : α} (leads : fs.resolve env.cwd path = some loc)
    (found : fs.content loc = some (codec.body value)) :
    Triple (Stands env fs) (readJson codec path) (fun read w => read = value ∧ Stands env fs w)
      Never := by
  refine Triple.bind (Triple.context (calm_readToString calm leads found)) fun s => ?_
  refine Triple.given fun same => ?_
  subst same
  exact Triple.context (calm_fromStr faithful value)

theorem calm_pathExists (calm : env.Calm) (path : Path) :
    Triple (Stands env fs) (pathExists path)
      (fun answer w => answer = ((fs.resolve env.cwd path).bind fs.node).isSome ∧
        Stands env fs w) Never := by
  refine Triple.bind (calm_turn calm) fun t => Triple.given fun ⟨works, _⟩ => ?_
  refine Triple.bind (stands_observe (a := (fs.resolve env.cwd path).bind fs.node) ?_) fun found =>
    Triple.given fun isFound => Triple.pure fun _ stands => ⟨?_, stands⟩
  · rintro w ⟨rfl, rfl⟩
    rfl
  · rw [works, isFound]
    rfl

/-- A value that is stored is loaded, and the default where there is no file. -/
theorem calm_loadStored (calm : env.Calm) {up : Loc} {name : Name} (isDir : fs.IsDir up)
    {stored : Option α} (holds : fs.Stores codec (up ++ [name]) stored) {load : Sys α} {default : α}
    (loads : ∀ value, stored = some value → Triple (Stands env fs) load
      (fun read w => read = value ∧ Stands env fs w) Never) :
    Triple (Stands env fs)
      (do
        let there ← pathExists (.ofLoc (up ++ [name]))
        if there then load else pure default)
      (fun read w => read = stored.getD default ∧ Stands env fs w) Never := by
  refine Triple.bind (calm_pathExists calm _) fun there => Triple.given fun isThere => ?_
  have leads : fs.resolve env.cwd (.ofLoc (up ++ [name])) = some (up ++ [name]) :=
    resolve_under isDir name
  rw [leads, Option.bind_some] at isThere
  cases stored with
  | some value =>
    obtain ⟨modified, found⟩ := FileSystem.content_eq_some.mp holds
    rw [found] at isThere
    subst isThere
    exact loads value rfl
  | none =>
    have found : fs.node (up ++ [name]) = none := holds
    rw [found] at isThere
    subst isThere
    exact Triple.pure fun _ stands => ⟨rfl, stands⟩

/-- **`load_history`** loads what is stored. -/
theorem loadHistory_calm {codec : JsonCodec (List TransferHistoryEntry)} (calm : env.Calm)
    (faithful : codec.Faithful) {up : Loc} {name : Name} (isDir : fs.IsDir up)
    {stored : Option (List TransferHistoryEntry)} (holds : fs.Stores codec (up ++ [name]) stored) :
    Triple (Stands env fs) (loadHistory codec (.ofLoc (up ++ [name])))
      (fun entries w => entries = stored.getD [] ∧ Stands env fs w) Never := by
  refine calm_loadStored calm isDir holds fun value isStored => ?_
  subst isStored
  exact calm_readJson calm faithful (resolve_under isDir name) holds

/-- **`load_trust_store`** loads what is stored. -/
theorem loadTrustStore_calm {codec : JsonCodec TrustStore} (calm : env.Calm)
    (faithful : codec.Faithful) {up : Loc} {name : Name} (isDir : fs.IsDir up)
    {stored : Option TrustStore} (holds : fs.Stores codec (up ++ [name]) stored) :
    Triple (Stands env fs) (loadTrustStore codec (.ofLoc (up ++ [name])))
      (fun store w => store = stored.getD .default ∧ Stands env fs w) Never := by
  refine calm_loadStored calm isDir holds fun value isStored => ?_
  subst isStored
  refine Triple.bind (Triple.context (calm_readToString calm (resolve_under isDir name) holds))
    fun content => Triple.given fun same => ?_
  subst same
  exact Triple.context (calm_fromStr faithful value)

/-- Everything is as in `fs`. -/
structure Alike (env : Surroundings) (fs : FileSystem) (w : World) : Prop where
  env_eq : w.env = env
  node_eq : ∀ loc, w.fs.node loc = fs.node loc

/-- What only looks sees the same in a tree that is alike. -/
theorem Alike.look {β : Type} {prog : Sys β} {seen : β → Prop}
    (looks : ∀ alike : FileSystem, (∀ loc, alike.node loc = fs.node loc) →
      Triple (Stands env alike) prog (fun b w => seen b ∧ Stands env alike w) Never) :
    Triple (Alike env fs) prog (fun b w => seen b ∧ Alike env fs w) Never := by
  rintro w ⟨sameEnv, sameNodes⟩
  refine ((looks w.fs sameNodes).post fun b w' ⟨holds, stands⟩ => ?_) w ⟨sameEnv, rfl⟩
  exact ⟨holds, stands.env_eq, fun loc => by rw [stands.fs_eq, sameNodes]⟩

/-- Creating a directory that is there changes nothing. -/
theorem calm_createDirAll_there (calm : env.Calm) {up : Loc} (isDir : fs.IsDir up) :
    Triple (Stands env fs) (createDirAll (.ofLoc up)) (fun _ => Alike env fs) Never := by
  have leads : fs.resolve env.cwd (.ofLoc up) = some up := FileSystem.resolve_ofLoc isDir
  have along : fs.DirsAlong ((Path.ofLoc up).start env.cwd) (Path.ofLoc up).pieces :=
    ⟨up, leads, Or.inr isDir⟩
  exact (calm_createDirAll_along calm along).post fun _ w stands =>
    ⟨stands.env_eq, fun loc => by rw [stands.fs_eq]⟩

/-- A file is written in a directory, where no directory is in its place. -/
theorem alike_fsWrite (calm : env.Calm) {up : Loc} {name : Name} (isDir : fs.IsDir up)
    (noDir : ¬ fs.IsDir (up ++ [name])) (body : Bytes) :
    Triple (Alike env fs) (fsWrite (.ofLoc (up ++ [name])) body)
      (fun _ => Wrote env fs (up ++ [name]) body) Never := by
  rintro w ⟨sameEnv, sameNodes⟩
  have isDir' : w.fs.IsDir up := (sameNodes up).trans isDir
  have free : w.fs.Free (up ++ [name]) := by
    refine ⟨by rwa [List.dropLast_concat], fun there => noDir ?_⟩
    exact (sameNodes _).symm.trans there
  refine ((calm_fsWrite (sameEnv ▸ calm) (resolve_under isDir' name) free body).post
    fun _ w' wrote => ⟨wrote.env_eq.trans sameEnv, wrote.content_eq, fun other different => ?_⟩)
    w ⟨rfl, rfl⟩
  rw [wrote.node_eq other different, sameNodes]

/-- The file is written where it is stored. -/
theorem calm_save (calm : env.Calm) {up : Loc} {name : Name} (isDir : fs.IsDir up)
    (noDir : ¬ fs.IsDir (up ++ [name])) (value : α) :
    Triple (Alike env fs) (fsWrite (.ofLoc (up ++ [name])) (codec.body value))
      (fun _ w => w.fs.Stores codec (up ++ [name]) (some value)) Never :=
  (alike_fsWrite calm isDir noDir _).post fun _ _ wrote => wrote.content_eq

/-- **`append_history`** in calm surroundings. -/
theorem appendHistory_calm {codec : JsonCodec (List TransferHistoryEntry)} (calm : env.Calm)
    (faithful : codec.Faithful) {up : Loc} {name : Name} (isDir : fs.IsDir up)
    (noDir : ¬ fs.IsDir (up ++ [name])) {stored : Option (List TransferHistoryEntry)}
    (holds : fs.Stores codec (up ++ [name]) stored) (entry : TransferHistoryEntry) :
    Triple (Stands env fs) (appendHistory codec (.ofLoc (up ++ [name])) entry)
      (fun _ w => w.fs.Stores codec (up ++ [name]) (pushEntry entry stored)) Never := by
  refine Triple.bind (loadHistory_calm calm faithful isDir holds) fun entries => ?_
  refine Triple.given fun isStored => ?_
  subst isStored
  have parent : (Path.ofLoc (up ++ [name])).parent = some (.ofLoc up) := by
    rw [Path.ofLoc, List.map_append]
    exact Path.parent_append_name _ _ _
  unfold writeJson createJsonParent
  rw [parent]
  refine Triple.bind (Triple.context (calm_createDirAll_there calm isDir)) fun _ => ?_
  exact Triple.context (calm_save calm isDir noDir _)

/-- **`pair_peer`** in calm surroundings. -/
theorem pairPeer_calm {platform : Platform} {codec : JsonCodec TrustStore} (calm : env.Calm)
    (faithful : codec.Faithful) {up : Loc} {name : Name} (isDir : fs.IsDir up)
    (noDir : ¬ fs.IsDir (up ++ [name])) {stored : Option TrustStore}
    (holds : fs.Stores codec (up ++ [name]) stored) (peerId shortCode : String) :
    Triple (Stands env fs)
      (pairPeer platform codec (.ofLoc up) (.ofLoc (up ++ [name])) peerId shortCode)
      (fun paired w => ∃ now, paired = Pairing.peer platform ⟨peerId, shortCode, now⟩ ∧
        w.fs.Stores codec (up ++ [name]) (insertPeer platform ⟨peerId, shortCode, now⟩ stored))
      Never := by
  refine Triple.bind (M := fun prepared w => (∃ now,
    prepared.1 = Pairing.peer platform ⟨peerId, shortCode, now⟩ ∧
    some prepared.2 = insertPeer platform ⟨peerId, shortCode, now⟩ stored) ∧ Alike env fs w)
    ?_ fun prepared => ?_
  · refine Triple.bind (Triple.context (calm_createDirAll_there calm isDir)) fun _ => ?_
    refine Alike.look fun alike sameNodes => ?_
    have isDir' : alike.IsDir up := (sameNodes up).trans isDir
    have holds' : alike.Stores codec (up ++ [name]) stored := by
      unfold FileSystem.Stores FileSystem.content at holds ⊢
      rwa [sameNodes]
    refine Triple.bind (loadTrustStore_calm calm faithful isDir' holds') fun store => ?_
    refine Triple.given fun isStored => ?_
    subst isStored
    refine Triple.bind (calm_turn calm) fun t => Triple.given fun _ => ?_
    exact Triple.pure fun _ stands => ⟨⟨t.now, rfl, rfl⟩, stands⟩
  · refine Triple.given fun ⟨now, isPeer, isStore⟩ => ?_
    refine Triple.bind (Triple.context (calm_save calm isDir noDir prepared.2)) fun _ => ?_
    exact Triple.pure fun w saved => ⟨now, isPeer, isStore ▸ saved⟩

end Calm

end SendRs
