/-
**The identity of a device.**

`load_or_create_identity` tests whether the identity file is there, and then loads it or generates an
identity and saves it. Alone, in calm surroundings, it returns and leaves what is stored, or what it
has generated (`loadOrCreateIdentity_calm`). The processes of a device share one file, and nothing
keeps a call of one from falling between the test and the save of another:

* `identity_agreed_iff`: all calls return the same identity, which stays in the file, exactly when no
  call saves one after another call has returned one;
* `identity_agreed_apart`: so it is if no call tests the file while another one is about to save.
-/

import SendRs.Library.CreateOnce
import SendRs.Store.Json

namespace SendRs

open Effect Machines CreateOnce

/-- `DeviceIdentity`. -/
structure DeviceIdentity where
  deviceId : String
  displayName : String
  publicKey : String
deriving DecidableEq

/-- `LocalIdentity`. -/
structure LocalIdentity where
  identity : DeviceIdentity
  privateKeyB64 : String
  createdAt : Int
deriving DecidableEq

/-- The identifier of the device and its pair of keys. -/
def LocalIdentity.keyPair (identity : LocalIdentity) : String × String × String :=
  (identity.identity.deviceId, identity.identity.publicKey, identity.privateKeyB64)

/-- What the programs use of `ed25519_dalek` and `base64`. -/
structure KeyScheme where
  verifyingKey : Bytes → Bytes
  b64 : Bytes → String

/-- What a call draws: the bytes of a signing key, an identifier and the time. -/
structure Draw where
  secret : Bytes
  uuid : String
  now : Int
deriving DecidableEq

/-- The identity that a call generates. -/
def Draw.identity (keys : KeyScheme) (displayName : Option String) (draw : Draw) : LocalIdentity where
  identity := {
    deviceId := draw.uuid
    displayName := displayName.getD "sendrs-device"
    publicKey := keys.b64 (keys.verifyingKey draw.secret) }
  privateKeyB64 := keys.b64 draw.secret
  createdAt := draw.now

/-! ### One call -/

/-- `load_identity`. -/
def loadIdentity (codec : JsonCodec LocalIdentity) (path : Path) : Sys LocalIdentity := do
  let content ← withContext "read identity file" (readToString path)
  withContext "parse identity file" (fromStr codec content)

/-- `load_or_create_identity` up to the test. -/
def testIdentity (dataDir path : Path) : Sys Bool := do
  withContext "create app data dir" (createDirAll dataDir)
  pathExists path

/-- The identity that is saved if there is none. -/
def generateIdentity (keys : KeyScheme) (displayName : Option String) (secret : Bytes) :
    Sys LocalIdentity := do
  let t ← turn
  pure ((⟨secret, t.uuid, t.now⟩ : Draw).identity keys displayName)

/-- `load_or_create_identity`, with the bytes of the signing key that it may draw. -/
def loadOrCreateIdentity (keys : KeyScheme) (codec : JsonCodec LocalIdentity) (dataDir path : Path)
    (displayName : Option String) (secret : Bytes) : Sys LocalIdentity := do
  let there ← testIdentity dataDir path
  if there then loadIdentity codec path
  else do
    let identity ← generateIdentity keys displayName secret
    withContext "write json file" (fsWrite path (codec.body identity))
    pure identity

section Calm

variable {keys : KeyScheme} {codec : JsonCodec LocalIdentity} {env : Surroundings} {fs : FileSystem}
  {up : Loc} {name : Name}

theorem Alike.stores {w : World} {loc : Loc} {stored : Option LocalIdentity} (alike : Alike env fs w) :
    w.fs.Stores codec loc stored ↔ fs.Stores codec loc stored := by
  unfold FileSystem.Stores FileSystem.content
  rw [alike.node_eq]

theorem calm_testIdentity (calm : env.Calm) (isDir : fs.IsDir up)
    {stored : Option LocalIdentity} (holds : fs.Stores codec (up ++ [name]) stored) :
    Triple (Stands env fs) (testIdentity (.ofLoc up) (.ofLoc (up ++ [name])))
      (fun there w => there = stored.isSome ∧ Alike env fs w) Never := by
  refine Triple.bind (Triple.context (calm_createDirAll_there calm isDir)) fun _ => ?_
  refine Alike.look fun alike sameNodes => ?_
  refine (calm_pathExists calm _).post fun there w ⟨answer, stands⟩ => ⟨?_, stands⟩
  have isDir' : alike.IsDir up := (sameNodes up).trans isDir
  rw [answer, resolve_under isDir' name, Option.bind_some, sameNodes]
  cases stored with
  | none =>
    have absent : fs.node (up ++ [name]) = none := holds
    rw [absent]
    rfl
  | some identity =>
    obtain ⟨modified, found⟩ := FileSystem.content_eq_some.mp holds
    rw [found]
    rfl

theorem calm_loadIdentity (calm : env.Calm) (faithful : codec.Faithful) (isDir : fs.IsDir up)
    {identity : LocalIdentity} (holds : fs.Stores codec (up ++ [name]) (some identity)) :
    Triple (Alike env fs) (loadIdentity codec (.ofLoc (up ++ [name])))
      (fun read w => read = identity ∧ Alike env fs w) Never := by
  refine Alike.look fun alike sameNodes => ?_
  have isDir' : alike.IsDir up := (sameNodes up).trans isDir
  have found : alike.content (up ++ [name]) = some (codec.body identity) := by
    unfold FileSystem.content
    rw [sameNodes]
    exact holds
  refine Triple.bind (Triple.context (calm_readToString calm (resolve_under isDir' name) found))
    fun content => Triple.given fun same => ?_
  subst same
  exact Triple.context (calm_fromStr faithful identity)

/-- **`load_or_create_identity`** in calm surroundings. -/
theorem loadOrCreateIdentity_calm (calm : env.Calm) (faithful : codec.Faithful)
    (isDir : fs.IsDir up) (noDir : ¬ fs.IsDir (up ++ [name])) {stored : Option LocalIdentity}
    (holds : fs.Stores codec (up ++ [name]) stored) (displayName : Option String) (secret : Bytes) :
    Triple (Stands env fs)
      (loadOrCreateIdentity keys codec (.ofLoc up) (.ofLoc (up ++ [name])) displayName secret)
      (fun identity w => (∃ draw : Draw, draw.secret = secret ∧
          identity = stored.getD (draw.identity keys displayName)) ∧
        w.fs.Stores codec (up ++ [name]) (some identity)) Never := by
  refine Triple.bind (calm_testIdentity calm isDir holds) fun there => Triple.given fun isThere => ?_
  subst isThere
  cases stored with
  | some identity =>
    refine (calm_loadIdentity calm faithful isDir holds).post fun read w ⟨same, alike⟩ => ?_
    subst same
    exact ⟨⟨⟨secret, "", 0⟩, rfl, rfl⟩, alike.stores.mpr holds⟩
  | none =>
    refine Triple.bind (M := fun identity w => (∃ draw : Draw, draw.secret = secret ∧
      identity = draw.identity keys displayName) ∧ Alike env fs w) ?_ fun identity => ?_
    · refine Alike.look fun alike sameNodes => ?_
      refine Triple.bind (calm_turn calm) fun t => Triple.given fun _ => ?_
      exact Triple.pure fun _ stands => ⟨⟨⟨secret, t.uuid, t.now⟩, rfl, rfl⟩, stands⟩
    · refine Triple.given fun drawn => ?_
      refine Triple.bind (Triple.context (calm_save calm isDir noDir identity)) fun _ => ?_
      exact Triple.pure fun w saved => ⟨drawn, saved⟩

end Calm

/-! ### Any number of calls -/

/-- The calls on a file: with the name each is given, and with what it draws if it has to. No
identifier is drawn twice, or is in the file already. -/
structure Callers (ι : Type) (slot : Slot LocalIdentity) where
  displayName : ι → Option String
  draw : ι → Draw
  distinct : Function.Injective fun i => (draw i).uuid
  new : ∀ identity i, slot = .holds identity → (draw i).uuid ≠ identity.identity.deviceId

section Calls

variable {ι : Type} {slot : Slot LocalIdentity}

/-- The identity that a call generates. -/
def Callers.fresh (callers : Callers ι slot) (keys : KeyScheme) (i : ι) : LocalIdentity :=
  (callers.draw i).identity keys (callers.displayName i)

theorem Callers.fresh_distinct (callers : Callers ι slot) (keys : KeyScheme) :
    Distinct LocalIdentity.keyPair slot (callers.fresh keys) := by
  refine ⟨fun i j same => ?_, fun identity i holds same => ?_⟩
  · exact callers.distinct (congrArg Prod.fst same)
  · exact callers.new identity i holds (congrArg Prod.fst same)

variable [DecidableEq ι]

/-- The calls of `load_or_create_identity` on one file: a test, and then a load, or the generation of
an identity and its save. -/
def identityMachine (keys : KeyScheme) (callers : Callers ι slot) :
    Machine (Shared ι LocalIdentity) (Move ι) := machine (callers.fresh keys) slot

/-- **One device identity**: all calls return the same identifier and keys, and the file has them,
exactly when no call saves an identity after another call has returned one. -/
theorem identity_agreed_iff (keys : KeyScheme) (callers : Callers ι slot) (moves : List (Move ι))
    {s : Shared ι LocalIdentity}
    (ends : (identityMachine keys callers).run Anything (start slot) moves = some s) :
    Agreed LocalIdentity.keyPair s ↔ ¬ LateSave (callers.fresh keys) slot moves :=
  agreed_iff (callers.fresh_distinct keys) moves ends

/-- All calls agree if none tests the file while another one is about to save. -/
theorem identity_agreed_apart (keys : KeyScheme) (callers : Callers ι slot)
    {s : Shared ι LocalIdentity} (reach : Reach (identityMachine keys callers) Apart s) :
    Agreed id s := agreed_of_timely (timely_of_apart reach)

end Calls

/-! ### A sender and a receiver on a new device -/

/-- A key of 32 bytes. -/
def keyBytes (n : Nat) : Bytes := (List.range 32).map fun k => UInt8.ofNat (n / 256 ^ (31 - k))

def secretA : Bytes := keyBytes 0x9d61b19deffd5a60ba844af492ec2cc44449c5697b326919703bac031cae7f60
def secretB : Bytes := keyBytes 0x4ccd089b28ff96da9db6c346ec114e0f5b8a319f35aba624da8cf6ed4fb8a6fb
def publicA : Bytes := keyBytes 0xd75a980182b10ab7d54bfed3c964073a0ee172f3daa62325af021a68f707511a
def publicB : Bytes := keyBytes 0x3d4017c3e843895a92b70aa74d1b7ebc9c982ccf2ec4968cc0cd55f12af4660c

/-- The keys of these two secrets. -/
def sampleKeys : KeyScheme where
  verifyingKey secret := if secret = secretA then publicA else publicB
  b64 bytes :=
    if bytes = secretA then "nWGxne/9WmC6hEr0kuwsxERJxWl7MmkZcDusAxyuf2A="
    else if bytes = secretB then "TM0Imyj/ltqdtsNG7BFOD1uKMZ81q6Yk2oz27U+4pvs="
    else if bytes = publicA then "11qYAYKxCrfVS/7TyWQHOg7hcvPapiMlrwIaaPcHURo="
    else "PUAXw+hDiVqStwqnTRt+vJyYLM8uxJaMwM1V8Sr0Zgw="

/-- What the sender (`false`) and the receiver (`true`) draw. -/
def sampleDraw : Bool → Draw
  | false => ⟨secretA, "device-a", 1⟩
  | true => ⟨secretB, "device-b", 2⟩

theorem sampleDraw_distinct : Function.Injective fun i => (sampleDraw i).uuid := by
  intro i j same
  cases i
  · cases j
    · rfl
    · exact absurd same (by decide)
  · cases j
    · exact absurd same (by decide)
    · rfl

def sampleCallers : Callers Bool .empty where
  displayName _ := none
  draw := sampleDraw
  distinct := sampleDraw_distinct
  new _ _ holds := nomatch holds

/-- The identity of each of them. -/
def sampleIdentity (i : Bool) : LocalIdentity := (sampleDraw i).identity sampleKeys none

/-- The receiver loads what the sender has saved: there is no late save. -/
theorem identity_agreed_sample :
    ∃ s, (identityMachine sampleKeys sampleCallers).run Anything (start .empty)
        [.test false, .generate false, .save false, .test true, .load true] = some s ∧
      Agreed LocalIdentity.keyPair s ∧
      ¬ LateSave (sampleCallers.fresh sampleKeys) .empty
        [.test false, .generate false, .save false, .test true, .load true] := by
  have known : ∃ s, (identityMachine sampleKeys sampleCallers).run Anything (start .empty)
      [.test false, .generate false, .save false, .test true, .load true] = some s ∧
      ∀ w, Known s w → w = sampleIdentity false := by
    refine ⟨_, rfl, ?_⟩
    rintro w (⟨j, returned⟩ | holds)
    · cases j
      · exact (Stage.returned.inj returned).symm
      · exact (Stage.returned.inj returned).symm
    · exact (Slot.holds.inj holds).symm
  obtain ⟨s, ends, known⟩ := known
  have agreed : Agreed LocalIdentity.keyPair s := by
    intro i v returned w isKnown
    rw [known w isKnown, known v (Or.inl ⟨i, returned⟩)]
  exact ⟨s, ends, agreed, (identity_agreed_iff sampleKeys sampleCallers _ ends).mp agreed⟩

/-- When both test the file before one saves, the sender goes on with an identity that is no longer
there. -/
theorem identity_lost :
    ∃ s, (identityMachine sampleKeys sampleCallers).run Anything (start .empty)
        [.test false, .test true, .generate false, .generate true, .save false, .save true] = some s ∧
      s.stage false = .returned (sampleIdentity false) ∧
      s.stage true = .returned (sampleIdentity true) ∧ s.slot = .holds (sampleIdentity true) ∧
      ¬ Agreed LocalIdentity.keyPair s := by
  refine ⟨_, rfl, rfl, rfl, rfl, fun agreed => ?_⟩
  have same := agreed false (sampleIdentity false) rfl (sampleIdentity true) (Or.inl ⟨true, rfl⟩)
  exact absurd (congrArg Prod.fst same) (by decide)

end SendRs
