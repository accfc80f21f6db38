/-
**What `receive` finds.**

A `receive` reads the offer of its code and leaves a claim in the session directory. After any run of
commands it finds the offer that was published last under its code since the offers were cleaned up,
whatever way the code was typed (`receive_after_commands`); where there is none it stops before it
touches anything. The claim that it leaves is what `send` reads.
-/

import SendRs.Disk.Ledger

namespace SendRs.Disk

open Effect Cli

section Receive

variable {host : Host} {env : Surroundings} {fs : FileSystem} {ledger : Ledger} {raw : String} {code : Code}

theorem dataDir_loc : host.dataDir = .ofLoc (host.at []) := by
  unfold Host.dataDir
  rw [join_name sendrsName rfl, down_home]

theorem identityFile_loc : host.identityFile = .ofLoc host.identityLoc := by
  unfold Host.identityFile
  rw [dataDir_loc, join_name identityName rfl, down_ofLoc]
  simp [Host.identityLoc, Host.at]

/-- **`load_or_create_identity`** writes its own file only. -/
theorem calm_identity (calm : env.Calm) (faithful : host.Faithful) (isDir : fs.IsDir (host.at []))
    {stored : Option LocalIdentity} (holds : fs.Stores host.identities host.identityLoc stored)
    (displayName : Option String) (secret : Bytes) :
    Triple (Stands env fs)
      (loadOrCreateIdentity host.keys host.identities host.dataDir host.identityFile displayName secret)
      (fun _ w => w.env = env ∧ ∀ loc, loc ≠ host.identityLoc → w.fs.node loc = fs.node loc) Never := by
  have split : host.identityLoc = host.at [] ++ [identityName] := by simp [Host.identityLoc, Host.at]
  have noDir := notDir_of_stores holds
  rw [dataDir_loc, identityFile_loc, split]
  rw [split] at holds noDir
  refine Triple.bind (calm_testIdentity calm isDir holds) fun there => Triple.given fun isThere => ?_
  subst isThere
  cases stored with
  | some identity =>
    refine (calm_loadIdentity calm faithful.identities isDir holds).post fun _ w loaded => ?_
    exact ⟨loaded.2.env_eq, fun loc _ => loaded.2.node_eq loc⟩
  | none =>
    refine Triple.bind (M := fun _ => Alike env fs) ?_ fun identity => ?_
    · have drawn : Triple (Alike env fs) (generateIdentity host.keys displayName secret)
          (fun _ w => True ∧ Alike env fs w) Never :=
        Alike.look fun alike _ => Triple.bind (calm_turn calm) fun _ => Triple.given fun _ =>
          Triple.pure fun _ stands => ⟨trivial, stands⟩
      exact drawn.post fun _ _ holds => holds.2
    · refine Triple.bind (Triple.context (alike_fsWrite calm isDir noDir _)) fun _ => ?_
      exact Triple.pure fun _ wrote => ⟨wrote.env_eq, wrote.node_eq⟩

/-- A directory outside the data directory, or one that can be created there: no file is in the way. -/
structure Creatable (host : Host) (env : Surroundings) (fs : FileSystem) (dir : Path) : Prop where
  denotes : ∃ loc, dir.lexical env.cwd = some loc
  start : fs.IsDir (dir.start env.cwd) ∧ ¬ host.at [] <+: dir.start env.cwd
  passes : ∀ passed ∈ visited (dir.start env.cwd) dir.pieces,
    fs.content passed = none ∧ ¬ host.at [] <+: passed

/-- What changes only the data directory leaves it so. -/
theorem Creatable.kept {after : FileSystem} {dir : Path} (creatable : Creatable host env fs dir)
    (kept : ∀ loc, ¬ host.at [] <+: loc → after.node loc = fs.node loc) :
    Creatable host env after dir := by
  refine ⟨creatable.denotes, ⟨?_, creatable.start.2⟩, fun passed member => ?_⟩
  · exact (kept _ creatable.start.2).trans creatable.start.1
  · obtain ⟨noFile, outside⟩ := creatable.passes passed member
    rw [FileSystem.content, kept passed outside]
    exact ⟨noFile, outside⟩

/-- Nothing is in the way of a claim: the identity file can be read or is not there, the target is a
directory or can be created, and so is the session directory. -/
structure ReceiveReady (host : Host) (env : Surroundings) (fs : FileSystem) (target : Option Path)
    (code : Code) : Prop where
  identity : ∃ stored, fs.Stores host.identities host.identityLoc stored
  target : Creatable host env fs (target.getD (.ofLoc env.cwd))
  session : Unblocked fs host.homeLoc [sendrsName, sessionsName, code.dirName]
  claim : ¬ fs.IsDir (host.claimLoc code)

/-- Commands put nothing in the way. -/
theorem ReceiveReady.spared {after : FileSystem} {target : Option Path}
    (ready : ReceiveReady host env fs target code) (spared : Spared host fs after)
    (represents : Represents host after ledger) : ReceiveReady host env after target code := by
  obtain ⟨stored, holds⟩ := ready.identity
  have noFile {names : List Name} (below : [sessionsName] <+: names)
      (clear : fs.content (host.at names) = none) : after.content (host.at names) = none := by
    rcases spared.sessions (host.at names) (at_prefix_at.mpr below) with same | gone
    · rw [FileSystem.content, same]
      exact clear
    · exact content_none_of_node gone
  refine ⟨⟨stored, stores_congr spared.identity holds⟩, ready.target.kept spared.outside, ?_, ?_⟩
  · intro front below
    rcases List.prefix_cons_iff.mp below with rfl | ⟨rest, rfl, under⟩
    · rw [List.append_nil, FileSystem.content, represents.homeDir]
    · rcases List.prefix_cons_iff.mp under with rfl | ⟨rest', rfl, _⟩
      · exact represents.dataRoot
      · exact noFile (List.cons_prefix_cons.mpr ⟨rfl, List.nil_prefix⟩) (ready.session _ below)
  · intro isDir
    have below : [sessionsName] <+: [sessionsName, code.dirName, claimName] :=
      List.cons_prefix_cons.mpr ⟨rfl, List.nil_prefix⟩
    rcases spared.sessions (host.claimLoc code) (at_prefix_at.mpr below) with same | gone
    · exact ready.claim (same.symm.trans isDir)
    · rw [isDir] at gone
      cases gone

/-- Without an offer, **`receive`** stops before it touches anything. -/
theorem receive_absent (calm : env.Calm) (represents : Represents host fs ledger)
    (typed : normalizeCode host.table raw = code.text) (absent : ledger.offers code = none)
    (target : Option Path) (draw : ReceiveDraw) :
    Triple (Stands env fs) (host.receiveStart raw target draw) (fun _ _ => False)
      (fun error w => error = ("invalid or expired code: " ++ code.text) :: "read json" :: osError ∧
        Stands env fs w) := by
  have noFile : fs.content (host.offerLoc code) = none := by
    have holds := represents.offers code
    rw [absent] at holds
    exact content_none_of_node holds
  unfold Host.receiveStart
  dsimp only
  rw [typed, offerPath_loc (normalizeCode_code host.table code)]
  refine Triple.bind (M := fun _ _ => False) (Triple.context ?_) fun _ _ none => none.elim
  refine (calm_readJson_absent calm noFile).conseq (fun _ holds => holds) (fun _ _ holds => holds) ?_
  rintro error w ⟨rfl, stands⟩
  exact ⟨rfl, stands⟩

theorem calm_currentDir (calm : env.Calm) :
    Triple (Stands env fs) currentDir (fun here w => here = .ofLoc env.cwd ∧ Stands env fs w) Never := by
  refine Triple.bind (calm_call calm) fun _ => Triple.given fun _ => stands_observe ?_
  rintro w ⟨rfl, rfl⟩
  rfl

theorem calm_now (calm : env.Calm) :
    Triple (Stands env fs) host.now (fun _ => Stands env fs) Never :=
  Triple.bind (calm_turn calm) fun _ => Triple.given fun _ => Triple.pure fun _ stands => stands

theorem claimLoc_split :
    host.claimLoc code = host.homeLoc ++ [sendrsName, sessionsName, code.dirName] ++ [claimName] := by
  simp [Host.claimLoc, Host.at]

/-- **The claim** is left in the session directory, when the target has been created. -/
theorem calm_leaveClaim (calm : env.Calm) (homeDir : fs.IsDir host.homeLoc) {targetDir : Path}
    (creatable : Creatable host env fs targetDir)
    (clear : Unblocked fs host.homeLoc [sendrsName, sessionsName, code.dirName])
    (noDir : ¬ fs.IsDir (host.claimLoc code)) (identity : LocalIdentity) (claimId : String) :
    Triple (Stands env fs) (host.leaveClaim code.text targetDir identity claimId)
      (fun claim w => w.env = env ∧
        w.fs.content (host.claimLoc code) = some (host.claims.body claim)) Never := by
  have typed := normalizeCode_code host.table code
  obtain ⟨targetLoc, lexical⟩ := creatable.denotes
  unfold Host.leaveClaim
  rw [sessionRoot_eq host.home typed, down_home, claimPath_loc typed]
  -- the target directory
  refine bind_stands (fun tree => tree.IsDir host.homeLoc ∧
    tree.resolve env.cwd targetDir = some targetLoc ∧ tree.IsDir targetLoc ∧
    Unblocked tree host.homeLoc [sendrsName, sessionsName, code.dirName] ∧
    ¬ tree.IsDir (host.claimLoc code)) (Triple.context ?_) fun _ tree between => ?_
  · refine (calm_createDirAll calm lexical creatable.start.1 fun passed member =>
      (creatable.passes passed member).1).post fun _ w ⟨grew, leads, isDir⟩ =>
        ⟨grew.env_eq, grew.isDir homeDir, leads, isDir, clear.grew grew, fun isDir' => ?_⟩
    rcases grew.node_eq (host.claimLoc code) with same | ⟨member, _⟩
    · exact noDir (same.symm.trans isDir')
    · exact (creatable.passes _ member).2 (at_prefix_at.mpr List.nil_prefix)
  -- the session directory
  obtain ⟨homeDir, leads, isDir, clear, noDir⟩ := between
  refine bind_stands (fun tree => tree.IsDir host.homeLoc ∧
    tree.resolve env.cwd targetDir = some targetLoc ∧ tree.IsDir targetLoc ∧
    tree.IsDir (host.homeLoc ++ [sendrsName, sessionsName, code.dirName]) ∧
    ¬ tree.IsDir (host.claimLoc code)) (Triple.context ?_) fun _ tree between => ?_
  · refine (calm_createDirAll_at calm homeDir clear).post fun _ w ⟨grew, isSession⟩ =>
      ⟨grew.env_eq, grew.isDir homeDir, ?_, grew.isDir isDir, isSession, fun isDir' => ?_⟩
    · exact FileSystem.walk_mono (fun _ isDir => grew.isDir isDir) _ leads
    · rcases grew.node_eq (host.claimLoc code) with same | ⟨below, _⟩
      · exact noDir (same.symm.trans isDir')
      · rw [claimLoc_split] at below
        have := below.length_le
        simp at this
  -- the claim
  obtain ⟨homeDir, leads, isDir, isSession, noDir⟩ := between
  rw [claimLoc_split] at noDir ⊢
  refine Triple.bind (calm_canonicalize calm leads isDir) fun _ => Triple.given fun _ => ?_
  refine Triple.bind (calm_now calm) fun createdAt => ?_
  exact Triple.bind (calm_writeJson_at calm homeDir (unblocked_of_isDir isSession) noDir _)
    fun _ => Triple.pure fun w saved => ⟨saved.env_eq, saved.content_eq⟩

/-- With one, it returns the offer, and leaves its claim. -/
theorem receive_found (calm : env.Calm) (faithful : host.Faithful) (represents : Represents host fs ledger)
    (typed : normalizeCode host.table raw = code.text) {offer : SendOffer}
    (found : ledger.offers code = some offer) {target : Option Path} (draw : ReceiveDraw)
    (ready : ReceiveReady host env fs target code) :
    Triple (Stands env fs) (host.receiveStart raw target draw)
      (fun result w => result.1 = offer ∧ w.env = env ∧
        w.fs.content (host.claimLoc code) = some (host.claims.body result.2)) Never := by
  have stored : fs.content (host.offerLoc code) = some (host.offers.body offer) := by
    have holds := represents.offers code
    rwa [found] at holds
  -- the offer lies in the data directory, so that is there
  have dataDir : fs.IsDir (host.at []) := by
    obtain ⟨modified, there⟩ := FileSystem.content_eq_some.mp stored
    have split : host.offerLoc code = host.at [] ++ [offersName, code.fileName] := by
      simp [Host.offerLoc, Host.at]
    rw [split] at there
    exact FileSystem.isDir_prefix _ (List.cons_ne_nil _ _) there
  obtain ⟨storedIdentity, storedAt⟩ := ready.identity
  unfold Host.receiveStart
  dsimp only
  rw [typed, offerPath_loc (normalizeCode_code host.table code)]
  refine Triple.bind (Triple.context (calm_readJson_at calm faithful.offers stored)) fun read => ?_
  refine Triple.given fun isOffer => ?_
  subst isOffer
  -- the identity may be written
  refine bind_stands (fun tree => tree.IsDir host.homeLoc ∧
    Creatable host env tree (target.getD (.ofLoc env.cwd)) ∧
    Unblocked tree host.homeLoc [sendrsName, sessionsName, code.dirName] ∧
    ¬ tree.IsDir (host.claimLoc code)) ?_ fun identity tree between => ?_
  · refine (calm_identity calm faithful dataDir storedAt none draw.secret).post ?_
    rintro _ w ⟨sameEnv, sameNodes⟩
    refine ⟨sameEnv, ?_, ready.target.kept ?_, ?_, ?_⟩
    · exact (sameNodes _ home_ne_at).trans represents.homeDir
    · exact fun loc outside => sameNodes loc fun same =>
        outside (same ▸ at_prefix_at.mpr List.nil_prefix)
    · intro front below
      have differ : host.homeLoc ++ front ≠ host.identityLoc := by
        intro same
        obtain rfl := List.append_cancel_left same
        have second := (List.cons_prefix_cons.mp (List.cons_prefix_cons.mp below).2).1
        exact absurd second (by decide)
      rw [FileSystem.content, sameNodes _ differ]
      exact ready.session front below
    · have differ : host.claimLoc code ≠ host.identityLoc := fun same => by
        have := at_inj.mp same
        simp at this
      exact fun isDir => ready.claim ((sameNodes _ differ).symm.trans isDir)
  obtain ⟨homeDir, creatable, clear, noDir⟩ := between
  refine Triple.bind (calm_now calm) fun _ => ?_
  refine Triple.bind (Triple.context (calm_currentDir calm)) fun here => Triple.given fun isHere => ?_
  subst isHere
  exact Triple.bind (calm_leaveClaim calm homeDir creatable clear noDir identity draw.claimId)
    fun claim => Triple.pure fun v left => ⟨rfl, left⟩

end Receive

/-- **A `receive` after any commands** finds the offer that was published last under its code since the
offers were cleaned up, however the code was typed, and, where nothing is in the way, leaves a claim
that `send` reads; where there is no offer, it fails and changes nothing. -/
theorem receive_after_commands {host : Host} {env : Surroundings} (calm : env.Calm)
    (faithful : host.Faithful) {fs : FileSystem} {ledger : Ledger} (represents : Represents host fs ledger)
    (commands : List Command) {raw : String} {code : Code} (ascii : ∀ c ∈ trim raw.toList, c.toNat < 128)
    (typed : (trim raw.toList).map Char.toUpper = code.text.toList) (target : Option Path)
    (draw : ReceiveDraw) {w : World} (start : Stands env fs w) :
    ∃ w₁, runAll host commands w = .ok () w₁ ∧
      match (ledger.run commands).offers code with
      | some offer => ReceiveReady host env fs target code →
          ∃ claim w₂ w₃, host.receiveStart raw target draw w₁ = .ok (offer, claim) w₂ ∧
            readJson host.claims (receiverClaimPath host.table host.home code.text) w₂ = .ok claim w₃
      | none => ∃ w₂, host.receiveStart raw target draw w₁ =
          .error (("invalid or expired code: " ++ code.text) :: "read json" :: osError) w₂ ∧
            w₂.fs = w₁.fs := by
  have isCode := (normalizeCode_typed host.table code ascii).mpr typed
  obtain ⟨_, w₁, ran, sameEnv, after, spared⟩ :=
    (represents_run calm faithful commands represents).returns start
  refine ⟨w₁, ran, ?_⟩
  have calm₁ : w₁.env.Calm := sameEnv ▸ calm
  cases found : (ledger.run commands).offers code with
  | none =>
    have outcome := receive_absent calm₁ after isCode found target draw w₁ ⟨rfl, rfl⟩
    dsimp only
    cases ends : host.receiveStart raw target draw w₁ with
    | ok result w₂ =>
      rw [ends] at outcome
      exact outcome.elim
    | error error w₂ =>
      rw [ends] at outcome
      exact ⟨w₂, by rw [outcome.1], outcome.2.fs_eq⟩
  | some offer =>
    intro ready
    have ready₁ : ReceiveReady host w₁.env w₁.fs target code := sameEnv ▸ ready.spared spared after
    obtain ⟨⟨_, claim⟩, w₂, received, rfl, sameEnv₂, left⟩ :=
      (receive_found calm₁ faithful after isCode found draw ready₁).returns ⟨rfl, rfl⟩
    have calm₂ : w₂.env.Calm := sameEnv₂ ▸ calm₁
    obtain ⟨read, w₃, reads, rfl, _⟩ := (calm_readJson_at calm₂ faithful.claims left).returns ⟨rfl, rfl⟩
    rw [← claimPath_loc (normalizeCode_code host.table code)] at reads
    exact ⟨read, w₂, w₃, received, reads⟩

/-- The code of the offer. -/
def sampleCode : Code := ⟨"0B0C-1D5E", by simp, by simp [isCodeChar]⟩

/-- The directory `/t/in`, which is still to be created, is a target on a device without a data
directory. -/
theorem homeTree_ready :
    ReceiveReady sampleHost quietEnv homeTree (some (.ofString "/t/in")) sampleCode where
  identity := ⟨none, homeTree_bare _⟩
  target := by
    have aside : ∀ loc : Loc, loc.head? ≠ some homeName → ¬ sampleHost.at [] <+: loc := by
      rintro _ differ ⟨rest, rfl⟩
      exact differ rfl
    refine ⟨Option.isSome_iff_exists.mp (by decide +kernel), ⟨by decide +kernel, ?_⟩,
      fun passed member => ⟨?_, aside passed ?_⟩⟩
    · exact aside _ (by decide +kernel)
    · revert passed
      decide +kernel
    · revert passed
      decide +kernel
  session := by
    intro front below
    cases front with
    | nil => decide +kernel
    | cons name rest =>
      obtain ⟨rfl, _⟩ := List.cons_prefix_cons.mp below
      exact content_none_of_node (homeTree_bare rest)
  claim isDir := by
    rw [FileSystem.IsDir, Host.claimLoc, homeTree_bare] at isDir
    cases isDir

/-- An offer is published, the history is cleaned up, and the code is typed in small letters with a
space; the target is created. -/
theorem receive_after_publish :
    ∃ w₁ claim w₂ w₃,
      runAll sampleHost [.publish sampleCode sampleOffer, .clean ⟨false, false, false, false, true⟩]
        ⟨quietEnv, homeTree, 0⟩ = .ok () w₁ ∧
      sampleHost.receiveStart " 0b0c-1d5e\n" (some (.ofString "/t/in"))
        ⟨secretA, "7f9d3c52-6b1e-4a0f-9d7e-3f3c5b8a1e42"⟩ w₁ = .ok (sampleOffer, claim) w₂ ∧
      readJson sampleHost.claims (receiverClaimPath sampleHost.table sampleHost.home sampleCode.text) w₂ =
        .ok claim w₃ := by
  have trimmed : trim " 0b0c-1d5e\n".toList = "0b0c-1d5e".toList := by
    simp [trim, isWhitespace, List.rdropWhile]
  have ascii : ∀ c ∈ trim " 0b0c-1d5e\n".toList, c.toNat < 128 := by
    rw [trimmed]
    simp
  have typed : (trim " 0b0c-1d5e\n".toList).map Char.toUpper = sampleCode.text.toList := by
    rw [trimmed]
    simp [sampleCode]
  obtain ⟨w₁, ran, outcome⟩ := receive_after_commands quiet_calm sampleHost_faithful
    homeTree_represents [.publish sampleCode sampleOffer, .clean ⟨false, false, false, false, true⟩]
    ascii typed (some (.ofString "/t/in")) ⟨secretA, "7f9d3c52-6b1e-4a0f-9d7e-3f3c5b8a1e42"⟩
    (⟨rfl, rfl⟩ : Stands quietEnv homeTree ⟨quietEnv, homeTree, 0⟩)
  have found : (Ledger.run ⟨fun _ => none, none⟩
      [.publish sampleCode sampleOffer, .clean ⟨false, false, false, false, true⟩]).offers sampleCode =
        some sampleOffer := by
    exact Function.update_self sampleCode (some sampleOffer) (fun _ => none)
  rw [found] at outcome
  obtain ⟨claim, w₂, w₃, received, reads⟩ := outcome homeTree_ready
  exact ⟨w₁, claim, w₂, w₃, ran, received, reads⟩

end SendRs.Disk
