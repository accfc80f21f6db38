/-
**A transfer that succeeds has copied what the manifest describes.**

The resume bits, the old target, the source as it is now and every failure on the way may be
arbitrary: what decides is the hash of the whole target file at the end of each round of the entry
loop (`transferEntry_settles`). From then on the file is among what the rest of the run leaves alone
(`Settled`), since the destinations are distinct and nobody else writes there. So at return every
destination holds bytes with the hash in the manifest, and the hash is injective
(`executeLocalTransfer_sound`).
-/

import SendRs.Store.Formats
import SendRs.Transfer.Execute

namespace SendRs

open Effect

/-! ### The manifest but for its bits -/

/-- An entry without its resume bitmap. -/
def ManifestEntry.bare (entry : ManifestEntry) : ManifestEntry := { entry with resumeBitmap := [] }

/-- A manifest without its resume bitmaps. -/
def TransferManifest.bare (manifest : TransferManifest) : TransferManifest :=
  { manifest with entries := manifest.entries.map ManifestEntry.bare }

theorem bare_markChunkDone (entry : ManifestEntry) (chunkIdx : Nat) :
    (markChunkDone entry chunkIdx).bare = entry.bare := rfl

theorem bare_clearChunkDone (entry : ManifestEntry) (chunkIdx : Nat) :
    (clearChunkDone entry chunkIdx).bare = entry.bare := rfl

theorem map_modify_of_same {α β : Type} {f : α → α} {g : α → β} (same : ∀ a, g (f a) = g a)
    (l : List α) (idx : Nat) : (l.modify idx f).map g = l.map g := by
  apply List.ext_getElem?
  intro i
  rw [List.getElem?_map, List.getElem?_map, List.getElem?_modify]
  cases l[i]? with
  | none => rfl
  | some a =>
    simp only [Option.map_eq_map, Option.map_some]
    split
    · rw [same]
    · rfl

/-- Changing bits changes nothing else in a manifest. -/
theorem bare_modify {f : ManifestEntry → ManifestEntry} (bits : ∀ entry, (f entry).bare = entry.bare)
    (manifest : TransferManifest) (idx : Nat) :
    ({ manifest with entries := manifest.entries.modify idx f } : TransferManifest).bare =
      manifest.bare := by
  unfold TransferManifest.bare
  rw [map_modify_of_same bits]

/-- Related lists are related by members. -/
theorem forall₂_members {α β : Type} {related : α → β → Prop} {l : List α} {u : List β}
    (all : List.Forall₂ related l u) :
    List.Forall₂ (fun a b => (a ∈ l ∧ b ∈ u) ∧ related a b) l u := by
  have left := (List.forall₂_and_left _ _).mpr ⟨fun _ member => member, all⟩
  have right := (List.forall₂_and_left _ _).mpr ⟨fun _ member => member, left.flip⟩
  exact right.flip.imp fun a b ⟨inRight, inLeft, holds⟩ => ⟨⟨inLeft, inRight⟩, holds⟩

/-- Each member of the first list has a partner. -/
theorem forall₂_partner {α β : Type} {related : α → β → Prop} {l : List α} {u : List β}
    (all : List.Forall₂ related l u) {a : α} (member : a ∈ l) : ∃ b ∈ u, related a b := by
  obtain ⟨i, inside, rfl⟩ := List.getElem_of_mem member
  have inside' := all.length_eq ▸ inside
  exact ⟨_, List.getElem_mem inside', all.get inside inside'⟩

/-- Two manifests that are equal but for their bits have the same entries but for their bits. -/
theorem entry_of_bare {m m' : TransferManifest} (same : m.bare = m'.bare) {i : Nat}
    {entry : ManifestEntry} (found : m.entries[i]? = some entry) :
    ∃ entry', m'.entries[i]? = some entry' ∧ entry.bare = entry'.bare := by
  have lists : m.entries.map ManifestEntry.bare = m'.entries.map ManifestEntry.bare :=
    congrArg TransferManifest.entries same
  have here : (m.entries.map ManifestEntry.bare)[i]? = some entry.bare := by
    rw [List.getElem?_map, found]
    rfl
  rw [lists, List.getElem?_map] at here
  obtain ⟨entry', found', same'⟩ := Option.map_eq_some_iff.mp here
  exact ⟨entry', found', same'.symm⟩

theorem rootName_bare {m m' : TransferManifest} (same : m.bare = m'.bare) :
    m.rootName = m'.rootName := by
  show m.bare.rootName = m'.bare.rootName
  rw [same]

theorem chunkSize_bare {m m' : TransferManifest} (same : m.bare = m'.bare) :
    m.chunkSize = m'.chunkSize := by
  show m.bare.chunkSize = m'.bare.chunkSize
  rw [same]

theorem length_bare {m m' : TransferManifest} (same : m.bare = m'.bare) :
    m.entries.length = m'.entries.length := by
  have lists : m.entries.map ManifestEntry.bare = m'.entries.map ManifestEntry.bare :=
    congrArg TransferManifest.entries same
  rw [← List.length_map ManifestEntry.bare, lists, List.length_map]

/-! ### Destinations -/

/-- The location an entry is copied to. -/
def destLoc (cwd : Loc) (target : Path) (rootName : String) (single : Bool)
    (entry : ManifestEntry) : Option Loc :=
  (destFilePath target rootName single entry.relativePath).lexical cwd

theorem destLoc_bare {cwd : Loc} {target : Path} {rootName : String} {single : Bool}
    {entry entry' : ManifestEntry} (same : entry.bare = entry'.bare) :
    destLoc cwd target rootName single entry = destLoc cwd target rootName single entry' := by
  have path : entry.bare.relativePath = entry'.bare.relativePath := by rw [same]
  exact congrArg (fun path => (destFilePath target rootName single path).lexical cwd) path

theorem destFilePath_bare {m m' : TransferManifest} (same : m.bare = m'.bare)
    {entry entry' : ManifestEntry} (sameEntry : entry.bare = entry'.bare) (target : Path)
    (single : Bool) : destFilePath target m.rootName single entry.relativePath =
      destFilePath target m'.rootName single entry'.relativePath := by
  have relativePath : entry.bare.relativePath = entry'.bare.relativePath := by rw [sameEntry]
  exact congrArg₂ (fun name path => destFilePath target name single path) (rootName_bare same)
    relativePath

/-- No two entries have the same destination. -/
def DistinctDestinations (cwd : Loc) (target : Path) (single : Bool) (m : TransferManifest) : Prop :=
  ∀ (i j : Nat) entry entry' loc, m.entries[i]? = some entry → m.entries[j]? = some entry' →
    destLoc cwd target m.rootName single entry = some loc →
    destLoc cwd target m.rootName single entry' = some loc → i = j

/-- Destinations of which none is listed twice are distinct. -/
theorem distinctDestinations_of_nodup {cwd : Loc} {target : Path} {single : Bool}
    {m : TransferManifest} (nodup : (m.entries.map (destLoc cwd target m.rootName single)).Nodup) :
    DistinctDestinations cwd target single m := by
  intro i j entry entry' loc found found' dest dest'
  have inside := (List.getElem?_eq_some_iff.mp found).1
  refine (List.getElem?_inj (by rwa [List.length_map]) nodup).mp ?_
  rw [List.getElem?_map, List.getElem?_map, found, found', Option.map_some, Option.map_some, dest, dest']

/-- Nobody else writes the destinations. -/
def WritesAlone (env : Surroundings) (target : Path) (single : Bool) (m : TransferManifest) : Prop :=
  ∀ entry ∈ m.entries, ∀ loc, destLoc env.cwd target m.rootName single entry = some loc →
    env.SparesLoc loc

/-- The checkpoint is not one of the destinations. -/
def CheckpointApart (cwd : Loc) (job : Job) (single : Bool) (m : TransferManifest) : Prop :=
  ∀ path, job.checkpoint = some path → ∀ entry ∈ m.entries, ∀ loc,
    destLoc cwd job.target m.rootName single entry = some loc → path.lexical cwd ≠ some loc

/-! ### What the parts of a transfer leave alone -/

/-- What is kept is in its place, and the manifest is `m` but for its bits. -/
structure Settled (env : Surroundings) (kept : Loc → Node → Prop) (m : TransferManifest)
    (t : Transfer) : Prop where
  holds : Holds env kept t.world
  bare_eq : t.manifest.bare = m.bare

section Keeps

variable {platform : Platform} {env : Surroundings} {kept : Loc → Node → Prop}
  {m : TransferManifest} {job : Job} {bytesTotal : Nat}

theorem settled_sys {α : Type} {prog : Sys α} (keeps : Keeps (Holds env kept) prog) :
    Keeps (Settled env kept m) (sys prog) :=
  Triple.zoom fun _ settled => keeps.conseq (fun _ here => here ▸ settled.holds)
    (fun _ _ holds => ⟨holds, settled.bare_eq⟩) fun _ _ holds => ⟨holds, settled.bare_eq⟩

theorem settled_observe {α : Type} (f : Transfer → α) :
    Keeps (Settled env kept m) (observe f : Run α) :=
  Triple.observe fun _ settled => settled

theorem settled_pure {α : Type} (a : α) : Keeps (Settled env kept m) (pure a : Run α) :=
  Triple.pure fun _ settled => settled

theorem settled_throw {α : Type} (error : Error) :
    Keeps (Settled env kept m) (throw error : Run α) :=
  Triple.throw fun _ settled => settled

/-- Counting leaves the files and the manifest alone. -/
theorem settled_update {f : Transfer → Transfer} (sameWorld : ∀ t, (f t).world = t.world)
    (sameManifest : ∀ t, (f t).manifest = t.manifest) : Keeps (Settled env kept m) (update f : Run Unit) :=
  Triple.update fun t settled =>
    ⟨(sameWorld t).symm ▸ settled.holds, (sameManifest t).symm ▸ settled.bare_eq⟩

/-- Changing bits leaves everything else alone. -/
theorem settled_modifyEntry {f : ManifestEntry → ManifestEntry}
    (bits : ∀ entry, (f entry).bare = entry.bare) (idx : Nat) :
    Keeps (Settled env kept m) (modifyEntry idx f) :=
  Triple.update fun t settled =>
    ⟨settled.holds, (bare_modify bits t.manifest idx).trans settled.bare_eq⟩

theorem settled_context {α : Type} {message : String} {prog : Sys α}
    (keeps : Keeps (Holds env kept) prog) : Keeps (Holds env kept) (withContext message prog) :=
  Triple.context keeps

theorem settled_copyChunk (spares : env.Spares kept) {src dst : Loc} (outside : Outside kept dst)
    (offset readLen : Nat) (expected : String) :
    Keeps (Holds env kept) (copyChunk platform src dst offset readLen expected) := by
  refine Triple.bind (settled_context (keeps_seek spares)) fun _ => ?_
  refine Triple.bind (settled_context (keeps_readExact spares src offset readLen)) fun buf => ?_
  refine Triple.ite (fun _ => Triple.throw fun _ holds => holds) fun _ => ?_
  exact Triple.bind (settled_context (keeps_seek spares)) fun _ =>
    settled_context (keeps_writeAll spares outside offset buf)

theorem settled_verifyChunkAt (spares : env.Spares kept) (file : Loc) (offset len : Nat)
    (expected : String) :
    Keeps (Holds env kept) (verifyChunkAt platform file offset len expected) :=
  Triple.bind (settled_context (keeps_seek spares)) fun _ =>
    Triple.bind (settled_context (keeps_readExact spares file offset len)) fun _ => Triple.pure fun _ holds => holds

/-- Nothing is kept where the checkpoint goes. -/
def CheckpointOutside (env : Surroundings) (kept : Loc → Node → Prop) (job : Job) : Prop :=
  ∀ path, job.checkpoint = some path → ∀ loc, path.lexical env.cwd = some loc → Outside kept loc

theorem settled_saveCheckpoint (spares : env.Spares kept)
    (checkpoint : CheckpointOutside env kept job) :
    Keeps (Settled env kept m) (saveCheckpoint platform job) := by
  refine Triple.bind (settled_observe _) fun manifest => ?_
  cases saved : job.checkpoint with
  | none => exact settled_pure _
  | some path =>
    exact settled_sys (settled_context (keeps_fsWrite spares (checkpoint path saved) _))

theorem settled_copyAttempts (spares : env.Spares kept)
    (checkpoint : CheckpointOutside env kept job) {file : OpenEntry}
    (outside : Outside kept file.dst) (chunkIdx offset readLen : Nat) (expected : String) :
    ∀ attempts lastError, Keeps (Settled env kept m)
      (copyAttempts platform job bytesTotal file chunkIdx offset readLen expected attempts
        lastError) := by
  intro attempts
  induction attempts with
  | zero => exact fun lastError => settled_pure _
  | succ attempts ih =>
    intro lastError
    refine Triple.bind (settled_sys (Triple.attempt (settled_copyChunk spares outside offset readLen
      expected))) fun outcome => ?_
    cases outcome with
    | error err => exact ih _
    | ok _ =>
      refine Triple.bind ?_ fun _ => settled_pure _
      refine Triple.bind (settled_modifyEntry (bare_markChunkDone · chunkIdx) _) fun _ => ?_
      refine Triple.bind (settled_update (fun _ => rfl) fun _ => rfl) fun _ => ?_
      refine Triple.bind (settled_saveCheckpoint spares checkpoint) fun _ => ?_
      exact settled_update (fun _ => rfl) fun _ => rfl

theorem settled_copyWithRetries (spares : env.Spares kept)
    (checkpoint : CheckpointOutside env kept job) {file : OpenEntry}
    (outside : Outside kept file.dst) (chunkIdx offset readLen : Nat) (expected : String) :
    Keeps (Settled env kept m)
      (copyWithRetries platform job bytesTotal file chunkIdx offset readLen expected) := by
  refine Triple.bind (settled_copyAttempts spares checkpoint outside chunkIdx offset readLen expected
    _ _) fun lastError => ?_
  cases lastError with
  | none => exact settled_pure _
  | some err => exact settled_throw _

theorem settled_transferChunk (spares : env.Spares kept)
    (checkpoint : CheckpointOutside env kept job) {file : OpenEntry}
    (outside : Outside kept file.dst) (chunkSize : Nat) (chunk : String × Nat) :
    Keeps (Settled env kept m) (transferChunk platform job bytesTotal chunkSize file chunk) := by
  have copies (offset readLen : Nat) : Keeps (Settled env kept m)
      (copyWithRetries platform job bytesTotal file chunk.2 offset readLen chunk.1) :=
    settled_copyWithRetries spares checkpoint outside _ _ _ _
  refine Triple.ite (fun _ => settled_pure _) fun _ => ?_
  refine Triple.bind (settled_observe _) fun current => ?_
  refine Triple.ite (fun _ => ?_) fun _ => copies _ _
  refine Triple.bind (settled_sys (settled_verifyChunkAt spares _ _ _ _)) fun intact => ?_
  refine Triple.ite (fun _ => settled_pure _) fun _ => ?_
  refine Triple.bind (settled_modifyEntry (bare_clearChunkDone · chunk.2) _) fun _ => ?_
  refine Triple.bind (settled_update (fun _ => rfl) fun _ => rfl) fun _ => ?_
  exact copies _ _

theorem settled_createParent (spares : env.Spares kept) (path : Path) :
    Keeps (Holds env kept) (createParent path) := by
  unfold createParent
  cases path.parent with
  | none => exact Triple.pure fun _ holds => holds
  | some parent => exact settled_context (keeps_createDirAll spares parent)

/-- Hashing a destination puts it, with the hashed content, among what is kept. -/
theorem hashFile_settles (spares : env.Spares kept) {path : Path} {chunkSize : Nat}
    (positive : 0 < chunkSize) (alone : ∀ loc, path.lexical env.cwd = some loc → env.SparesLoc loc) :
    Triple (Holds env kept) (hashFile platform path chunkSize)
      (fun result w => ∃ loc content modified, path.lexical env.cwd = some loc ∧
        result.1 = platform.blake3 content ∧
        Holds env (fun l n => kept l n ∨ l = loc ∧ n = .file content modified) w)
      (fun _ => Holds env kept) := by
  refine Triple.bind (Triple.context (keeps_openRead spares path)) fun loc => ?_
  refine Triple.given fun lexical => ?_
  refine Triple.bind (M := fun there w => there = w.fs.content loc ∧ Holds env kept w)
    (Triple.observe fun w holds => ⟨rfl, holds⟩) fun there => ?_
  cases there with
  | none => exact Triple.context (Triple.throw fun _ holds => holds.2)
  | some content =>
    -- from here on the content that is being hashed is kept, too
    refine Triple.pre (Triple.exists_pre (P := fun modified => Holds env fun l n =>
      kept l n ∨ l = loc ∧ n = .file content modified) fun modified => ?_) ?_
    · have sparesMore : env.Spares fun l n => kept l n ∨ l = loc ∧ n = .file content modified := by
        rintro l n (member | ⟨rfl, rfl⟩)
        · exact spares l n member
        · exact alone l lexical
      refine (hashLoop_spec (call_spec (fun _ holds => holds.env_eq) (keeps_turn sparesMore)) positive
        _ content [] [] (Nat.lt_succ_self _)).conseq (fun _ holds => holds) ?_ fun _ _ holds => ?_
      · rintro result w ⟨⟨hash, _⟩, holds⟩
        exact ⟨loc, content, modified, lexical, hash, holds⟩
      · exact holds.mono fun l n member => Or.inl member
    · rintro w ⟨found, holds⟩
      obtain ⟨modified, found⟩ := FileSystem.content_eq_some.mp found.symm
      refine ⟨modified, holds.env_eq, ?_⟩
      rintro l n (member | ⟨rfl, rfl⟩)
      · exact holds.node_eq l n member
      · exact found

/-- What a round of the entry loop settles: its destination holds bytes with the hash of the entry,
and these are kept with what was kept before. -/
def Copied (platform : Platform) (env : Surroundings) (kept : Loc → Node → Prop)
    (m : TransferManifest) (job : Job) (single : Bool) (idx : Nat) (t : Transfer) : Prop :=
  ∃ entry loc content modified, m.entries[idx]? = some entry ∧
    destLoc env.cwd job.target m.rootName single entry = some loc ∧
    platform.blake3 content = entry.fileHash ∧
    Settled env (fun l n => kept l n ∨ l = loc ∧ n = .file content modified) m t

/-- **One round of the entry loop.** -/
theorem transferEntry_settles (spares : env.Spares kept)
    (checkpoint : CheckpointOutside env kept job) {single : Bool} {chunkSize idx : Nat}
    (positive : 0 < chunkSize) (alone : WritesAlone env job.target single m)
    (outside : ∀ entry loc, m.entries[idx]? = some entry →
      destLoc env.cwd job.target m.rootName single entry = some loc → Outside kept loc) :
    Triple (Settled env kept m) (transferEntry platform job single bytesTotal chunkSize idx)
      (fun _ => Copied platform env kept m job single idx) (fun _ => Settled env kept m) := by
  refine Triple.bind (M := fun manifest t => manifest.bare = m.bare ∧ Settled env kept m t)
    (Triple.observe fun t settled => ⟨settled.bare_eq, settled⟩) fun manifest => ?_
  refine Triple.given fun same => ?_
  cases found : manifest.entries[idx]? with
  | none => exact Triple.throw fun _ settled => settled
  | some entry =>
    obtain ⟨entry', found', sameEntry⟩ := entry_of_bare same found
    have rootName := rootName_bare same
    have dest : destLoc env.cwd job.target manifest.rootName single entry =
        destLoc env.cwd job.target m.rootName single entry' := by
      rw [destLoc_bare sameEntry]
      exact congrArg (fun name => destLoc env.cwd job.target name single entry') rootName
    have hash : entry.bare.fileHash = entry'.bare.fileHash := by rw [sameEntry]
    refine Triple.bind (settled_sys (keeps_isFile spares _)) fun sourceIsFile => ?_
    refine Triple.bind (settled_sys (settled_createParent spares _)) fun _ => ?_
    refine Triple.bind (settled_sys (settled_context ((keeps_openRead spares _).post
      fun _ _ opened => opened.2))) fun src => ?_
    refine Triple.bind (M := fun dst t => destLoc env.cwd job.target m.rootName single entry' =
      some dst ∧ Settled env kept m t) ?_ fun dst => Triple.given fun opened => ?_
    · refine Triple.zoom fun t settled => (Triple.context (keeps_openWrite spares _)).conseq
        (fun _ here => here ▸ settled.holds) ?_ fun _ _ holds => ⟨holds, settled.bare_eq⟩
      rintro dst w ⟨lexical, holds⟩
      exact ⟨dest ▸ lexical, holds, settled.bare_eq⟩
    have free := outside entry' dst found' opened
    refine Triple.bind (settled_sys (settled_context (keeps_setLen spares free _))) fun _ => ?_
    refine Triple.bind (Triple.forM (fun _ => Settled env kept m) fun i inside =>
      settled_transferChunk spares checkpoint free chunkSize _) fun _ => ?_
    refine Triple.bind (M := fun hashes t => ∃ loc content modified,
      destLoc env.cwd job.target m.rootName single entry' = some loc ∧
      hashes.1 = platform.blake3 content ∧
      Settled env (fun l n => kept l n ∨ l = loc ∧ n = .file content modified) m t)
      ?_ fun hashes => ?_
    · refine Triple.zoom fun t settled => (hashFile_settles spares positive ?_).conseq
        (fun _ here => here ▸ settled.holds) ?_ fun _ _ holds => ⟨holds, settled.bare_eq⟩
      · intro loc lexical
        exact alone entry' (List.mem_of_getElem? found') loc (dest ▸ lexical)
      · rintro hashes w ⟨loc, content, modified, lexical, hashed, holds⟩
        exact ⟨loc, content, modified, dest ▸ lexical, hashed, holds, settled.bare_eq⟩
    · refine Triple.ite (fun _ => Triple.throw ?_) fun matched => Triple.update ?_
      · rintro t ⟨loc, content, modified, _, _, settled⟩
        exact ⟨settled.holds.mono fun l n member => Or.inl member, settled.bare_eq⟩
      · rintro t ⟨loc, content, modified, lexical, hashed, settled⟩
        refine ⟨entry', loc, content, modified, found', lexical, ?_, settled.holds, settled.bare_eq⟩
        exact hashed.symm.trans ((not_not.mp matched).trans hash)

end Keeps

/-! ### The whole run -/

/-- After `done` rounds of the entry loop: the first `done` destinations, and nothing else, are kept,
each with bytes that have the hash of its entry. -/
structure RoundsDone (platform : Platform) (env : Surroundings) (m : TransferManifest) (job : Job)
    (single : Bool) (done : Nat) (kept : Loc → Node → Prop) (t : Transfer) : Prop where
  settled : Settled env kept m t
  only : ∀ loc there, kept loc there → ∃ i < done, ∃ entry, m.entries[i]? = some entry ∧
    destLoc env.cwd job.target m.rootName single entry = some loc
  each : ∀ i < done, ∃ entry loc content modified, m.entries[i]? = some entry ∧
    destLoc env.cwd job.target m.rootName single entry = some loc ∧
    platform.blake3 content = entry.fileHash ∧ kept loc (.file content modified)

section Rounds

variable {platform : Platform} {env : Surroundings} {m : TransferManifest} {job : Job}
  {single : Bool} {bytesTotal chunkSize : Nat}

theorem RoundsDone.spares {done : Nat} {kept : Loc → Node → Prop} {t : Transfer}
    (rounds : RoundsDone platform env m job single done kept t)
    (alone : WritesAlone env job.target single m) : env.Spares kept := by
  intro loc there member
  obtain ⟨i, _, entry, found, dest⟩ := rounds.only loc there member
  exact alone entry (List.mem_of_getElem? found) loc dest

theorem RoundsDone.checkpointOutside {done : Nat} {kept : Loc → Node → Prop} {t : Transfer}
    (rounds : RoundsDone platform env m job single done kept t)
    (apart : CheckpointApart env.cwd job single m) : CheckpointOutside env kept job := by
  intro path saved loc lexical there member
  obtain ⟨i, _, entry, found, dest⟩ := rounds.only loc there member
  exact apart path saved entry (List.mem_of_getElem? found) loc dest lexical

/-- A round that is still to come goes to a location where nothing is kept yet. -/
theorem RoundsDone.outside {done : Nat} {kept : Loc → Node → Prop} {t : Transfer}
    (rounds : RoundsDone platform env m job single done kept t)
    (distinct : DistinctDestinations env.cwd job.target single m) {entry : ManifestEntry} {loc : Loc}
    (found : m.entries[done]? = some entry)
    (dest : destLoc env.cwd job.target m.rootName single entry = some loc) : Outside kept loc := by
  intro there member
  obtain ⟨i, earlier, entry', found', dest'⟩ := rounds.only loc there member
  exact absurd (distinct i done entry' entry loc found' found dest' dest) (Nat.ne_of_lt earlier)

/-- One more round keeps what the earlier rounds have settled. -/
theorem roundsDone_step (positive : 0 < chunkSize)
    (distinct : DistinctDestinations env.cwd job.target single m)
    (alone : WritesAlone env job.target single m) (apart : CheckpointApart env.cwd job single m)
    (idx : Nat) :
    Triple (fun t => ∃ kept, RoundsDone platform env m job single idx kept t)
      (transferEntry platform job single bytesTotal chunkSize idx)
      (fun _ t => ∃ kept, RoundsDone platform env m job single (idx + 1) kept t)
      (fun _ _ => True) := by
  refine Triple.exists_pre fun kept t rounds => ?_
  refine (transferEntry_settles (rounds.spares alone) (rounds.checkpointOutside apart) positive alone
    fun entry loc => rounds.outside distinct).conseq
    (fun _ settled => settled) ?_ (fun _ _ _ => trivial) t rounds.settled
  rintro _ t' ⟨entry, loc, content, modified, found, dest, hash, settled⟩
  refine ⟨_, settled, ?_, ?_⟩
  · rintro other there (member | ⟨rfl, rfl⟩)
    · obtain ⟨i, earlier, rest⟩ := rounds.only other there member
      exact ⟨i, Nat.lt_succ_of_lt earlier, rest⟩
    · exact ⟨idx, Nat.lt_succ_self _, entry, found, dest⟩
  · intro i atMost
    rcases Nat.lt_succ_iff_lt_or_eq.mp atMost with earlier | rfl
    · obtain ⟨entry', loc', content', modified', found', dest', hash', member⟩ :=
        rounds.each i earlier
      exact ⟨entry', loc', content', modified', found', dest', hash', Or.inl member⟩
    · exact ⟨entry, loc, content, modified, found, dest, hash, Or.inr ⟨rfl, rfl⟩⟩

/-- Every destination holds bytes with the hash of its entry. -/
def AllCopied (platform : Platform) (env : Surroundings) (m : TransferManifest) (job : Job)
    (single : Bool) (t : Transfer) : Prop :=
  ∀ entry ∈ m.entries, ∃ loc content,
    destLoc env.cwd job.target m.rootName single entry = some loc ∧
    platform.blake3 content = entry.fileHash ∧ t.world.fs.content loc = some content

/-- When all rounds are done, all files are copied. -/
theorem RoundsDone.allCopied {kept : Loc → Node → Prop} {t : Transfer}
    (rounds : RoundsDone platform env m job single m.entries.length kept t) :
    AllCopied platform env m job single t := by
  intro entry member
  obtain ⟨i, inside, rfl⟩ := List.getElem_of_mem member
  obtain ⟨entry', loc, content, modified, found, dest, hash, keeps⟩ := rounds.each i inside
  obtain rfl : m.entries[i] = entry' :=
    Option.some.inj ((List.getElem?_eq_getElem inside).symm.trans found)
  exact ⟨loc, content, dest, hash,
    FileSystem.content_eq_some.mpr ⟨modified, rounds.settled.holds.node_eq loc _ keeps⟩⟩

/-- **Everything after the start of a run.** Nothing need be known of the files beforehand. -/
theorem transferFiles_copies (positive : 0 < m.chunkSize)
    (distinct : DistinctDestinations env.cwd job.target single m)
    (alone : WritesAlone env job.target single m) (apart : CheckpointApart env.cwd job single m) :
    Triple (Settled env (fun _ _ => False) m) (transferFiles platform job single)
      (fun _ => AllCopied platform env m job single) (fun _ _ => True) := by
  refine Triple.bind (M := fun manifest t => manifest.bare = m.bare ∧
    Settled env (fun _ _ => False) m t) (Triple.observe fun t settled => ⟨settled.bare_eq, settled⟩)
    fun manifest => Triple.given fun same => ?_
  have sameSize := chunkSize_bare same
  have sameCount := length_bare same
  refine Triple.bind (Triple.onSuccess (settled_update (fun _ => rfl) fun _ => rfl)) fun _ => ?_
  refine Triple.bind (Triple.onSuccess (settled_update (fun _ => rfl) fun _ => rfl)) fun _ => ?_
  have start : ∀ t, Settled env (fun _ _ => False) m t →
      ∃ kept, RoundsDone platform env m job single 0 kept t := fun t settled =>
    ⟨_, settled, fun _ _ member => member.elim, fun _ negative => absurd negative (Nat.not_lt_zero _)⟩
  refine Triple.bind ((Triple.forM_range
    (fun done t => ∃ kept, RoundsDone platform env m job single done kept t) fun idx _ =>
      roundsDone_step (sameSize ▸ positive) distinct alone apart idx).pre start) fun _ => ?_
  rw [sameCount]
  intro t ⟨kept, rounds⟩
  have saved : Triple (Settled env kept m) (saveCheckpoint platform job)
      (fun _ => Settled env kept m) fun _ _ => True :=
    (settled_saveCheckpoint (rounds.spares alone) (rounds.checkpointOutside apart)).onSuccess
  refine Triple.bind saved (fun _ => Triple.observe fun t' settled => ?_) t rounds.settled
  exact RoundsDone.allCopied ⟨settled, rounds.only, rounds.each⟩

theorem startTransfer_settles {kept : Loc → Node → Prop} (spares : env.Spares kept) :
    Keeps (Settled env kept m) (startTransfer job) := by
  refine Triple.bind (settled_sys (settled_context (keeps_createDirAll spares _))) fun _ => ?_
  refine Triple.bind (settled_sys (keeps_isFile spares _)) fun sourceIsFile => ?_
  exact Triple.bind (settled_observe _) fun manifest => settled_pure _

end Rounds

/-- **Soundness.** If a run with a manifest of `path`, whatever its bits, returns, then every entry's
destination holds the bytes that the file of the entry had when the manifest was built. -/
theorem executeLocalTransfer_sound {platform : Platform}
    (injective : Function.Injective platform.blake3) {path : Path} {chunkSize : Nat} {w w' : World}
    {m : TransferManifest} (still : w.env.Still)
    (built : buildManifest platform path chunkSize w = .ok m w') {job : Job} {t t₁ t' : Transfer}
    {single : Bool} {report : TransferReport} (same : t.manifest.bare = m.bare)
    (started : startTransfer job t = .ok single t₁)
    (run : executeLocalTransfer platform job t = .ok report t')
    (distinct : DistinctDestinations t.world.env.cwd job.target single m)
    (alone : WritesAlone t.world.env job.target single m)
    (apart : CheckpointApart t.world.env.cwd job single m) :
    ∃ root, w.fs.resolve w.env.cwd path = some root ∧
      List.Forall₂ (fun file entry => ∃ loc content, w.fs.content file = some content ∧
        destLoc t.world.env.cwd job.target m.rootName single entry = some loc ∧
        t'.world.fs.content loc = some content) (sourceFiles w.env w.fs root) m.entries := by
  obtain ⟨⟨root, _, resolved, described⟩, _⟩ :=
    (buildManifest_stands still path chunkSize).of_ok ⟨rfl, rfl⟩ built
  have positive : 0 < m.chunkSize := described.chunkSize_eq ▸ effectiveChunkSize_pos chunkSize
  have begun : Settled t.world.env (fun _ _ => False) m t₁ :=
    (startTransfer_settles fun _ _ member => member.elim).of_ok
      ⟨⟨rfl, fun _ _ member => member.elim⟩, same⟩ started
  have rest : transferFiles platform job single t₁ = .ok report t' := (bind_of_ok started).symm.trans run
  have copied := (transferFiles_copies positive distinct alone apart).of_ok begun rest
  refine ⟨root, resolved, (forall₂_members described.entries).imp ?_⟩
  rintro file entry ⟨⟨_, member⟩, source, found, describes⟩
  obtain ⟨loc, content, dest, hash, there⟩ := copied entry member
  -- equal hashes, equal bytes
  obtain rfl : content = source := injective (hash.trans describes.fileHash_eq)
  exact ⟨loc, content, found, dest, there⟩

/-! ### Runs on small trees

In one, the source `/s` holds the two bytes of "hi"; the old target `/t/s` holds "x", and the resume
bit claims that it is done. In the other, `/s` is a directory. -/

/-- The digests of what the runs hash. -/
def sampleDigests : List (Bytes × String) := [
  ([104, 105], "85052e9aab1b67b6622d94a08441b09fd5b7aca61ee360416d70de5da67d86ca"),
  ([120, 0], "8106ab205fb8d6f7d3d5d65669a7f791bf8ee885d8f960e0d9c06c4f1639d34f"),
  ([104], "c3af7b114121534b19203c45ca316c944a90c067bba3dcf1e5625d1273030874"),
  ([105], "e9c0ba08015769a0c4354594b96ce0dfbf27c9eb534a2f8378508985f732ff6d"),
  ([33], "c8d11b9f7237e4034adbcd2005735f9bc4c597c75ad89f4492bec8f77d15f7eb"),
  ([106, 107], "66fba9889b60f938dbe661e0c46e6c882b22797f0557a975c3770870305adb49"),
  ([104, 105, 33], "2a66e9faaa543ba88df1ca12549f1acd7d8b9325ae04ee24392d85782e9c4bc8"),
  ([104, 105, 106, 107], "968fb549858c735dbb6570565c3d32120208b157d54e531621c037687cf017e0"),
  ([], "af1349b9f5f9a1a6a0404dea36dcc9499bcb25c9adc112b7cc9a93cae41f3262"),
  ([1], "48fc721fbbc172e0925fa27af1671de225ba927134802998b10a1568a188652b"),
  ([2], "ab13bedf42e84bae0f7c62c7dd6a8ada571e8829bed6ea558217f0361b5e25d0"),
  (utf8 "code", "bd124bf390b2978f6fa38a38904b8d7d773fc518b52ebefa6462bf2d7b6f5a3f")]

/-- The hash function on what the runs hash; elsewhere something injective. -/
def sampleHash (bytes : Bytes) : String :=
  (sampleDigests.lookup bytes).getD
    (String.ofList ('?' :: bytes.map fun byte => Char.ofNat byte.toNat))

theorem charOfByte_injective : Function.Injective fun byte : UInt8 => Char.ofNat byte.toNat := by
  have small : ∀ byte : UInt8, (Char.ofNat byte.toNat).toNat = byte.toNat := by
    intro byte
    have valid : byte.toNat.isValidChar := Or.inl (Nat.lt_trans byte.toNat_lt (by decide))
    unfold Char.ofNat
    rw [dif_pos valid]
    rfl
  intro first second same
  apply UInt8.toNat.inj
  rw [← small first, ← small second]
  exact congrArg Char.toNat same

theorem mem_of_lookup_eq_some {α β : Type} [BEq α] [LawfulBEq α] {l : List (α × β)} {a : α} {b : β}
    (found : l.lookup a = some b) : (a, b) ∈ l := by
  obtain ⟨front, last, rfl, _⟩ := List.lookup_eq_some_iff.mp found
  exact List.mem_append_right _ List.mem_cons_self

/-- The first bytes of a text, in which the digests differ. -/
def startOf (s : String) : Bytes := s.toByteArray.data.toList.take 2

theorem startOf_ofList (chars : List Char) :
    startOf (String.ofList chars) = (encodeChars chars).take 2 := by
  rw [startOf, String.toByteArray_ofList]
  exact congrArg (List.take 2) List.toList_data_toByteArray

theorem sampleHash_injective : Function.Injective sampleHash := by
  have apart : (sampleDigests.map fun listed => startOf listed.2).Nodup := by decide +kernel
  have hex : ∀ listed ∈ sampleDigests, (startOf listed.2).head? ≠ some 63 := by decide +kernel
  -- what is listed has a digest, anything else has none
  have differ {digest : String} {bytes other : Bytes} (found : sampleDigests.lookup other = some digest) :
      digest ≠ String.ofList ('?' :: bytes.map fun byte => Char.ofNat byte.toNat) := by
    rintro rfl
    refine hex _ (mem_of_lookup_eq_some found) ?_
    rw [startOf_ofList, encodeChars_cons]
    rfl
  intro first second same
  unfold sampleHash at same
  cases one : sampleDigests.lookup first with
  | some digest =>
    cases other : sampleDigests.lookup second with
    | some digest' =>
      rw [one, other] at same
      have listed := List.inj_on_of_nodup_map apart (mem_of_lookup_eq_some one)
        (mem_of_lookup_eq_some other) (congrArg startOf same)
      exact congrArg Prod.fst listed
    | none =>
      rw [one, other] at same
      exact absurd same (differ one)
  | none =>
    cases other : sampleDigests.lookup second with
    | some digest' =>
      rw [one, other] at same
      exact absurd same.symm (differ other)
    | none =>
      rw [one, other] at same
      have chars := congrArg String.toList same
      rw [Option.getD_none, Option.getD_none, String.toList_ofList, String.toList_ofList] at chars
      exact List.map_injective_iff.mpr charOfByte_injective (List.cons.inj chars).2

theorem sampleRoot_proper : Name.Proper [115] := by decide

theorem sampleChild_proper : Name.Proper [97] := by decide

theorem sampleFolder_proper : Name.Proper [98] := by decide

theorem sampleTarget_proper : Name.Proper [116] := by decide

/-- The location `/s`. -/
def sampleRoot : Loc := [⟨[115], sampleRoot_proper⟩]

/-- The location `/s/a`. -/
def sampleChild : Loc := sampleRoot ++ [⟨[97], sampleChild_proper⟩]

/-- The location `/s/b`. -/
def sampleFolder : Loc := sampleRoot ++ [⟨[98], sampleFolder_proper⟩]

/-- The location `/s/b/a`. -/
def sampleInner : Loc := sampleFolder ++ [⟨[97], sampleChild_proper⟩]

/-- The location `/t`. -/
def sampleTarget : Loc := [⟨[116], sampleTarget_proper⟩]

/-- Surroundings in which nothing happens. -/
def sampleEnv : Surroundings :=
  ⟨[], fun _ => false, fun _ => ⟨id, none, 1024, 1, "0b0c1d5e-8a52-4a7e-9c43-2f7d1c9e3a60"⟩⟩

def samplePlatform : Platform := ⟨64, Or.inr rfl, sampleHash, (codecOf manifestFormat).body⟩

def sampleWorld : World where
  env := sampleEnv
  fs := ((FileSystem.empty.put [⟨[115], by decide⟩] (.file [104, 105] 7)).put
    [⟨[116], by decide⟩] .dir).put [⟨[116], by decide⟩, ⟨[115], by decide⟩] (.file [120] 3)
  clock := 0

def sampleManifest (bits : List UInt8) : TransferManifest where
  transferId := "0b0c1d5e-8a52-4a7e-9c43-2f7d1c9e3a60"
  rootName := "s"
  chunkSize := 2
  createdAt := 1
  entries := [⟨"s", 2, 7, sampleHash [104, 105], [sampleHash [104, 105]], bits⟩]

def sampleJob : Job := ⟨.ofString "/s", .ofString "/t", none, 3⟩

def sampleTransfer : Transfer := ⟨sampleWorld, sampleManifest [1], 0, 0, []⟩

theorem sample_built : ∃ w', buildManifest samplePlatform (.ofString "/s") 2 sampleWorld =
    .ok (sampleManifest [0]) w' := ok_of_returned (by decide +kernel)

theorem sample_ran : ∃ t', executeLocalTransfer samplePlatform sampleJob sampleTransfer =
    .ok ⟨2, 2, 1, 1⟩ t' := ok_of_returned (by decide +kernel)

/-- The world with the directory `/s` and what is put into it. -/
def treeWorld (fill : FileSystem → FileSystem) : World :=
  ⟨sampleEnv, fill (FileSystem.empty.put sampleRoot .dir), 0⟩

/-- The directory `/s` with the file `a` and, in the directory `b`, another file `a`. -/
def plainWorld : World :=
  treeWorld fun fs => ((fs.put sampleChild (.file [104, 105, 33] 7)).put sampleFolder .dir).put
    sampleInner (.file [106, 107] 8)

/-- The manifest of the directory `/s`, with bits for the first file. -/
def plainManifest (bits : List UInt8) : TransferManifest where
  transferId := "0b0c1d5e-8a52-4a7e-9c43-2f7d1c9e3a60"
  rootName := "s"
  chunkSize := 2
  createdAt := 1
  entries := [
    ⟨"a", 3, 7, sampleHash [104, 105, 33], [sampleHash [104, 105], sampleHash [33]], bits⟩,
    ⟨"b/a", 2, 8, sampleHash [106, 107], [sampleHash [106, 107]], [0]⟩]

/-- The target has an older file `/t/s/a`, and the resume bits claim that both of its chunks are done. -/
def plainTransfer : Transfer where
  world := { plainWorld with fs := ((plainWorld.fs.put sampleTarget .dir).put
    (sampleTarget ++ sampleRoot) .dir).put (sampleTarget ++ sampleChild) (.file [104, 105, 105] 3) }
  manifest := plainManifest [3]
  bytesDone := 0
  filesCompleted := 0
  events := []

theorem plain_built : ∃ w', buildManifest samplePlatform (.ofString "/s") 2 plainWorld =
    .ok (plainManifest [0]) w' := ok_of_returned (by decide +kernel)

theorem plain_started : ∃ t₁, startTransfer sampleJob plainTransfer = .ok false t₁ :=
  ok_of_returned (by decide +kernel)

theorem plain_ran : ∃ t', executeLocalTransfer samplePlatform sampleJob plainTransfer =
    .ok ⟨5, 5, 2, 2⟩ t' := ok_of_returned (by decide +kernel)

theorem plain_distinct (bits : List UInt8) :
    DistinctDestinations [] sampleJob.target false (plainManifest bits) :=
  distinctDestinations_of_nodup (show ([destLoc [] sampleJob.target "s" false (plainManifest []).entries[0],
    destLoc [] sampleJob.target "s" false (plainManifest []).entries[1]]).Nodup by decide +kernel)

/-- The run on the directory copies both files over what was there. -/
theorem executeLocalTransfer_sound_sample :
    ∃ t', executeLocalTransfer samplePlatform sampleJob plainTransfer = .ok ⟨5, 5, 2, 2⟩ t' ∧
      ∃ root, plainWorld.fs.resolve [] (.ofString "/s") = some root ∧
        List.Forall₂ (fun file entry => ∃ loc content, plainWorld.fs.content file = some content ∧
          destLoc [] sampleJob.target "s" false entry = some loc ∧
          t'.world.fs.content loc = some content) (sourceFiles sampleEnv plainWorld.fs root)
            (plainManifest [0]).entries := by
  obtain ⟨w', built⟩ := plain_built
  obtain ⟨t₁, started⟩ := plain_started
  obtain ⟨t', run⟩ := plain_ran
  refine ⟨t', run, executeLocalTransfer_sound sampleHash_injective (fun _ _ => rfl) built rfl started
    run (plain_distinct _) (fun _ _ _ _ _ _ => rfl) fun _ saved => by cases saved⟩

end SendRs
