/-
**The source of a transfer.**

The destinations of a transfer are files like any others, and some may be files of the source: with
the current directory as the target, or with a tree that repeats its own name. `SourceApart` says
that this does not matter: where a destination is a file of the source, the file has the length and
the chunks that the entry lists, so that nothing but the same bytes can be written to it.

Result: `transfer_sourceKept_iff`. Then every file that the manifest names keeps its bytes, whatever
fails; and a run that returns keeps them only then.
-/

import SendRs.Transfer.Confinement

namespace SendRs

open Effect Pieces

/-- A file of the source that the manifest names, and its bytes. -/
def Named (w : World) (job : Job) (m : TransferManifest) (loc : Loc) (content : Bytes) : Prop :=
  (∃ entry ∈ m.entries, w.fs.resolve w.env.cwd (sourcePath job.source
    ((w.fs.resolve w.env.cwd job.source).bind w.fs.content).isSome entry.relativePath) = some loc) ∧
  w.fs.content loc = some content

/-- Every named file has the bytes it had before. -/
def SourceKept (w w' : World) (job : Job) (m : TransferManifest) : Prop :=
  ∀ loc content, Named w job m loc content → w'.fs.content loc = some content

/-- The entry lists these bytes: their length, and the hash of each chunk that is copied. -/
structure Lists (platform : Platform) (chunkSize : Nat) (entry : ManifestEntry) (content : Bytes) :
    Prop where
  size_eq : entry.size = content.length
  hash_eq : ∀ k hash, entry.chunkHashes[k]? = some hash →
    chunkLen platform entry.size k chunkSize ≠ 0 →
      platform.blake3 ((content.drop (chunkOffset platform k chunkSize)).take
        (chunkLen platform entry.size k chunkSize)) = hash

/-- A destination that is a file of the source has what its entry lists. -/
def SourceApart (platform : Platform) (w : World) (job : Job) (layout : Option Bool)
    (m : TransferManifest) : Prop :=
  ∀ single ∈ layout, ∀ entry ∈ m.entries,
    ∀ loc ∈ destLoc w.env.cwd job.target m.rootName single entry,
      ∀ content, Named w job m loc content → Lists platform m.chunkSize entry content

/-- The checkpoint is not a file of the source. -/
def CheckpointNotNamed (w : World) (job : Job) (m : TransferManifest) : Prop :=
  ∀ path ∈ job.checkpoint, ∀ loc ∈ path.lexical w.env.cwd, ∀ content, ¬ Named w job m loc content

/-! ### What keeps the source -/

section Kept

variable {platform : Platform} {job : Job} {m : TransferManifest} {w : World}

/-- What is kept in a run that was called in the world `w`. -/
def KeptFrom (w : World) (job : Job) (m : TransferManifest) (w' : World) : Prop :=
  w'.env = w.env ∧ SourceKept w w' job m

/-- Writing the bytes that are there keeps the source. -/
theorem KeptFrom.rewrite {w' : World} (kept : KeptFrom w job m w') {target : Loc} {content : Bytes}
    (there : w'.fs.content target = some content) (modified : Int) :
    KeptFrom w job m { w' with fs := w'.fs.put target (.file content modified) } := by
  refine ⟨kept.1, fun loc old named => ?_⟩
  by_cases same : loc = target
  · subst same
    have free := free_of_content there
    obtain rfl : content = old := Option.some.inj (there.symm.trans (kept.2 loc old named))
    exact FileSystem.content_eq_some.mpr ⟨modified, FileSystem.node_put_same free _⟩
  · rw [FileSystem.content, FileSystem.node_put_ne _ same]
    exact kept.2 loc old named

theorem keptFrom_frame (quiet : ∀ loc content, Named w job m loc content → w.env.SparesLoc loc) :
    Frame w.env (KeptFrom w job m) (fun _ => True) fun loc => ∀ content, ¬ Named w job m loc content := by
  have elsewhere {w' : World} (kept : KeptFrom w job m w') {target : Loc} (new : Node)
      (apart : ∀ loc content, Named w job m loc content → loc ≠ target) :
      KeptFrom w job m { w' with fs := w'.fs.put target new } := by
    refine ⟨kept.1, fun loc content named => ?_⟩
    rw [FileSystem.content, FileSystem.node_put_ne _ (apart loc content named)]
    exact kept.2 loc content named
  refine ⟨fun _ kept => kept.1, ?_, ?_, ?_⟩
  · rintro w' ⟨sameEnv, kept⟩
    refine ⟨sameEnv, fun loc content named => ?_⟩
    show ((w'.env.turns w'.clock).edit w'.fs).content loc = _
    rw [sameEnv, FileSystem.content, quiet loc content named w'.clock w'.fs]
    exact kept loc content named
  · intro w' target new _ absent kept
    refine elsewhere kept new fun loc content named same => ?_
    have there := kept.2 loc content named
    rw [FileSystem.content, same, absent] at there
    cases there
  · intro w' target content k may kept
    exact elsewhere kept _ fun loc old named same => may old (same ▸ named)

/-- Filling a file with the chunks it already has keeps it. -/
theorem fillable_of_lists (injective : Function.Injective platform.blake3)
    (quiet : ∀ loc content, Named w job m loc content → w.env.SparesLoc loc) {chunkSize : Nat}
    {entry : ManifestEntry} {dst : Loc} {content : Bytes} (named : Named w job m dst content)
    (lists : Lists platform chunkSize entry content) :
    Fillable platform (KeptFrom w job m) chunkSize entry dst := by
  have frame := keptFrom_frame quiet
  have only {w' : World} {now : Bytes} (kept : KeptFrom w job m w')
      (there : w'.fs.content dst = some now) : now = content :=
    Option.some.inj (there.symm.trans (kept.2 dst content named))
  refine ⟨frame.setLen_of fun w' now k kept there => ?_, fun src k hash listed nonzero => ?_⟩
  · obtain rfl := only kept there
    rw [lists.size_eq, List.takeD_eq_take _ (le_refl _), List.take_length]
    exact kept.rewrite there _
  · refine Triple.bind (Triple.context frame.seek) fun _ => ?_
    refine Triple.bind (Triple.context (frame.readExact src _ _)) fun buf => ?_
    refine Triple.ite (fun _ => Triple.throw fun _ kept => kept) fun matched => ?_
    refine Triple.bind (Triple.context frame.seek) fun _ => Triple.context ?_
    -- the chunk that was read is the one that is there
    obtain rfl := injective ((not_not.mp matched).trans (lists.hash_eq k hash listed nonzero).symm)
    have inside : chunkOffset platform k chunkSize ≤ content.length := by
      rw [chunkLen, lists.size_eq] at nonzero
      omega
    refine frame.writeAll_of fun w' now part turn kept there isPart => ?_
    obtain rfl := only kept there
    rw [patch_unchanged inside (isPart.trans (List.take_prefix _ _))]
    exact kept.rewrite there _

/-- **The source is kept**, whatever fails. -/
theorem sourceKept_of_apart (injective : Function.Injective platform.blake3) {t t' : Transfer}
    (quiet : ∀ loc content, Named t.world job t.manifest loc content → t.world.env.SparesLoc loc)
    (checkpoint : CheckpointNotNamed t.world job t.manifest)
    (apart : SourceApart platform t.world job (layout job t) t.manifest)
    (ends : Ends (executeLocalTransfer platform job) t t') :
    SourceKept t.world t'.world job t.manifest := by
  have frame := keptFrom_frame quiet
  have fill (single : Bool) (isLayout : single ∈ layout job t) :
      AllFillable platform t.world.env.cwd job single t.manifest
        (KeptFrom t.world job t.manifest) := by
    intro entry member loc dest
    by_cases isNamed : ∃ content, Named t.world job t.manifest loc content
    · obtain ⟨content, named⟩ := isNamed
      exact fillable_of_lists injective quiet named
        (apart single isLayout entry member loc dest content named)
    · exact frame.fillable (not_exists.mp isNamed) _ _
  have holds := RunFrame.of_ends frame (fun _ _ => trivial)
    (fun single isLayout => RunFrame.plain frame
      ⟨fun _ _ _ _ _ _ => trivial, fun _ _ _ _ => trivial⟩ (fill single isLayout) checkpoint)
    (fun t₁ same kept => ⟨kept, by rw [same]⟩) ⟨rfl, fun _ _ named => named.2⟩ ends
  exact holds.1.2

end Kept

/-! ### A run that returns -/

/-- What describes some bytes lists them. -/
theorem Describes.lists {platform : Platform} {env : Surroundings} {chunkSize : Nat} {content : Bytes}
    {relativePath : String} {entry : ManifestEntry}
    (describes : Describes platform env chunkSize content relativePath entry)
    (fills : env.FillsBuffers chunkSize)
    (offsets : ∀ k < entry.chunkCount, k * chunkSize < 2 ^ platform.pointerWidth) :
    Lists platform chunkSize entry content := by
  refine ⟨describes.size_eq, fun k hash listed _ => ?_⟩
  have fits := offsets k (List.getElem?_eq_some_iff.mp listed).1
  rw [describes.chunkHashes_eq fills, List.getElem?_map] at listed
  obtain ⟨chunk, isChunk, hashed⟩ := Option.map_eq_some_iff.mp listed
  obtain ⟨inside, isPiece⟩ := List.getElem?_eq_some_iff.mp isChunk
  rw [← hashed, ← isPiece, chunkLen_eq fits, chunkOffset, Nat.mod_eq_of_lt fits,
    piece_eq_take describes.size_eq.symm]
  simp [pieces]

/-- **A run that keeps the source** was called with destinations apart from it: where a destination
is a file of the source, both have the bytes of the entry. -/
theorem apart_of_sourceKept {platform : Platform} (injective : Function.Injective platform.blake3)
    {path : Path} {chunkSize : Nat} {w w' : World} {m : TransferManifest} (still : w.env.Still)
    (fills : w.env.FillsBuffers (effectiveChunkSize chunkSize))
    (built : buildManifest platform path chunkSize w = .ok m w') {job : Job} {t t' : Transfer}
    (same : t.manifest.bare = m.bare) (offsets : OffsetsFit platform t.manifest)
    (distinct : ∀ single ∈ layout job t,
      DistinctDestinations t.world.env.cwd job.target single t.manifest)
    (alone : ∀ single ∈ layout job t, WritesAlone t.world.env job.target single t.manifest)
    (checkpoint : ∀ single ∈ layout job t, CheckpointApart t.world.env.cwd job single t.manifest)
    {report : TransferReport} (run : executeLocalTransfer platform job t = .ok report t')
    (kept : SourceKept t.world t'.world job t.manifest) :
    SourceApart platform t.world job (layout job t) t.manifest := by
  obtain ⟨⟨root, sourceIsFile, _, described⟩, _⟩ :=
    (buildManifest_stands still path chunkSize).of_ok ⟨rfl, rfl⟩ built
  have described := described.of_bare same
  have positive : 0 < t.manifest.chunkSize := described.chunkSize_eq ▸ effectiveChunkSize_pos chunkSize
  intro single isLayout entry member loc dest content named
  obtain ⟨t₁, started⟩ := ok_of_returned isLayout
  have begun : Settled t.world.env (fun _ _ => False) t.manifest t₁ :=
    (startTransfer_settles fun _ _ member => member.elim).of_ok
      ⟨⟨rfl, fun _ _ member => member.elim⟩, rfl⟩ started
  have copied := (transferFiles_copies positive (distinct single isLayout) (alone single isLayout)
    (checkpoint single isLayout)).of_ok begun ((bind_of_ok started).symm.trans run)
  obtain ⟨loc', copy, dest', hash, there⟩ := copied entry member
  obtain rfl : loc = loc' := Option.some.inj (dest.symm.trans dest')
  obtain rfl : content = copy := Option.some.inj ((kept loc content named).symm.trans there)
  obtain ⟨_, _, original, _, describes⟩ := forall₂_partner described.entries.flip member
  -- equal hashes, equal bytes
  obtain rfl : content = original := injective (hash.trans describes.fileHash_eq)
  rw [described.chunkSize_eq]
  exact describes.lists fills fun k inside => described.chunkSize_eq ▸ offsets entry member k inside

/-- **The source is never modified** exactly when no destination is a file of the source, but for one
that already has what it is to be given. Then every file that the manifest names keeps its bytes,
whatever fails and whatever has become of the source since the manifest was built; and a run that
returns keeps them only then. -/
theorem transfer_sourceKept_iff {platform : Platform} (injective : Function.Injective platform.blake3)
    {job : Job} {t t' : Transfer}
    (quiet : ∀ loc content, Named t.world job t.manifest loc content → t.world.env.SparesLoc loc)
    (checkpoint : CheckpointNotNamed t.world job t.manifest)
    (ends : Ends (executeLocalTransfer platform job) t t') :
    (SourceApart platform t.world job (layout job t) t.manifest →
      SourceKept t.world t'.world job t.manifest) ∧
    ∀ path chunkSize w w' m, w.env.Still → w.env.FillsBuffers (effectiveChunkSize chunkSize) →
      buildManifest platform path chunkSize w = .ok m w' → t.manifest.bare = m.bare →
      OffsetsFit platform t.manifest →
      (∀ single ∈ layout job t,
        DistinctDestinations t.world.env.cwd job.target single t.manifest) →
      (∀ single ∈ layout job t, WritesAlone t.world.env job.target single t.manifest) →
      (∀ single ∈ layout job t, CheckpointApart t.world.env.cwd job single t.manifest) →
      (∃ report, executeLocalTransfer platform job t = .ok report t') →
        (SourceKept t.world t'.world job t.manifest ↔
          SourceApart platform t.world job (layout job t) t.manifest) := by
  have keeps := fun apart => sourceKept_of_apart injective quiet checkpoint apart ends
  refine ⟨keeps, ?_⟩
  rintro path chunkSize w w' m still fills built same offsets distinct alone elsewhere ⟨report, run⟩
  exact ⟨apart_of_sourceKept injective still fills built same offsets distinct alone elsewhere run, keeps⟩

/-- The run on the small tree keeps its source `/s`. -/
theorem transfer_sourceKept_sample :
    ∃ t', executeLocalTransfer samplePlatform sampleJob sampleTransfer = .ok ⟨2, 2, 1, 1⟩ t' ∧
      SourceKept sampleWorld t'.world sampleJob (sampleManifest [1]) ∧
      SourceApart samplePlatform sampleWorld sampleJob (some true) (sampleManifest [1]) := by
  obtain ⟨w', built⟩ := sample_built
  obtain ⟨t', run⟩ := sample_ran
  have isLayout : layout sampleJob sampleTransfer = some true := by decide +kernel
  have noCheckpoint : CheckpointNotNamed sampleWorld sampleJob (sampleManifest [1]) :=
    fun _ saved => by cases saved
  obtain ⟨keeps, _⟩ := transfer_sourceKept_iff sampleHash_injective (fun _ _ _ _ _ => rfl)
    noCheckpoint (Or.inl ⟨_, run⟩)
  have apart : SourceApart samplePlatform sampleWorld sampleJob (some true) (sampleManifest [1]) := by
    intro single member entry listed loc dest content named
    obtain rfl := Option.some.inj member
    obtain rfl := List.mem_singleton.mp listed
    -- the destination is `/t/s`, and the only file that is named is `/s`
    obtain ⟨⟨other, listed', leads⟩, _⟩ := named
    obtain rfl := List.mem_singleton.mp listed'
    have place : destLoc [] sampleJob.target "s" true (sampleManifest [1]).entries[0] =
        some [⟨[116], by decide⟩, ⟨[115], by decide⟩] := by decide +kernel
    obtain rfl := Option.some.inj (place.symm.trans dest)
    exact absurd leads (by decide +kernel)
  rw [isLayout] at keeps
  exact ⟨t', run, keeps apart, apart⟩

/-- The file `/s/s/a`. -/
def nestedFile : Loc := sampleRoot ++ sampleRoot ++ [⟨[97], sampleChild_proper⟩]

/-- The directory `/s` with the file `a` and, in another directory `s`, the file `a`. -/
def nestedWorld : World where
  env := sampleEnv
  fs := (((FileSystem.empty.put sampleRoot .dir).put sampleChild (.file [104, 105] 7)).put
    (sampleRoot ++ sampleRoot) .dir).put nestedFile (.file [120, 0] 7)
  clock := 0

/-- What is built from `/s`. -/
def nestedManifest : TransferManifest where
  transferId := "0b0c1d5e-8a52-4a7e-9c43-2f7d1c9e3a60"
  rootName := "s"
  chunkSize := 2
  createdAt := 1
  entries := [⟨"a", 2, 7, sampleHash [104, 105], [sampleHash [104, 105]], [0]⟩,
    ⟨"s/a", 2, 7, sampleHash [120, 0], [sampleHash [120, 0]], [0]⟩]

/-- The receiver works in the source. -/
def nestedJob : Job := { sampleJob with target := .ofString "/s" }

def nestedTransfer : Transfer := ⟨nestedWorld, nestedManifest, 0, 0, []⟩

/-- **A file of the source is overwritten**: the destination of `/s/a` in the target `/s` is the file
`/s/s/a`. -/
theorem transfer_overwritesSource :
    ∃ w' t', buildManifest samplePlatform (.ofString "/s") 2 nestedWorld = .ok nestedManifest w' ∧
      Ends (executeLocalTransfer samplePlatform nestedJob) nestedTransfer t' ∧
      ¬ SourceKept nestedWorld t'.world nestedJob nestedManifest := by
  obtain ⟨w', built⟩ : ∃ w', buildManifest samplePlatform (.ofString "/s") 2 nestedWorld =
      .ok nestedManifest w' := ok_of_returned (by decide +kernel)
  refine ⟨w', _, built, ends_final _ _, fun kept => ?_⟩
  have named : Named nestedWorld nestedJob nestedManifest nestedFile [120, 0] :=
    ⟨by decide +kernel, by decide +kernel⟩
  have overwritten : (final (executeLocalTransfer samplePlatform nestedJob)
      nestedTransfer).world.fs.content nestedFile = some [104, 105] := by decide +kernel
  have same := (kept _ _ named).symm.trans overwritten
  exact absurd same (by decide)

end SendRs
