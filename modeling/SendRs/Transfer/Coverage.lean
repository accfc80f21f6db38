/-
**Which files a manifest leaves out.**

The walk of `build_manifest` drops its errors. A directory that cannot be listed hides what is below
it, an entry that cannot be looked at is skipped, and the manifest that is returned says nothing of
either. So it covers every regular file below the root exactly when no failing location is on the
way to one (`buildManifest_covers_iff`): the entries are as many as the files the walk reaches, and
a list that covers one file more would be longer.

What the walk reaches is transferred, so then every regular file of the source arrives.
-/

import SendRs.Transfer.Naming

namespace SendRs

open Effect

/-- The entries of the manifest describe files, among them every regular file at or below the
root. -/
def Covers (platform : Platform) (env : Surroundings) (fs : FileSystem) (root : Loc)
    (m : TransferManifest) : Prop :=
  ∃ files : List Loc,
    List.Forall₂ (fun file entry => ∃ content, fs.content file = some content ∧
      Describes platform env m.chunkSize content entry.relativePath entry) files m.entries ∧
    ∀ file, (fs.content file).isSome → root <+: file → file ∈ files

/-- No traversal fails on the way to a regular file: neither that of a directory above it nor, below
the root, its own. -/
def Traversable (env : Surroundings) (fs : FileSystem) (root : Loc) : Prop :=
  ∀ file, (fs.content file).isSome → root <+: file →
    ∀ loc, loc <+: file → root <+: loc → loc = root ∧ loc = file ∨ env.unlistable loc = false

section Covers

variable {platform : Platform} {env : Surroundings} {fs : FileSystem} {chunkSize : Nat} {root : Loc}
  {single : Bool} {m : TransferManifest}

/-- Where nothing fails on the way, the walk reaches every regular file, and only there. -/
theorem traversable_iff :
    Traversable env fs root ↔
      ∀ file, (fs.content file).isSome → root <+: file → file ∈ sourceFiles env fs root := by
  constructor
  · intro traversable file isFile below
    have way := traversable file isFile below
    refine mem_sourceFiles.mpr ⟨isFile, below, fun above prefixed strict under => ?_, fun fails => ?_⟩
    · exact (way above prefixed under).resolve_left fun same => strict same.2
    · rcases way file (List.prefix_refl _) below with same | works
      · exact same.1
      · rw [fails] at works
        cases works
  · intro reached file isFile below loc prefixed under
    obtain ⟨_, _, listed, only⟩ := mem_sourceFiles.mp (reached file isFile below)
    by_cases here : loc = file
    · subst here
      by_cases fails : env.unlistable loc = true
      · exact Or.inl ⟨only fails, rfl⟩
      · exact Or.inr (Bool.eq_false_iff.mpr fails)
    · exact Or.inr (listed loc prefixed here under)

/-- The manifest describes as many files as the walk reaches. -/
theorem ManifestOf.covers_iff (described : ManifestOf platform env fs chunkSize root single m) :
    Covers platform env fs root m ↔ Traversable env fs root := by
  rw [traversable_iff]
  constructor
  · rintro ⟨files, describes, all⟩ file isFile below
    by_contra missing
    -- the files that are reached and one more are all in a list that is no longer
    have unique : (file :: sourceFiles env fs root).Nodup :=
      List.nodup_cons.mpr ⟨missing, nodup_sourceFiles env fs root⟩
    have inside : file :: sourceFiles env fs root ⊆ files := by
      intro other member
      rcases List.mem_cons.mp member with rfl | member
      · exact all other isFile below
      · exact all other (mem_sourceFiles.mp member).1 (mem_sourceFiles.mp member).2.1
    have more := (unique.subperm inside).length_le
    rw [List.length_cons, describes.length_eq, described.entries.length_eq] at more
    exact Nat.lt_irrefl _ more
  · intro reached
    refine ⟨sourceFiles env fs root, ?_, reached⟩
    refine described.entries.imp fun file entry ⟨content, found, describes⟩ => ⟨content, found, ?_⟩
    rw [described.chunkSize_eq, describes.relativePath_eq]
    exact describes

end Covers

/-- **No file is silently left out**, and every regular file of the source arrives when a run with
the manifest returns, if and only if no traversal fails on the way to a regular file. -/
theorem buildManifest_covers_iff {platform : Platform}
    (injective : Function.Injective platform.blake3) {path : Path} {chunkSize : Nat} {w w' : World}
    {m : TransferManifest} {root : Loc} (still : w.env.Still)
    (resolved : w.fs.resolve w.env.cwd path = some root)
    (built : buildManifest platform path chunkSize w = .ok m w') :
    (Covers platform w.env w.fs root m ↔ Traversable w.env w.fs root) ∧
      (Traversable w.env w.fs root → ∀ (job : Job) (t t₁ t' : Transfer) (single : Bool)
        (report : TransferReport), t.manifest.bare = m.bare → startTransfer job t = .ok single t₁ →
          executeLocalTransfer platform job t = .ok report t' →
          DistinctDestinations t.world.env.cwd job.target single m →
          WritesAlone t.world.env job.target single m →
          CheckpointApart t.world.env.cwd job single m →
          ∀ file content, root <+: file → w.fs.content file = some content →
            ∃ entry ∈ m.entries, ∃ loc,
              destLoc t.world.env.cwd job.target m.rootName single entry = some loc ∧
              t'.world.fs.content loc = some content) := by
  obtain ⟨⟨root', single, resolved', described⟩, _⟩ :=
    (buildManifest_stands still path chunkSize).of_ok ⟨rfl, rfl⟩ built
  obtain rfl : root = root' := Option.some.inj (resolved.symm.trans resolved')
  refine ⟨described.covers_iff, ?_⟩
  intro traversable job t t₁ t' single report same started run distinct alone apart file content
    below found
  obtain ⟨root', resolved', copied⟩ :=
    executeLocalTransfer_sound injective still built same started run distinct alone apart
  obtain rfl : root = root' := Option.some.inj (resolved.symm.trans resolved')
  have reached := traversable_iff.mp traversable file (by rw [found]; rfl) below
  obtain ⟨entry, listed, loc, content', found', dest, there⟩ := forall₂_partner copied reached
  obtain rfl := Option.some.inj (found.symm.trans found')
  exact ⟨entry, listed, loc, dest, there⟩

/-! ### Two small directories -/

/-- Both files of `/s` are listed, and a run copies them. -/
theorem buildManifest_covers_plain :
    ∃ w', buildManifest samplePlatform (.ofString "/s") 2 plainWorld = .ok (plainManifest [0]) w' ∧
      Covers samplePlatform sampleEnv plainWorld.fs sampleRoot (plainManifest [0]) ∧
      ∃ t', executeLocalTransfer samplePlatform sampleJob plainTransfer = .ok ⟨5, 5, 2, 2⟩ t' ∧
        ∀ file content, sampleRoot <+: file → plainWorld.fs.content file = some content →
          ∃ entry ∈ (plainManifest [0]).entries, ∃ loc,
            destLoc [] sampleJob.target "s" false entry = some loc ∧
            t'.world.fs.content loc = some content := by
  obtain ⟨w', built⟩ := plain_built
  obtain ⟨t₁, started⟩ := plain_started
  obtain ⟨t', run⟩ := plain_ran
  have traversable : Traversable sampleEnv plainWorld.fs sampleRoot :=
    fun _ _ _ _ _ _ => Or.inr rfl
  have resolved : plainWorld.fs.resolve [] (.ofString "/s") = some sampleRoot := by decide +kernel
  obtain ⟨covers, copies⟩ := buildManifest_covers_iff sampleHash_injective (fun _ _ => rfl) resolved
    built
  refine ⟨w', built, covers.mpr traversable, t', run, ?_⟩
  exact copies traversable sampleJob plainTransfer t₁ t' false _ rfl started run (plain_distinct _)
    (fun _ _ _ _ _ _ => rfl) fun _ saved => by cases saved

/-- The directory `/s` with a directory `b` that cannot be listed, and in it the file `a`. -/
def hiddenWorld : World where
  env := { sampleEnv with unlistable := fun loc => loc = sampleFolder }
  fs := ((FileSystem.empty.put sampleRoot .dir).put sampleFolder .dir).put sampleInner
    (.file [104, 105] 7)
  clock := 0

/-- The manifest of the directory is empty, a run with it reports that all files are completed, and
the file has not arrived. -/
theorem buildManifest_hides_file :
    ∃ m w', buildManifest samplePlatform (.ofString "/s") 2 hiddenWorld = .ok m w' ∧
      ¬ Covers samplePlatform hiddenWorld.env hiddenWorld.fs sampleRoot m ∧
      ∃ t', executeLocalTransfer samplePlatform sampleJob ⟨hiddenWorld, m, 0, 0, []⟩ =
          .ok ⟨0, 0, 0, 0⟩ t' ∧
        t'.world.fs.node (sampleTarget ++ sampleRoot) = none := by
  obtain ⟨w', built⟩ : ∃ w', buildManifest samplePlatform (.ofString "/s") 2 hiddenWorld =
      .ok { plainManifest [] with entries := [] } w' := ok_of_returned (by decide +kernel)
  refine ⟨_, w', built, fun covers => ?_, ?_⟩
  · obtain ⟨files, described, all⟩ := covers
    obtain rfl := List.forall₂_nil_right_iff.mp described
    have file := all sampleInner (by decide +kernel) (by decide +kernel)
    cases file
  · have returns : returned (seeing (executeLocalTransfer samplePlatform sampleJob) fun t =>
        t.world.fs.node (sampleTarget ++ sampleRoot))
        ⟨hiddenWorld, { plainManifest [] with entries := [] }, 0, 0, []⟩ =
          some (⟨0, 0, 0, 0⟩, none) := by decide +kernel
    exact ok_of_returned_seeing returns

end SendRs
