/-
**Building a manifest.**

`hashFile` reads a file in a loop and takes whatever one read returns as a chunk. `buildManifest`
does so for a single file, or for every regular file that a directory walk reaches, sorted by path.

Results:

* `hashFile_spec`: the file hash is the hash of the bytes in the file, however the reads split them;
* `hashFile_full`: when every read fills the buffer, the chunk hashes are those of the pieces;
* `buildManifest_spec`: in a tree that stays as it is, entry `i` describes the `i`-th of
  `sourceFiles`.
-/

import SendRs.Os.Frame
import SendRs.Transfer.Manifest

namespace SendRs

open Effect Pieces

variable (platform : Platform)

/-- The read loop of `hash_file`, on what is still to be read of the file. The streaming hasher is
the hash of everything it was fed. There is fuel for one read a byte and the last one. -/
def hashLoop (chunkSize : Nat) :
    Nat → Bytes → Bytes → List String → Sys (String × List String)
  | 0, _, hashed, hashes => pure (platform.blake3 hashed, hashes)
  | fuel + 1, rest, hashed, hashes => do
    let n ← withContext "read file chunk" (read rest chunkSize)
    if n = 0 then pure (platform.blake3 hashed, hashes)
    else
      hashLoop chunkSize fuel (rest.drop n) (hashed ++ rest.take n)
        (hashes ++ [platform.blake3 (rest.take n)])

/-- `hash_file`. The loop works on the file as it is when it is opened: nobody writes to a file
while it is being hashed. A directory can be opened but not read. -/
def hashFile (path : Path) (chunkSize : Nat) : Sys (String × List String) := do
  let loc ← withContext ("open file " ++ path.display) (openRead path)
  let there ← observe fun w => w.fs.content loc
  match there with
  | some content => hashLoop platform chunkSize (content.length + 1) content [] []
  | none => withContext "read file chunk" (throw osError)

/-- `build_entry`. -/
def buildEntry (path : Path) (relativePath : String) (chunkSize : Nat) : Sys ManifestEntry := do
  let info ← withContext "read metadata" (metadata path)
  let hashes ← hashFile platform path chunkSize
  pure {
    relativePath
    size := info.1
    modifiedUnix := info.2
    fileHash := hashes.1
    chunkHashes := hashes.2
    resumeBitmap := List.replicate ((hashes.2.length + 7) / 8) 0 }

/-- An entry is built with a bit for each chunk that is clear. -/
theorem buildEntry_fresh (path : Path) (relativePath : String) (chunkSize : Nat) :
    Triple (fun _ => True) (buildEntry platform path relativePath chunkSize)
      (fun entry _ => entry.resumeBitmap = List.replicate ((entry.chunkCount + 7) / 8) 0)
      fun _ _ => True :=
  Triple.bind (Triple.anything _) fun _ => Triple.bind (Triple.anything _) fun _ =>
    Triple.pure fun _ _ => rfl

/-- `root.file_name().and_then(|s| s.to_str())`. -/
def fileNameStr (loc : Loc) : Option String := loc.getLast?.bind fun name => toStr name.bytes

/-- `file.strip_prefix(&root).to_string_lossy().replace('\\', "/")`. -/
def storedPath (root file : Loc) : String :=
  replaceBackslash (fromUtf8Lossy ([47].intercalate ((file.drop root.length).map Name.bytes)))

/-- The regular files among the entries of a walk, sorted by path; the errors of the walk are
dropped. -/
def regularFiles (fs : FileSystem) (items : List (Except Loc Loc)) : List Loc :=
  ((items.filterMap Except.toOption).filter fun loc => (fs.content loc).isSome).insertionSort
    fun first second => first.map Name.bytes ≤ second.map Name.bytes

/-- The chunk size in use: 0 stands for the default. -/
def effectiveChunkSize (chunkSize : Nat) : Nat :=
  if chunkSize = 0 then defaultChunkSize else chunkSize

/-- The two branches of `build_manifest`: the entry of a single file, or one for each regular file
of the walk. -/
def buildEntries (root : Loc) (single : Bool) (chunkSize : Nat) : Sys (List ManifestEntry) :=
  if single then do
    let entry ← buildEntry platform (.ofLoc root) ((fileNameStr root).getD "file") chunkSize
    pure [entry]
  else do
    let items ← walkDir root
    let fs ← observe World.fs
    (regularFiles fs items).mapM fun file =>
      buildEntry platform (.ofLoc file) (storedPath root file) chunkSize

/-- `build_manifest`. -/
def buildManifest (path : Path) (chunkSize : Nat) : Sys TransferManifest := do
  let chunkSize := effectiveChunkSize chunkSize
  let root ← withContext "canonicalize path" (canonicalize path)
  let single ← isFile (.ofLoc root)
  let entries ← buildEntries platform root single chunkSize
  let t ← turn
  pure {
    transferId := t.uuid
    rootName := (fileNameStr root).getD "transfer-root"
    chunkSize
    createdAt := t.now
    entries }

/-- `verify_entry`. -/
def verifyEntry (root : Path) (entry : ManifestEntry) (chunkSize : Nat) : Sys Bool := do
  let recalculated ←
    buildEntry platform (root.join (.ofString entry.relativePath)) entry.relativePath chunkSize
  pure (recalculated.fileHash == entry.fileHash && recalculated.chunkHashes == entry.chunkHashes)

/-! ### The files of a source -/

/-- The regular files that are transferred from a source: the source itself, or what the walk of the
directory reaches. -/
def sourceFiles (env : Surroundings) (fs : FileSystem) (root : Loc) : List Loc :=
  regularFiles fs (walkItems env fs root)

/-- Whether the walk yields a location that it reaches. -/
def yielded (env : Surroundings) (fs : FileSystem) (root loc : Loc) : Bool :=
  !env.unlistable loc || decide (loc = root ∨ fs.IsDir loc)

theorem filterMap_walkItems (env : Surroundings) (fs : FileSystem) (root : Loc) (locs : List Loc) :
    (locs.flatMap fun loc =>
      if env.unlistable loc then
        if loc = root ∨ fs.IsDir loc then [.ok loc, .error loc] else [.error loc]
      else [(.ok loc : Except Loc Loc)]).filterMap Except.toOption =
        locs.filter (yielded env fs root) := by
  induction locs with
  | nil => rfl
  | cons loc locs ih =>
    rw [List.flatMap_cons, List.filterMap_append, ih, List.filter_cons]
    unfold yielded
    by_cases fails : env.unlistable loc = true
    · by_cases listed : loc = root ∨ fs.IsDir loc
      · simp [fails, listed, Except.toOption]
      · simp [fails, listed, Except.toOption]
    · simp [fails, Except.toOption]

/-- The files of a source, before they are sorted. -/
theorem sourceFiles_perm (env : Surroundings) (fs : FileSystem) (root : Loc) :
    (sourceFiles env fs root).Perm (((fs.nodes.keys.filter fun loc => root.isPrefixOf loc &&
      !loc.inits.any fun above => above ≠ loc && root.isPrefixOf above && env.unlistable above).filter
        (yielded env fs root)).filter fun loc => (fs.content loc).isSome) := by
  refine (List.perm_insertionSort _ _).trans (List.Perm.of_eq ?_)
  rw [walkItems, filterMap_walkItems, List.filter_cons]
  -- the root directory is no regular file
  have noFile : ¬ (fs.content []).isSome = true := by simp [FileSystem.content]
  split
  · rw [List.filter_cons]
    split
    · rw [List.filter_cons, if_neg noFile]
    · rfl
  · rfl

/-- What is among the files of a source: a regular file, the source or below it, in no directory
whose listing fails, and not failing itself. -/
theorem mem_sourceFiles {env : Surroundings} {fs : FileSystem} {root file : Loc} :
    file ∈ sourceFiles env fs root ↔
      (fs.content file).isSome ∧ root <+: file ∧
        (∀ above, above <+: file → above ≠ file → root <+: above → env.unlistable above = false) ∧
        (env.unlistable file = true → file = root) := by
  have stored : (fs.content file).isSome → file ∈ fs.nodes.keys := by
    intro isFile
    obtain ⟨content, found⟩ := Option.isSome_iff_exists.mp isFile
    obtain ⟨modified, found⟩ := FileSystem.content_eq_some.mp found
    have below : file ≠ [] := by
      rintro rfl
      cases found
    rw [FileSystem.node_of_ne_root fs below] at found
    exact AList.mem_keys.mp (AList.lookup_isSome.mp (by rw [found]; rfl))
  have noDir : (fs.content file).isSome → ¬ fs.IsDir file := by
    intro isFile isDir
    rw [FileSystem.content, isDir] at isFile
    cases isFile
  rw [(sourceFiles_perm env fs root).mem_iff, List.mem_filter, List.mem_filter, List.mem_filter]
  unfold yielded
  constructor
  · rintro ⟨⟨⟨_, reached⟩, yields⟩, isFile⟩
    simp only [Bool.and_eq_true, List.isPrefixOf_iff_prefix, Bool.not_eq_true', List.any_eq_false,
      List.mem_inits, decide_eq_true_eq, not_and, Bool.not_eq_true] at reached
    refine ⟨isFile, reached.1, fun above prefixed strict under =>
      reached.2 above prefixed ⟨strict, under⟩, fun fails => ?_⟩
    simp only [fails, Bool.not_true, Bool.false_or, decide_eq_true_eq] at yields
    exact yields.resolve_right (noDir isFile)
  · rintro ⟨isFile, under, listed, only⟩
    refine ⟨⟨⟨stored isFile, ?_⟩, ?_⟩, isFile⟩
    · simp only [Bool.and_eq_true, List.isPrefixOf_iff_prefix, Bool.not_eq_true', List.any_eq_false,
        List.mem_inits, decide_eq_true_eq, not_and, Bool.not_eq_true]
      exact ⟨under, fun above prefixed both => listed above prefixed both.1 both.2⟩
    · by_cases fails : env.unlistable file = true
      · simp [only fails]
      · simp [fails]

theorem nodup_sourceFiles (env : Surroundings) (fs : FileSystem) (root : Loc) :
    (sourceFiles env fs root).Nodup :=
  (sourceFiles_perm env fs root).nodup_iff.mpr
    (((fs.nodes.keys_nodup.filter _).filter _).filter _)

/-- A source that is a file is the only file of itself. -/
theorem sourceFiles_of_file {env : Surroundings} {fs : FileSystem} {root : Loc}
    (file : (fs.content root).isSome) : sourceFiles env fs root = [root] := by
  have only : ∀ loc ∈ sourceFiles env fs root, loc = root := by
    intro loc member
    obtain ⟨isFile, ⟨below, rfl⟩, _⟩ := mem_sourceFiles.mp member
    by_contra strict
    obtain ⟨content, found⟩ := Option.isSome_iff_exists.mp isFile
    obtain ⟨modified, found⟩ := FileSystem.content_eq_some.mp found
    have isDir : fs.IsDir root :=
      FileSystem.isDir_prefix below (fun empty => strict (by simp [empty])) found
    rw [FileSystem.content, isDir] at file
    cases file
  have there : root ∈ sourceFiles env fs root := by
    refine mem_sourceFiles.mpr ⟨file, List.prefix_refl _, fun above prefixed strict under => ?_,
      fun _ => rfl⟩
    exact absurd (prefixed.eq_of_length_le under.length_le) strict
  have unique := nodup_sourceFiles env fs root
  cases listed : sourceFiles env fs root with
  | nil =>
    rw [listed] at there
    cases there
  | cons first rest =>
    rw [listed] at unique only
    cases rest with
    | nil => rw [only first (by simp)]
    | cons second rest =>
      have same : first = second := by
        rw [only first (by simp), only second (by simp)]
      exact absurd (by simp [same]) (List.nodup_cons.mp unique).1

/-! ### What a hash says -/

section Hash

variable {platform} {env : Surroundings} {inv : World → Prop}

/-- The loop hashes what it was fed and what is still to come, and collects one hash for each read:
the hashes of the pieces when the reads fill the buffer. -/
theorem hashLoop_spec {failed : World → Prop}
    (called : Triple inv call (fun t w => (∃ k, t = env.turns k) ∧ inv w) fun _ => failed)
    {chunkSize : Nat} (positive : 0 < chunkSize) :
    ∀ (fuel : Nat) (rest hashed : Bytes) (hashes : List String), rest.length < fuel →
      Triple inv (hashLoop platform chunkSize fuel rest hashed hashes)
        (fun result w => (result.1 = platform.blake3 (hashed ++ rest) ∧
          (env.FillsBuffers chunkSize →
            result.2 = hashes ++ (pieces chunkSize rest).map platform.blake3)) ∧ inv w)
        (fun _ => failed) := by
  intro fuel
  induction fuel with
  | zero => exact fun rest _ _ short => absurd short (Nat.not_lt_zero _)
  | succ fuel ih =>
    intro rest hashed hashes short
    refine Triple.bind (Triple.context (read_spec called positive rest)) fun n => ?_
    refine Triple.given fun ⟨atEnd, bounded, filled⟩ => ?_
    refine Triple.ite (fun zero => ?_) fun nonzero => ?_
    · have done : rest = [] := atEnd.mp zero
      subst done
      refine Triple.pure fun w holds => ⟨⟨by rw [List.append_nil], fun _ => ?_⟩, holds⟩
      rw [pieces_nil positive, List.map_nil, List.append_nil]
    · have more : rest ≠ [] := fun done => nonzero (atEnd.mpr done)
      refine (ih (rest.drop n) (hashed ++ rest.take n) _ ?_).post fun result w => ?_
      · rw [List.length_drop]
        omega
      · rintro ⟨⟨hash, chunks⟩, holds⟩
        refine ⟨⟨?_, fun fills => ?_⟩, holds⟩
        · rw [hash, List.append_assoc, List.take_append_drop]
        · have cut : rest.take n = rest.take chunkSize ∧ rest.drop n = rest.drop chunkSize := by
            rw [filled fills]
            constructor
            · rw [← List.take_take, List.take_length]
            · rcases Nat.le_total chunkSize rest.length with fits | past
              · rw [Nat.min_eq_left fits]
              · rw [Nat.min_eq_right past, List.drop_length, List.drop_of_length_le past]
          rw [chunks fills, cut.1, cut.2, pieces_of_ne_nil positive more, List.map_cons,
            List.append_assoc, List.singleton_append]

end Hash

section Still

variable {platform} {env : Surroundings} {fs : FileSystem}

/-- **`hash_file` in a tree that stays as it is**: the hash of the content; and the hashes of its
pieces, if every read fills the buffer. -/
theorem hashFile_stands (still : env.Still) {chunkSize : Nat} (positive : 0 < chunkSize)
    {path : Path} {loc : Loc} (leads : fs.resolve env.cwd path = some loc) :
    Triple (Stands env fs) (hashFile platform path chunkSize)
      (fun result w => (∃ content, fs.content loc = some content ∧
        result.1 = platform.blake3 content ∧ (env.FillsBuffers chunkSize →
          result.2 = (pieces chunkSize content).map platform.blake3)) ∧ Stands env fs w)
      (fun _ => Stands env fs) := by
  refine Triple.bind (Triple.context (stands_openRead still path)) fun target => ?_
  refine Triple.given fun resolved => Triple.given fun _ => ?_
  obtain rfl : loc = target := Option.some.inj (leads.symm.trans resolved)
  refine Triple.bind (stands_observe (a := fs.content loc) ?_) fun there => ?_
  · rintro w ⟨rfl, rfl⟩
    rfl
  · refine Triple.given fun isThere => ?_
    subst isThere
    cases found : fs.content loc with
    | none => exact Triple.context (Triple.throw fun _ stands => stands)
    | some content =>
      refine (hashLoop_spec (stands_call still) positive _ content [] []
        (Nat.lt_succ_self _)).post ?_
      rintro result w ⟨⟨hash, chunks⟩, stands⟩
      refine ⟨⟨content, rfl, ?_, fun fills => ?_⟩, stands⟩
      · rw [hash, List.nil_append]
      · rw [chunks fills, List.nil_append]

/-- What an entry says of the content it was built from. -/
structure Describes (platform : Platform) (env : Surroundings) (chunkSize : Nat) (content : Bytes)
    (relativePath : String) (entry : ManifestEntry) : Prop where
  relativePath_eq : entry.relativePath = relativePath
  size_eq : entry.size = content.length
  fileHash_eq : entry.fileHash = platform.blake3 content
  chunkHashes_eq : env.FillsBuffers chunkSize →
    entry.chunkHashes = (pieces chunkSize content).map platform.blake3

/-- `build_entry` describes the file it is pointed at. -/
theorem buildEntry_stands (still : env.Still) {chunkSize : Nat} (positive : 0 < chunkSize)
    {path : Path} {loc : Loc} (leads : fs.resolve env.cwd path = some loc) (relativePath : String) :
    Triple (Stands env fs) (buildEntry platform path relativePath chunkSize)
      (fun entry w => (∃ content, fs.content loc = some content ∧
        Describes platform env chunkSize content relativePath entry) ∧ Stands env fs w)
      (fun _ => Stands env fs) := by
  refine Triple.bind (Triple.context (stands_metadata still leads)) fun info => ?_
  refine Triple.given fun size => ?_
  refine Triple.bind (hashFile_stands still positive leads) fun hashes => ?_
  refine Triple.given fun ⟨content, found, hash, chunks⟩ => Triple.pure fun w stands => ?_
  exact ⟨⟨content, found, rfl, size content found, hash, chunks⟩, stands⟩

theorem effectiveChunkSize_pos (chunkSize : Nat) : 0 < effectiveChunkSize chunkSize := by
  unfold effectiveChunkSize
  split
  · decide
  · omega

/-- The relative path under which a file of the source is listed. -/
def listedPath (single : Bool) (root file : Loc) : String :=
  if single then (fileNameStr root).getD "file" else storedPath root file

/-- A manifest of what is at `root`: its entries describe the files of the source one by one. -/
structure ManifestOf (platform : Platform) (env : Surroundings) (fs : FileSystem)
    (chunkSize : Nat) (root : Loc) (single : Bool) (manifest : TransferManifest) : Prop where
  there : (fs.node root).isSome
  chunkSize_eq : manifest.chunkSize = effectiveChunkSize chunkSize
  rootName_eq : manifest.rootName = (fileNameStr root).getD "transfer-root"
  single_file : single = true → (fs.content root).isSome
  single_eq : env.NoFaults → single = (fs.content root).isSome
  entries : List.Forall₂ (fun file entry => ∃ content, fs.content file = some content ∧
    Describes platform env (effectiveChunkSize chunkSize) content (listedPath single root file)
      entry) (sourceFiles env fs root) manifest.entries

/-- **`build_manifest` in a tree that stays as it is** has one entry for each file of the source, and
each entry is as `build_entry` makes it. -/
theorem buildManifest_relates (still : env.Still) (path : Path) (chunkSize : Nat)
    {R : Loc → Bool → Loc → ManifestEntry → Prop}
    (entry : ∀ root single file content, fs.content file = some content → ∀ path : Path,
      fs.resolve env.cwd path = some file → Triple (Stands env fs)
        (buildEntry platform path (listedPath single root file) (effectiveChunkSize chunkSize))
        (fun entry w => R root single file entry ∧ Stands env fs w) fun _ => Stands env fs) :
    Triple (Stands env fs) (buildManifest platform path chunkSize)
      (fun manifest w => (∃ root single, fs.resolve env.cwd path = some root ∧
        (fs.node root).isSome ∧ manifest.chunkSize = effectiveChunkSize chunkSize ∧
        manifest.rootName = (fileNameStr root).getD "transfer-root" ∧
        (single = true → (fs.content root).isSome) ∧
        (env.NoFaults → single = (fs.content root).isSome) ∧
        List.Forall₂ (R root single) (sourceFiles env fs root) manifest.entries) ∧
          Stands env fs w)
      (fun _ => Stands env fs) := by
  refine Triple.bind (Triple.context (stands_canonicalize still path)) fun root => ?_
  refine Triple.given fun resolved => Triple.given fun existing => ?_
  obtain ⟨there, found⟩ := Option.isSome_iff_exists.mp existing
  have leads : fs.resolve env.cwd (.ofLoc root) = some root := FileSystem.resolve_ofLoc found
  refine Triple.bind (stands_isFile still (.ofLoc root)) fun single => ?_
  refine Triple.given fun ⟨isFile, exactly⟩ => ?_
  rw [leads, Option.bind_some] at isFile exactly
  refine Triple.bind (M := fun entries w =>
    List.Forall₂ (R root single) (sourceFiles env fs root) entries ∧ Stands env fs w)
    ?_ fun entries => ?_
  · refine Triple.ite (fun isSingle => ?_) fun isTree => ?_
    · -- a single file is the only file of itself
      obtain ⟨content, here⟩ := Option.isSome_iff_exists.mp (isFile isSingle)
      have built := entry root single root content here _ leads
      rw [listedPath, if_pos isSingle] at built
      rw [sourceFiles_of_file (isFile isSingle)]
      refine Triple.bind built fun entry => ?_
      exact Triple.given fun described => Triple.pure fun w stands => ⟨.cons described .nil, stands⟩
    · refine Triple.bind (stands_walkDir still root) fun items => Triple.given fun walked => ?_
      refine Triple.bind (stands_observe (a := fs) fun _ stands => stands.fs_eq) fun seen => ?_
      refine Triple.given fun same => ?_
      subst walked same
      refine Triple.mapM _ fun file member => ?_
      obtain ⟨isRegular, _⟩ := mem_sourceFiles.mp member
      obtain ⟨content, here⟩ := Option.isSome_iff_exists.mp isRegular
      obtain ⟨modified, placed⟩ := FileSystem.content_eq_some.mp here
      have built := entry root single file content here _ (FileSystem.resolve_ofLoc placed)
      rwa [listedPath, if_neg isTree] at built
  · refine Triple.given fun listed => ?_
    refine Triple.bind (M := fun _ => Stands env fs) ((stands_turn still).post fun _ _ stands => stands)
      fun t => Triple.pure fun w stands => ⟨⟨root, single, resolved, ?_⟩, stands⟩
    exact ⟨existing, rfl, rfl, isFile, exactly, listed⟩

/-- The manifest describes the files of the source. -/
theorem buildManifest_stands (still : env.Still) (path : Path) (chunkSize : Nat) :
    Triple (Stands env fs) (buildManifest platform path chunkSize)
      (fun manifest w => (∃ root single, fs.resolve env.cwd path = some root ∧
        ManifestOf platform env fs chunkSize root single manifest) ∧ Stands env fs w)
      (fun _ => Stands env fs) := by
  refine (buildManifest_relates still path chunkSize fun root single file content found path leads =>
    buildEntry_stands still (effectiveChunkSize_pos chunkSize) leads _).post ?_
  rintro manifest w ⟨⟨root, single, resolved, there, size, name, isFile, exactly, listed⟩, stands⟩
  exact ⟨⟨root, single, resolved, there, size, name, isFile, exactly, listed⟩, stands⟩

end Still

end SendRs
