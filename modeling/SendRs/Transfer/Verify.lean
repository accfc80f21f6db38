/-
**`verify_entry` and the chunk size 0.**

`build_manifest` takes a chunk size of 0 for the default one; `verify_entry` passes it on, and then
the buffer is empty, the first read returns nothing and every file counts as empty
(`buildEntry_zero`). With any other chunk size, `verify_entry` decides whether the file has the
content that its entry was built from (`verifyEntry_decides_iff`).
-/

import SendRs.Transfer.Coverage
import SendRs.Transfer.Reads

namespace SendRs

open Effect Pieces

section Entry

variable (platform : Platform) {fs : FileSystem}

/-- An empty buffer is never filled. -/
theorem readParts_zero (env : Surroundings) (clock : Nat) (content : Bytes) :
    readParts env clock 0 content = [] := by
  have nothing : share 0 (env.turns (clock + 0)).grant content.length = 0 := by
    rw [share, Nat.zero_min, Nat.min_zero]
  rw [readParts, parts, if_pos nothing]

/-- What `build_entry` makes of a file, when no call fails. -/
theorem buildEntry_returns {w : World} (calm : w.env.Calm) {path : Path} {loc : Loc}
    {content : Bytes} (leads : w.fs.resolve w.env.cwd path = some loc)
    (found : w.fs.content loc = some content) (relativePath : String) (chunkSize : Nat) :
    ∃ entry w' k, buildEntry platform path relativePath chunkSize w = .ok entry w' ∧
      entry.fileHash = platform.blake3 (readParts w.env k chunkSize content).flatten ∧
      entry.chunkHashes = (readParts w.env k chunkSize content).map platform.blake3 := by
  obtain ⟨modified, there⟩ := FileSystem.content_eq_some.mp found
  obtain ⟨entry, w', ran, isEntry, _⟩ := (@buildEntry_parts platform _ _ _ calm.still
    (never_stops calm) _ _ _ _ leads there relativePath chunkSize w.clock).returns (s := w) rfl
  subst isEntry
  exact ⟨_, w', w.clock + 2, ran, rfl, rfl⟩

/-- With chunk size 0 every file counts as empty. -/
theorem buildEntry_zero {w : World} (calm : w.env.Calm) {path : Path} {loc : Loc}
    {content : Bytes} (leads : w.fs.resolve w.env.cwd path = some loc)
    (found : w.fs.content loc = some content) (relativePath : String) :
    ∃ entry w', buildEntry platform path relativePath 0 w = .ok entry w' ∧
      entry.fileHash = platform.blake3 [] ∧ entry.chunkHashes = [] := by
  obtain ⟨entry, w', k, ran, hash, chunks⟩ :=
    buildEntry_returns platform calm leads found relativePath 0
  rw [readParts_zero] at hash chunks
  exact ⟨entry, w', ran, hash, chunks⟩

/-- With any other chunk size, the entry holds the hashes of the content and of its pieces. -/
theorem buildEntry_positive {w : World} (calm : w.env.Calm) {chunkSize : Nat}
    (positive : 0 < chunkSize) (fills : w.env.FillsBuffers chunkSize) {path : Path} {loc : Loc}
    {content : Bytes} (leads : w.fs.resolve w.env.cwd path = some loc)
    (found : w.fs.content loc = some content) (relativePath : String) :
    ∃ entry w', buildEntry platform path relativePath chunkSize w = .ok entry w' ∧
      entry.fileHash = platform.blake3 content ∧
      entry.chunkHashes = (pieces chunkSize content).map platform.blake3 := by
  obtain ⟨entry, w', k, ran, hash, chunks⟩ :=
    buildEntry_returns platform calm leads found relativePath chunkSize
  have enough : content.length < content.length + 1 := Nat.lt_succ_self _
  have whole : (readParts w.env k chunkSize content).flatten = content :=
    flatten_parts positive enough
  have same : readParts w.env k chunkSize content = pieces chunkSize content :=
    (parts_eq_pieces_iff positive enough).mpr (fills.readsFill k content.length)
  rw [whole] at hash
  rw [same] at chunks
  exact ⟨entry, w', ran, hash, chunks⟩

variable {platform} in
/-- `verify_entry` compares both hashes of the entry that `build_entry` makes now. -/
theorem verifyEntry_of_built {w w' : World} {path : Path} {entry recalculated : ManifestEntry}
    {chunkSize : Nat} (ran : buildEntry platform (path.join (.ofString entry.relativePath))
      entry.relativePath chunkSize w = .ok recalculated w') :
    verifyEntry platform path entry chunkSize w =
      .ok (recalculated.fileHash == entry.fileHash &&
        recalculated.chunkHashes == entry.chunkHashes) w' := by
  rw [verifyEntry, bind_of_ok ran]
  rfl

end Entry

/-- **`verify_entry` decides whether a file is unchanged**, for every later content of the file,
if and only if the chunk size is not 0, or it is 0 and the file is empty as before or was not empty
and has changed. -/
theorem verifyEntry_decides_iff {platform : Platform} (injective : Function.Injective platform.blake3)
    {w w₁ later : World} {path : Path} {chunkSize : Nat} {root file : Loc} {m : TransferManifest}
    {entry : ManifestEntry} {content content' : Bytes} (still : w.env.Still)
    (fills : w.env.FillsBuffers (effectiveChunkSize chunkSize))
    (leads : w.fs.resolve w.env.cwd path = some root) (isDir : w.fs.IsDir root)
    (built : buildManifest platform path chunkSize w = .ok m w₁)
    (listed : (file, entry) ∈ (sourceFiles w.env w.fs root).zip m.entries)
    (plain : ∀ name ∈ listedNames root file, name.Plain)
    (found : w.fs.content file = some content)
    (calm : later.env.Calm) (fillsLater : later.env.FillsBuffers chunkSize)
    (leadsLater : later.fs.resolve later.env.cwd path = some root)
    (foundLater : later.fs.content file = some content') :
    ∃ unchanged w', verifyEntry platform path entry chunkSize later = .ok unchanged w' ∧
      ((unchanged = true ↔ content' = content) ↔
        chunkSize ≠ 0 ∨ (content = [] ∧ content' = []) ∨ (content ≠ [] ∧ content' ≠ content)) := by
  obtain ⟨⟨root', single, resolved, described⟩, _⟩ :=
    (buildManifest_stands still path chunkSize).of_ok ⟨rfl, rfl⟩ built
  obtain rfl : root = root' := Option.some.inj (leads.symm.trans resolved)
  have isTree := described.single_of_isDir isDir
  subst isTree
  -- the entry describes the file
  obtain ⟨was, here, describes⟩ := List.forall₂_zip described.entries listed
  obtain rfl : content = was := Option.some.inj (found.symm.trans here)
  have chunks := describes.chunkHashes_eq fills
  have hash := describes.fileHash_eq
  have stored : entry.relativePath = storedPath root file := describes.relativePath_eq
  -- and its stored path leads to the file
  obtain ⟨below, nonempty, rfl⟩ := exists_below (List.of_mem_zip listed).1 (noFile_of_isDir isDir)
  rw [listedNames_below nonempty] at plain
  obtain ⟨modified, there⟩ := FileSystem.content_eq_some.mp foundLater
  have leadsTo := resolve_join_storedPath leadsLater nonempty plain there
  rw [← stored] at leadsTo
  rcases Nat.eq_zero_or_pos chunkSize with rfl | positive
  · obtain ⟨recalculated, w', ran, hash', chunks'⟩ := buildEntry_zero platform calm leadsTo
      foundLater entry.relativePath
    refine ⟨_, w', verifyEntry_of_built ran, ?_⟩
    -- the answer is whether the file was empty
    have answer : (recalculated.fileHash == entry.fileHash &&
        recalculated.chunkHashes == entry.chunkHashes) = true ↔ content = [] := by
      rw [Bool.and_eq_true, beq_iff_eq, beq_iff_eq, hash, hash', chunks, chunks', injective.eq_iff]
      refine ⟨fun both => both.1.symm, ?_⟩
      rintro rfl
      rw [pieces_nil (effectiveChunkSize_pos 0)]
      exact ⟨rfl, rfl⟩
    rw [answer]
    by_cases empty : content = []
    · subst empty
      simp
    · simp [empty]
  · have effective : effectiveChunkSize chunkSize = chunkSize := if_neg (by omega)
    rw [effective] at chunks
    obtain ⟨recalculated, w', ran, hash', chunks'⟩ := buildEntry_positive platform calm positive
      fillsLater leadsTo foundLater entry.relativePath
    refine ⟨_, w', verifyEntry_of_built ran, iff_of_true ?_ (Or.inl (by omega))⟩
    rw [Bool.and_eq_true, beq_iff_eq, beq_iff_eq, hash, hash', chunks, chunks', injective.eq_iff]
    refine ⟨fun both => both.1, ?_⟩
    rintro rfl
    exact ⟨rfl, rfl⟩

/-! ### A directory with one file -/

/-- The directory `/s` with the file `a`. -/
def filledWorld (content : Bytes) : World :=
  treeWorld fun fs => fs.put sampleChild (.file content 7)

/-- The entry of the file `a` with the two bytes `hi`, read with any chunk size above 1. -/
def filledEntry : ManifestEntry :=
  ⟨"a", 2, 7, sampleHash [104, 105], [sampleHash [104, 105]], [0]⟩

/-- With chunk size 2 the change of the file from `hi` to `i` is found. -/
theorem verifyEntry_decides_sample :
    ∃ w', verifyEntry samplePlatform (.ofString "/s") filledEntry 2 (filledWorld [105]) =
      .ok false w' := by
  have returns : (returned (buildManifest samplePlatform (.ofString "/s") 2)
      (filledWorld [104, 105])).map (fun m => m.entries) = some [filledEntry] := by decide +kernel
  obtain ⟨m, returns, entries⟩ := Option.map_eq_some_iff.mp returns
  obtain ⟨w₁, built⟩ := ok_of_returned returns
  have files : sourceFiles (filledWorld [104, 105]).env (filledWorld [104, 105]).fs sampleRoot =
      [sampleChild] := by decide +kernel
  have names : listedNames sampleRoot sampleChild = [⟨[97], sampleChild_proper⟩] := by decide
  have listed : (sampleChild, filledEntry) ∈
      (sourceFiles (filledWorld [104, 105]).env (filledWorld [104, 105]).fs sampleRoot).zip
        m.entries := by
    rw [files, entries]
    exact List.mem_singleton.mpr rfl
  have plain : ∀ name ∈ listedNames sampleRoot sampleChild, name.Plain := by
    rw [names]
    intro name member
    rw [List.mem_singleton.mp member]
    exact ⟨⟨['a'], rfl⟩, by decide⟩
  have grants : 2 ≤ 1024 := by decide
  have fills : sampleEnv.FillsBuffers 2 := fun _ => grants
  obtain ⟨unchanged, w', ran, decides⟩ := @verifyEntry_decides_iff samplePlatform
    sampleHash_injective (filledWorld [104, 105]) w₁ (filledWorld [105]) (.ofString "/s") 2 sampleRoot
    _ m filledEntry [104, 105] [105] (fun _ _ => rfl) fills (by decide +kernel)
    (by decide +kernel) built listed plain (by decide +kernel) ⟨fun _ _ => rfl, fun _ => rfl⟩
    fills (by decide +kernel) (by decide +kernel)
  have same := decides.mpr (Or.inl (by decide))
  have changed : ([105] : Bytes) ≠ [104, 105] := by decide
  obtain rfl : unchanged = false := by
    rw [← Bool.not_eq_true, same]
    exact changed
  exact ⟨w', ran⟩

/-- With chunk size 0 the unchanged file counts as changed, and a file that was empty as unchanged. -/
theorem verifyEntry_emptyBuffer :
    ((returned (buildManifest samplePlatform (.ofString "/s") 0) (filledWorld [104, 105])).map
        (fun m => m.entries) = some [filledEntry] ∧
      returned (verifyEntry samplePlatform (.ofString "/s") filledEntry 0)
        (filledWorld [104, 105]) = some false) ∧
    ∃ entry, (returned (buildManifest samplePlatform (.ofString "/s") 0) (filledWorld [])).map
        (fun m => m.entries) = some [entry] ∧
      returned (verifyEntry samplePlatform (.ofString "/s") entry 0) (filledWorld [105]) =
        some true :=
  ⟨⟨by decide +kernel, by decide +kernel⟩, ⟨"a", 0, 7, sampleHash [], [], []⟩, by decide +kernel,
    by decide +kernel⟩

end SendRs
