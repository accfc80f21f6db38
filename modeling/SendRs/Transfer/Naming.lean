/-
**Which names a manifest can hold.**

The manifest names a file by a string: the bytes of the path below the root, converted lossily to
UTF-8, with `/` for every backslash. Joining that string to the root is to lead back to the file.
It does exactly when every name on the way is plain, that is valid UTF-8 without a backslash
(`buildManifest_faithful_iff`): the pieces of a stored string are plain (`plain_of_mem_stored`), so
a path that leads to the file by such pieces has passed plain names only.
-/

import SendRs.Transfer.Completeness

namespace SendRs

open Effect

/-- **Faithful naming**: the relative paths are distinct, and each leads from the root to the very
file that its entry describes. -/
structure FaithfulNames (platform : Platform) (env : Surroundings) (fs : FileSystem) (root : Loc)
    (m : TransferManifest) : Prop where
  distinct : (m.entries.map ManifestEntry.relativePath).Nodup
  denotes : List.Forall₂ (fun file entry => ∃ content, fs.content file = some content ∧
    Describes platform env m.chunkSize content entry.relativePath entry ∧
    fs.resolve env.cwd ((Path.ofLoc root).join (.ofString entry.relativePath)) = some file)
      (sourceFiles env fs root) m.entries

/-! ### The pieces of a stored string -/

/-- No backslash is left in a stored string. -/
theorem notMem_replaceBackslash (s : String) : 92 ∉ utf8 (replaceBackslash s) := by
  intro member
  rw [replaceBackslash, utf8_ofList] at member
  obtain ⟨c, _, same⟩ := List.mem_map.mp (mem_of_mem_encodeChars (by decide) member)
  by_cases backslash : c = '\\'
  · rw [if_pos backslash] at same
    exact absurd same (by decide)
  · rw [if_neg backslash] at same
    exact backslash same

/-- A piece of the path that bytes spell is between slashes of the bytes. -/
theorem mem_splitOn_of_mem_pieces {bytes piece : Bytes}
    (member : piece ∈ (Path.ofBytes bytes).pieces) : piece ∈ bytes.splitOn 47 := by
  unfold Path.ofBytes at member
  split at member
  · next rest =>
    rw [List.splitOn_cons_eq_if_modifyHead, if_pos (by rfl)]
    exact List.mem_cons_of_mem _ member
  · exact member

/-- A piece of the path that a stored string spells is valid and has no backslash. -/
theorem plain_of_mem_stored {root file : Loc} {name : Name}
    (member : name.bytes ∈ (Path.ofString (storedPath root file)).pieces) : name.Plain := by
  have between := mem_splitOn_of_mem_pieces member
  exact ⟨(isUtf8_utf8 _).of_mem_splitOn _ between, fun inside =>
    notMem_replaceBackslash _ (mem_of_mem_splitOn between inside)⟩

/-- A path that leads below the root from there has the names below the root among its pieces. -/
theorem mem_pieces_of_join {cwd root below : Loc} {path : Path}
    (leads : ((Path.ofLoc root).join path).lexical cwd = some (root ++ below)) :
    ∀ name ∈ below, name.bytes ∈ path.pieces := by
  intro name member
  unfold Path.join at leads
  by_cases absolute : path.absolute = true
  · rw [if_pos absolute, Path.lexical, Path.start, if_pos absolute] at leads
    obtain ⟨kept, passed, fromRoot, split, inside⟩ := foldlM_step_split _ leads
    obtain rfl := List.prefix_nil.mp fromRoot
    rw [List.nil_append] at split
    exact inside name (split ▸ List.mem_append_right _ member)
  · rw [if_neg absolute] at leads
    have down : (root.map Name.bytes ++ path.pieces).foldlM Loc.step [] = some (root ++ below) := leads
    rw [List.foldlM_append, foldlM_step_names, List.nil_append] at down
    obtain ⟨kept, passed, ⟨climbed, isRoot⟩, split, inside⟩ := foldlM_step_split _ down
    -- what was climbed is passed again on the way down
    rw [← isRoot, List.append_assoc] at split
    have again := List.append_cancel_left split
    exact inside name (again ▸ List.mem_append_right _ member)

/-! ### The names of a directory tree -/

section Tree

variable {platform : Platform} {env : Surroundings} {fs : FileSystem} {chunkSize : Nat} {root : Loc}
  {single : Bool} {m : TransferManifest}

theorem noFile_of_isDir {loc : Loc} (isDir : fs.IsDir loc) : fs.content loc = none := by
  rw [FileSystem.content, isDir]

/-- The manifest of a directory is a tree of files. -/
theorem ManifestOf.single_of_isDir (described : ManifestOf platform env fs chunkSize root single m)
    (isDir : fs.IsDir root) : single = false := by
  cases single with
  | false => rfl
  | true =>
    have isFile := described.single_file rfl
    rw [noFile_of_isDir isDir] at isFile
    cases isFile

/-- Plain names lead back to the file. -/
theorem resolve_storedPath (isDir : fs.IsDir root) (plain : PlainSource env fs root) {file : Loc}
    (member : file ∈ sourceFiles env fs root) :
    fs.resolve env.cwd ((Path.ofLoc root).join (.ofString (storedPath root file))) = some file := by
  obtain ⟨below, nonempty, rfl⟩ := exists_below member (noFile_of_isDir isDir)
  have names : ∀ name ∈ below, name.Plain := by
    have names := plain _ member
    rwa [listedNames_below nonempty] at names
  obtain ⟨isFile, _⟩ := mem_sourceFiles.mp member
  obtain ⟨content, found⟩ := Option.isSome_iff_exists.mp isFile
  obtain ⟨modified, there⟩ := FileSystem.content_eq_some.mp found
  exact resolve_join_storedPath (FileSystem.resolve_ofLoc isDir) nonempty names there

/-- A stored path that leads to its file has plain names only. -/
theorem plain_of_resolve (isDir : fs.IsDir root) {file : Loc}
    (member : file ∈ sourceFiles env fs root)
    (leads : fs.resolve env.cwd ((Path.ofLoc root).join (.ofString (storedPath root file))) =
      some file) : ∀ name ∈ listedNames root file, name.Plain := by
  obtain ⟨below, nonempty, rfl⟩ := exists_below member (noFile_of_isDir isDir)
  rw [listedNames_below nonempty]
  intro name listed
  exact plain_of_mem_stored (mem_pieces_of_join (FileSystem.lexical_of_resolve leads) name listed)

/-- Paths that lead to different files are different. -/
theorem nodup_of_denotes {files : List Loc} {entries : List ManifestEntry}
    (place : String → Option Loc) (distinct : files.Nodup)
    (denotes : List.Forall₂ (fun file entry => place entry.relativePath = some file) files entries) :
    (entries.map ManifestEntry.relativePath).Nodup := by
  induction denotes with
  | nil => exact List.nodup_nil
  | @cons file entry files entries leads rest ih =>
    obtain ⟨isNew, distinct⟩ := List.nodup_cons.mp distinct
    refine List.nodup_cons.mpr ⟨fun listed => ?_, ih distinct⟩
    obtain ⟨other, member, same⟩ := List.mem_map.mp listed
    obtain ⟨file', member', leads'⟩ := forall₂_partner rest.flip member
    rw [same, leads] at leads'
    exact isNew (Option.some.inj leads' ▸ member')

/-- **A manifest names the files of a directory faithfully exactly when all names are plain.** -/
theorem ManifestOf.faithful_iff (described : ManifestOf platform env fs chunkSize root single m)
    (isDir : fs.IsDir root) :
    FaithfulNames platform env fs root m ↔ PlainSource env fs root := by
  have isTree := described.single_of_isDir isDir
  subst isTree
  have listed := forall₂_members described.entries
  constructor
  · intro faithful file member
    -- both relations say the relative path of the entry of `file`
    have both := (forall₂_members faithful.denotes)
    obtain ⟨i, inside, rfl⟩ := List.getElem_of_mem member
    have inside' := described.entries.length_eq ▸ inside
    obtain ⟨_, _, describes⟩ := described.entries.get inside inside'
    obtain ⟨_, _, _, leads⟩ := faithful.denotes.get inside inside'
    have stored : m.entries[i].relativePath = storedPath root (sourceFiles env fs root)[i] :=
      describes.relativePath_eq
    rw [List.get_eq_getElem, List.get_eq_getElem, stored] at leads
    exact plain_of_resolve isDir member leads
  · intro plain
    have denotes : List.Forall₂ (fun file entry => ∃ content, fs.content file = some content ∧
        Describes platform env m.chunkSize content entry.relativePath entry ∧
        fs.resolve env.cwd ((Path.ofLoc root).join (.ofString entry.relativePath)) = some file)
          (sourceFiles env fs root) m.entries := by
      refine listed.imp fun file entry ⟨⟨member, _⟩, content, found, describes⟩ => ?_
      refine ⟨content, found, ?_, ?_⟩
      · rw [described.chunkSize_eq, describes.relativePath_eq]
        exact describes
      · rw [describes.relativePath_eq]
        exact resolve_storedPath isDir plain member
    refine ⟨nodup_of_denotes (fun relativePath =>
      fs.resolve env.cwd ((Path.ofLoc root).join (.ofString relativePath)))
      (nodup_sourceFiles env fs root) (denotes.imp fun _ _ ⟨_, _, _, leads⟩ => leads), denotes⟩

end Tree

/-- **Faithful naming.** The manifest of a directory tree names its files faithfully if and only if
every name below the root is valid UTF-8 and has no backslash. -/
theorem buildManifest_faithful_iff {platform : Platform} {path : Path} {chunkSize : Nat}
    {w w' : World} {m : TransferManifest} {root : Loc} (still : w.env.Still)
    (resolved : w.fs.resolve w.env.cwd path = some root) (isDir : w.fs.IsDir root)
    (built : buildManifest platform path chunkSize w = .ok m w') :
    FaithfulNames platform w.env w.fs root m ↔ PlainSource w.env w.fs root := by
  obtain ⟨⟨root', single, resolved', described⟩, _⟩ :=
    (buildManifest_stands still path chunkSize).of_ok ⟨rfl, rfl⟩ built
  obtain rfl : root = root' := Option.some.inj (resolved.symm.trans resolved')
  exact described.faithful_iff isDir

/-! ### Two small directories -/

theorem plain_plain : PlainSource sampleEnv plainWorld.fs sampleRoot := by
  have files : sourceFiles sampleEnv plainWorld.fs sampleRoot = [sampleChild, sampleInner] := by
    decide +kernel
  have names : listedNames sampleRoot sampleChild = [⟨[97], sampleChild_proper⟩] ∧
      listedNames sampleRoot sampleInner =
        [⟨[98], sampleFolder_proper⟩, ⟨[97], sampleChild_proper⟩] := by decide
  have child : Name.Plain ⟨[97], sampleChild_proper⟩ := ⟨⟨['a'], rfl⟩, by decide⟩
  have folder : Name.Plain ⟨[98], sampleFolder_proper⟩ := ⟨⟨['b'], rfl⟩, by decide⟩
  intro file member name listed
  rw [files] at member
  rcases List.mem_cons.mp member with rfl | member
  · rw [names.1, List.mem_singleton] at listed
    exact listed ▸ child
  · rw [List.mem_singleton.mp member, names.2] at listed
    rcases List.mem_cons.mp listed with rfl | listed
    · exact folder
    · exact List.mem_singleton.mp listed ▸ child

/-- The names `a` and `b/a` are faithful. -/
theorem buildManifest_faithful_plain :
    ∃ w', buildManifest samplePlatform (.ofString "/s") 2 plainWorld = .ok (plainManifest [0]) w' ∧
      FaithfulNames samplePlatform sampleEnv plainWorld.fs sampleRoot (plainManifest [0]) := by
  obtain ⟨w', built⟩ := plain_built
  exact ⟨w', built, (buildManifest_faithful_iff (fun _ _ => rfl) (by decide +kernel)
    (by decide +kernel) built).mpr plain_plain⟩

theorem slashName_proper : Name.Proper [97, 92, 98] := by decide

/-- The directory `/s` with the file `a\b` and, in the directory `a`, the file `b`. -/
def slashWorld : World :=
  treeWorld fun fs =>
    ((fs.put (sampleRoot ++ [⟨[97, 92, 98], slashName_proper⟩]) (.file [1] 7)).put sampleChild .dir).put
      (sampleChild ++ [⟨[98], sampleFolder_proper⟩]) (.file [2] 7)

/-- The names `a\b` and `a`, `b` are not: both files are listed as `a/b`. -/
theorem buildManifest_merges_names :
    ∃ m w', buildManifest samplePlatform (.ofString "/s") 2 slashWorld = .ok m w' ∧
      m.entries.map ManifestEntry.relativePath = ["a/b", "a/b"] ∧
      ¬ FaithfulNames samplePlatform sampleEnv slashWorld.fs sampleRoot m := by
  have returns : (returned (buildManifest samplePlatform (.ofString "/s") 2) slashWorld).map
      (fun m => m.entries.map ManifestEntry.relativePath) = some ["a/b", "a/b"] := by
    decide +kernel
  obtain ⟨m, returns, listed⟩ := Option.map_eq_some_iff.mp returns
  obtain ⟨w', built⟩ := ok_of_returned returns
  refine ⟨m, w', built, listed, fun faithful => ?_⟩
  have distinct := faithful.distinct
  rw [listed] at distinct
  exact absurd distinct (by decide)

end SendRs
