/-
**A transfer in which nothing fails copies everything.**

The names of the source make the destinations: `rootName` and below it the names of the files. When
these are valid, the paths that the manifest spells lead where they should, different files go to
different places, and no file goes where a directory of another one is to be; so the manifest is a
sound plan (`planOf_sound`). Hence, for any resume bits and any old target files, the run returns and
reports the sum of the file sizes, and every destination equals its source
(`executeLocalTransfer_complete`).
-/

import SendRs.Transfer.Progress

namespace SendRs

open Effect Pieces

/-! ### Names -/

/-- A name that the manifest can spell: valid, and without a backslash. -/
def Name.Plain (name : Name) : Prop := IsUtf8 name.bytes ∧ 92 ∉ name.bytes

/-- The names under which a file of the source is listed: those below the root, or the name of a
source that is a single file. -/
def listedNames (root file : Loc) : List Name := file.drop (min root.length (file.length - 1))

/-- The name of the root, as a name in the target. -/
theorem rootName_spells (root : Loc) :
    ∃ name : Name, Path.ofString ((fileNameStr root).getD "transfer-root") = ⟨false, [name.bytes]⟩ := by
  cases strict : fileNameStr root with
  | some s =>
    obtain ⟨name, _, strict⟩ := Option.bind_eq_some_iff.mp strict
    refine ⟨name, Path.ofString_names (List.cons_ne_nil name []) ?_⟩
    rw [Option.getD_some, utf8_of_toStr strict]
    simp [List.intercalate]
  | none => exact ⟨⟨utf8 "transfer-root", by decide +kernel⟩, by decide +kernel⟩

/-- The stored path of a file spells the names below the root. -/
theorem storedPath_spells {root file : Loc} {below : List Name} (isBelow : file = root ++ below)
    (nonempty : below ≠ []) (plain : ∀ name ∈ below, name.Plain) :
    Path.ofString (storedPath root file) = ⟨false, below.map Name.bytes⟩ := by
  subst isBelow
  refine Path.ofString_names nonempty ?_
  rw [storedPath, List.drop_left, utf8_stored]
  · refine IsUtf8.intercalate fun bytes member => ?_
    obtain ⟨name, listed, rfl⟩ := List.mem_map.mp member
    exact (plain name listed).1
  · refine notMem_intercalate (by decide) fun bytes member => ?_
    obtain ⟨name, listed, rfl⟩ := List.mem_map.mp member
    exact (plain name listed).2

/-! ### Destinations -/

/-- The location of a file in the target, from the location of the target. -/
def placeOf (rootName : Name) (single : Bool) (root file : Loc) : List Name :=
  rootName :: if single then [] else file.drop root.length

theorem placeOf_ne_nil (rootName : Name) (single : Bool) (root file : Loc) :
    placeOf rootName single root file ≠ [] := List.cons_ne_nil _ _

/-- What is to be copied from `file`. -/
def itemOf (fs : FileSystem) (target : Path) (base : Loc) (rootName : Name) (single : Bool)
    (root file : Loc) : Item where
  src := file
  parent := target.join ⟨false, (placeOf rootName single root file).dropLast.map Name.bytes⟩
  up := base ++ (placeOf rootName single root file).dropLast
  name := (placeOf rootName single root file).getLast (placeOf_ne_nil _ _ _ _)
  content := (fs.content file).getD []

section Place

variable {fs : FileSystem} {target : Path} {base : Loc} {rootName : Name} {single : Bool}
  {root file : Loc}

theorem itemOf_dst :
    (itemOf fs target base rootName single root file).dst =
      base ++ placeOf rootName single root file := by
  show base ++ (placeOf rootName single root file).dropLast ++
    [(placeOf rootName single root file).getLast (placeOf_ne_nil _ _ _ _)] = _
  rw [List.append_assoc, List.dropLast_append_getLast]

theorem itemOf_path :
    (itemOf fs target base rootName single root file).path =
      target.join ⟨false, (placeOf rootName single root file).map Name.bytes⟩ := by
  have names : (placeOf rootName single root file).map Name.bytes =
      (placeOf rootName single root file).dropLast.map Name.bytes ++
        [((placeOf rootName single root file).getLast (placeOf_ne_nil _ _ _ _)).bytes] := by
    conv_lhs => rw [← List.dropLast_append_getLast (placeOf_ne_nil rootName single root file)]
    rw [List.map_append, List.map_singleton]
  rw [names]
  exact congrArg (Path.mk _) (List.append_assoc _ _ _)

/-- Files at different locations go to different locations. -/
theorem placeOf_injective {other : Loc} (below : root <+: file) (below' : root <+: other)
    (isSingle : single = true → file = other)
    (same : placeOf rootName single root file = placeOf rootName single root other) :
    file = other := by
  cases single with
  | true => exact isSingle rfl
  | false =>
    obtain ⟨rest, rfl⟩ := below
    obtain ⟨rest', rfl⟩ := below'
    have tails := (List.cons.inj same).2
    rw [if_neg Bool.false_ne_true, if_neg Bool.false_ne_true, List.drop_left, List.drop_left] at tails
    rw [tails]

/-- No file goes where a directory of another one is to be. -/
theorem placeOf_not_prefix {other : Loc} {front : List Name} (below : root <+: file)
    (below' : root <+: other) {content : Bytes} {there : Node} (found : fs.content file = some content)
    (found' : fs.node other = some there)
    (inside : front <+: (placeOf rootName single root other).dropLast) :
    placeOf rootName single root file ≠ front := by
  rintro rfl
  cases single with
  | true =>
    have short := inside.length_le
    simp [placeOf] at short
  | false =>
    obtain ⟨rest, rfl⟩ := below
    obtain ⟨rest', rfl⟩ := below'
    simp only [placeOf, Bool.false_eq_true, if_false, List.drop_left] at inside
    -- so the file is above the other one, where directories are
    obtain ⟨last, split⟩ : ∃ last, rootName :: rest' = (rootName :: rest').dropLast ++ [last] :=
      ⟨_, (List.dropLast_append_getLast (List.cons_ne_nil _ _)).symm⟩
    obtain ⟨more, reach⟩ := inside
    have longer : rest' = rest ++ (more ++ [last]) := by
      rw [← reach, List.append_assoc, List.cons_append] at split
      exact (List.cons.inj split).2
    rw [longer, ← List.append_assoc] at found'
    have isDir : fs.IsDir (root ++ rest) := FileSystem.isDir_prefix _ (by simp) found'
    rw [FileSystem.content, isDir] at found
    cases found

end Place

/-! ### What is assumed of a run -/

/-- The names of the source can be spelled. -/
def PlainSource (env : Surroundings) (fs : FileSystem) (root : Loc) : Prop :=
  ∀ file ∈ sourceFiles env fs root, ∀ name ∈ listedNames root file, name.Plain

/-- The source is as it was in `fs`. -/
structure SourceUnchanged (fs : FileSystem) (root : Loc) (source : Path) (w : World) : Prop where
  leads : w.fs.resolve w.env.cwd source = some root
  content_eq : ∀ loc, root <+: loc → w.fs.content loc = fs.content loc
  isDir : fs.IsDir root → w.fs.IsDir root

/-- The paths of the directories that the run creates where they are missing. -/
def parentPaths (job : Job) (single : Bool) (m : TransferManifest) : List Path :=
  job.target :: m.entries.filterMap fun entry =>
    (destFilePath job.target m.rootName single entry.relativePath).parent

/-- The locations such a path passes. -/
def passed (w : World) (path : Path) : List Loc := visited (path.start w.env.cwd) path.pieces

/-- Each parent of a destination is absent or a directory; each destination is absent or a file, and
none of the files of the source. A target path with `..` could pass through a destination; this one
does not. -/
structure TargetReady (w : World) (job : Job) (single : Bool) (m : TransferManifest)
    (files : List Loc) : Prop where
  start : w.fs.IsDir (job.target.start w.env.cwd)
  denotes : ∃ base, job.target.lexical w.env.cwd = some base
  parents : ∀ path ∈ parentPaths job single m, ∀ loc ∈ passed w path, w.fs.content loc = none
  destinations : ∀ entry ∈ m.entries, ∀ loc,
    destLoc w.env.cwd job.target m.rootName single entry = some loc →
      ¬ w.fs.IsDir loc ∧ loc ∉ passed w job.target ∧ loc ∉ files

/-- The checkpoint can be written, and is neither a destination nor a parent of one nor one of the
files of the source. -/
def CheckpointReady (w : World) (job : Job) (single : Bool) (m : TransferManifest)
    (files : List Loc) : Prop :=
  ∀ path, job.checkpoint = some path → ∃ loc, w.fs.resolve w.env.cwd path = some loc ∧
    w.fs.Free loc ∧ loc ∉ files ∧
    (∀ parent ∈ parentPaths job single m, loc ∉ passed w parent) ∧
    ∀ entry ∈ m.entries, destLoc w.env.cwd job.target m.rootName single entry ≠ some loc

/-- No sum overflows a `u64`, no offset a `usize`. -/
structure Fits (platform : Platform) (m : TransferManifest) : Prop where
  total : (m.entries.map ManifestEntry.size).sum < 2 ^ 64
  offsets : ∀ entry ∈ m.entries, ∀ idx < entry.chunkCount,
    idx * m.chunkSize < 2 ^ platform.pointerWidth

/-! ### The plan of a run -/

/-- The plan of the run that copies `files` from `root`. -/
def planOf (job : Job) (w : World) (m : TransferManifest) (fs : FileSystem) (base : Loc)
    (rootName : Name) (single : Bool) (root : Loc) (files : List Loc) : Plan where
  job
  env := w.env
  start := w.fs
  manifest := m
  items := files.map (itemOf fs job.target base rootName single root)
  dirs loc := ∃ path ∈ parentPaths job single m, loc ∈ passed w path

section PlanOf

variable {platform : Platform} {env : Surroundings} {fs : FileSystem} {chunkSize : Nat} {root : Loc}
  {single : Bool} {m : TransferManifest} {job : Job} {w : World} {base : Loc} {rootName : Name}

/-- A file of a directory is below it. -/
theorem exists_below {file : Loc} (member : file ∈ sourceFiles env fs root)
    (noFile : fs.content root = none) : ∃ below, below ≠ [] ∧ file = root ++ below := by
  obtain ⟨isFile, ⟨below, rfl⟩, _⟩ := mem_sourceFiles.mp member
  refine ⟨below, ?_, rfl⟩
  rintro rfl
  rw [List.append_nil, noFile] at isFile
  cases isFile

theorem listedNames_below {below : List Name} (nonempty : below ≠ []) :
    listedNames root (root ++ below) = below := by
  have positive := List.length_pos_iff.mpr nonempty
  rw [listedNames, List.length_append, Nat.min_eq_left (by omega), List.drop_left]

theorem noFile_of_tree (isTree : false = (fs.content root).isSome) : fs.content root = none :=
  Option.not_isSome_iff_eq_none.mp (isTree ▸ Bool.false_ne_true)

/-- The path of the destination, spelled with names. -/
theorem destFilePath_eq (plain : PlainSource env fs root)
    (spells : Path.ofString m.rootName = ⟨false, [rootName.bytes]⟩)
    (isSingle : single = (fs.content root).isSome) {file : Loc}
    (member : file ∈ sourceFiles env fs root) {relativePath : String}
    (listed : relativePath = listedPath single root file) :
    destFilePath job.target m.rootName single relativePath =
      job.target.join ⟨false, (placeOf rootName single root file).map Name.bytes⟩ := by
  subst listed
  cases single with
  | true => rw [destFilePath, if_pos rfl, spells, placeOf, if_pos rfl]; rfl
  | false =>
    have noFile := noFile_of_tree isSingle
    obtain ⟨below, nonempty, rfl⟩ := exists_below member noFile
    have names : ∀ name ∈ below, name.Plain := by
      have names := plain _ member
      rwa [listedNames_below nonempty] at names
    rw [destFilePath, if_neg Bool.false_ne_true, spells, listedPath, if_neg Bool.false_ne_true,
      storedPath_spells rfl nonempty names, placeOf, if_neg Bool.false_ne_true, List.drop_left]
    exact congrArg (Path.mk _) (List.append_assoc _ _ _)

/-- A file below a directory is found by its stored path, from any path of the directory. -/
theorem resolve_join_storedPath {fs : FileSystem} {cwd root : Loc} {path : Path} {below : List Name}
    (leads : fs.resolve cwd path = some root) (nonempty : below ≠ [])
    (plain : ∀ name ∈ below, name.Plain) {there : Node} (found : fs.node (root ++ below) = some there) :
    fs.resolve cwd (path.join (.ofString (storedPath root (root ++ below)))) = some (root ++ below) := by
  rw [storedPath_spells rfl nonempty plain]
  show fs.walk (path.start cwd) (path.pieces ++ below.map Name.bytes) = _
  unfold FileSystem.resolve at leads
  rw [FileSystem.walk_append, leads, Option.bind_some]
  refine FileSystem.walk_names below fun front last split => ?_
  rw [split, ← List.append_assoc] at found
  exact FileSystem.isDir_prefix [last] (List.cons_ne_nil _ _) found

/-- A file is found at the path that the manifest gives it. -/
theorem sourcePath_leads (plain : PlainSource env fs root)
    (isSingle : single = (fs.content root).isSome)
    (unchanged : SourceUnchanged fs root job.source w) {file : Loc}
    (member : file ∈ sourceFiles env fs root) {relativePath : String}
    (listed : relativePath = listedPath single root file) :
    w.fs.resolve w.env.cwd (sourcePath job.source single relativePath) = some file := by
  subst listed
  cases single with
  | true =>
    rw [sourceFiles_of_file isSingle.symm, List.mem_singleton] at member
    rw [sourcePath, if_pos rfl, member]
    exact unchanged.leads
  | false =>
    obtain ⟨isFile, isBelow, _⟩ := mem_sourceFiles.mp member
    obtain ⟨below, nonempty, rfl⟩ := exists_below member (noFile_of_tree isSingle)
    have names : ∀ name ∈ below, name.Plain := by
      have names := plain _ member
      rwa [listedNames_below nonempty] at names
    obtain ⟨content, found⟩ := Option.isSome_iff_exists.mp isFile
    rw [← unchanged.content_eq _ isBelow] at found
    obtain ⟨modified, found⟩ := FileSystem.content_eq_some.mp found
    rw [sourcePath, if_neg Bool.false_ne_true, listedPath, if_neg Bool.false_ne_true]
    exact resolve_join_storedPath unchanged.leads nonempty names found

/-- **Every entry matches its file.** -/
theorem planOf_matching (plain : PlainSource env fs root)
    (fills : env.FillsBuffers (effectiveChunkSize chunkSize))
    (described : ManifestOf platform env fs chunkSize root single m)
    (isSingle : single = (fs.content root).isSome)
    (spells : Path.ofString m.rootName = ⟨false, [rootName.bytes]⟩)
    (unchanged : SourceUnchanged fs root job.source w)
    (lexical : job.target.lexical w.env.cwd = some base)
    (start : w.fs.IsDir (job.target.start w.env.cwd)) :
    List.Forall₂ (Item.Matches platform
      (planOf job w m fs base rootName single root (sourceFiles env fs root)) single single)
      ((sourceFiles env fs root).map (itemOf fs job.target base rootName single root)) m.entries := by
  rw [List.forall₂_map_left_iff]
  refine (forall₂_members described.entries).imp
    fun file entry ⟨⟨member, listed⟩, content, found, describes⟩ => ?_
  have isContent : (itemOf fs job.target base rootName single root file).content = content := by
    rw [itemOf, found, Option.getD_some]
  have dest : destFilePath job.target m.rootName single entry.relativePath =
      (itemOf fs job.target base rootName single root file).path :=
    (destFilePath_eq plain spells isSingle member describes.relativePath_eq).trans itemOf_path.symm
  refine ⟨?_, ?_, ?_, dest, sourcePath_leads plain isSingle unchanged member describes.relativePath_eq,
    Path.lexical_join_names _ _ _ lexical, start, fun loc passed => ?_⟩
  · rw [isContent, describes.size_eq]
  · rw [isContent, describes.fileHash_eq]
  · rw [isContent]
    show _ = (pieces m.chunkSize content).map _
    rw [described.chunkSize_eq, describes.chunkHashes_eq fills]
  · refine ⟨_, List.mem_cons_of_mem _ (List.mem_filterMap.mpr ⟨entry, listed, ?_⟩), passed⟩
    rw [dest]
    exact Path.parent_append_name _ _ _

/-- The locations that are passed on the way to a destination: those of the target path, and the
directories below the target. -/
theorem passes_parent {file : Loc} {loc : Loc} (lexical : job.target.lexical w.env.cwd = some base) :
    loc ∈ passed w (itemOf fs job.target base rootName single root file).parent ↔
      loc ∈ passed w job.target ∨ ∃ front, front ≠ [] ∧
        front <+: (placeOf rootName single root file).dropLast ∧ loc = base ++ front := by
  show loc ∈ visited (job.target.start w.env.cwd) (job.target.pieces ++ _) ↔ _
  rw [visited_append _ _ lexical, List.mem_append, mem_visited_names]
  rfl

/-- Where a file goes, no directory is to be. -/
theorem destination_apart {file other : Loc} (member : file ∈ sourceFiles env fs root)
    (member' : other ∈ sourceFiles env fs root)
    (lexical : job.target.lexical w.env.cwd = some base)
    (notPassed : (base ++ placeOf rootName single root file) ∉ passed w job.target) :
    (base ++ placeOf rootName single root file) ∉
      passed w (itemOf fs job.target base rootName single root other).parent := by
  obtain ⟨isFile, below, _⟩ := mem_sourceFiles.mp member
  obtain ⟨isFile', below', _⟩ := mem_sourceFiles.mp member'
  obtain ⟨content, found⟩ := Option.isSome_iff_exists.mp isFile
  obtain ⟨content', found'⟩ := Option.isSome_iff_exists.mp isFile'
  obtain ⟨modified, there⟩ := FileSystem.content_eq_some.mp found'
  rw [passes_parent lexical]
  rintro (passed | ⟨front, _, inside, same⟩)
  · exact notPassed passed
  · exact placeOf_not_prefix below below' found there inside (List.append_cancel_left same)

/-- Neither the destinations nor the checkpoint are where directories are to be or sources are. -/
theorem planOf_apart {loc : Loc}
    (matching : List.Forall₂ (Item.Matches platform
      (planOf job w m fs base rootName single root (sourceFiles env fs root)) single single)
      ((sourceFiles env fs root).map (itemOf fs job.target base rootName single root)) m.entries)
    (lexical : job.target.lexical w.env.cwd = some base)
    (ready : TargetReady w job single m (sourceFiles env fs root))
    (checkpoint : CheckpointReady w job single m (sourceFiles env fs root))
    (written : (planOf job w m fs base rootName single root (sourceFiles env fs root)).files loc) :
    (∀ path ∈ parentPaths job single m, loc ∉ passed w path) ∧ loc ∉ sourceFiles env fs root := by
  rcases written with ⟨item, member, rfl⟩ | ⟨path, saved, denotes⟩
  · obtain ⟨entry, listed, found⟩ := forall₂_partner matching member
    obtain ⟨_, notPassed, notSource⟩ := ready.destinations entry listed _ found.destLoc_eq
    obtain ⟨file, isSource, rfl⟩ := List.mem_map.mp member
    rw [itemOf_dst] at notPassed
    refine ⟨fun path isParent passed => ?_, notSource⟩
    rw [itemOf_dst] at passed
    rcases List.mem_cons.mp isParent with rfl | isParent
    · exact notPassed passed
    · -- the parent directory of another destination
      obtain ⟨entry', listed', parent⟩ := List.mem_filterMap.mp isParent
      obtain ⟨item', member', found'⟩ := forall₂_partner matching.flip listed'
      obtain ⟨other, isSource', rfl⟩ := List.mem_map.mp member'
      have isItsParent : (itemOf fs job.target base rootName single root other).path.parent =
          some (itemOf fs job.target base rootName single root other).parent :=
        Path.parent_append_name _ _ _
      obtain rfl := Option.some.inj (parent.symm.trans ((congrArg Path.parent found'.dest_eq).trans
        isItsParent))
      exact destination_apart isSource isSource' lexical notPassed passed
  · obtain ⟨loc', leads, _, notSource, notPassed, _⟩ := checkpoint path saved
    obtain rfl : loc = loc' :=
      Option.some.inj (denotes.symm.trans (FileSystem.lexical_of_resolve leads))
    exact ⟨notPassed, notSource⟩

/-- The source is a file of the plan, or a directory. -/
theorem planOf_source (described : ManifestOf platform env fs chunkSize root single m)
    (isSingle : single = (fs.content root).isSome)
    (unchanged : SourceUnchanged fs root job.source w) :
    if single then ∃ item ∈ (sourceFiles env fs root).map
      (itemOf fs job.target base rootName single root), item.src = root else w.fs.IsDir root := by
  cases single with
  | true =>
    refine ⟨_, List.mem_map_of_mem ?_, rfl⟩
    rw [sourceFiles_of_file isSingle.symm]
    exact List.mem_singleton_self root
  | false =>
    refine unchanged.isDir ?_
    obtain ⟨there, found⟩ := Option.isSome_iff_exists.mp described.there
    have noFile := noFile_of_tree isSingle
    rw [FileSystem.content, found] at noFile
    cases there with
    | dir => exact found
    | file content modified => cases noFile

/-- **The plan of a run is sound.** -/
theorem planOf_sound (injective : Function.Injective platform.blake3) (plain : PlainSource env fs root)
    (fills : env.FillsBuffers (effectiveChunkSize chunkSize))
    (described : ManifestOf platform env fs chunkSize root single m)
    (isSingle : single = (fs.content root).isSome)
    (spells : Path.ofString m.rootName = ⟨false, [rootName.bytes]⟩) (calm : w.env.Calm)
    (unchanged : SourceUnchanged fs root job.source w)
    (lexical : job.target.lexical w.env.cwd = some base)
    (ready : TargetReady w job single m (sourceFiles env fs root))
    (checkpoint : CheckpointReady w job single m (sourceFiles env fs root))
    (fits : Fits platform m) :
    (planOf job w m fs base rootName single root (sourceFiles env fs root)).Sound platform single
      single := by
  have matching := planOf_matching plain fills described isSingle spells unchanged lexical ready.start
  refine ⟨injective, calm, ?_, ⟨root, unchanged.leads, planOf_source described isSingle unchanged⟩,
    matching, fun loc written => ?_, fun path saved => ?_, ?_, fun item member idx inside => ?_⟩
  · exact described.chunkSize_eq ▸ effectiveChunkSize_pos chunkSize
  · obtain ⟨notPassed, notSource⟩ := planOf_apart matching lexical ready checkpoint written
    refine ⟨fun ⟨path, isParent, passed⟩ => notPassed path isParent passed, fun item member same => ?_⟩
    obtain ⟨file, isSource, rfl⟩ := List.mem_map.mp member
    exact notSource ((congrArg (· ∈ sourceFiles env fs root) same).mp isSource)
  · obtain ⟨loc, leads, free, _, _, apart⟩ := checkpoint path saved
    refine ⟨loc, leads, free.1, fun item member same => ?_⟩
    obtain ⟨entry, listed, found⟩ := forall₂_partner matching member
    exact apart entry listed (same ▸ found.destLoc_eq)
  · rw [Plan.size, ← sizes_eq matching]
    exact fits.total
  · obtain ⟨entry, listed, found⟩ := forall₂_partner matching member
    exact fits.offsets entry listed idx (found.chunkCount_eq ▸ inside)

/-- Nothing is lost in the target: the destinations are distinct. -/
theorem planOf_distinct (matching : List.Forall₂ (Item.Matches platform
      (planOf job w m fs base rootName single root (sourceFiles env fs root)) single single)
      ((sourceFiles env fs root).map (itemOf fs job.target base rootName single root)) m.entries)
    (isSingle : single = (fs.content root).isSome) :
    DistinctDestinations w.env.cwd job.target single m := by
  rw [List.forall₂_map_left_iff] at matching
  have fileAt : ∀ (i : Nat) entry loc, m.entries[i]? = some entry →
      destLoc w.env.cwd job.target m.rootName single entry = some loc → ∃ file,
        (sourceFiles env fs root)[i]? = some file ∧ base ++ placeOf rootName single root file = loc := by
    intro i entry loc found dest
    obtain ⟨inside, rfl⟩ := List.getElem?_eq_some_iff.mp found
    have inside' := matching.length_eq ▸ inside
    have here := (matching.get inside' inside).destLoc_eq
    refine ⟨_, List.getElem?_eq_getElem inside', ?_⟩
    rw [itemOf_dst] at here
    exact Option.some.inj (here.symm.trans dest)
  intro i j entry entry' loc found found' dest dest'
  obtain ⟨file, there, place⟩ := fileAt i entry loc found dest
  obtain ⟨file', there', place'⟩ := fileAt j entry' loc found' dest'
  have member := List.mem_of_getElem? there
  have member' := List.mem_of_getElem? there'
  have same : file = file' := by
    refine placeOf_injective (mem_sourceFiles.mp member).2.1 (mem_sourceFiles.mp member').2.1 ?_
      (List.append_cancel_left (place.trans place'.symm))
    intro isFile
    rw [sourceFiles_of_file (isSingle.symm.trans isFile), List.mem_singleton] at member member'
    rw [member, member']
  obtain ⟨inside, _⟩ := List.getElem?_eq_some_iff.mp there
  exact (List.getElem?_inj inside (nodup_sourceFiles env fs root)).mp
    (there.trans (same ▸ there'.symm))

/-- A plain name can be sent. -/
theorem fileNameStr_plain (plain : PlainSource env fs root) (isFile : (fs.content root).isSome) :
    ∃ s, fileNameStr root = some s := by
  obtain ⟨content, found⟩ := Option.isSome_iff_exists.mp isFile
  obtain ⟨modified, there⟩ := FileSystem.content_eq_some.mp found
  have below : root ≠ [] := by
    rintro rfl
    cases there
  obtain ⟨front, last, split⟩ : ∃ front last, root = front ++ [last] :=
    ⟨_, _, (List.dropLast_append_getLast below).symm⟩
  have listed : last ∈ listedNames root root := by
    rw [listedNames, Nat.min_eq_right (Nat.sub_le _ _), split, List.length_append,
      List.length_singleton, Nat.add_sub_cancel, List.drop_left]
    exact List.mem_singleton_self last
  obtain ⟨⟨chars, spelled⟩, _⟩ :=
    plain root (sourceFiles_of_file isFile ▸ List.mem_singleton_self root) last listed
  refine ⟨String.ofList chars, ?_⟩
  rw [fileNameStr, split, List.getLast?_concat, Option.bind_some, spelled, toStr_encodeChars]

/-- A single file is listed under the name it is sent as. -/
theorem single_layout (plain : PlainSource env fs root)
    (described : ManifestOf platform env fs chunkSize root single m)
    (isSingle : single = (fs.content root).isSome) :
    (single && m.entries.map ManifestEntry.relativePath == [m.rootName]) = single := by
  cases single with
  | false => rfl
  | true =>
    have entries := described.entries
    obtain ⟨s, isName⟩ := fileNameStr_plain plain isSingle.symm
    rw [sourceFiles_of_file isSingle.symm] at entries
    obtain ⟨entry, others, ⟨content, _, describes⟩, empty, isEntry⟩ :=
      List.forall₂_cons_left_iff.mp entries
    obtain rfl := List.forall₂_nil_left_iff.mp empty
    rw [isEntry, List.map_singleton, describes.relativePath_eq, described.rootName_eq, listedPath,
      if_pos rfl, isName]
    exact beq_self_eq_true _

/-- The start of a run, by the plan. -/
theorem startTransfer_ready {plan : Plan} (sound : plan.Sound platform single single) {base : Loc}
    (lexical : plan.job.target.lexical plan.env.cwd = some base)
    (start : plan.start.IsDir (plan.job.target.start plan.env.cwd))
    (passed : ∀ loc ∈ visited (plan.job.target.start plan.env.cwd) plan.job.target.pieces,
      plan.dirs loc)
    (layout : (single && plan.manifest.entries.map ManifestEntry.relativePath ==
      [plan.manifest.rootName]) = single) :
    Triple (fun t => Ready plan t.world ∧ t.manifest = plan.manifest) (startTransfer plan.job)
      (fun answer t => answer = single ∧ Ready plan t.world ∧ t.manifest = plan.manifest) Never := by
  refine Triple.bind (M := fun _ t => Ready plan t.world ∧ t.manifest = plan.manifest)
    (calm_sys fun t ⟨ready, same⟩ => ?_) fun _ => ?_
  · have sameEnv := ready.env_eq
    refine Triple.context ((calm_createDirAll (sameEnv ▸ sound.calm) (sameEnv ▸ lexical)
      (ready.stays _ (sameEnv ▸ start)) fun loc member => ?_).post fun _ w created => ⟨?_, same⟩)
    · exact ready.noFile loc (passed loc (sameEnv ▸ member))
    · exact ready.grew sound created.1 fun loc member => passed loc (sameEnv ▸ member)
  refine Triple.bind (M := fun answer t => answer = single ∧ Ready plan t.world ∧
    t.manifest = plan.manifest) (calm_sys fun t ⟨ready, same⟩ => ?_) fun answer => ?_
  · exact (ready.isFile sound).post fun _ w answered =>
      ⟨answered.1, ready.stands answered.2, same⟩
  refine Triple.given fun isSingle => ?_
  subst isSingle
  refine Triple.bind (M := fun manifest t => manifest = plan.manifest ∧ Ready plan t.world ∧
    t.manifest = plan.manifest) (Triple.observe fun t holds => ⟨holds.2, holds⟩) fun manifest => ?_
  refine Triple.given fun same => Triple.pure fun t holds => ⟨?_, holds⟩
  rw [same]
  exact layout

/-- At the start of a run. -/
theorem planOf_ready (unchanged : SourceUnchanged fs root job.source w)
    (ready : TargetReady w job single m (sourceFiles env fs root))
    (checkpoint : CheckpointReady w job single m (sourceFiles env fs root))
    (matching : List.Forall₂ (Item.Matches platform
      (planOf job w m fs base rootName single root (sourceFiles env fs root)) single single)
      ((sourceFiles env fs root).map (itemOf fs job.target base rootName single root)) m.entries) :
    Ready (planOf job w m fs base rootName single root (sourceFiles env fs root)) w := by
  refine ⟨rfl, fun loc ⟨path, isParent, member⟩ => ready.parents path isParent loc member, ?_,
    fun _ isDir => isDir, fun item member => ?_⟩
  · rintro loc (⟨item, member, rfl⟩ | ⟨path, saved, denotes⟩)
    · obtain ⟨entry, listed, found⟩ := forall₂_partner matching member
      exact (ready.destinations entry listed _ found.destLoc_eq).1
    · obtain ⟨loc', leads, free, _⟩ := checkpoint path saved
      obtain rfl : loc = loc' :=
        Option.some.inj (denotes.symm.trans (FileSystem.lexical_of_resolve leads))
      exact free.2
  · obtain ⟨file, isSource, rfl⟩ := List.mem_map.mp member
    obtain ⟨isFile, below, _⟩ := mem_sourceFiles.mp isSource
    obtain ⟨content, found⟩ := Option.isSome_iff_exists.mp isFile
    show w.fs.content file = some ((fs.content file).getD [])
    rw [unchanged.content_eq file below, found, Option.getD_some]

end PlanOf

/-! ### The whole run -/

theorem ManifestOf.of_bare {platform : Platform} {env : Surroundings} {fs : FileSystem}
    {chunkSize : Nat} {root : Loc} {single : Bool} {m m' : TransferManifest}
    (described : ManifestOf platform env fs chunkSize root single m) (same : m'.bare = m.bare) :
    ManifestOf platform env fs chunkSize root single m' := by
  have sameChunkSize := chunkSize_bare same
  have sameName := rootName_bare same
  have sameEntries : m'.bare.entries = m.bare.entries := by rw [same]
  refine ⟨described.there, sameChunkSize.trans described.chunkSize_eq,
    sameName.trans described.rootName_eq, described.single_file, described.single_eq, ?_⟩
  -- what is said of an entry does not depend on its bits
  have bare : List.Forall₂ (fun file entry => ∃ content, fs.content file = some content ∧
      Describes platform env (effectiveChunkSize chunkSize) content (listedPath single root file)
        entry) (sourceFiles env fs root) (m.entries.map ManifestEntry.bare) := by
    rw [List.forall₂_map_right_iff]
    exact described.entries.imp fun file entry ⟨content, found, describes⟩ =>
      ⟨content, found, describes.relativePath_eq, describes.size_eq, describes.fileHash_eq,
        describes.chunkHashes_eq⟩
  rw [show m.entries.map ManifestEntry.bare = m'.entries.map ManifestEntry.bare from
    sameEntries.symm, List.forall₂_map_right_iff] at bare
  exact bare.imp fun file entry ⟨content, found, describes⟩ =>
    ⟨content, found, describes.relativePath_eq, describes.size_eq, describes.fileHash_eq,
      describes.chunkHashes_eq⟩

/-- The sum of the sizes of the files of a source. -/
def sourceSize (env : Surroundings) (fs : FileSystem) (root : Loc) : Nat :=
  ((sourceFiles env fs root).map fun file => ((fs.content file).getD []).length).sum

theorem planOf_report {job : Job} {w : World} {m : TransferManifest} {fs : FileSystem} {base : Loc}
    {rootName : Name} {single : Bool} {root : Loc} {env : Surroundings} :
    (planOf job w m fs base rootName single root (sourceFiles env fs root)).report =
      ⟨sourceSize env fs root, sourceSize env fs root, (sourceFiles env fs root).length,
        (sourceFiles env fs root).length⟩ := by
  have size : (planOf job w m fs base rootName single root (sourceFiles env fs root)).size =
      sourceSize env fs root := by
    show (((sourceFiles env fs root).map _).map _).sum = _
    rw [List.map_map]
    rfl
  have count : (planOf job w m fs base rootName single root (sourceFiles env fs root)).items.length =
      (sourceFiles env fs root).length := List.length_map _
  rw [Plan.report, size, count]

/-- Where the checkpoint can be written, it is no destination. -/
theorem CheckpointReady.apart {w : World} {job : Job} {single : Bool} {m : TransferManifest}
    {files : List Loc} (checkpoint : CheckpointReady w job single m files) :
    CheckpointApart w.env.cwd job single m := by
  intro path saved entry member loc dest denotes
  obtain ⟨loc', leads, _, _, _, apart⟩ := checkpoint path saved
  obtain rfl : loc = loc' :=
    Option.some.inj (denotes.symm.trans (FileSystem.lexical_of_resolve leads))
  exact apart entry member dest

/-- **Completeness.** A run with a manifest of `path`, whatever its bits, returns and reports the sum
of the file sizes, and every destination holds the bytes of its source, if nothing fails and the
source is unchanged. -/
theorem executeLocalTransfer_complete {platform : Platform}
    (injective : Function.Injective platform.blake3) {path : Path} {chunkSize : Nat} {w w' : World}
    {m : TransferManifest} {root : Loc} (calm : w.env.Calm)
    (fills : w.env.FillsBuffers (effectiveChunkSize chunkSize))
    (resolved : w.fs.resolve w.env.cwd path = some root) (plain : PlainSource w.env w.fs root)
    (built : buildManifest platform path chunkSize w = .ok m w') {job : Job} {t : Transfer}
    (same : t.manifest.bare = m.bare) (undisturbed : t.world.env.Calm)
    (unchanged : SourceUnchanged w.fs root job.source t.world)
    (ready : TargetReady t.world job (w.fs.content root).isSome t.manifest
      (sourceFiles w.env w.fs root))
    (checkpoint : CheckpointReady t.world job (w.fs.content root).isSome t.manifest
      (sourceFiles w.env w.fs root))
    (fits : Fits platform t.manifest) :
    ∃ t', executeLocalTransfer platform job t =
        .ok ⟨sourceSize w.env w.fs root, sourceSize w.env w.fs root, t.manifest.entries.length,
          t.manifest.entries.length⟩ t' ∧
      List.Forall₂ (fun file entry => ∃ loc content, w.fs.content file = some content ∧
        destLoc t.world.env.cwd job.target t.manifest.rootName (w.fs.content root).isSome entry =
          some loc ∧ t'.world.fs.content loc = some content)
        (sourceFiles w.env w.fs root) t.manifest.entries := by
  obtain ⟨⟨root', single, resolved', listed⟩, _⟩ :=
    (buildManifest_stands calm.still path chunkSize).of_ok ⟨rfl, rfl⟩ built
  obtain rfl : root = root' := Option.some.inj (resolved.symm.trans resolved')
  have isSingle := listed.single_eq calm.noFaults
  rw [← isSingle] at ready checkpoint ⊢
  have described := listed.of_bare same
  obtain ⟨rootName, spells⟩ := rootName_spells root
  rw [← described.rootName_eq] at spells
  obtain ⟨base, lexical⟩ := ready.denotes
  have sound := planOf_sound injective plain fills described isSingle spells undisturbed unchanged
    lexical ready checkpoint fits
  have matching := sound.matching
  -- both parts of the run succeed
  obtain ⟨_, t₁, started, rfl, readyNow, sameManifest⟩ :=
    (startTransfer_ready sound lexical ready.start (fun loc member =>
      ⟨job.target, List.mem_cons_self, member⟩) (single_layout plain described isSingle)).returns
      (s := t) ⟨planOf_ready unchanged ready checkpoint matching, rfl⟩
  obtain ⟨report, t', ran, isReport⟩ := (transferFiles_succeeds sound).returns ⟨readyNow, sameManifest⟩
  refine ⟨t', (bind_of_ok started).trans (ran.trans ?_), ?_⟩
  · rw [isReport, planOf_report, described.entries.length_eq]
  · have copied := (transferFiles_copies sound.positive (planOf_distinct matching isSingle)
      (fun _ _ _ _ => undisturbed.sparesLoc _) checkpoint.apart).of_ok
        ⟨⟨readyNow.env_eq, fun _ _ member => member.elim⟩, by rw [sameManifest]⟩ ran
    refine (forall₂_members described.entries).imp ?_
    rintro file entry ⟨⟨_, member⟩, source, found, describes⟩
    obtain ⟨loc, content, dest, hash, there⟩ := copied entry member
    obtain rfl : content = source := injective (hash.trans describes.fileHash_eq)
    exact ⟨loc, content, found, dest, there⟩

/-! ### The run on the small tree -/

theorem sample_plain : PlainSource sampleEnv sampleWorld.fs sampleRoot := by
  have files : sourceFiles sampleEnv sampleWorld.fs sampleRoot = [sampleRoot] := by decide +kernel
  intro file member name listed
  rw [files, List.mem_singleton] at member
  have names : listedNames sampleRoot sampleRoot = [⟨[115], by decide⟩] := by decide
  rw [member, names, List.mem_singleton] at listed
  subst listed
  exact ⟨⟨['s'], rfl⟩, by decide⟩

theorem sample_ready : TargetReady sampleWorld sampleJob true (sampleManifest [1])
    (sourceFiles sampleEnv sampleWorld.fs sampleRoot) := by
  refine ⟨by decide +kernel, ⟨[⟨[116], by decide⟩], by decide +kernel⟩, by decide +kernel, ?_⟩
  intro entry member loc dest
  have place : (sampleJob.target.join (.ofString "s")).lexical [] =
      some [⟨[116], by decide⟩, ⟨[115], by decide⟩] := by decide +kernel
  obtain rfl := Option.some.inj (place.symm.trans dest)
  decide +kernel

/-- The run on the small tree is complete. -/
theorem executeLocalTransfer_complete_sample :
    ∃ t', executeLocalTransfer samplePlatform sampleJob sampleTransfer =
        .ok ⟨sourceSize sampleEnv sampleWorld.fs sampleRoot,
          sourceSize sampleEnv sampleWorld.fs sampleRoot, 1, 1⟩ t' ∧
      List.Forall₂ (fun file entry => ∃ loc content, sampleWorld.fs.content file = some content ∧
        destLoc [] sampleJob.target "s" (sampleWorld.fs.content sampleRoot).isSome entry = some loc ∧
        t'.world.fs.content loc = some content)
        (sourceFiles sampleEnv sampleWorld.fs sampleRoot) (sampleManifest [1]).entries := by
  obtain ⟨w', built⟩ := sample_built
  have calm : sampleEnv.Calm := ⟨fun _ _ => rfl, fun _ => rfl⟩
  have single : (sampleWorld.fs.content sampleRoot).isSome = true := by decide +kernel
  exact executeLocalTransfer_complete sampleHash_injective calm
    (fun _ => (by decide : effectiveChunkSize 2 ≤ 1024))
    (by decide +kernel) sample_plain built rfl calm
    ⟨by decide +kernel, fun _ _ => rfl, fun isDir => isDir⟩ (single ▸ sample_ready)
    (fun _ saved => by cases saved) ⟨by decide, by decide +kernel⟩

end SendRs
