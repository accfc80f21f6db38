/-
**A transfer in calm surroundings.**

When no call fails and the source holds what the manifest says, no round gives up, whatever the
resume bits and the old target files are:

* `Plan` is what is to be copied where; `Ready` is what holds of the tree all through the run: the
  sources are in place, no file is where a directory is to be, no directory where a file is to be;
* `InRound` is the invariant of the chunk loop: the target file agrees with the source up to the
  current chunk, and the counter is exact (`transferChunk_copies`);
* `AtRound` is the invariant of the entry loop (`transferEntry_copies`);
* **`transferFiles_succeeds`**: the run returns, and it reports the sum of the file sizes.
-/

import SendRs.Os.Calm
import SendRs.Transfer.Counting
import SendRs.Transfer.Soundness

namespace SendRs

open Effect Pieces

/-- A file that is to be copied: from where, to where, and its bytes. -/
structure Item where
  src : Loc
  parent : Path
  up : Loc
  name : Name
  content : Bytes

namespace Item

/-- The path of the destination. -/
def path (item : Item) : Path := item.parent.join ⟨false, [item.name.bytes]⟩

/-- The location of the destination. -/
def dst (item : Item) : Loc := item.up ++ [item.name]

end Item

/-- A run of `execute_local_transfer`: where it starts, what it copies, and which directories it may
create. -/
structure Plan where
  job : Job
  env : Surroundings
  start : FileSystem
  manifest : TransferManifest
  items : List Item
  dirs : Loc → Prop

namespace Plan

/-- The locations the run writes files to. -/
def files (plan : Plan) (loc : Loc) : Prop :=
  (∃ item ∈ plan.items, item.dst = loc) ∨
    ∃ path, plan.job.checkpoint = some path ∧ path.lexical plan.env.cwd = some loc

/-- The sizes of the files before `idx`. -/
def sizeBefore (plan : Plan) (idx : Nat) : Nat :=
  ((plan.items.take idx).map fun item => item.content.length).sum

/-- The bytes that the bits of the entries from `idx` on promise. -/
def promised (plan : Plan) (platform : Platform) (idx : Nat) : Nat :=
  ((plan.manifest.entries.drop idx).map (doneSizeEntry platform plan.manifest.chunkSize)).sum

/-- The size of the whole transfer. -/
def size (plan : Plan) : Nat := (plan.items.map fun item => item.content.length).sum

end Plan

/-- The path from which an entry is copied. -/
def sourcePath (source : Path) (sourceIsFile : Bool) (relativePath : String) : Path :=
  if sourceIsFile then source else source.join (.ofString relativePath)

/-- The entry describes the item, and its paths lead where the item says. -/
structure Item.Matches (platform : Platform) (plan : Plan) (single sourceIsFile : Bool) (item : Item)
    (entry : ManifestEntry) : Prop where
  size_eq : entry.size = item.content.length
  fileHash_eq : entry.fileHash = platform.blake3 item.content
  chunkHashes_eq :
    entry.chunkHashes = (pieces plan.manifest.chunkSize item.content).map platform.blake3
  dest_eq :
    destFilePath plan.job.target plan.manifest.rootName single entry.relativePath = item.path
  source_leads : plan.start.resolve plan.env.cwd
    (sourcePath plan.job.source sourceIsFile entry.relativePath) = some item.src
  parent_lexical : item.parent.lexical plan.env.cwd = some item.up
  parent_start : plan.start.IsDir (item.parent.start plan.env.cwd)
  passed : ∀ loc ∈ visited (item.parent.start plan.env.cwd) item.parent.pieces, plan.dirs loc

/-- The plan can be carried out. -/
structure Plan.Sound (platform : Platform) (plan : Plan) (single sourceIsFile : Bool) : Prop where
  injective : Function.Injective platform.blake3
  calm : plan.env.Calm
  positive : 0 < plan.manifest.chunkSize
  source : ∃ root, plan.start.resolve plan.env.cwd plan.job.source = some root ∧
    (if sourceIsFile then ∃ item ∈ plan.items, item.src = root else plan.start.IsDir root)
  matching : List.Forall₂ (Item.Matches platform plan single sourceIsFile) plan.items
    plan.manifest.entries
  apart : ∀ loc, plan.files loc → ¬ plan.dirs loc ∧ ∀ item ∈ plan.items, item.src ≠ loc
  checkpoint : ∀ path, plan.job.checkpoint = some path → ∃ loc,
    plan.start.resolve plan.env.cwd path = some loc ∧ plan.start.IsDir loc.dropLast ∧
      ∀ item ∈ plan.items, item.dst ≠ loc
  total : plan.size < 2 ^ 64
  offsets : ∀ item ∈ plan.items, ∀ idx < pieceCount plan.manifest.chunkSize item.content.length,
    idx * plan.manifest.chunkSize < 2 ^ platform.pointerWidth

/-! ### The tree all through the run -/

/-- The sources are in place, and what is to be written can be written. -/
structure Ready (plan : Plan) (w : World) : Prop where
  env_eq : w.env = plan.env
  noFile : ∀ loc, plan.dirs loc → w.fs.content loc = none
  noDir : ∀ loc, plan.files loc → ¬ w.fs.IsDir loc
  stays : ∀ loc, plan.start.IsDir loc → w.fs.IsDir loc
  source : ∀ item ∈ plan.items, w.fs.content item.src = some item.content

section Tree

variable {platform : Platform} {plan : Plan} {single sourceIsFile : Bool} {w w' : World}

/-- Looking changes nothing. -/
theorem Ready.stands (ready : Ready plan w) (stands : Stands w.env w.fs w') : Ready plan w' := by
  obtain ⟨sameEnv, sameFs⟩ := stands
  refine ⟨sameEnv.trans ready.env_eq, ?_, ?_, ?_, ?_⟩ <;> rw [sameFs]
  exacts [ready.noFile, ready.noDir, ready.stays, ready.source]

/-- A path that led somewhere at the start still does. -/
theorem Ready.resolve (ready : Ready plan w) {path : Path} {loc : Loc}
    (leads : plan.start.resolve plan.env.cwd path = some loc) :
    w.fs.resolve w.env.cwd path = some loc := by
  rw [ready.env_eq]
  exact FileSystem.walk_mono ready.stays _ leads

/-- A directory stays one when a file is written. -/
theorem Ready.isDir_wrote (ready : Ready plan w) {loc other : Loc} {content : Bytes}
    (wrote : Wrote w.env w.fs loc content w') (file : plan.files loc) (isDir : w.fs.IsDir other) :
    w'.fs.IsDir other := by
  have different : other ≠ loc := fun same => ready.noDir loc file (same ▸ isDir)
  rw [FileSystem.IsDir, wrote.node_eq other different]
  exact isDir

/-- The source is a file, or it is a directory. -/
theorem Ready.isFile (sound : plan.Sound platform single sourceIsFile) (ready : Ready plan w) :
    Triple (Stands w.env w.fs) (isFile plan.job.source)
      (fun answer w' => answer = sourceIsFile ∧ Stands w.env w.fs w') Never := by
  refine (calm_isFile (ready.env_eq ▸ sound.calm) _).post fun answer w' answered => ⟨?_, answered.2⟩
  obtain ⟨root, leads, kind⟩ := sound.source
  rw [answered.1, ready.resolve leads, Option.bind_some]
  cases sourceIsFile with
  | true =>
    obtain ⟨item, member, rfl⟩ := kind
    rw [ready.source item member]
    rfl
  | false =>
    rw [FileSystem.content, ready.stays root kind]
    rfl

/-- Writing one of the files. -/
theorem Ready.wrote (sound : plan.Sound platform single sourceIsFile) (ready : Ready plan w)
    {loc : Loc} {content : Bytes} (wrote : Wrote w.env w.fs loc content w')
    (file : plan.files loc) : Ready plan w' := by
  have sameContent (other : Loc) (different : other ≠ loc) :
      w'.fs.content other = w.fs.content other := by
    rw [FileSystem.content, wrote.node_eq other different, ← FileSystem.content]
  refine ⟨wrote.env_eq.trans ready.env_eq, fun other dir => ?_, fun other isFile isDir => ?_,
    fun other isDir => ready.isDir_wrote wrote file (ready.stays other isDir), fun item member => ?_⟩
  · rw [sameContent other fun same => (sound.apart loc file).1 (same ▸ dir)]
    exact ready.noFile other dir
  · by_cases same : other = loc
    · have found := wrote.content_eq
      rw [FileSystem.content, ← same, isDir] at found
      cases found
    · refine ready.noDir other isFile ?_
      rw [FileSystem.IsDir, ← wrote.node_eq other same]
      exact isDir
  · rw [sameContent item.src ((sound.apart loc file).2 item member)]
    exact ready.source item member

/-- Creating some of the directories. -/
theorem Ready.grew (sound : plan.Sound platform single sourceIsFile) (ready : Ready plan w)
    {dirs : Loc → Prop} (grew : Grew w.env w.fs dirs w') (planned : ∀ loc, dirs loc → plan.dirs loc) :
    Ready plan w' := by
  refine ⟨grew.env_eq.trans ready.env_eq, fun loc dir => ?_, fun loc file isDir => ?_,
    fun loc isDir => grew.isDir (ready.stays loc isDir), fun item member => ?_⟩
  · rcases grew.node_eq loc with same | ⟨_, _, isNew⟩
    · rw [FileSystem.content, same, ← FileSystem.content]
      exact ready.noFile loc dir
    · rw [FileSystem.content, isNew]
  · rcases grew.node_eq loc with same | ⟨member, _, _⟩
    · exact ready.noDir loc file (same.symm.trans isDir)
    · exact (sound.apart loc file).1 (planned loc member)
  · rcases grew.node_eq item.src with same | ⟨_, absent, _⟩
    · rw [FileSystem.content, same, ← FileSystem.content]
      exact ready.source item member
    · have found := ready.source item member
      rw [FileSystem.content, absent] at found
      cases found

/-- The checkpoint can be written at any time. -/
theorem Ready.checkpoint (sound : plan.Sound platform single sourceIsFile) (ready : Ready plan w)
    {path : Path} (saved : plan.job.checkpoint = some path) :
    ∃ loc, w.fs.resolve w.env.cwd path = some loc ∧ w.fs.Free loc ∧ plan.files loc ∧
      ∀ item ∈ plan.items, item.dst ≠ loc := by
  obtain ⟨loc, leads, parent, apart⟩ := sound.checkpoint path saved
  have file : plan.files loc := Or.inr ⟨path, saved, FileSystem.lexical_of_resolve leads⟩
  exact ⟨loc, ready.resolve leads, ⟨ready.stays _ parent, ready.noDir loc file⟩, file, apart⟩

end Tree

/-! ### Sizes -/

section Sizes

variable {platform : Platform} {plan : Plan} {single sourceIsFile : Bool}

/-- What comes before an item, the item, and what comes after it. -/
theorem Plan.size_split {idx : Nat} {item : Item} (found : plan.items[idx]? = some item) :
    plan.size = plan.sizeBefore idx + item.content.length +
      ((plan.items.drop (idx + 1)).map fun item => item.content.length).sum := by
  obtain ⟨inside, rfl⟩ := List.getElem?_eq_some_iff.mp found
  have cut : plan.items = plan.items.take idx ++ plan.items[idx] :: plan.items.drop (idx + 1) := by
    rw [← List.drop_eq_getElem_cons inside, List.take_append_drop]
  calc plan.size = ((plan.items.take idx ++ plan.items[idx] :: plan.items.drop (idx + 1)).map
        fun item => item.content.length).sum := by rw [← cut, Plan.size]
    _ = _ := by
      rw [List.map_append, List.sum_append, List.map_cons, List.sum_cons, Plan.sizeBefore,
        Nat.add_assoc]

theorem Plan.sizeBefore_succ {idx : Nat} {item : Item} (found : plan.items[idx]? = some item) :
    plan.sizeBefore (idx + 1) = plan.sizeBefore idx + item.content.length := by
  obtain ⟨inside, rfl⟩ := List.getElem?_eq_some_iff.mp found
  rw [Plan.sizeBefore, List.take_succ_eq_append_getElem inside, List.map_append, List.sum_append]
  rfl

/-- A single file fits if the whole transfer does. -/
theorem Plan.Sound.length_lt (sound : plan.Sound platform single sourceIsFile) {item : Item}
    (member : item ∈ plan.items) : item.content.length < 2 ^ 64 := by
  obtain ⟨idx, found⟩ := List.getElem?_of_mem member
  have total := sound.total
  rw [Plan.size_split found] at total
  omega

/-- The entries have the sizes of the files. -/
theorem sizes_eq (matching : List.Forall₂ (Item.Matches platform plan single sourceIsFile) plan.items
    plan.manifest.entries) : plan.manifest.entries.map ManifestEntry.size =
      plan.items.map fun item => item.content.length := by
  refine List.forall₂_eq_eq_eq ▸ (?_ : List.Forall₂ Eq _ _)
  rw [List.forall₂_map_left_iff, List.forall₂_map_right_iff]
  exact (matching.imp fun _ _ matching => matching.size_eq).flip

/-- The destination of an entry is that of its item. -/
theorem Item.Matches.destLoc_eq {item : Item} {entry : ManifestEntry}
    (matching : item.Matches platform plan single sourceIsFile entry) :
    destLoc plan.env.cwd plan.job.target plan.manifest.rootName single entry = some item.dst := by
  rw [destLoc, matching.dest_eq]
  exact Path.lexical_join_names _ _ [item.name] matching.parent_lexical

theorem Item.Matches.chunkCount_eq {item : Item} {entry : ManifestEntry}
    (matching : item.Matches platform plan single sourceIsFile entry) :
    entry.chunkCount = pieceCount plan.manifest.chunkSize item.content.length := by
  rw [ManifestEntry.chunkCount, matching.chunkHashes_eq, List.length_map, pieces, List.length_map,
    List.length_range]

/-- What the bits of an entry promise, in terms of its item. -/
theorem Plan.Sound.doneSizeEntry_eq (sound : plan.Sound platform single sourceIsFile) {item : Item}
    {entry : ManifestEntry} (member : item ∈ plan.items)
    (matching : item.Matches platform plan single sourceIsFile entry) :
    doneSizeEntry platform plan.manifest.chunkSize entry =
      pendingSize (pieceSize plan.manifest.chunkSize item.content.length) (isChunkDone entry)
        (pieceCount plan.manifest.chunkSize item.content.length) 0 := by
  rw [SendRs.doneSizeEntry_eq (matching.size_eq ▸ sound.length_lt member)
    (matching.chunkCount_eq ▸ sound.offsets item member), matching.size_eq, matching.chunkCount_eq]

/-- The bits promise no more than there is. -/
theorem Plan.Sound.promised_le (sound : plan.Sound platform single sourceIsFile) (idx : Nat) :
    plan.promised platform idx ≤
      ((plan.items.drop idx).map fun item => item.content.length).sum := by
  have each : List.Forall₂ (fun item entry =>
      doneSizeEntry platform plan.manifest.chunkSize entry ≤ item.content.length) plan.items
      plan.manifest.entries := by
    refine (forall₂_members sound.matching).imp fun item entry ⟨⟨member, _⟩, matching⟩ => ?_
    rw [sound.doneSizeEntry_eq member matching]
    exact Nat.le_trans (pendingSize_le _ _ _ (Nat.zero_le _)) (Nat.sub_le _ _)
  unfold Plan.promised
  refine List.Forall₂.sum_le_sum ?_
  rw [List.forall₂_map_left_iff, List.forall₂_map_right_iff]
  exact (List.forall₂_drop idx each).flip

/-- The counter never overflows. -/
theorem Plan.Sound.bound (sound : plan.Sound platform single sourceIsFile) {idx : Nat} {item : Item}
    (found : plan.items[idx]? = some item) :
    plan.sizeBefore idx + item.content.length + plan.promised platform (idx + 1) < 2 ^ 64 := by
  have total := sound.total
  rw [Plan.size_split found] at total
  exact Nat.lt_of_le_of_lt (Nat.add_le_add_left (sound.promised_le (idx + 1)) _) total

end Sizes

/-! ### Calls from within a transfer -/

theorem calm_sys {α : Type} {prog : Sys α} {before : Transfer → Prop} {after : α → Transfer → Prop}
    {failed : Error → Transfer → Prop}
    (spec : ∀ t, before t → Triple (Stands t.world.env t.world.fs) prog
      (fun a w => after a { t with world := w }) Never) : Triple before (sys prog) after failed :=
  Triple.zoom fun t start => (spec t start).conseq (fun _ same => same ▸ ⟨rfl, rfl⟩)
    (fun _ _ holds => holds) fun _ _ impossible => impossible.elim

/-! ### The chunk loop -/

/-- Within the round of entry `idx`: the target file agrees with the source on `copied` chunks,
`counted` of them are counted, and so are the bits of the chunks from `seen` on. -/
structure InRound (platform : Platform) (plan : Plan) (idx : Nat) (item : Item)
    (copied counted seen : Nat) (t : Transfer) : Prop where
  ready : Ready plan t.world
  bare_eq : t.manifest.bare = plan.manifest.bare
  later : t.manifest.entries.drop (idx + 1) = plan.manifest.entries.drop (idx + 1)
  leads : t.world.fs.resolve t.world.env.cwd item.path = some item.dst
  agree : ∃ content, t.world.fs.content item.dst = some content ∧
    content.length = item.content.length ∧
    content.take (copied * plan.manifest.chunkSize) =
      item.content.take (copied * plan.manifest.chunkSize)
  files_eq : t.filesCompleted = idx
  bytes_eq : ∃ entry, t.manifest.entries[idx]? = some entry ∧
    t.bytesDone = plan.sizeBefore idx +
      min (counted * plan.manifest.chunkSize) item.content.length +
      pendingSize (pieceSize plan.manifest.chunkSize item.content.length) (isChunkDone entry)
        (pieceCount plan.manifest.chunkSize item.content.length) seen +
      plan.promised platform (idx + 1)

section Chunks

variable {platform : Platform} {plan : Plan} {single sourceIsFile : Bool} {idx : Nat} {item : Item}
  {copied counted seen bytesTotal : Nat} {file : OpenEntry}

/-- The window that is read for a chunk is the piece. -/
theorem piece_eq_take {content : Bytes} {chunkSize length : Nat} (same : content.length = length)
    (k : Nat) : (content.drop (k * chunkSize)).take (pieceSize chunkSize length k) =
      piece chunkSize content k := by
  rw [piece, pieceSize, Nat.min_comm, ← same, ← List.length_drop, ← List.take_take, List.take_length]

theorem drop_modify_succ {α : Type} (l : List α) (idx : Nat) (f : α → α) :
    (l.modify idx f).drop (idx + 1) = l.drop (idx + 1) := by
  apply List.ext_getElem?
  intro i
  rw [List.getElem?_drop, List.getElem?_drop, List.getElem?_modify]
  cases l[idx + 1 + i]? with
  | none => rfl
  | some a => simp only [Option.map_eq_map, Option.map_some]; rw [if_neg (by omega)]

/-- The invariant does not look at the events. -/
theorem InRound.event {t : Transfer} (round : InRound platform plan idx item copied counted seen t)
    (events : List ProgressEvent) :
    InRound platform plan idx item copied counted seen { t with events } :=
  ⟨round.ready, round.bare_eq, round.later, round.leads, round.agree, round.files_eq, round.bytes_eq⟩

/-- Looking changes nothing. -/
theorem InRound.stands {t : Transfer} (round : InRound platform plan idx item copied counted seen t)
    {w : World} (stands : Stands t.world.env t.world.fs w) :
    InRound platform plan idx item copied counted seen { t with world := w } := by
  have ready := round.ready.stands stands
  obtain ⟨sameEnv, sameFs⟩ := stands
  refine ⟨ready, round.bare_eq, round.later, ?_, ?_, round.files_eq, round.bytes_eq⟩
  · show w.fs.resolve w.env.cwd item.path = _
    rw [sameEnv, sameFs]
    exact round.leads
  · show ∃ content, w.fs.content item.dst = some content ∧ _
    rw [sameFs]
    exact round.agree

/-- Writing another of the files, such as the checkpoint. -/
theorem InRound.wroteElsewhere (sound : plan.Sound platform single sourceIsFile) {t : Transfer}
    (round : InRound platform plan idx item copied counted seen t) {loc : Loc} {content : Bytes} {w : World}
    (wrote : Wrote t.world.env t.world.fs loc content w) (written : plan.files loc)
    (different : item.dst ≠ loc) :
    InRound platform plan idx item copied counted seen { t with world := w } := by
  refine ⟨round.ready.wrote sound wrote written, round.bare_eq, round.later, ?_, ?_,
    round.files_eq, round.bytes_eq⟩
  · show w.fs.resolve w.env.cwd item.path = _
    rw [wrote.env_eq]
    exact FileSystem.walk_mono (fun _ isDir => round.ready.isDir_wrote wrote written isDir) _
      round.leads
  · obtain ⟨current, found, facts⟩ := round.agree
    refine ⟨current, ?_, facts⟩
    show w.fs.content item.dst = _
    rw [FileSystem.content, wrote.node_eq _ different, ← FileSystem.content]
    exact found

/-- A checkpoint leaves the invariant alone. -/
theorem saveCheckpoint_inRound (sound : plan.Sound platform single sourceIsFile)
    (member : item ∈ plan.items) :
    Triple (InRound platform plan idx item copied counted seen) (saveCheckpoint platform plan.job)
      (fun _ => InRound platform plan idx item copied counted seen) Never := by
  refine Triple.bind (M := fun _ => InRound platform plan idx item copied counted seen)
    (Triple.observe fun _ round => round) fun manifest => ?_
  cases saved : plan.job.checkpoint with
  | none => exact Triple.pure fun _ round => round
  | some path =>
    refine calm_sys fun t round => ?_
    obtain ⟨loc, leads, free, written, apart⟩ := round.ready.checkpoint sound saved
    refine Triple.context ((calm_fsWrite (round.ready.env_eq ▸ sound.calm) leads free _).post ?_)
    exact fun _ w wrote => round.wroteElsewhere sound wrote written (apart item member)

/-- Reading the current chunk of the target, and comparing its hash, is comparing the bytes. -/
theorem verifyChunkAt_inRound (sound : plan.Sound platform single sourceIsFile)
    (inside : copied < pieceCount plan.manifest.chunkSize item.content.length) :
    Triple (InRound platform plan idx item copied counted seen)
      (sys (verifyChunkAt platform item.dst (copied * plan.manifest.chunkSize)
        (pieceSize plan.manifest.chunkSize item.content.length copied)
        (platform.blake3 (piece plan.manifest.chunkSize item.content copied))))
      (fun intact t => InRound platform plan idx item copied counted seen t ∧
        (intact = true → ∃ content, t.world.fs.content item.dst = some content ∧
          piece plan.manifest.chunkSize content copied =
            piece plan.manifest.chunkSize item.content copied)) Never := by
  refine calm_sys fun t round => ?_
  obtain ⟨content, found, sameLength, _⟩ := round.agree
  have calm : t.world.env.Calm := round.ready.env_eq ▸ sound.calm
  have bound := mul_lt_of_lt_pieceCount inside
  have reach : copied * plan.manifest.chunkSize +
      pieceSize plan.manifest.chunkSize item.content.length copied ≤ content.length := by
    unfold pieceSize
    omega
  refine Triple.bind (Triple.context (calm_seek calm)) fun _ => ?_
  refine Triple.bind (Triple.context (calm_readExact calm found reach)) fun buf => ?_
  refine Triple.given fun isBuf => Triple.pure fun w stands => ?_
  refine ⟨round.stands stands, fun intact => ⟨content, ?_, ?_⟩⟩
  · show w.fs.content item.dst = _
    rw [stands.fs_eq]
    exact found
  · have samePiece := sound.injective (beq_iff_eq.mp intact)
    rw [← samePiece, isBuf]
    exact (piece_eq_take sameLength copied).symm

/-- A write to the target of the round. -/
theorem InRound.wroteTarget (sound : plan.Sound platform single sourceIsFile) {t : Transfer}
    (member : item ∈ plan.items)
    (round : InRound platform plan idx item copied counted seen t) {content : Bytes} {w : World}
    (wrote : Wrote t.world.env t.world.fs item.dst content w) {longer : Nat}
    (sameLength : content.length = item.content.length)
    (agree : content.take (longer * plan.manifest.chunkSize) =
      item.content.take (longer * plan.manifest.chunkSize)) :
    InRound platform plan idx item longer counted seen { t with world := w } := by
  have written : plan.files item.dst := Or.inl ⟨item, member, rfl⟩
  refine ⟨round.ready.wrote sound wrote written, round.bare_eq, round.later, ?_,
    ⟨content, wrote.content_eq, sameLength, agree⟩, round.files_eq, round.bytes_eq⟩
  show w.fs.resolve w.env.cwd item.path = _
  rw [wrote.env_eq]
  exact FileSystem.walk_mono (fun _ isDir => round.ready.isDir_wrote wrote written isDir) _
    round.leads

/-- Copying a window of the source whose hash is as expected. -/
theorem calm_copyChunk {env : Surroundings} {fs : FileSystem} (calm : env.Calm) {src dst : Loc}
    {source content : Bytes} {offset len : Nat} (foundSource : fs.content src = some source)
    (foundTarget : fs.content dst = some content) (inside : offset + len ≤ source.length)
    {expected : String} (hash : platform.blake3 ((source.drop offset).take len) = expected) :
    Triple (Stands env fs) (copyChunk platform src dst offset len expected)
      (fun _ => Wrote env fs dst (patch 0 content offset ((source.drop offset).take len))) Never := by
  refine Triple.bind (Triple.context (calm_seek calm)) fun _ => ?_
  refine Triple.bind (Triple.context (calm_readExact calm foundSource inside)) fun buf => ?_
  refine Triple.given fun isBuf => ?_
  subst isBuf
  refine Triple.ite (fun mismatch => absurd hash mismatch) fun _ => ?_
  exact Triple.bind (Triple.context (calm_seek calm)) fun _ =>
    Triple.context (calm_writeAll calm foundTarget _ _)

/-- **The first attempt to copy a chunk succeeds.** -/
theorem copyChunk_inRound (sound : plan.Sound platform single sourceIsFile)
    (member : item ∈ plan.items)
    (inside : copied < pieceCount plan.manifest.chunkSize item.content.length) :
    Triple (InRound platform plan idx item copied counted seen)
      (sys (attempt (copyChunk platform item.src item.dst (copied * plan.manifest.chunkSize)
        (pieceSize plan.manifest.chunkSize item.content.length copied)
        (platform.blake3 (piece plan.manifest.chunkSize item.content copied)))))
      (fun outcome t => outcome = .ok () ∧
        InRound platform plan idx item (copied + 1) counted seen t) Never := by
  refine calm_sys fun t round => ?_
  obtain ⟨content, found, sameLength, agree⟩ := round.agree
  have calm : t.world.env.Calm := round.ready.env_eq ▸ sound.calm
  have bound := mul_lt_of_lt_pieceCount inside
  have reach : copied * plan.manifest.chunkSize +
      pieceSize plan.manifest.chunkSize item.content.length copied ≤ item.content.length := by
    unfold pieceSize
    omega
  have same : (item.content.drop (copied * plan.manifest.chunkSize)).take
      (pieceSize plan.manifest.chunkSize item.content.length copied) =
      piece plan.manifest.chunkSize item.content copied := piece_eq_take rfl copied
  refine (Triple.attempt_never (calm_copyChunk calm (round.ready.source item member) found reach
    (congrArg platform.blake3 same))).post ?_
  rintro outcome w ⟨_, isOk, wrote⟩
  rw [same] at wrote
  refine ⟨isOk, round.wroteTarget sound member wrote ?_ ?_⟩
  · rw [length_patch, sameLength]
    rw [length_piece, sameLength]
    omega
  · exact take_patch_piece (Nat.le_of_lt bound) sameLength agree

/-- Changing bits of the current entry that are not counted any more. -/
theorem modifyEntry_inRound {f : ManifestEntry → ManifestEntry}
    (bare : ∀ entry, (f entry).bare = entry.bare)
    (later : ∀ entry j, seen ≤ j → isChunkDone entry j = isChunkDone (f entry) j) :
    Triple (InRound platform plan idx item copied counted seen) (modifyEntry idx f)
      (fun _ => InRound platform plan idx item copied counted seen) Never := by
  refine Triple.update fun t round => ⟨round.ready, ?_, ?_, round.leads, round.agree,
    round.files_eq, ?_⟩
  · rw [← round.bare_eq]
    show ({ t.manifest with entries := (t.manifest.entries.modify idx f).map ManifestEntry.bare } :
      TransferManifest) = t.manifest.bare
    rw [map_modify_of_same bare]
    rfl
  · rw [← round.later]
    exact drop_modify_succ _ idx f
  · obtain ⟨entry, found, bytes⟩ := round.bytes_eq
    refine ⟨f entry, ?_, ?_⟩
    · show (t.manifest.entries.modify idx f)[idx]? = _
      rw [List.getElem?_modify, found]
      simp
    · rw [← pendingSize_congr (later entry)]
      exact bytes

/-- **A chunk that was copied is counted.** -/
theorem chunkCopied_inRound (sound : plan.Sound platform single sourceIsFile)
    (found : plan.items[idx]? = some item) (sameIdx : file.idx = idx)
    (inside : copied < pieceCount plan.manifest.chunkSize item.content.length) :
    Triple (InRound platform plan idx item (copied + 1) copied (copied + 1))
      (chunkCopied platform plan.job bytesTotal file copied
        (pieceSize plan.manifest.chunkSize item.content.length copied))
      (fun _ => InRound platform plan idx item (copied + 1) (copied + 1) (copied + 1)) Never := by
  subst sameIdx
  have member := List.mem_of_getElem? found
  refine Triple.bind (modifyEntry_inRound (bare_markChunkDone · copied) fun entry j later => ?_)
    fun _ => ?_
  · exact (getBitmap_setBitmap_ne entry.resumeBitmap (Nat.ne_of_lt later) true).symm
  · refine Triple.bind (M := fun _ => InRound platform plan file.idx item (copied + 1) (copied + 1)
      (copied + 1)) (Triple.update fun t round => ?_) fun _ => ?_
    · obtain ⟨entry, there, bytes⟩ := round.bytes_eq
      refine ⟨round.ready, round.bare_eq, round.later, round.leads, round.agree, round.files_eq,
        entry, there, ?_⟩
      have bound := sound.bound found
      have longer := min_add_pieceSize plan.manifest.chunkSize item.content.length copied
      have left := pendingSize_le plan.manifest.chunkSize item.content.length (isChunkDone entry)
        (k := copied + 1) inside
      show (t.bytesDone + _) % 2 ^ 64 = _
      rw [Nat.mod_eq_of_lt] <;> omega
    · refine Triple.bind (saveCheckpoint_inRound sound member) fun _ => ?_
      exact Triple.update fun t round => round.event _

/-- A chunk that is not counted is copied, and then it is. -/
theorem copyWithRetries_inRound (sound : plan.Sound platform single sourceIsFile)
    (found : plan.items[idx]? = some item) (sameIdx : file.idx = idx) (sameSrc : file.src = item.src)
    (sameDst : file.dst = item.dst)
    (inside : copied < pieceCount plan.manifest.chunkSize item.content.length) (bytesTotal : Nat) :
    Triple (InRound platform plan idx item copied copied (copied + 1))
      (copyWithRetries platform plan.job bytesTotal file copied (copied * plan.manifest.chunkSize)
        (pieceSize plan.manifest.chunkSize item.content.length copied)
        (platform.blake3 (piece plan.manifest.chunkSize item.content copied)))
      (fun _ => InRound platform plan idx item (copied + 1) (copied + 1) (copied + 1)) Never := by
  have member := List.mem_of_getElem? found
  obtain ⟨attempts, least⟩ : ∃ attempts, max plan.job.maxRetries 1 = attempts + 1 :=
    ⟨max plan.job.maxRetries 1 - 1, by omega⟩
  refine Triple.bind (M := fun lastError t => lastError = none ∧
    InRound platform plan idx item (copied + 1) (copied + 1) (copied + 1) t) ?_ fun lastError => ?_
  · rw [least, copyAttempts, sameSrc, sameDst]
    refine Triple.bind (copyChunk_inRound sound member inside) fun outcome => ?_
    refine Triple.given fun isOk => ?_
    subst isOk
    exact Triple.bind (chunkCopied_inRound sound found sameIdx inside) fun _ =>
      Triple.pure fun _ round => ⟨rfl, round⟩
  · refine Triple.given fun noError => ?_
    subst noError
    exact Triple.pure fun _ round => round

/-- A bit that is set counts its chunk. -/
theorem InRound.bit_set {t : Transfer} (round : InRound platform plan idx item copied copied copied t)
    (inside : copied < pieceCount plan.manifest.chunkSize item.content.length)
    (isSet : t.manifest.entries[idx]?.map (isChunkDone · copied) = some true) :
    InRound platform plan idx item copied (copied + 1) (copied + 1) t := by
  obtain ⟨entry, there, bytes⟩ := round.bytes_eq
  refine ⟨round.ready, round.bare_eq, round.later, round.leads, round.agree, round.files_eq, entry,
    there, ?_⟩
  rw [there] at isSet
  rw [pendingSize_step inside, if_pos (Option.some.inj isSet)] at bytes
  rw [bytes, ← min_add_pieceSize]
  omega

/-- A bit that is clear counts nothing. -/
theorem InRound.bit_clear {t : Transfer}
    (round : InRound platform plan idx item copied copied copied t)
    (inside : copied < pieceCount plan.manifest.chunkSize item.content.length)
    (isClear : t.manifest.entries[idx]?.map (isChunkDone · copied) ≠ some true) :
    InRound platform plan idx item copied copied (copied + 1) t := by
  obtain ⟨entry, there, bytes⟩ := round.bytes_eq
  refine ⟨round.ready, round.bare_eq, round.later, round.leads, round.agree, round.files_eq, entry,
    there, ?_⟩
  rw [there] at isClear
  have clear : ¬ isChunkDone entry copied = true := fun set => isClear (congrArg some set)
  rwa [pendingSize_step inside, if_neg clear, Nat.zero_add] at bytes

/-- A chunk that is already in the target need not be copied. -/
theorem InRound.intact {t : Transfer}
    (round : InRound platform plan idx item copied counted seen t) {content : Bytes}
    (found : t.world.fs.content item.dst = some content)
    (same : piece plan.manifest.chunkSize content copied =
      piece plan.manifest.chunkSize item.content copied) :
    InRound platform plan idx item (copied + 1) counted seen t := by
  obtain ⟨content', found', sameLength, agree⟩ := round.agree
  obtain rfl : content' = content := Option.some.inj (found'.symm.trans found)
  exact ⟨round.ready, round.bare_eq, round.later, round.leads,
    ⟨content', found, sameLength, take_succ_mul_congr agree same⟩, round.files_eq, round.bytes_eq⟩

/-- A chunk whose bit was wrong is not counted any more. -/
theorem subBytesDone_inRound :
    Triple (InRound platform plan idx item copied (copied + 1) seen)
      (subBytesDone (pieceSize plan.manifest.chunkSize item.content.length copied))
      (fun _ => InRound platform plan idx item copied copied seen) Never := by
  refine Triple.update fun t round => ?_
  obtain ⟨entry, there, bytes⟩ := round.bytes_eq
  refine ⟨round.ready, round.bare_eq, round.later, round.leads, round.agree, round.files_eq, entry,
    there, ?_⟩
  rw [← min_add_pieceSize] at bytes
  show t.bytesDone - _ = _
  omega

/-- **One round of the chunk loop.** -/
theorem transferChunk_copies (sound : plan.Sound platform single sourceIsFile)
    (found : plan.items[idx]? = some item) (sameIdx : file.idx = idx) (sameSrc : file.src = item.src)
    (sameDst : file.dst = item.dst) (sameSize : file.entry.size = item.content.length)
    (inside : copied < pieceCount plan.manifest.chunkSize item.content.length) :
    Triple (InRound platform plan idx item copied copied copied)
      (transferChunk platform plan.job bytesTotal plan.manifest.chunkSize file
        (platform.blake3 (piece plan.manifest.chunkSize item.content copied), copied))
      (fun _ => InRound platform plan idx item (copied + 1) (copied + 1) (copied + 1)) Never := by
  have fits := sound.offsets item (List.mem_of_getElem? found) copied inside
  have copies := copyWithRetries_inRound sound found sameIdx sameSrc sameDst inside bytesTotal
  unfold transferChunk
  rw [chunkLen_eq fits, sameSize, chunkOffset, Nat.mod_eq_of_lt fits, sameIdx, sameDst]
  refine Triple.ite (fun empty => ?_) fun _ => ?_
  · have bound := mul_lt_of_lt_pieceCount inside
    have positive := sound.positive
    unfold pieceSize at empty
    omega
  refine Triple.bind (M := fun current t => current = t.manifest.entries[idx]? ∧
    InRound platform plan idx item copied copied copied t)
    (Triple.observe fun _ round => ⟨rfl, round⟩) fun current => ?_
  refine Triple.ite (fun isSet => ?_) fun isClear => copies.pre ?_
  · have verified : Triple (InRound platform plan idx item copied (copied + 1) (copied + 1)) _ _
      Never := verifyChunkAt_inRound sound inside
    refine Triple.bind (verified.pre ?_) fun intact => ?_
    · rintro t ⟨same, round⟩
      exact round.bit_set inside (same ▸ isSet)
    refine Triple.ite (fun yes => Triple.pure fun t verified => ?_) fun _ => ?_
    · obtain ⟨round, kept⟩ := verified
      obtain ⟨content, there, same⟩ := kept yes
      exact round.intact there same
    · refine Triple.pre (Triple.bind (modifyEntry_inRound (bare_clearChunkDone · copied)
        fun entry j later => ?_) fun _ => Triple.bind subBytesDone_inRound fun _ => copies)
        fun _ holds => holds.1
      exact (getBitmap_setBitmap_ne entry.resumeBitmap (Nat.ne_of_lt later) false).symm
  · rintro t ⟨same, round⟩
    exact round.bit_clear inside (same ▸ isClear)

/-- The chunk loop. -/
theorem chunkLoop_copies (sound : plan.Sound platform single sourceIsFile)
    (found : plan.items[idx]? = some item) (sameIdx : file.idx = idx) (sameSrc : file.src = item.src)
    (sameDst : file.dst = item.dst) (sameSize : file.entry.size = item.content.length) :
    Triple (InRound platform plan idx item 0 0 0)
      (((pieces plan.manifest.chunkSize item.content).map platform.blake3).zipIdx.forM
        (transferChunk platform plan.job bytesTotal plan.manifest.chunkSize file))
      (fun _ t => ∃ n, n = pieceCount plan.manifest.chunkSize item.content.length ∧
        InRound platform plan idx item n n n t) Never := by
  have count : ((pieces plan.manifest.chunkSize item.content).map platform.blake3).zipIdx.length =
      pieceCount plan.manifest.chunkSize item.content.length := by
    rw [List.length_zipIdx, List.length_map, pieces, List.length_map, List.length_range]
  refine (Triple.forM (fun k => InRound platform plan idx item k k k) fun k inside => ?_).post
    fun _ t round => ⟨_, count, round⟩
  have within : k < pieceCount plan.manifest.chunkSize item.content.length := count ▸ inside
  have chunk : ((pieces plan.manifest.chunkSize item.content).map platform.blake3).zipIdx[k] =
      (platform.blake3 (piece plan.manifest.chunkSize item.content k), k) := by
    rw [List.getElem_zipIdx, List.getElem_map]
    simp only [pieces, List.getElem_map, List.getElem_range, Nat.zero_add]
  rw [chunk]
  exact transferChunk_copies sound found sameIdx sameSrc sameDst sameSize within

end Chunks

/-! ### The entry loop -/

/-- Before the round of entry `idx`: the files before it are counted, and so are the bits of the
entries from it on. -/
structure AtRound (platform : Platform) (plan : Plan) (idx : Nat) (t : Transfer) : Prop where
  ready : Ready plan t.world
  bare_eq : t.manifest.bare = plan.manifest.bare
  left : t.manifest.entries.drop idx = plan.manifest.entries.drop idx
  files_eq : t.filesCompleted = idx
  bytes_eq : t.bytesDone = plan.sizeBefore idx + plan.promised platform idx

/-- Before the round of `item`, with the parent directory of its destination in place. -/
structure Placed (platform : Platform) (plan : Plan) (idx : Nat) (item : Item) (t : Transfer) :
    Prop where
  atRound : AtRound platform plan idx t
  leads : t.world.fs.resolve t.world.env.cwd item.path = some item.dst
  parent : t.world.fs.IsDir item.up

section Entries

variable {platform : Platform} {plan : Plan} {single sourceIsFile : Bool} {idx : Nat} {item : Item}
  {entry : ManifestEntry} {bytesTotal : Nat}

theorem AtRound.stands {t : Transfer} (round : AtRound platform plan idx t) {w : World}
    (stands : Stands t.world.env t.world.fs w) : AtRound platform plan idx { t with world := w } :=
  ⟨round.ready.stands stands, round.bare_eq, round.left, round.files_eq, round.bytes_eq⟩

theorem Placed.stands {t : Transfer} (placed : Placed platform plan idx item t) {w : World}
    (stands : Stands t.world.env t.world.fs w) : Placed platform plan idx item { t with world := w } := by
  refine ⟨placed.atRound.stands stands, ?_, ?_⟩
  · show w.fs.resolve w.env.cwd item.path = _
    rw [stands.env_eq, stands.fs_eq]
    exact placed.leads
  · show w.fs.IsDir item.up
    rw [stands.fs_eq]
    exact placed.parent

/-- Writing the destination of the item. -/
theorem Placed.wrote (sound : plan.Sound platform single sourceIsFile) (member : item ∈ plan.items)
    {t : Transfer} (placed : Placed platform plan idx item t) {content : Bytes} {w : World}
    (wrote : Wrote t.world.env t.world.fs item.dst content w) :
    Placed platform plan idx item { t with world := w } := by
  have written : plan.files item.dst := Or.inl ⟨item, member, rfl⟩
  have ready := placed.atRound.ready
  have dirs (loc : Loc) (isDir : t.world.fs.IsDir loc) : w.fs.IsDir loc :=
    ready.isDir_wrote wrote written isDir
  refine ⟨⟨ready.wrote sound wrote written, placed.atRound.bare_eq, placed.atRound.left,
    placed.atRound.files_eq, placed.atRound.bytes_eq⟩, ?_, dirs _ placed.parent⟩
  show w.fs.resolve w.env.cwd item.path = _
  rw [wrote.env_eq]
  exact FileSystem.walk_mono dirs _ placed.leads

/-- The source is a file all through the run, or a directory. -/
theorem isFile_atRound (sound : plan.Sound platform single sourceIsFile) :
    Triple (AtRound platform plan idx) (sys (isFile plan.job.source))
      (fun answer t => answer = sourceIsFile ∧ AtRound platform plan idx t) Never :=
  calm_sys fun _ round => (round.ready.isFile sound).post fun _ _ answered =>
    ⟨answered.1, round.stands answered.2⟩

/-- The directories of a destination are created. -/
theorem createParent_placed (sound : plan.Sound platform single sourceIsFile)
    (matching : item.Matches platform plan single sourceIsFile entry) :
    Triple (AtRound platform plan idx) (sys (createParent item.path))
      (fun _ => Placed platform plan idx item) Never := by
  refine calm_sys fun t round => ?_
  have sameEnv := round.ready.env_eq
  rw [createParent, show item.path.parent = some item.parent from Path.parent_append_name _ _ _]
  have lexical : item.parent.lexical t.world.env.cwd = some item.up := sameEnv ▸ matching.parent_lexical
  refine Triple.context ((calm_createDirAll (sameEnv ▸ sound.calm) lexical
    (round.ready.stays _ (sameEnv ▸ matching.parent_start)) fun loc member => ?_).post ?_)
  · exact round.ready.noFile loc (matching.passed loc (sameEnv ▸ member))
  · rintro _ w ⟨grew, leads, isDir⟩
    have ready := round.ready.grew sound grew fun loc member => matching.passed loc (sameEnv ▸ member)
    refine ⟨⟨ready, round.bare_eq, round.left, round.files_eq, round.bytes_eq⟩, ?_, isDir⟩
    show w.fs.walk (item.parent.start w.env.cwd) (item.parent.pieces ++ [item.name.bytes]) = _
    rw [grew.env_eq, FileSystem.walk_append]
    unfold FileSystem.resolve at leads
    rw [leads, Option.bind_some, FileSystem.walk, if_pos isDir, Loc.step_bytes]
    rfl

/-- The source of an item is opened. -/
theorem openRead_placed (sound : plan.Sound platform single sourceIsFile)
    (member : item ∈ plan.items) {message : String}
    (matching : item.Matches platform plan single sourceIsFile entry) :
    Triple (Placed platform plan idx item)
      (sys (withContext message (openRead (sourcePath plan.job.source sourceIsFile
        entry.relativePath))))
      (fun opened t => opened = item.src ∧ Placed platform plan idx item t) Never := by
  refine calm_sys fun t placed => ?_
  have ready := placed.atRound.ready
  obtain ⟨modified, found⟩ := FileSystem.content_eq_some.mp (ready.source item member)
  exact Triple.context ((calm_openRead (ready.env_eq ▸ sound.calm)
    (ready.resolve matching.source_leads) found).post fun _ _ opened =>
      ⟨opened.1, placed.stands opened.2⟩)

/-- The destination of an item is opened, or created. -/
theorem openWrite_placed (sound : plan.Sound platform single sourceIsFile)
    (member : item ∈ plan.items) {message : String} :
    Triple (Placed platform plan idx item) (sys (withContext message (openWrite item.path)))
      (fun opened t => opened = item.dst ∧ (∃ content, t.world.fs.content item.dst = some content) ∧
        Placed platform plan idx item t) Never := by
  refine calm_sys fun t placed => ?_
  have ready := placed.atRound.ready
  have free : t.world.fs.Free item.dst := by
    refine ⟨?_, ready.noDir _ (Or.inl ⟨item, member, rfl⟩)⟩
    rw [Item.dst, List.dropLast_concat]
    exact placed.parent
  refine Triple.context ((calm_openWrite (ready.env_eq ▸ sound.calm) placed.leads free).post ?_)
  rintro opened w ⟨same, content, wrote⟩
  exact ⟨same, ⟨content, wrote.content_eq⟩, placed.wrote sound member wrote⟩

/-- Once the destination has its size, the chunk loop can start. -/
theorem setLen_placed (sound : plan.Sound platform single sourceIsFile)
    (found : plan.items[idx]? = some item) (foundEntry : plan.manifest.entries[idx]? = some entry)
    {message : String} (matching : item.Matches platform plan single sourceIsFile entry) :
    Triple (fun t => (∃ content, t.world.fs.content item.dst = some content) ∧
        Placed platform plan idx item t)
      (sys (withContext message (setLen item.dst entry.size)))
      (fun _ => InRound platform plan idx item 0 0 0) Never := by
  have member := List.mem_of_getElem? found
  refine calm_sys fun t ⟨⟨content, there⟩, placed⟩ => ?_
  refine Triple.context ((calm_setLen (placed.atRound.ready.env_eq ▸ sound.calm) there _).post ?_)
  intro _ w wrote
  have still := placed.wrote sound member wrote
  obtain ⟨inside, same⟩ := List.getElem?_eq_some_iff.mp foundEntry
  have heads : t.manifest.entries[idx]? = plan.manifest.entries[idx]? := by
    rw [← List.head?_drop, placed.atRound.left, List.head?_drop]
  refine ⟨still.atRound.ready, still.atRound.bare_eq, ?_, still.leads,
    ⟨_, wrote.content_eq, ?_, ?_⟩, still.atRound.files_eq, entry, heads.trans foundEntry, ?_⟩
  · show t.manifest.entries.drop (idx + 1) = _
    rw [← List.drop_drop, placed.atRound.left, List.drop_drop]
  · rw [List.takeD_length, matching.size_eq]
  · rw [Nat.zero_mul, List.take_zero, List.take_zero]
  · have bytes := placed.atRound.bytes_eq
    rw [Plan.promised, List.drop_eq_getElem_cons inside, same, List.map_cons, List.sum_cons,
      sound.doneSizeEntry_eq member matching, ← Plan.promised] at bytes
    show t.bytesDone = _
    omega

/-- Hashing a file that is there gives the hash of its content. -/
theorem calm_hashFile {env : Surroundings} {fs : FileSystem} (calm : env.Calm) {path : Path}
    {loc : Loc} {content : Bytes} (leads : fs.resolve env.cwd path = some loc)
    (found : fs.content loc = some content) {chunkSize : Nat} (positive : 0 < chunkSize) :
    Triple (Stands env fs) (hashFile platform path chunkSize)
      (fun result w => result.1 = platform.blake3 content ∧ Stands env fs w) Never := by
  obtain ⟨modified, there⟩ := FileSystem.content_eq_some.mp found
  refine Triple.bind (Triple.context (calm_openRead calm leads there)) fun opened => ?_
  refine Triple.given fun same => ?_
  subst same
  refine Triple.bind (stands_observe (a := some content) ?_) fun seen => Triple.given fun isSeen => ?_
  · rintro w ⟨rfl, rfl⟩
    exact found
  · subst isSeen
    refine (hashLoop_spec (calm_call calm) positive _ content [] [] (Nat.lt_succ_self _)).post ?_
    exact fun result w hashed => ⟨hashed.1.1, hashed.2⟩

/-- The whole target file has the hash of the entry. -/
theorem hashFile_inRound (sound : plan.Sound platform single sourceIsFile) {n : Nat}
    (all : n = pieceCount plan.manifest.chunkSize item.content.length) :
    Triple (InRound platform plan idx item n n n)
      (sys (hashFile platform item.path plan.manifest.chunkSize))
      (fun hashes t => hashes.1 = platform.blake3 item.content ∧
        InRound platform plan idx item n n n t) Never := by
  refine calm_sys fun t round => ?_
  obtain ⟨content, found, sameLength, agree⟩ := round.agree
  have reach : item.content.length ≤ n * plan.manifest.chunkSize :=
    all ▸ le_pieceCount_mul sound.positive _
  have same : content = item.content := by
    rwa [List.take_of_length_le reach, List.take_of_length_le (sameLength ▸ reach)] at agree
  refine (calm_hashFile (round.ready.env_eq ▸ sound.calm) round.leads found sound.positive).post ?_
  exact fun hashes w hashed => ⟨same ▸ hashed.1, round.stands hashed.2⟩

/-- **One round of the entry loop.** -/
theorem transferEntry_copies (sound : plan.Sound platform single sourceIsFile)
    (found : plan.items[idx]? = some item) :
    Triple (AtRound platform plan idx)
      (transferEntry platform plan.job single bytesTotal plan.manifest.chunkSize idx)
      (fun _ => AtRound platform plan (idx + 1)) Never := by
  have member := List.mem_of_getElem? found
  obtain ⟨entry, foundEntry, matching⟩ : ∃ entry, plan.manifest.entries[idx]? = some entry ∧
      item.Matches platform plan single sourceIsFile entry := by
    obtain ⟨inside, rfl⟩ := List.getElem?_eq_some_iff.mp found
    have inside' := sound.matching.length_eq ▸ inside
    exact ⟨_, List.getElem?_eq_getElem inside', sound.matching.get inside inside'⟩
  refine Triple.bind (M := fun manifest t => (manifest.entries[idx]? = some entry ∧
    manifest.rootName = plan.manifest.rootName) ∧ AtRound platform plan idx t)
    (Triple.observe fun t round => ⟨⟨?_, ?_⟩, round⟩) fun manifest => ?_
  · rw [← List.head?_drop, round.left, List.head?_drop, foundEntry]
  · exact rootName_bare round.bare_eq
  refine Triple.given fun ⟨there, sameRoot⟩ => ?_
  rw [there]
  refine Triple.bind (isFile_atRound sound) fun answer => Triple.given fun isAnswer => ?_
  subst isAnswer
  rw [sameRoot, matching.dest_eq]
  refine Triple.bind (createParent_placed sound matching) fun _ => ?_
  refine Triple.bind (openRead_placed sound member matching) fun src => Triple.given fun sameSrc => ?_
  refine Triple.bind (openWrite_placed sound member) fun dst => Triple.given fun sameDst => ?_
  subst sameSrc sameDst
  refine Triple.bind (setLen_placed sound found foundEntry matching) fun _ => ?_
  rw [matching.chunkHashes_eq]
  refine Triple.bind (chunkLoop_copies sound found rfl rfl rfl matching.size_eq) fun _ => ?_
  refine Triple.exists_pre fun n => Triple.given fun all => ?_
  refine Triple.bind (hashFile_inRound sound all) fun hashes => Triple.given fun hash => ?_
  refine Triple.ite (fun mismatch => absurd (hash.trans matching.fileHash_eq.symm) mismatch) fun _ =>
    Triple.update fun t round => ?_
  obtain ⟨current, _, bytes⟩ := round.bytes_eq
  refine ⟨round.ready, round.bare_eq, round.later, congrArg (· + 1) round.files_eq, ?_⟩
  have reach : item.content.length ≤ n * plan.manifest.chunkSize :=
    all ▸ le_pieceCount_mul sound.positive _
  rw [all, pendingSize_done, ← all, Nat.min_eq_right reach] at bytes
  rw [Plan.sizeBefore_succ found]
  exact bytes

/-- The checkpoint at the end. -/
theorem saveCheckpoint_atRound (sound : plan.Sound platform single sourceIsFile) :
    Triple (AtRound platform plan idx) (saveCheckpoint platform plan.job)
      (fun _ => AtRound platform plan idx) Never := by
  refine Triple.bind (M := fun _ => AtRound platform plan idx)
    (Triple.observe fun _ round => round) fun manifest => ?_
  cases saved : plan.job.checkpoint with
  | none => exact Triple.pure fun _ round => round
  | some path =>
    refine calm_sys fun t round => ?_
    obtain ⟨loc, leads, free, written, _⟩ := round.ready.checkpoint sound saved
    refine Triple.context ((calm_fsWrite (round.ready.env_eq ▸ sound.calm) leads free _).post ?_)
    exact fun _ w wrote => ⟨round.ready.wrote sound wrote written, round.bare_eq, round.left,
      round.files_eq, round.bytes_eq⟩

/-- The total that is reported is the size of the plan. -/
theorem Plan.Sound.totalSize_eq (sound : plan.Sound platform single sourceIsFile) :
    totalSize plan.manifest = plan.size := by
  rw [totalSize, sizes_eq sound.matching]
  exact sumU64_eq sound.total

/-- Before the first round. -/
theorem Plan.Sound.doneSize_eq (sound : plan.Sound platform single sourceIsFile) :
    doneSize platform plan.manifest = plan.sizeBefore 0 + plan.promised platform 0 := by
  have bound := Nat.lt_of_le_of_lt (sound.promised_le 0) sound.total
  rw [Plan.sizeBefore, List.take_zero, List.map_nil, List.sum_nil, Nat.zero_add]
  exact sumU64_eq bound

/-- The report of a run that has copied everything. -/
def Plan.report (plan : Plan) : TransferReport :=
  ⟨plan.size, plan.size, plan.items.length, plan.items.length⟩

/-- After the last round. -/
theorem AtRound.report_eq (sound : plan.Sound platform single sourceIsFile) {t : Transfer}
    (round : AtRound platform plan plan.manifest.entries.length t) :
    (⟨plan.size, t.bytesDone, t.manifest.entries.length, t.filesCompleted⟩ : TransferReport) =
      plan.report := by
  have count := sound.matching.length_eq
  rw [length_bare round.bare_eq, round.files_eq, round.bytes_eq, Plan.promised, List.drop_length,
    List.map_nil, List.sum_nil, Plan.sizeBefore, ← count, List.take_length]
  rfl

/-- **A sound plan is carried out.** Nothing is assumed of the bits, nor of what is in the files that
are to be written. -/
theorem transferFiles_succeeds (sound : plan.Sound platform single sourceIsFile) :
    Triple (fun t => Ready plan t.world ∧ t.manifest = plan.manifest)
      (transferFiles platform plan.job single) (fun report _ => report = plan.report) Never := by
  refine Triple.bind (M := fun manifest t => manifest = plan.manifest ∧ Ready plan t.world ∧
    t.manifest = plan.manifest) (Triple.observe fun t start => ⟨start.2, start⟩) fun manifest => ?_
  refine Triple.given fun same => ?_
  subst same
  rw [sound.totalSize_eq, sound.doneSize_eq]
  refine Triple.bind (M := fun _ => AtRound platform plan 0) (Triple.update ?_) fun _ => ?_
  · exact fun t ⟨ready, same⟩ => ⟨ready, by rw [same], by rw [same], rfl, rfl⟩
  refine Triple.bind (M := fun _ => AtRound platform plan 0) (Triple.update ?_) fun _ => ?_
  · exact fun t round => ⟨round.ready, round.bare_eq, round.left, round.files_eq, round.bytes_eq⟩
  refine Triple.bind (Triple.forM_range (AtRound platform plan) fun idx inside => ?_) fun _ => ?_
  · have inside' : idx < plan.items.length := sound.matching.length_eq ▸ inside
    exact transferEntry_copies sound (List.getElem?_eq_getElem inside')
  exact Triple.bind (saveCheckpoint_atRound sound) fun _ =>
    Triple.observe fun t round => round.report_eq sound

end Entries

end SendRs
