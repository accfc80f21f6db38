/-
**The resume bitmap all through a run.**

`Truthful` is what holds of the bitmaps while the loops are at a place, whatever fails:

* the bits of the chunks that were left behind are set, and these chunks are in the target with the
  right hash; so are the chunks of `sure` whose bits are set, if they were so before;
* the bits of the chunks that are still ahead are as they were at the call, and so is the rest of
  the manifest;
* the counter of bytes is at most what the set bits stand for.

Each call to the system keeps it as long as it leaves the destinations alone (`OnDestinations.sys`);
a chunk that is copied touches its own window only, and its bit is clear by then (`copyChunk_inFile`).
The watched run collects it at every save and at every report (`watchedTransfer_truthful`).
-/

import SendRs.Transfer.Bitmap

namespace SendRs

open Effect Pieces

/-- The chunk was left behind. -/
def Place.Behind (place : Place) (i k : Nat) : Prop :=
  i < place.entry ∨ i = place.entry ∧ k < place.chunk

/-- The chunk was not reached yet. -/
def Place.Ahead (place : Place) (i k : Nat) : Prop :=
  place.entry < i ∨ i = place.entry ∧ place.chunk + place.begun.toNat ≤ k

/-- What a run needs: chunks that are not empty, destinations that are distinct, not the checkpoint
and nobody else's, offsets that a `usize` can hold, and bitmaps with a bit for each chunk. -/
structure Orderly (platform : Platform) (env : Surroundings) (m : TransferManifest) (job : Job)
    (single : Bool) : Prop where
  positive : 0 < m.chunkSize
  distinct : DistinctDestinations env.cwd job.target single m
  alone : WritesAlone env job.target single m
  apart : CheckpointApart env.cwd job single m
  offsets : ∀ entry ∈ m.entries, ∀ k < entry.chunkCount, k * m.chunkSize < 2 ^ platform.pointerWidth
  bitmaps : ∀ entry ∈ m.entries, ∀ k < entry.chunkCount, k / 8 < entry.resumeBitmap.length

/-- The counter is at most what the set bits stand for, and so are the numbers that were reported if
every bit is sure; `owed` are the bytes that are still counted for a bit that was cleared. -/
structure Counted (platform : Platform) (sure : Nat → Nat → Prop) (owed : Nat) (t : Transfer) :
    Prop where
  now : t.bytesDone ≤ doneBytes platform t.manifest + owed
  events : (∀ i k, sure i k) → ∀ event ∈ t.events,
    event.bytesDone ≤ doneBytes platform t.manifest + owed

/-- The bitmaps tell the truth while the loops are at a place. `m` is the manifest at the call. -/
structure Truthful (platform : Platform) (env : Surroundings) (m : TransferManifest) (job : Job)
    (single : Bool) (sure : Nat → Nat → Prop) (place : Place) (owed : Nat) (t : Transfer) : Prop where
  env_eq : t.world.env = env
  bare_eq : t.manifest.bare = m.bare
  lengths : ∀ (i : Nat) (entry entry' : ManifestEntry), m.entries[i]? = some entry →
    t.manifest.entries[i]? = some entry' → entry'.resumeBitmap.length = entry.resumeBitmap.length
  honest : ∀ (i k : Nat) (entry : ManifestEntry), t.manifest.entries[i]? = some entry →
    k < entry.chunkCount → chunkLen platform entry.size k m.chunkSize ≠ 0 →
    sure i k ∨ place.Behind i k → isChunkDone entry k = true →
      chunkPresent platform t.world.fs env.cwd job.target m.rootName single m.chunkSize entry k = true
  marked : ∀ (i k : Nat) (entry : ManifestEntry), t.manifest.entries[i]? = some entry →
    k < entry.chunkCount → chunkLen platform entry.size k m.chunkSize ≠ 0 → place.Behind i k →
      isChunkDone entry k = true
  kept : ∀ (i k : Nat) (entry entry' : ManifestEntry), m.entries[i]? = some entry →
    t.manifest.entries[i]? = some entry' → place.Ahead i k →
      isChunkDone entry' k = isChunkDone entry k
  counted : Counted platform sure owed t

/-- The open file is the destination of its entry. -/
structure OpenEntry.Valid (env : Surroundings) (m : TransferManifest) (job : Job) (single : Bool)
    (file : OpenEntry) : Prop where
  found : ∃ entry, m.entries[file.idx]? = some entry ∧ entry.bare = file.entry.bare
  dest : destLoc env.cwd job.target m.rootName single file.entry = some file.dst

/-- While the file of an entry is open it has the size of the entry. -/
structure InFile (platform : Platform) (env : Surroundings) (m : TransferManifest) (job : Job)
    (single : Bool) (sure : Nat → Nat → Prop) (file : OpenEntry) (place : Place) (owed : Nat)
    (t : Transfer) : Prop where
  truthful : Truthful platform env m job single sure place owed t
  there : ∃ content, t.world.fs.content file.dst = some content ∧ content.length = file.entry.size

/-- The location is that of a destination. -/
def IsDestination (env : Surroundings) (m : TransferManifest) (job : Job) (single : Bool)
    (loc : Loc) : Prop :=
  ∃ entry ∈ m.entries, destLoc env.cwd job.target m.rootName single entry = some loc

section Run

variable {platform : Platform} {env : Surroundings} {m : TransferManifest} {job : Job}
  {single : Bool} {sure : Nat → Nat → Prop} {file : OpenEntry} {place : Place} {owed : Nat}
  {t : Transfer}

/-! ### The entries of the manifest -/

theorem Truthful.entry (truthful : Truthful platform env m job single sure place owed t) {i : Nat}
    {entry : ManifestEntry} (found : t.manifest.entries[i]? = some entry) :
    ∃ entry', m.entries[i]? = some entry' ∧ entry.bare = entry'.bare :=
  entry_of_bare truthful.bare_eq found

theorem chunkHashes_bare {entry entry' : ManifestEntry} (same : entry.bare = entry'.bare) :
    entry.chunkHashes = entry'.chunkHashes := by
  have hashes : entry.bare.chunkHashes = entry'.bare.chunkHashes := by rw [same]
  exact hashes

theorem chunkCount_bare {entry entry' : ManifestEntry} (same : entry.bare = entry'.bare) :
    entry.chunkCount = entry'.chunkCount := congrArg List.length (chunkHashes_bare same)

theorem size_bare {entry entry' : ManifestEntry} (same : entry.bare = entry'.bare) :
    entry.size = entry'.size := by
  have size : entry.bare.size = entry'.bare.size := by rw [same]
  exact size

theorem Truthful.rootName_eq (truthful : Truthful platform env m job single sure place owed t) :
    t.manifest.rootName = m.rootName := rootName_bare truthful.bare_eq

theorem Truthful.chunkSize_eq (truthful : Truthful platform env m job single sure place owed t) :
    t.manifest.chunkSize = m.chunkSize := chunkSize_bare truthful.bare_eq

/-- The destination of an entry is one of the destinations. -/
theorem Truthful.isDestination (truthful : Truthful platform env m job single sure place owed t)
    {i : Nat} {entry : ManifestEntry} {loc : Loc} (found : t.manifest.entries[i]? = some entry)
    (dest : destLoc env.cwd job.target m.rootName single entry = some loc) :
    IsDestination env m job single loc := by
  obtain ⟨entry', found', same⟩ := truthful.entry found
  exact ⟨entry', List.mem_of_getElem? found', (destLoc_bare same).symm.trans dest⟩

/-- The offsets do not wrap. -/
theorem Truthful.offset_eq (orderly : Orderly platform env m job single)
    (truthful : Truthful platform env m job single sure place owed t) {i k : Nat}
    {entry : ManifestEntry} (found : t.manifest.entries[i]? = some entry)
    (inside : k < entry.chunkCount) : chunkOffset platform k m.chunkSize = k * m.chunkSize := by
  obtain ⟨entry', found', same⟩ := truthful.entry found
  exact Nat.mod_eq_of_lt (orderly.offsets entry' (List.mem_of_getElem? found') k
    (chunkCount_bare same ▸ inside))

/-- The bitmap has a bit for each chunk. -/
theorem Truthful.reach (orderly : Orderly platform env m job single)
    (truthful : Truthful platform env m job single sure place owed t) {i k : Nat}
    {entry : ManifestEntry} (found : t.manifest.entries[i]? = some entry)
    (inside : k < entry.chunkCount) : k / 8 < entry.resumeBitmap.length := by
  obtain ⟨entry', found', same⟩ := truthful.entry found
  rw [truthful.lengths i entry' entry found' found]
  exact orderly.bitmaps entry' (List.mem_of_getElem? found') k (chunkCount_bare same ▸ inside)

/-- The entry of an open file in the manifest of now. -/
theorem OpenEntry.Valid.current (valid : file.Valid env m job single)
    (truthful : Truthful platform env m job single sure place owed t) :
    ∃ entry, t.manifest.entries[file.idx]? = some entry ∧ entry.bare = file.entry.bare := by
  obtain ⟨entry, found, same⟩ := valid.found
  obtain ⟨entry', found', same'⟩ := entry_of_bare truthful.bare_eq.symm found
  exact ⟨entry', found', same'.symm.trans same⟩

theorem OpenEntry.Valid.isDestination (valid : file.Valid env m job single) :
    IsDestination env m job single file.dst := by
  obtain ⟨entry, found, same⟩ := valid.found
  exact ⟨entry, List.mem_of_getElem? found, (destLoc_bare same).trans valid.dest⟩

/-- The destination of another entry is another file. -/
theorem OpenEntry.Valid.other (orderly : Orderly platform env m job single)
    (valid : file.Valid env m job single)
    (truthful : Truthful platform env m job single sure place owed t) {i : Nat}
    {entry : ManifestEntry} {loc : Loc} (found : t.manifest.entries[i]? = some entry)
    (dest : destLoc env.cwd job.target m.rootName single entry = some loc) (different : i ≠ file.idx) :
    loc ≠ file.dst := by
  rintro rfl
  obtain ⟨entry', found', same⟩ := truthful.entry found
  obtain ⟨entry'', found'', same''⟩ := valid.found
  exact different (orderly.distinct i file.idx entry' entry'' _ found' found''
    ((destLoc_bare same).symm.trans dest) ((destLoc_bare same'').trans valid.dest))

/-! ### Moving on -/

/-- From one place to another that claims no more. -/
theorem Truthful.move (truthful : Truthful platform env m job single sure place owed t)
    {place' : Place} (ahead : ∀ i k, place'.Ahead i k → place.Ahead i k)
    (behind : ∀ (i k : Nat) (entry : ManifestEntry), t.manifest.entries[i]? = some entry →
      k < entry.chunkCount → place'.Behind i k → place.Behind i k) :
    Truthful platform env m job single sure place' owed t := by
  refine ⟨truthful.env_eq, truthful.bare_eq, truthful.lengths, ?_, ?_, ?_, truthful.counted⟩
  · intro i k entry found inside nonempty claimed
    refine truthful.honest i k entry found inside nonempty (claimed.imp id ?_)
    exact behind i k entry found inside
  · intro i k entry found inside nonempty left
    exact truthful.marked i k entry found inside nonempty (behind i k entry found inside left)
  · exact fun i k entry entry' found found' notYet =>
      truthful.kept i k entry entry' found found' (ahead i k notYet)

/-- A round of the chunk loop begins. -/
theorem Truthful.begin {i k : Nat}
    (truthful : Truthful platform env m job single sure ⟨i, k, false⟩ owed t) :
    Truthful platform env m job single sure ⟨i, k, true⟩ owed t := by
  refine truthful.move (fun _ _ ahead => ahead.imp id fun ⟨same, reached⟩ => ⟨same, ?_⟩)
    fun _ _ _ _ _ behind => behind
  exact Nat.le_trans (Nat.le_add_right _ _) reached

/-- What holds after a round holds in it. -/
theorem Truthful.back {i k : Nat}
    (truthful : Truthful platform env m job single sure ⟨i, k + 1, false⟩ owed t) :
    Truthful platform env m job single sure ⟨i, k, true⟩ owed t :=
  truthful.move (fun _ _ ahead => ahead) fun _ _ _ _ _ behind =>
    behind.imp id fun ⟨same, less⟩ => ⟨same, Nat.lt_succ_of_lt less⟩

/-- The chunk of a round is left behind when its bit is set and it is there. -/
theorem Truthful.pass {i k : Nat}
    (truthful : Truthful platform env m job single sure ⟨i, k, true⟩ owed t)
    (settled : ∀ entry, t.manifest.entries[i]? = some entry → k < entry.chunkCount →
      chunkLen platform entry.size k m.chunkSize ≠ 0 → isChunkDone entry k = true ∧
        chunkPresent platform t.world.fs env.cwd job.target m.rootName single m.chunkSize entry k =
          true) :
    Truthful platform env m job single sure ⟨i, k + 1, false⟩ owed t := by
  have behind {j l : Nat} (left : Place.Behind ⟨i, k + 1, false⟩ j l) :
      Place.Behind ⟨i, k, true⟩ j l ∨ j = i ∧ l = k := by
    rcases left with before | ⟨same, less⟩
    · exact Or.inl (Or.inl before)
    · rcases Nat.lt_succ_iff_lt_or_eq.mp less with less | same'
      · exact Or.inl (Or.inr ⟨same, less⟩)
      · exact Or.inr ⟨same, same'⟩
  refine ⟨truthful.env_eq, truthful.bare_eq, truthful.lengths, ?_, ?_, truthful.kept,
    truthful.counted⟩
  · intro j l entry found inside nonempty claimed done
    rcases claimed with isSure | left
    · exact truthful.honest j l entry found inside nonempty (Or.inl isSure) done
    · rcases behind left with left | ⟨rfl, rfl⟩
      · exact truthful.honest j l entry found inside nonempty (Or.inr left) done
      · exact (settled entry found inside nonempty).2
  · intro j l entry found inside nonempty left
    rcases behind left with left | ⟨rfl, rfl⟩
    · exact truthful.marked j l entry found inside nonempty left
    · exact (settled entry found inside nonempty).1

/-- A round of the entry loop is over when all chunks are left behind. -/
theorem Truthful.nextEntry {i n : Nat}
    (truthful : Truthful platform env m job single sure ⟨i, n, false⟩ owed t)
    (all : ∀ entry, t.manifest.entries[i]? = some entry → entry.chunkCount ≤ n) :
    Truthful platform env m job single sure ⟨i + 1, 0, false⟩ owed t := by
  refine truthful.move (fun j l ahead => Or.inl ?_) fun j l entry found inside behind => ?_
  · rcases ahead with after | ⟨rfl, _⟩
    · exact Nat.lt_of_succ_lt after
    · exact Nat.lt_succ_self i
  · rcases behind with before | ⟨_, negative⟩
    · rcases Nat.lt_succ_iff_lt_or_eq.mp before with before | rfl
      · exact Or.inl before
      · exact Or.inr ⟨rfl, Nat.lt_of_lt_of_le inside (all entry found)⟩
    · exact absurd negative (Nat.not_lt_zero _)

/-! ### Calls that leave the destinations alone -/

/-- Of the files, only those at the destinations matter for a property of a run. -/
structure OnDestinations (env : Surroundings) (m : TransferManifest) (job : Job) (single : Bool)
    (inv : Transfer → Prop) : Prop where
  env_eq : ∀ t, inv t → t.world.env = env
  moved : ∀ (t : Transfer) (w : World), inv t → w.env = env →
    (∀ loc content, IsDestination env m job single loc → t.world.fs.content loc = some content →
      w.fs.content loc = some content) → inv { t with world := w }

/-- Nothing but destinations is kept. -/
def Among (env : Surroundings) (m : TransferManifest) (job : Job) (single : Bool)
    (kept : Loc → Node → Prop) : Prop :=
  ∀ loc there, kept loc there → IsDestination env m job single loc

theorem Orderly.spares (orderly : Orderly platform env m job single) {kept : Loc → Node → Prop}
    (among : Among env m job single kept) : env.Spares kept := by
  intro loc there member
  obtain ⟨entry, listed, dest⟩ := among loc there member
  exact orderly.alone entry listed loc dest

theorem Orderly.checkpointOutside (orderly : Orderly platform env m job single)
    {kept : Loc → Node → Prop} (among : Among env m job single kept) :
    CheckpointOutside env kept job := by
  intro path saved loc lexical there member
  obtain ⟨entry, listed, dest⟩ := among loc there member
  exact orderly.apart path saved entry listed loc dest lexical

section Frame

variable {inv : Transfer → Prop} {α : Type} {prog : Sys α} {answer : α → Prop}

/-- A call that leaves the destinations alone, seen from the world. -/
theorem OnDestinations.keeps (on : OnDestinations env m job single inv)
    (keeps : ∀ kept, Among env m job single kept → Triple (Holds env kept) prog
      (fun a w => answer a ∧ Holds env kept w) fun _ => Holds env kept) (t : Transfer) :
    Triple (fun w => inv { t with world := w }) prog
      (fun a w => answer a ∧ inv { t with world := w }) fun _ w => inv { t with world := w } := by
  intro w start
  have moved (w' : World) (holds : Holds env (fun loc there =>
      IsDestination env m job single loc ∧ w.fs.node loc = some there) w') :
      inv { t with world := w' } := by
    refine on.moved { t with world := w } w' start holds.env_eq fun loc content isDest found => ?_
    obtain ⟨modified, there⟩ := FileSystem.content_eq_some.mp found
    exact FileSystem.content_eq_some.mpr ⟨modified, holds.node_eq loc _ ⟨isDest, there⟩⟩
  exact ((keeps _ fun loc there member => member.1).conseq (fun _ start => start)
    (fun a w' holds => ⟨holds.1, moved w' holds.2⟩) fun _ w' holds => moved w' holds) w
      ⟨on.env_eq _ start, fun loc there member => member.2⟩

/-- **A call that leaves the destinations alone.** -/
theorem OnDestinations.sys (on : OnDestinations env m job single inv)
    (keeps : ∀ kept, Among env m job single kept → Triple (Holds env kept) prog
      (fun a w => answer a ∧ Holds env kept w) fun _ => Holds env kept) :
    Triple inv (SendRs.sys prog) (fun a t => answer a ∧ inv t) fun _ => inv :=
  Triple.zoom fun t start => (on.keeps keeps t).pre fun _ same => same ▸ start

/-- The same for a call whose answer does not matter. -/
theorem OnDestinations.keeps_sys (on : OnDestinations env m job single inv)
    (keeps : ∀ kept, Among env m job single kept → Keeps (Holds env kept) prog) :
    Keeps inv (SendRs.sys prog) :=
  (on.sys fun kept among =>
    (keeps kept among).post fun _ _ holds => ⟨trivial, holds⟩).post fun _ _ holds => holds.2

/-- The checkpoint is none of the destinations. -/
theorem OnDestinations.saveCheckpoint (orderly : Orderly platform env m job single)
    (on : OnDestinations env m job single inv) : Keeps inv (saveCheckpoint platform job) := by
  refine Triple.bind (M := fun _ => inv) (Triple.observe fun _ holds => holds) fun manifest => ?_
  cases saved : job.checkpoint with
  | none => exact Triple.pure fun _ holds => holds
  | some path =>
    exact on.keeps_sys fun kept among => Triple.context (keeps_fsWrite (orderly.spares among)
      (orderly.checkpointOutside among path saved) _)

end Frame

/-- A chunk stays as long as the destinations do. -/
theorem chunkPresent_mono {fs fs' : FileSystem} {entry : ManifestEntry} {k : Nat}
    (kept : ∀ loc content, destLoc env.cwd job.target m.rootName single entry = some loc →
      fs.content loc = some content → fs'.content loc = some content)
    (present : chunkPresent platform fs env.cwd job.target m.rootName single m.chunkSize entry k =
      true) :
    chunkPresent platform fs' env.cwd job.target m.rootName single m.chunkSize entry k = true := by
  obtain ⟨loc, dest, intact⟩ := chunkPresent_iff.mp present
  exact chunkPresent_iff.mpr ⟨loc, dest, chunkIntact_mono (fun content => kept loc content dest) intact⟩

theorem truthful_onDestinations :
    OnDestinations env m job single (Truthful platform env m job single sure place owed) := by
  refine ⟨fun t truthful => truthful.env_eq, fun t w truthful sameEnv kept => ?_⟩
  refine ⟨sameEnv, truthful.bare_eq, truthful.lengths, ?_, truthful.marked, truthful.kept,
    truthful.counted.now, truthful.counted.events⟩
  intro i k entry found inside nonempty claimed done
  refine chunkPresent_mono (fun loc content dest there => ?_)
    (truthful.honest i k entry found inside nonempty claimed done)
  exact kept loc content (truthful.isDestination found dest) there

theorem inFile_onDestinations (valid : file.Valid env m job single) :
    OnDestinations env m job single (InFile platform env m job single sure file place owed) := by
  refine ⟨fun t inFile => inFile.truthful.env_eq, fun t w inFile sameEnv kept => ?_⟩
  obtain ⟨content, there, length⟩ := inFile.there
  exact ⟨truthful_onDestinations.moved t w inFile.truthful sameEnv kept,
    content, kept _ content valid.isDestination there, length⟩

/-- The counter is reported as it is. -/
theorem Truthful.report (truthful : Truthful platform env m job single sure place owed t)
    (bytesTotal : Nat) (currentFile : String) : Truthful platform env m job single sure place owed
      { t with events := t.events ++ [⟨bytesTotal, t.bytesDone, currentFile⟩] } := by
  refine ⟨truthful.env_eq, truthful.bare_eq, truthful.lengths, truthful.honest, truthful.marked,
    truthful.kept, truthful.counted.now, fun all event member => ?_⟩
  rcases List.mem_append.mp member with earlier | isNew
  · exact truthful.counted.events all event earlier
  · rw [List.mem_singleton.mp isNew]
    exact truthful.counted.now

/-! ### Writing the open file -/

/-- The bit of a chunk is not set. -/
def BitClear (i k : Nat) (t : Transfer) : Prop :=
  ∀ entry, t.manifest.entries[i]? = some entry → isChunkDone entry k = false

/-- What the attempts at a chunk start from and leave behind when they fail. -/
def Pending (platform : Platform) (env : Surroundings) (m : TransferManifest) (job : Job)
    (single : Bool) (sure : Nat → Nat → Prop) (file : OpenEntry) (k : Nat) (t : Transfer) : Prop :=
  BitClear file.idx k t ∧ InFile platform env m job single sure file ⟨file.idx, k, true⟩ 0 t

/-- The bit of the chunk of a round is set, be it true or not. -/
def Claimed (platform : Platform) (env : Surroundings) (m : TransferManifest) (job : Job)
    (single : Bool) (sure : Nat → Nat → Prop) (file : OpenEntry) (k : Nat) (t : Transfer) : Prop :=
  (∀ entry, t.manifest.entries[file.idx]? = some entry → isChunkDone entry k = true) ∧
    InFile platform env m job single sure file ⟨file.idx, k, true⟩ 0 t

/-- The chunk of a round was copied, and its bit is clear. -/
def Fresh (platform : Platform) (env : Surroundings) (m : TransferManifest) (job : Job)
    (single : Bool) (sure : Nat → Nat → Prop) (file : OpenEntry) (k : Nat) (t : Transfer) : Prop :=
  (chunkIntact platform t.world.fs m.chunkSize file.dst file.entry k = true ∧
    BitClear file.idx k t) ∧
    InFile platform env m job single sure file ⟨file.idx, k, true⟩ 0 t

/-- A write to the open file that keeps the chunks of its entry whose bits are set. -/
theorem Truthful.wrote (orderly : Orderly platform env m job single)
    (valid : file.Valid env m job single)
    (truthful : Truthful platform env m job single sure place owed t) {w : World}
    (sameEnv : w.env = env)
    (others : ∀ loc content, IsDestination env m job single loc → loc ≠ file.dst →
      t.world.fs.content loc = some content → w.fs.content loc = some content)
    (here : ∀ (k : Nat) (entry : ManifestEntry), t.manifest.entries[file.idx]? = some entry →
      k < entry.chunkCount → chunkLen platform entry.size k m.chunkSize ≠ 0 →
      isChunkDone entry k = true →
      chunkIntact platform t.world.fs m.chunkSize file.dst entry k = true →
      chunkIntact platform w.fs m.chunkSize file.dst entry k = true) :
    Truthful platform env m job single sure place owed { t with world := w } := by
  refine ⟨sameEnv, truthful.bare_eq, truthful.lengths, ?_, truthful.marked, truthful.kept,
    truthful.counted.now, truthful.counted.events⟩
  intro i k entry found inside nonempty claimed done
  have present := truthful.honest i k entry found inside nonempty claimed done
  obtain ⟨loc, dest, intact⟩ := chunkPresent_iff.mp present
  refine chunkPresent_iff.mpr ⟨loc, dest, ?_⟩
  by_cases same : i = file.idx
  · subst same
    obtain ⟨entry', found', same'⟩ := valid.current truthful
    obtain rfl := Option.some.inj (found.symm.trans found')
    obtain rfl : loc = file.dst := Option.some.inj (dest.symm.trans ((destLoc_bare same').trans valid.dest))
    exact here k entry found inside nonempty done intact
  · exact chunkIntact_mono (fun content there => others loc content
      (truthful.isDestination found dest) (valid.other orderly truthful found dest same) there) intact

/-- A chunk that is not empty ends within the size. -/
theorem offset_add_chunkLen_le {size k : Nat}
    (nonempty : chunkLen platform size k m.chunkSize ≠ 0) :
    chunkOffset platform k m.chunkSize + chunkLen platform size k m.chunkSize ≤ size := by
  unfold chunkLen at nonempty ⊢
  omega

/-- **The open file is given its size.** -/
theorem setLen_inFile (orderly : Orderly platform env m job single)
    (valid : file.Valid env m job single) {message : String} :
    Triple (Truthful platform env m job single sure place owed)
      (sys (withContext message (setLen file.dst file.entry.size)))
      (fun _ => InFile platform env m job single sure file place owed)
      (fun _ => Truthful platform env m job single sure place owed) := by
  refine Triple.zoom fun t start => Triple.context (Triple.pre (?_ : Triple (fun w =>
    Truthful platform env m job single sure place owed { t with world := w }) _ _ _)
      fun _ same => same ▸ start)
  refine Triple.bind ((truthful_onDestinations.keeps (fun kept among =>
    (keeps_call (orderly.spares among)).post fun _ _ holds => ⟨trivial, holds⟩) t).post
      fun _ _ holds => holds.2) fun drawn => ?_
  refine Triple.bind (M := fun there w => there = w.fs.content file.dst ∧
    Truthful platform env m job single sure place owed { t with world := w })
    (Triple.observe fun w truthful => ⟨rfl, truthful⟩) fun there => ?_
  cases there with
  | none => exact Triple.throw fun _ holds => holds.2
  | some content =>
    refine Triple.update fun w ⟨there, truthful⟩ => ?_
    obtain ⟨_, found⟩ := FileSystem.content_eq_some.mp there.symm
    have wrote : (w.fs.put file.dst (.file (content.takeD file.entry.size 0) drawn.now)).content
        file.dst = some (content.takeD file.entry.size 0) := FileSystem.content_eq_some.mpr
      ⟨_, FileSystem.node_put_same (FileSystem.free_of_file found) _⟩
    refine ⟨truthful.wrote orderly valid truthful.env_eq ?_ ?_, _, wrote, List.takeD_length _ _ _⟩
    · intro loc other _ different seen
      show FileSystem.content (w.fs.put file.dst _) loc = _
      rw [FileSystem.content, FileSystem.node_put_ne _ different, ← FileSystem.content]
      exact seen
    · intro k entry found' _ nonempty _ intact
      obtain ⟨entry', found'', same⟩ := valid.current truthful
      obtain rfl := Option.some.inj (found'.symm.trans found'')
      have within := offset_add_chunkLen_le nonempty
      refine chunkIntact_of_window there.symm wrote ?_ (fun old => ?_) intact
      · rwa [List.takeD_length, ← size_bare same]
      · exact window_takeD old (size_bare same ▸ within)

/-- **A chunk is copied**, or written in part. Its bit is clear, so nothing was claimed of it; the
other chunks of the file have other windows. -/
theorem copyChunk_inFile (orderly : Orderly platform env m job single)
    (valid : file.Valid env m job single) {src : Loc} {k : Nat} {expected : String}
    (inside : k < file.entry.chunkCount)
    (nonempty : chunkLen platform file.entry.size k m.chunkSize ≠ 0)
    (hash : file.entry.chunkHashes[k]? = some expected) :
    Triple (Pending platform env m job single sure file k)
      (sys (copyChunk platform src file.dst (chunkOffset platform k m.chunkSize)
        (chunkLen platform file.entry.size k m.chunkSize) expected))
      (fun _ => Fresh platform env m job single sure file k)
      (fun _ => Pending platform env m job single sure file k) := by
  refine Triple.zoom fun t ⟨clear, inFile⟩ => ?_
  have truthful := inFile.truthful
  obtain ⟨content, there, length⟩ := inFile.there
  have within := offset_add_chunkLen_le nonempty
  have fits : chunkOffset platform k m.chunkSize ≤ content.length := by omega
  let kept (loc : Loc) (node : Node) : Prop :=
    (IsDestination env m job single loc ∧ loc ≠ file.dst) ∧ t.world.fs.node loc = some node
  have among : Among env m job single kept := fun loc node member => member.1.1
  have alone : env.SparesLoc file.dst := by
    obtain ⟨entry, listed, dest⟩ := valid.isDestination
    exact orderly.alone entry listed _ dest
  -- whatever was written of the chunk, the run is as before but for the window of the chunk
  have after (w : World) (buf : Bytes)
      (short : buf.length ≤ chunkLen platform file.entry.size k m.chunkSize)
      (onFile : OnFile env kept file.dst
        (patch 0 content (chunkOffset platform k m.chunkSize) buf) w) :
      InFile platform env m job single sure file ⟨file.idx, k, true⟩ 0 { t with world := w } := by
    refine ⟨truthful.wrote orderly valid onFile.holds.env_eq ?_ ?_, _, onFile.there, ?_⟩
    · intro loc other isDest different seen
      obtain ⟨modified, found⟩ := FileSystem.content_eq_some.mp seen
      exact FileSystem.content_eq_some.mpr
        ⟨modified, onFile.holds.node_eq loc _ ⟨⟨isDest, different⟩, found⟩⟩
    · intro j entry found inside' nonempty' done intact
      obtain ⟨entry', found', same⟩ := valid.current truthful
      obtain rfl := Option.some.inj (found.symm.trans found')
      have different : j ≠ k := by
        rintro rfl
        rw [clear entry found] at done
        cases done
      have within' := offset_add_chunkLen_le nonempty'
      rw [size_bare same] at within'
      have offset := truthful.offset_eq orderly found (chunkCount_bare same ▸ inside)
      have offset' := truthful.offset_eq orderly found inside'
      have bounded : chunkLen platform file.entry.size k m.chunkSize ≤ m.chunkSize := Nat.min_le_right _ _
      have bounded' : chunkLen platform file.entry.size j m.chunkSize ≤ m.chunkSize := Nat.min_le_right _ _
      refine chunkIntact_of_window there onFile.there ?_ (fun _ => ?_) intact
      · rw [length_patch (by omega), length, size_bare same]
        exact within'
      · rw [size_bare same]
        refine window_patch_beside (by omega) ?_
        rw [offset, offset']
        rcases Nat.lt_or_gt_of_ne different with before | after
        · have apart : (j + 1) * m.chunkSize ≤ k * m.chunkSize := Nat.mul_le_mul_right _ before
          rw [Nat.succ_mul] at apart
          omega
        · have apart : (k + 1) * m.chunkSize ≤ j * m.chunkSize := Nat.mul_le_mul_right _ after
          rw [Nat.succ_mul] at apart
          omega
    · rw [length_patch (by omega), length]
  refine (copyChunk_onFile (orderly.spares among) alone (fun node member => member.1.2 rfl) fits).conseq
    ?_ ?_ ?_
  · rintro w rfl
    exact ⟨⟨truthful.env_eq, fun loc node member => member.2⟩, there⟩
  · rintro _ w ⟨buf, ⟨full, matched⟩, onFile⟩
    refine ⟨⟨chunkIntact_iff.mpr ⟨_, expected, onFile.there, hash, ?_, ?_⟩, clear⟩,
      after w buf (Nat.le_of_eq full) onFile⟩
    · rw [length_patch (by omega)]
      omega
    · rw [← full, window_patch_self fits]
      exact matched
  · rintro _ w ⟨buf, short, onFile⟩
    exact ⟨clear, after w buf short onFile⟩

/-- **A chunk is verified**: it is intact when the answer is yes. -/
theorem verify_inFile (orderly : Orderly platform env m job single)
    (valid : file.Valid env m job single) {k : Nat} {expected : String}
    (hash : file.entry.chunkHashes[k]? = some expected) :
    Triple (Claimed platform env m job single sure file k)
      (sys (verifyChunkAt platform file.dst (chunkOffset platform k m.chunkSize)
        (chunkLen platform file.entry.size k m.chunkSize) expected))
      (fun intact t => (intact = true ↔
          chunkIntact platform t.world.fs m.chunkSize file.dst file.entry k = true) ∧
        Claimed platform env m job single sure file k t)
      (fun _ => Claimed platform env m job single sure file k) := by
  refine Triple.zoom fun t ⟨set, inFile⟩ => ?_
  obtain ⟨content, there, length⟩ := inFile.there
  let kept (loc : Loc) (node : Node) : Prop :=
    IsDestination env m job single loc ∧ t.world.fs.node loc = some node
  have among : Among env m job single kept := fun loc node member => member.1
  have alone : env.SparesLoc file.dst := by
    obtain ⟨entry, listed, dest⟩ := valid.isDestination
    exact orderly.alone entry listed _ dest
  have after (w : World) (onFile : OnFile env kept file.dst content w) :
      Claimed platform env m job single sure file k { t with world := w } := by
    refine ⟨set, (inFile_onDestinations valid).moved t w inFile onFile.holds.env_eq
      fun loc other isDest seen => ?_⟩
    obtain ⟨modified, found⟩ := FileSystem.content_eq_some.mp seen
    exact FileSystem.content_eq_some.mpr ⟨modified, onFile.holds.node_eq loc _ ⟨isDest, found⟩⟩
  have start (w : World) (here : w = t.world) : OnFile env kept file.dst content w := by
    subst here
    exact ⟨⟨inFile.truthful.env_eq, fun loc node member => member.2⟩, there⟩
  refine (verifyChunkAt_onFile (orderly.spares among) alone _ _ expected).conseq start ?_ ?_
  · rintro intact w ⟨matched, onFile⟩
    refine ⟨matched.trans ⟨fun intact => ?_, fun intact => ?_⟩, after w onFile⟩
    · exact chunkIntact_iff.mpr ⟨content, expected, onFile.there, hash, intact⟩
    · obtain ⟨_, _, there', hash', intact⟩ := chunkIntact_iff.mp intact
      obtain rfl := Option.some.inj (onFile.there.symm.trans there')
      obtain rfl := Option.some.inj (hash.symm.trans hash')
      exact intact
  · exact fun _ w onFile => after w onFile

/-! ### Writing a bit -/

/-- Only the counter changes. -/
theorem Truthful.count (truthful : Truthful platform env m job single sure place owed t)
    {owed' n : Nat} (counted : Counted platform sure owed' { t with bytesDone := n }) :
    Truthful platform env m job single sure place owed' { t with bytesDone := n } :=
  ⟨truthful.env_eq, truthful.bare_eq, truthful.lengths, truthful.honest, truthful.marked,
    truthful.kept, counted⟩

/-- The bit of the chunk of a round is written: it may be set when the chunk is there. -/
theorem Truthful.withBit (orderly : Orderly platform env m job single) {i k : Nat}
    (truthful : Truthful platform env m job single sure ⟨i, k, true⟩ owed t) {entry : ManifestEntry}
    (found : t.manifest.entries[i]? = some entry) (inside : k < entry.chunkCount) (value : Bool)
    (present : value = true → chunkPresent platform t.world.fs env.cwd job.target m.rootName single
      m.chunkSize entry k = true) (owed' : Nat)
    (counted : Counted platform sure owed' { t with manifest := t.manifest.withBit i k value }) :
    Truthful platform env m job single sure ⟨i, k, true⟩ owed'
      { t with manifest := t.manifest.withBit i k value } := by
  have reach := truthful.reach orderly found inside
  -- each entry is as it was, but for this bit
  have before {j : Nat} {other : ManifestEntry}
      (seen : (t.manifest.withBit i k value).entries[j]? = some other) :
      ∃ entry', t.manifest.entries[j]? = some entry' ∧
        other = if i = j then entry'.withBit k value else entry' := by
    rw [TransferManifest.withBit, List.getElem?_modify] at seen
    obtain ⟨entry', found', same⟩ := Option.map_eq_some_iff.mp seen
    exact ⟨entry', found', same.symm⟩
  have bare {j : Nat} {other entry' : ManifestEntry}
      (same : other = if i = j then entry'.withBit k value else entry') : other.bare = entry'.bare := by
    rw [same]
    split
    · rfl
    · rfl
  have elsewhere {j l : Nat} {other entry' : ManifestEntry} (different : j ≠ i ∨ l ≠ k)
      (same : other = if i = j then entry'.withBit k value else entry') :
      isChunkDone other l = isChunkDone entry' l := by
    rw [same]
    split
    · next here => exact isChunkDone_withBit_ne (different.resolve_left (· here.symm)) value
    · rfl
  have bits : (t.manifest.withBit i k value).bare = t.manifest.bare :=
    bare_modify (f := (·.withBit k value)) (fun _ => rfl) t.manifest i
  refine ⟨truthful.env_eq, bits.trans truthful.bare_eq, ?_, ?_, ?_, ?_, counted⟩
  · intro j entry₀ other found₀ seen
    obtain ⟨entry', found', same⟩ := before seen
    rw [← truthful.lengths j entry₀ entry' found₀ found', same]
    split
    · exact length_setBitmap _ _ _
    · rfl
  · intro j l other seen inside' nonempty claimed done
    obtain ⟨entry', found', same⟩ := before seen
    rw [chunkPresent_bare (bare same)]
    by_cases here : j = i ∧ l = k
    · obtain ⟨rfl, rfl⟩ := here
      obtain rfl := Option.some.inj (found.symm.trans found')
      refine present ?_
      rw [same, if_pos rfl, isChunkDone_withBit reach] at done
      exact done
    · rw [elsewhere (not_and_or.mp here) same] at done
      exact truthful.honest j l entry' found' (chunkCount_bare (bare same) ▸ inside')
        (size_bare (bare same) ▸ nonempty) claimed done
  · intro j l other seen inside' nonempty left
    obtain ⟨entry', found', same⟩ := before seen
    have different : j ≠ i ∨ l ≠ k :=
      left.imp (fun less => Nat.ne_of_lt less) fun both => Nat.ne_of_lt both.2
    rw [elsewhere different same]
    exact truthful.marked j l entry' found' (chunkCount_bare (bare same) ▸ inside')
      (size_bare (bare same) ▸ nonempty) left
  · intro j l entry₀ other found₀ seen notYet
    obtain ⟨entry', found', same⟩ := before seen
    have different : j ≠ i ∨ l ≠ k :=
      notYet.imp (fun more => Nat.ne_of_gt more) fun both => Nat.ne_of_gt both.2
    rw [elsewhere different same]
    exact truthful.kept j l entry₀ entry' found₀ found' notYet

/-- Its bit is set, but its bytes are not counted yet. -/
def Marked (platform : Platform) (env : Surroundings) (m : TransferManifest) (job : Job)
    (single : Bool) (sure : Nat → Nat → Prop) (file : OpenEntry) (k : Nat) (t : Transfer) : Prop :=
  t.bytesDone + chunkLen platform file.entry.size k m.chunkSize ≤ doneBytes platform t.manifest ∧
    InFile platform env m job single sure file ⟨file.idx, k + 1, false⟩ 0 t

/-- **A chunk that was copied is marked**, and left behind. -/
theorem mark_inFile (orderly : Orderly platform env m job single)
    (valid : file.Valid env m job single) {k : Nat} (inside : k < file.entry.chunkCount) :
    Triple (Fresh platform env m job single sure file k)
      (modifyEntry file.idx fun entry => markChunkDone entry k)
      (fun _ => Marked platform env m job single sure file k) Never := by
  refine Triple.update fun t ⟨⟨intact, clear⟩, inFile⟩ => ?_
  have truthful := inFile.truthful
  obtain ⟨entry, found, same⟩ := valid.current truthful
  have inside' : k < entry.chunkCount := chunkCount_bare same ▸ inside
  have reach := truthful.reach orderly found inside'
  have present : chunkPresent platform t.world.fs env.cwd job.target m.rootName single m.chunkSize
      entry k = true := by
    rw [chunkPresent_bare same]
    exact chunkPresent_iff.mpr ⟨file.dst, valid.dest, intact⟩
  have bytes := doneBytes_withBit platform found inside' reach true
  rw [clear entry found, if_neg Bool.false_ne_true, if_pos rfl, truthful.chunkSize_eq,
    size_bare same] at bytes
  have counted := truthful.counted
  have more : doneBytes platform t.manifest ≤ doneBytes platform (t.manifest.withBit file.idx k true) :=
    by omega
  have written := truthful.withBit orderly found inside' true (fun _ => present) 0
    ⟨Nat.le_trans counted.now more,
      fun all event member => Nat.le_trans (counted.events all event member) more⟩
  refine ⟨?_, written.pass fun other seen _ _ => ?_, inFile.there⟩
  · have now := counted.now
    show t.bytesDone + _ ≤ doneBytes platform (t.manifest.withBit file.idx k true)
    omega
  · have after := getElem?_withBit found k true
    obtain rfl := Option.some.inj (after.symm.trans seen)
    refine ⟨isChunkDone_withBit reach true, ?_⟩
    rw [chunkPresent_bare (show (entry.withBit k true).bare = entry.bare from rfl)]
    exact present

/-- Its bytes are counted. -/
theorem count_inFile {k : Nat} :
    Triple (Marked platform env m job single sure file k)
      (addBytesDone (chunkLen platform file.entry.size k m.chunkSize))
      (fun _ => InFile platform env m job single sure file ⟨file.idx, k + 1, false⟩ 0) Never :=
  Triple.update fun _ ⟨more, inFile⟩ => ⟨inFile.truthful.count
    ⟨Nat.le_trans (Nat.mod_le _ _) more, inFile.truthful.counted.events⟩, inFile.there⟩

/-- **A bit that was wrong is cleared**; its bytes are still counted. -/
theorem clear_inFile (orderly : Orderly platform env m job single)
    (valid : file.Valid env m job single) {k : Nat} (inside : k < file.entry.chunkCount) :
    Triple (Claimed platform env m job single sure file k)
      (modifyEntry file.idx fun entry => clearChunkDone entry k)
      (fun _ t => BitClear file.idx k t ∧ InFile platform env m job single sure file
        ⟨file.idx, k, true⟩ (chunkLen platform file.entry.size k m.chunkSize) t) Never := by
  refine Triple.update fun t ⟨set, inFile⟩ => ?_
  have truthful := inFile.truthful
  obtain ⟨entry, found, same⟩ := valid.current truthful
  have inside' : k < entry.chunkCount := chunkCount_bare same ▸ inside
  have reach := truthful.reach orderly found inside'
  have bytes := doneBytes_withBit platform found inside' reach false
  rw [set entry found, if_pos rfl, if_neg Bool.false_ne_true, truthful.chunkSize_eq,
    size_bare same] at bytes
  have less : doneBytes platform t.manifest + 0 = doneBytes platform
    (t.manifest.withBit file.idx k false) + chunkLen platform file.entry.size k m.chunkSize := by omega
  refine ⟨fun other seen => ?_, truthful.withBit orderly found inside' false
    (fun absurdity => absurd absurdity Bool.false_ne_true) _
      ⟨less ▸ truthful.counted.now, less ▸ truthful.counted.events⟩, inFile.there⟩
  have after := getElem?_withBit found k false
  obtain rfl := Option.some.inj (after.symm.trans seen)
  exact isChunkDone_withBit reach false

/-- Its bytes are no longer counted. That happens to bits that are not sure. -/
theorem discount_inFile (unsure : ¬ ∀ i k, sure i k) {k : Nat} :
    Triple (fun t => BitClear file.idx k t ∧ InFile platform env m job single sure file
        ⟨file.idx, k, true⟩ (chunkLen platform file.entry.size k m.chunkSize) t)
      (subBytesDone (chunkLen platform file.entry.size k m.chunkSize))
      (fun _ => Pending platform env m job single sure file k) Never := by
  refine Triple.update fun t ⟨clear, inFile⟩ => ⟨clear, inFile.truthful.count
    ⟨?_, fun all => absurd all unsure⟩, inFile.there⟩
  exact Nat.sub_le_of_le_add inFile.truthful.counted.now

end Run

end SendRs
