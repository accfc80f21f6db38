/-
**The chunks of a file are what its reads hand out.**

`hash_file` takes whatever one `read` returns as a chunk, so the chunk hashes depend on how the reads
are split, and how they are split is up to the system. In a tree that stays as it is, the run is
followed from call to call with the number of turns taken (`hashLoop_parts`, `hashFile_parts`,
`buildEntry_parts`); the chunks are the `parts` of the content.

Results:

* `buildManifest_reads`: the entries of a manifest, for any reads; their chunks reach the end of the
  file (`ReadFrom.size_le`);
* `hashFile_boundaries_iff`: the chunk hashes are those of the ranges that `copy_chunk` reads, if and
  only if every read fills the buffer and no offset overflows.
-/

import SendRs.Transfer.Completeness

namespace SendRs

open Effect Pieces

/-- The parts of a content that the reads from a moment on hand out. -/
def readParts (env : Surroundings) (clock chunkSize : Nat) (content : Bytes) : List Bytes :=
  parts chunkSize (content.length + 1) (fun j => (env.turns (clock + j)).grant) content

/-- From a moment on, every read of a file fills the buffer, up to the end of the file. -/
def ReadsFill (env : Surroundings) (clock chunkSize length : Nat) : Prop :=
  AllFull chunkSize (fun j => (env.turns (clock + j)).grant) length

instance (env : Surroundings) (clock chunkSize length : Nat) :
    Decidable (ReadsFill env clock chunkSize length) :=
  inferInstanceAs (Decidable (AllFull _ _ _))

/-- Reads that always fill the buffer do so here. -/
theorem Surroundings.FillsBuffers.readsFill {env : Surroundings} {chunkSize : Nat}
    (fills : env.FillsBuffers chunkSize) (clock length : Nat) :
    ReadsFill env clock chunkSize length := by
  intro j _
  show min chunkSize (length - j * chunkSize) ≤ max 1 (env.turns (clock + j)).grant
  have granted := fills (clock + j)
  omega

/-! ### From call to call -/

section At

variable {platform : Platform} {env : Surroundings} {fs : FileSystem}
  {failed : Error → World → Prop}

/-- A call takes one turn. -/
theorem call_at (still : env.Still)
    (stops : ∀ k error, (env.turns k).fault.isSome → failed error ⟨env, fs, k + 1⟩) (k : Nat) :
    Triple (fun w => w = ⟨env, fs, k⟩) call
      (fun t w => t = env.turns k ∧ w = ⟨env, fs, k + 1⟩) failed := by
  refine Triple.bind (M := fun t w => t = env.turns k ∧ w = ⟨env, fs, k + 1⟩) ?_ fun t => ?_
  · rintro w rfl
    exact ⟨rfl, congrArg (World.mk env · (k + 1)) (still k fs)⟩
  · refine Triple.given fun drawn => ?_
    subst drawn
    refine Triple.ite (fun fails => Triple.throw ?_) fun _ => Triple.pure fun _ here => ⟨rfl, here⟩
    rintro w rfl
    exact stops k _ fails

/-- One read. -/
theorem read_at (still : env.Still)
    (stops : ∀ k error, (env.turns k).fault.isSome → failed error ⟨env, fs, k + 1⟩) (k : Nat)
    (rest : Bytes) (len : Nat) :
    Triple (fun w => w = ⟨env, fs, k⟩) (read rest len)
      (fun n w => n = share len (env.turns k).grant rest.length ∧ w = ⟨env, fs, k + 1⟩) failed := by
  refine Triple.bind (call_at still stops k) fun t => Triple.given fun drawn => ?_
  subst drawn
  exact Triple.pure fun _ here => ⟨rfl, here⟩

/-- **The read loop collects the hashes of the parts.** -/
theorem hashLoop_parts (still : env.Still)
    (stops : ∀ k error, (env.turns k).fault.isSome → failed error ⟨env, fs, k + 1⟩)
    (chunkSize : Nat) : ∀ (fuel : Nat) (rest hashed : Bytes) (hashes : List String) (k : Nat),
      Triple (fun w => w = ⟨env, fs, k⟩) (hashLoop platform chunkSize fuel rest hashed hashes)
        (fun result w =>
          (result.1 = platform.blake3
              (hashed ++ (parts chunkSize fuel (fun j => (env.turns (k + j)).grant) rest).flatten) ∧
            result.2 = hashes ++
              (parts chunkSize fuel (fun j => (env.turns (k + j)).grant) rest).map
                platform.blake3) ∧ ∃ k', w = ⟨env, fs, k'⟩)
        failed := by
  intro fuel
  induction fuel with
  | zero =>
    intro rest hashed hashes k
    refine Triple.pure fun w here => ⟨⟨?_, ?_⟩, k, here⟩
    · rw [parts, List.flatten_nil, List.append_nil]
    · rw [parts, List.map_nil, List.append_nil]
  | succ fuel ih =>
    intro rest hashed hashes k
    -- the parts after the first are those of the next moment
    have cut : parts chunkSize (fuel + 1) (fun j => (env.turns (k + j)).grant) rest =
        if share chunkSize (env.turns k).grant rest.length = 0 then []
        else rest.take (share chunkSize (env.turns k).grant rest.length) ::
          parts chunkSize fuel (fun j => (env.turns (k + 1 + j)).grant)
            (rest.drop (share chunkSize (env.turns k).grant rest.length)) := by
      have later : (fun j => (env.turns (k + (j + 1))).grant) =
          fun j => (env.turns (k + 1 + j)).grant := by
        funext j
        rw [Nat.add_assoc, Nat.add_comm 1 j]
      rw [← later]
      rfl
    refine Triple.bind (Triple.context
      (read_at still (fun k error fails => stops k _ fails) k rest chunkSize)) fun n => ?_
    refine Triple.given fun isShare => ?_
    subst isShare
    rw [cut]
    refine Triple.ite (fun zero => ?_) fun nonzero => ?_
    · refine Triple.pure fun w here => ⟨⟨?_, ?_⟩, k + 1, here⟩
      · rw [if_pos zero, List.flatten_nil, List.append_nil]
      · rw [if_pos zero, List.map_nil, List.append_nil]
    · refine (ih _ _ _ (k + 1)).post ?_
      rintro result w ⟨⟨hash, chunks⟩, here⟩
      refine ⟨⟨?_, ?_⟩, here⟩
      · rw [hash, if_neg nonzero, List.flatten_cons, List.append_assoc]
      · rw [chunks, if_neg nonzero, List.map_cons, List.append_assoc, List.singleton_append]

/-- The location of a path that leads to something. -/
theorem resolveNow_at {path : Path} {loc : Loc} (leads : fs.resolve env.cwd path = some loc)
    (k : Nat) :
    Triple (fun w => w = ⟨env, fs, k⟩) (resolveNow path)
      (fun opened w => opened = loc ∧ w = ⟨env, fs, k⟩) failed := by
  refine Triple.bind (M := fun found w => found = some loc ∧ w = ⟨env, fs, k⟩)
    (Triple.observe ?_) fun found => Triple.given fun isFound => ?_
  · rintro w rfl
    exact ⟨leads, rfl⟩
  · subst isFound
    exact Triple.pure fun _ here => ⟨rfl, here⟩

/-- Opening a file takes one turn. -/
theorem openRead_at (still : env.Still)
    (stops : ∀ k error, (env.turns k).fault.isSome → failed error ⟨env, fs, k + 1⟩) {path : Path}
    {loc : Loc} {there : Node} (leads : fs.resolve env.cwd path = some loc)
    (found : fs.node loc = some there) (k : Nat) :
    Triple (fun w => w = ⟨env, fs, k⟩) (openRead path)
      (fun opened w => opened = loc ∧ w = ⟨env, fs, k + 1⟩) failed := by
  refine Triple.bind (call_at still stops k) fun _ => Triple.given fun _ => ?_
  refine Triple.bind (resolveNow_at leads (k + 1)) fun opened => Triple.given fun same => ?_
  subst same
  refine Triple.bind (M := fun seen w => seen = some there ∧ w = ⟨env, fs, k + 1⟩)
    (Triple.observe ?_) fun seen => Triple.given fun isSeen => ?_
  · rintro w rfl
    exact ⟨found, rfl⟩
  · subst isSeen
    exact Triple.pure fun _ here => ⟨rfl, here⟩

/-- `hash_file` of a file that is there, opened in one turn and then read. -/
theorem hashFile_parts (still : env.Still)
    (stops : ∀ k error, (env.turns k).fault.isSome → failed error ⟨env, fs, k + 1⟩) {path : Path}
    {loc : Loc} {content : Bytes} (leads : fs.resolve env.cwd path = some loc)
    (found : fs.content loc = some content) (chunkSize k : Nat) :
    Triple (fun w => w = ⟨env, fs, k⟩) (hashFile platform path chunkSize)
      (fun result w =>
        (result.1 = platform.blake3 (readParts env (k + 1) chunkSize content).flatten ∧
          result.2 = (readParts env (k + 1) chunkSize content).map platform.blake3) ∧
            ∃ k', w = ⟨env, fs, k'⟩)
      failed := by
  obtain ⟨modified, there⟩ := FileSystem.content_eq_some.mp found
  refine Triple.bind (Triple.context
    (openRead_at still (fun k error fails => stops k _ fails) leads there k)) fun opened => ?_
  refine Triple.given fun same => ?_
  subst same
  refine Triple.bind (M := fun seen w => seen = some content ∧ w = ⟨env, fs, k + 1⟩)
    (Triple.observe ?_) fun seen => Triple.given fun isSeen => ?_
  · rintro w rfl
    exact ⟨found, rfl⟩
  · subst isSeen
    refine (hashLoop_parts still stops chunkSize _ content [] [] (k + 1)).post ?_
    rintro result w ⟨⟨hash, chunks⟩, here⟩
    rw [List.nil_append] at hash chunks
    exact ⟨⟨hash, chunks⟩, here⟩

/-- `build_entry` of a file that is there: one turn for the metadata, and then the file is hashed. -/
theorem buildEntry_parts (still : env.Still)
    (stops : ∀ k error, (env.turns k).fault.isSome → failed error ⟨env, fs, k + 1⟩) {path : Path}
    {loc : Loc} {content : Bytes} {modified : Int} (leads : fs.resolve env.cwd path = some loc)
    (found : fs.node loc = some (.file content modified)) (relativePath : String)
    (chunkSize k : Nat) :
    Triple (fun w => w = ⟨env, fs, k⟩) (buildEntry platform path relativePath chunkSize)
      (fun entry w => entry =
        { relativePath
          size := content.length
          modifiedUnix := modified
          fileHash := platform.blake3 (readParts env (k + 2) chunkSize content).flatten
          chunkHashes := (readParts env (k + 2) chunkSize content).map platform.blake3
          resumeBitmap :=
            List.replicate (((readParts env (k + 2) chunkSize content).length + 7) / 8) 0 } ∧
        ∃ k', w = ⟨env, fs, k'⟩)
      failed := by
  have looks : Triple (fun w => w = ⟨env, fs, k⟩) (metadata path)
      (fun info w => info = (content.length, modified) ∧ w = ⟨env, fs, k + 1⟩)
      (fun error => failed ("read metadata" :: error)) := by
    refine Triple.bind (call_at still (fun k error fails => stops k _ fails) k) fun _ =>
      Triple.given fun _ => ?_
    refine Triple.bind (resolveNow_at leads (k + 1)) fun target => Triple.given fun same => ?_
    subst same
    refine Triple.bind (M := fun there w => there = some (.file content modified) ∧
      w = ⟨env, fs, k + 1⟩) (Triple.observe ?_) fun there => Triple.given fun isThere => ?_
    · rintro w rfl
      exact ⟨found, rfl⟩
    · subst isThere
      exact Triple.pure fun _ here => ⟨rfl, here⟩
  have holds : fs.content loc = some content := FileSystem.content_eq_some.mpr ⟨modified, found⟩
  refine Triple.bind (Triple.context looks) fun info => Triple.given fun isInfo => ?_
  subst isInfo
  refine Triple.bind (hashFile_parts still stops leads holds chunkSize (k + 1)) fun hashes => ?_
  refine Triple.given fun ⟨hash, chunks⟩ => Triple.pure fun w here => ⟨?_, here⟩
  rw [hash, chunks, List.length_map]

/-- Where no call fails, nothing stops. -/
theorem never_stops (calm : env.Calm) (k : Nat) (error : Error)
    (fails : (env.turns k).fault.isSome) : (Never error : World → Prop) ⟨env, fs, k + 1⟩ := by
  rw [calm.noFaults k] at fails
  cases fails

/-- What holds from every moment on holds in a tree that stands. -/
theorem triple_of_at {α : Type} {prog : Sys α} {after : α → World → Prop}
    (triple : ∀ k, Triple (fun w => w = ⟨env, fs, k⟩) prog after failed) :
    Triple (Stands env fs) prog after failed :=
  (Triple.exists_pre triple).pre fun w ⟨sameEnv, sameTree⟩ =>
    ⟨w.clock, by rw [← sameEnv, ← sameTree]⟩

end At

/-! ### The entries of a manifest, for any reads -/

/-- The entry lists the size of the content and the hashes of the parts that some reads of it have
handed out. -/
structure ReadFrom (platform : Platform) (env : Surroundings) (chunkSize : Nat) (content : Bytes)
    (entry : ManifestEntry) : Prop where
  size_eq : entry.size = content.length
  chunks : ∃ k, entry.chunkHashes = (readParts env k chunkSize content).map platform.blake3

/-- The chunks reach the end of the file. -/
theorem ReadFrom.size_le {platform : Platform} {env : Surroundings} {chunkSize : Nat}
    {content : Bytes} {entry : ManifestEntry}
    (read : ReadFrom platform env chunkSize content entry) (positive : 0 < chunkSize) :
    entry.size ≤ entry.chunkCount * chunkSize := by
  obtain ⟨k, chunks⟩ := read.chunks
  rw [read.size_eq, ManifestEntry.chunkCount, chunks, List.length_map]
  exact length_le_parts_mul positive (Nat.lt_succ_self _)

/-- The entries of a manifest that is built in a tree that stays as it is. -/
theorem buildManifest_reads {platform : Platform} {env : Surroundings} {fs : FileSystem}
    (still : env.Still) (path : Path) (chunkSize : Nat) :
    Triple (Stands env fs) (buildManifest platform path chunkSize)
      (fun manifest w => (manifest.chunkSize = effectiveChunkSize chunkSize ∧
        ∀ entry ∈ manifest.entries, ∃ content,
          ReadFrom platform env (effectiveChunkSize chunkSize) content entry) ∧ Stands env fs w)
      (fun _ => Stands env fs) := by
  refine (buildManifest_relates still path chunkSize (R := fun _ _ _ entry => ∃ content,
    ReadFrom platform env (effectiveChunkSize chunkSize) content entry)
      fun root single file content found path leads => ?_).post ?_
  · obtain ⟨modified, there⟩ := FileSystem.content_eq_some.mp found
    refine triple_of_at fun k => (buildEntry_parts still (fun _ _ _ => ⟨rfl, rfl⟩) leads there _ _
      k).post ?_
    rintro entry w ⟨rfl, k', rfl⟩
    exact ⟨⟨content, rfl, k + 2, rfl⟩, rfl, rfl⟩
  · rintro manifest w ⟨⟨root, single, _, _, size, _, _, _, listed⟩, stands⟩
    refine ⟨⟨size, fun entry member => ?_⟩, stands⟩
    obtain ⟨_, _, read⟩ := forall₂_partner listed.flip member
    exact read

/-! ### Chunks of the manifest and chunks of the transfer -/

/-- Every chunk of an unchanged source file passes the check of `copy_chunk`. -/
def ChunksAccepted (platform : Platform) (chunkSize : Nat) (content : Bytes)
    (hashes : List String) : Prop :=
  ∀ k expected, hashes[k]? = some expected → ∀ (w : World) (src dst : Loc), w.env.Calm →
    w.fs.content src = some content → (w.fs.content dst).isSome → ∃ w',
      copyChunk platform src dst (chunkOffset platform k chunkSize)
        (chunkLen platform content.length k chunkSize) expected w = .ok () w'

/-- The chunks of the manifest are those that the transfer reads: there is one for each piece of the
content, with the hash of this piece, the piece is what `execute_local_transfer` reads for this chunk,
and it is accepted. -/
structure BoundariesAgree (platform : Platform) (chunkSize : Nat) (content : Bytes)
    (hashes : List String) : Prop where
  count : hashes.length = pieceCount chunkSize content.length
  nth : ∀ k < pieceCount chunkSize content.length,
    hashes[k]? = some (platform.blake3 (piece chunkSize content k))
  offset : ∀ k < pieceCount chunkSize content.length,
    chunkOffset platform k chunkSize = k * chunkSize
  len : ∀ k < pieceCount chunkSize content.length,
    chunkLen platform content.length k chunkSize = (piece chunkSize content k).length
  accepted : ChunksAccepted platform chunkSize content hashes

section Boundaries

variable {platform : Platform} {chunkSize : Nat} {content : Bytes} {hashes : List String}

/-- One hash for each piece is the hashes of the pieces. -/
theorem hashes_eq_pieces_iff :
    (hashes.length = pieceCount chunkSize content.length ∧
      ∀ k < pieceCount chunkSize content.length,
        hashes[k]? = some (platform.blake3 (piece chunkSize content k))) ↔
      hashes = (pieces chunkSize content).map platform.blake3 := by
  have size : ((pieces chunkSize content).map platform.blake3).length =
      pieceCount chunkSize content.length := by
    rw [List.length_map, pieces, List.length_map, List.length_range]
  have at' : ∀ k < pieceCount chunkSize content.length,
      ((pieces chunkSize content).map platform.blake3)[k]? =
        some (platform.blake3 (piece chunkSize content k)) := by
    intro k inside
    rw [List.getElem?_map, pieces, List.getElem?_map, List.getElem?_range inside]
    rfl
  constructor
  · rintro ⟨count, nth⟩
    refine List.ext_getElem? fun k => ?_
    rcases Nat.lt_or_ge k (pieceCount chunkSize content.length) with inside | past
    · rw [nth k inside, at' k inside]
    · rw [List.getElem?_eq_none (count ▸ past), List.getElem?_eq_none (size ▸ past)]
  · rintro rfl
    exact ⟨size, at'⟩

/-- A piece, from its own offset. -/
theorem take_chunkLen {k : Nat} (fits : k * chunkSize < 2 ^ platform.pointerWidth) :
    (content.drop (chunkOffset platform k chunkSize)).take
      (chunkLen platform content.length k chunkSize) = piece chunkSize content k := by
  have same : chunkOffset platform k chunkSize = k * chunkSize := Nat.mod_eq_of_lt fits
  rw [chunkLen, same, ← List.length_drop, Nat.min_comm, ← List.take_take, List.take_length, piece]

/-- Where the hashes are those of the pieces and the offsets fit, the boundaries agree. -/
theorem boundariesAgree_of_pieces (same : hashes = (pieces chunkSize content).map platform.blake3)
    (fits : ∀ k < pieceCount chunkSize content.length, k * chunkSize < 2 ^ platform.pointerWidth) :
    BoundariesAgree platform chunkSize content hashes := by
  obtain ⟨count, nth⟩ := hashes_eq_pieces_iff.mpr same
  refine ⟨count, nth, fun k inside => Nat.mod_eq_of_lt (fits k inside), fun k inside => ?_, ?_⟩
  · rw [chunkLen_eq (fits k inside), length_piece, pieceSize, Nat.min_comm]
  · intro k expected listed w src dst calm source target
    have inside : k < pieceCount chunkSize content.length :=
      count ▸ (List.getElem?_eq_some_iff.mp listed).1
    obtain ⟨old, there⟩ := Option.isSome_iff_exists.mp target
    have before := mul_lt_of_lt_pieceCount inside
    have offset : chunkOffset platform k chunkSize = k * chunkSize :=
      Nat.mod_eq_of_lt (fits k inside)
    have within : chunkOffset platform k chunkSize + chunkLen platform content.length k chunkSize ≤
        content.length := by
      rw [chunkLen, offset]
      omega
    have hash : platform.blake3 ((content.drop (chunkOffset platform k chunkSize)).take
        (chunkLen platform content.length k chunkSize)) = expected := by
      rw [take_chunkLen (fits k inside)]
      exact Option.some.inj ((nth k inside).symm.trans listed)
    obtain ⟨_, w', ran, _⟩ := (calm_copyChunk calm source there within hash).returns ⟨rfl, rfl⟩
    exact ⟨w', ran⟩

end Boundaries

/-- **The chunk boundaries depend on the reads**: `hash_file` returns the hash of the content and the
hashes of the ranges that the transfer reads, if and only if every read fills the buffer and no
offset overflows. -/
theorem hashFile_boundaries_iff {platform : Platform} (injective : Function.Injective platform.blake3)
    {w : World} (calm : w.env.Calm) {path : Path} {loc : Loc} {content : Bytes}
    (leads : w.fs.resolve w.env.cwd path = some loc) (found : w.fs.content loc = some content)
    {chunkSize : Nat} (positive : 0 < chunkSize) :
    ∃ hashes w', hashFile platform path chunkSize w = .ok (platform.blake3 content, hashes) w' ∧
      (BoundariesAgree platform chunkSize content hashes ↔
        ReadsFill w.env (w.clock + 1) chunkSize content.length ∧
          ∀ k < pieceCount chunkSize content.length, k * chunkSize < 2 ^ platform.pointerWidth) := by
  obtain ⟨⟨hash, hashes⟩, w', ran, ⟨isHash, areHashes⟩, _⟩ :=
    (hashFile_parts calm.still (never_stops calm) leads found chunkSize w.clock).returns (s := w) rfl
  have enough : content.length < content.length + 1 := Nat.lt_succ_self _
  have whole : (readParts w.env (w.clock + 1) chunkSize content).flatten = content :=
    flatten_parts positive enough
  obtain rfl : hash = platform.blake3 content := isHash.trans (congrArg _ whole)
  refine ⟨hashes, w', ran, fun agree => ⟨?_, fun k inside => ?_⟩, fun ⟨full, fits⟩ => ?_⟩
  · have same := hashes_eq_pieces_iff.mp ⟨agree.count, agree.nth⟩
    have cuts := List.map_injective_iff.mpr injective (areHashes.symm.trans same)
    exact (parts_eq_pieces_iff positive enough).mp cuts
  · rw [← agree.offset k inside]
    exact Nat.mod_lt _ (Nat.two_pow_pos _)
  · refine boundariesAgree_of_pieces (areHashes.trans (congrArg _ ?_)) fits
    exact (parts_eq_pieces_iff positive enough).mpr full

/-! ### The small tree, read in full and byte by byte -/

/-- In the small tree the reads fill the buffer, so the boundaries agree. -/
theorem hashFile_boundaries_sample :
    ∃ hashes w', hashFile samplePlatform (.ofString "/s") 2 sampleWorld =
        .ok (samplePlatform.blake3 [104, 105], hashes) w' ∧
      BoundariesAgree samplePlatform 2 [104, 105] hashes := by
  obtain ⟨hashes, w', ran, agree⟩ := @hashFile_boundaries_iff samplePlatform sampleHash_injective
    sampleWorld ⟨fun _ _ => rfl, fun _ => rfl⟩ (.ofString "/s") sampleRoot [104, 105]
    (by decide +kernel) (by decide +kernel) 2 (by decide)
  exact ⟨hashes, w', ran, agree.mpr ⟨by decide +kernel, by decide +kernel⟩⟩

/-- The same surroundings, but a read hands out one byte only. -/
def bytewiseEnv : Surroundings :=
  ⟨[], fun _ => false, fun _ => ⟨id, none, 1, 1, "0b0c1d5e-8a52-4a7e-9c43-2f7d1c9e3a60"⟩⟩

def bytewiseWorld : World := { sampleWorld with env := bytewiseEnv }

/-- What is built there. -/
def bytewiseManifest : TransferManifest where
  transferId := "0b0c1d5e-8a52-4a7e-9c43-2f7d1c9e3a60"
  rootName := "s"
  chunkSize := 2
  createdAt := 1
  entries := [⟨"s", 2, 7, sampleHash [104, 105], [sampleHash [104], sampleHash [105]], [0]⟩]

/-- The file of two bytes gets two chunks of one byte instead of one of two, and the transfer rejects
the manifest of the unchanged file. -/
theorem hashFile_splitsChunk :
    (∃ hashes w', hashFile samplePlatform (.ofString "/s") 2 bytewiseWorld =
        .ok (samplePlatform.blake3 [104, 105], hashes) w' ∧
      hashes.length ≠ pieceCount 2 2 ∧ ¬ BoundariesAgree samplePlatform 2 [104, 105] hashes) ∧
    ∃ w', buildManifest samplePlatform (.ofString "/s") 2 bytewiseWorld = .ok bytewiseManifest w' ∧
      returned (executeLocalTransfer samplePlatform sampleJob)
        ⟨bytewiseWorld, bytewiseManifest, 0, 0, []⟩ = none := by
  refine ⟨?_, ?_⟩
  · obtain ⟨w', ran⟩ : ∃ w', hashFile samplePlatform (.ofString "/s") 2 bytewiseWorld =
        .ok (samplePlatform.blake3 [104, 105], [sampleHash [104], sampleHash [105]]) w' :=
      ok_of_returned (by decide +kernel)
    have count : [sampleHash [104], sampleHash [105]].length ≠ pieceCount 2 2 := by decide
    exact ⟨_, w', ran, count, fun agree => count agree.count⟩
  · obtain ⟨w', built⟩ : ∃ w', buildManifest samplePlatform (.ofString "/s") 2 bytewiseWorld =
        .ok bytewiseManifest w' := ok_of_returned (by decide +kernel)
    exact ⟨w', built, by decide +kernel⟩

end SendRs
