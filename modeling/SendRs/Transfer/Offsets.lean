/-
**Chunk offsets.**

The offset of a chunk is a product in `usize` that is widened to `u64` afterwards, so on a 32-bit
platform it wraps at the end of a large file. The last offset of an entry decides: the offsets of a
manifest are the mathematical ones, and its chunks and `done_size` add up, if and only if the last
chunk of each entry starts below `2 ^ pointerWidth` (`offsetsSound_iff_fit`, `offsetsFit_iff`). Where
the reads fill the buffer, the last chunk of a file starts before its end, which on a 64-bit platform
is enough (`ManifestOf.offsetsFit_iff`).
-/

import SendRs.Transfer.Tally

namespace SendRs

open Effect Pieces Tally

/-- The offsets that are computed are the mathematical ones, the chunks of an entry make up its file,
and `done_size` is at most `total_size`, whatever the bitmaps are. -/
structure OffsetsSound (platform : Platform) (m : TransferManifest) : Prop where
  exact : ∀ entry ∈ m.entries, ∀ k < entry.chunkCount,
    chunkOffset platform k m.chunkSize = k * m.chunkSize
  lengths : ∀ entry ∈ m.entries,
    ∑ k ∈ Finset.range entry.chunkCount, chunkLen platform entry.size k m.chunkSize = entry.size
  bounded : ∀ m' : TransferManifest, m'.bare = m.bare → doneSize platform m' ≤ totalSize m'

section Fit

variable {platform : Platform} {m : TransferManifest}

/-- An offset that is exact fits. -/
theorem chunkOffset_eq_iff {k chunkSize : Nat} :
    chunkOffset platform k chunkSize = k * chunkSize ↔ k * chunkSize < 2 ^ platform.pointerWidth := by
  constructor
  · intro same
    rw [← same]
    exact Nat.mod_lt _ (Nat.two_pow_pos _)
  · exact Nat.mod_eq_of_lt

/-- The last offset of each entry decides. -/
theorem offsetsFit_iff :
    OffsetsFit platform m ↔
      ∀ entry ∈ m.entries, (entry.chunkCount - 1) * m.chunkSize < 2 ^ platform.pointerWidth := by
  constructor
  · intro offsets entry member
    rcases Nat.eq_zero_or_pos entry.chunkCount with none | some
    · rw [none, Nat.zero_sub, Nat.zero_mul]
      exact Nat.two_pow_pos _
    · exact offsets entry member _ (Nat.sub_one_lt_of_lt some)
  · intro last entry member k inside
    have before : k * m.chunkSize ≤ (entry.chunkCount - 1) * m.chunkSize :=
      Nat.mul_le_mul_right _ (Nat.le_sub_one_of_lt inside)
    exact Nat.lt_of_le_of_lt before (last entry member)

/-- **Offsets that fit are sound**, for chunks that reach the end of their file, and others are not. -/
theorem offsetsSound_iff_fit (small : (m.entries.map ManifestEntry.size).sum < 2 ^ 64)
    (reach : ∀ entry ∈ m.entries, entry.size ≤ entry.chunkCount * m.chunkSize) :
    OffsetsSound platform m ↔ OffsetsFit platform m := by
  constructor
  · exact fun sound entry member k inside => chunkOffset_eq_iff.mp (sound.exact entry member k inside)
  · intro offsets
    refine ⟨fun entry member k inside => chunkOffset_eq_iff.mpr (offsets entry member k inside), ?_, ?_⟩
    · intro entry member
      have sizes : ∀ k ∈ Finset.range entry.chunkCount, chunkLen platform entry.size k m.chunkSize =
          pieceSize m.chunkSize entry.size k := fun k inside =>
        chunkLen_eq (offsets entry member k (Finset.mem_range.mp inside))
      rw [Finset.sum_congr rfl sizes, sum_pieceSize, Nat.min_eq_right (reach entry member)]
    · intro m' same
      have small' : (m'.entries.map ManifestEntry.size).sum < 2 ^ 64 := by
        rw [sizes_bare same]
        exact small
      have offsets' := offsetsFit_bare same.symm offsets
      rw [doneSize_eq_talliedSum small' offsets', totalSize_eq small']
      exact (talliedSum_le _ _ _).trans (sum_chunkWeight_le offsets')

/-- Where the reads fill the buffer, the offsets fit on a 64-bit platform, and on a 32-bit one if the
last chunk of each file starts below `2 ^ 32`. -/
theorem ManifestOf.offsetsFit_iff {env : Surroundings} {fs : FileSystem} {chunkSize : Nat} {root : Loc}
    {single : Bool} (described : ManifestOf platform env fs chunkSize root single m)
    (fills : env.FillsBuffers (effectiveChunkSize chunkSize))
    (small : (m.entries.map ManifestEntry.size).sum < 2 ^ 64) :
    OffsetsFit platform m ↔ platform.pointerWidth = 64 ∨
      ∀ file ∈ sourceFiles env fs root, ∀ content, fs.content file = some content →
        (pieceCount (effectiveChunkSize chunkSize) content.length - 1) *
          effectiveChunkSize chunkSize < 2 ^ 32 := by
  rw [SendRs.offsetsFit_iff, described.chunkSize_eq]
  -- the entry of a file has one chunk for each piece
  have count {content : Bytes} {relativePath : String} {entry : ManifestEntry}
      (describes : Describes platform env (effectiveChunkSize chunkSize) content relativePath entry) :
      entry.chunkCount = pieceCount (effectiveChunkSize chunkSize) content.length := by
    rw [ManifestEntry.chunkCount, describes.chunkHashes_eq fills, List.length_map, pieces,
      List.length_map, List.length_range]
  constructor
  · intro last
    rcases platform.supported with narrow | wide
    · refine Or.inr fun file member content found => ?_
      obtain ⟨entry, listed, was, here, describes⟩ := forall₂_partner described.entries member
      obtain rfl : content = was := Option.some.inj (found.symm.trans here)
      have fits := last entry listed
      rwa [count describes, narrow] at fits
    · exact Or.inl wide
  · intro condition entry listed
    obtain ⟨file, member, content, found, describes⟩ := forall₂_partner described.entries.flip listed
    rw [count describes]
    rcases condition with wide | narrow
    · -- the last piece starts before the end of the file
      rw [wide]
      have size : content.length < 2 ^ 64 := by
        rw [← describes.size_eq]
        exact size_lt small entry listed
      rcases Nat.eq_zero_or_pos (pieceCount (effectiveChunkSize chunkSize) content.length)
        with none | some
      · rw [none, Nat.zero_sub, Nat.zero_mul]
        exact Nat.two_pow_pos _
      · exact (mul_lt_of_lt_pieceCount (Nat.sub_one_lt_of_lt some)).trans size
    · have atMost : 2 ^ 32 ≤ 2 ^ platform.pointerWidth := by
        refine Nat.pow_le_pow_right (by decide) ?_
        rcases platform.supported with width | width <;> omega
      exact Nat.lt_of_lt_of_le (narrow file member content found) atMost

end Fit

/-- **Chunk offsets never wrap**, in a manifest that was built, if and only if the last chunk of each
entry starts below `2 ^ pointerWidth`; where the reads fill the buffer, that is on a 64-bit platform
always, and on a 32-bit one if the last chunk of each file starts below `2 ^ 32`. -/
theorem buildManifest_offsets_iff {platform : Platform} {path : Path} {chunkSize : Nat}
    {w w' : World} {m : TransferManifest} {root : Loc} (still : w.env.Still)
    (leads : w.fs.resolve w.env.cwd path = some root)
    (built : buildManifest platform path chunkSize w = .ok m w')
    (small : (m.entries.map ManifestEntry.size).sum < 2 ^ 64) :
    (OffsetsSound platform m ↔
      ∀ entry ∈ m.entries, (entry.chunkCount - 1) * m.chunkSize < 2 ^ platform.pointerWidth) ∧
    (w.env.FillsBuffers (effectiveChunkSize chunkSize) →
      (OffsetsSound platform m ↔ platform.pointerWidth = 64 ∨
        ∀ file ∈ sourceFiles w.env w.fs root, ∀ content, w.fs.content file = some content →
          (pieceCount (effectiveChunkSize chunkSize) content.length - 1) *
            effectiveChunkSize chunkSize < 2 ^ 32)) := by
  obtain ⟨⟨root', single, resolved, described⟩, _⟩ :=
    (buildManifest_stands still path chunkSize).of_ok ⟨rfl, rfl⟩ built
  obtain rfl : root = root' := Option.some.inj (leads.symm.trans resolved)
  obtain ⟨⟨size, reads⟩, _⟩ := (buildManifest_reads still path chunkSize).of_ok ⟨rfl, rfl⟩ built
  have reach : ∀ entry ∈ m.entries, entry.size ≤ entry.chunkCount * m.chunkSize := by
    intro entry member
    obtain ⟨content, read⟩ := reads entry member
    rw [size]
    exact read.size_le (effectiveChunkSize_pos chunkSize)
  have sound : OffsetsSound platform m ↔ OffsetsFit platform m := offsetsSound_iff_fit small reach
  exact ⟨sound.trans offsetsFit_iff, fun fills => sound.trans (described.offsetsFit_iff fills small)⟩

/-- The small manifest has sound offsets. -/
theorem buildManifest_offsets_sample :
    (∃ w', buildManifest samplePlatform (.ofString "/s") 2 sampleWorld =
      .ok (sampleManifest [0]) w') ∧ OffsetsSound samplePlatform (sampleManifest [0]) := by
  obtain ⟨w', built⟩ := sample_built
  have grants : 2 ≤ 1024 := by decide
  have fills : sampleWorld.env.FillsBuffers (effectiveChunkSize 2) := fun _ => grants
  have leads : sampleWorld.fs.resolve sampleWorld.env.cwd (.ofString "/s") = some sampleRoot := by
    decide +kernel
  have small : ((sampleManifest [0]).entries.map ManifestEntry.size).sum < 2 ^ 64 := by
    decide +kernel
  obtain ⟨_, sound⟩ := @buildManifest_offsets_iff samplePlatform (.ofString "/s") 2 sampleWorld w'
    (sampleManifest [0]) sampleRoot (fun _ _ => rfl) leads built small
  exact ⟨⟨w', built⟩, (sound fills).mpr (Or.inl rfl)⟩

/-! ### A file that is too large for a 32-bit platform -/

/-- What `build_manifest` makes of a single file, when no call fails. -/
theorem buildManifest_file (platform : Platform) {w : World} (calm : w.env.Calm) {path : Path}
    {loc : Loc} {content : Bytes} (leads : w.fs.resolve w.env.cwd path = some loc)
    (found : w.fs.content loc = some content) (chunkSize : Nat) :
    ∃ m w', buildManifest platform path chunkSize w = .ok m w' ∧
      m.chunkSize = effectiveChunkSize chunkSize ∧ ∃ entry k, m.entries = [entry] ∧
        entry.size = content.length ∧ entry.chunkHashes =
          (readParts w.env k (effectiveChunkSize chunkSize) content).map platform.blake3 := by
  obtain ⟨modified, there⟩ := FileSystem.content_eq_some.mp found
  have itself {cwd : Loc} : w.fs.resolve cwd (.ofLoc loc) = some loc := FileSystem.resolve_ofLoc there
  have entry (relativePath : String) : Triple (Stands w.env w.fs)
      (buildEntry platform (.ofLoc loc) relativePath (effectiveChunkSize chunkSize))
      (fun entry w' => (∃ k, entry.size = content.length ∧ entry.chunkHashes =
        (readParts w.env k (effectiveChunkSize chunkSize) content).map platform.blake3) ∧
          Stands w.env w.fs w') Never := by
    refine triple_of_at fun k => (buildEntry_parts calm.still (never_stops calm) itself there _ _
      k).post ?_
    rintro entry w' ⟨rfl, k', rfl⟩
    exact ⟨⟨k + 2, rfl, rfl⟩, rfl, rfl⟩
  have builds : Triple (Stands w.env w.fs) (buildManifest platform path chunkSize)
      (fun m w' => (m.chunkSize = effectiveChunkSize chunkSize ∧ ∃ entry k, m.entries = [entry] ∧
        entry.size = content.length ∧ entry.chunkHashes =
          (readParts w.env k (effectiveChunkSize chunkSize) content).map platform.blake3) ∧
            Stands w.env w.fs w') Never := by
    refine Triple.bind (Triple.context (calm_openRead calm leads there)) fun root => ?_
    refine Triple.given fun same => ?_
    subst same
    refine Triple.bind (calm_isFile calm (.ofLoc root)) fun single => Triple.given fun isSingle => ?_
    rw [itself, Option.bind_some, found] at isSingle
    subst isSingle
    refine Triple.bind (M := fun entries w' => (∃ entry k, entries = [entry] ∧
      entry.size = content.length ∧ entry.chunkHashes =
        (readParts w.env k (effectiveChunkSize chunkSize) content).map platform.blake3) ∧
          Stands w.env w.fs w') ?_ fun entries => Triple.given fun listed => ?_
    · refine Triple.bind (entry _) fun entry => Triple.given fun ⟨k, built⟩ => ?_
      exact Triple.pure fun _ stands => ⟨⟨entry, k, rfl, built⟩, stands⟩
    · refine Triple.bind (calm_turn calm) fun t => Triple.given fun _ => ?_
      exact Triple.pure fun _ stands => ⟨⟨rfl, listed⟩, stands⟩
  obtain ⟨m, w', ran, described, _⟩ := builds.returns ⟨rfl, rfl⟩
  exact ⟨m, w', ran, described⟩

/-- A 32-bit platform. -/
def narrowPlatform : Platform := { samplePlatform with pointerWidth := 32, supported := Or.inl rfl }

/-- A world with the file `/s`, whose reads hand out up to the default chunk size. -/
def fileWorld (content : Bytes) : World where
  env := ⟨[], fun _ => false,
    fun _ => ⟨id, none, defaultChunkSize, 1, "0b0c1d5e-8a52-4a7e-9c43-2f7d1c9e3a60"⟩⟩
  fs := FileSystem.empty.put sampleRoot (.file content 7)
  clock := 0

/-- With the default chunk size, the last chunk of a file of `2 ^ 32 + 1` bytes has the offset 0 on a
32-bit platform. -/
theorem buildManifest_offsets_wrap :
    ∃ m w', buildManifest narrowPlatform (.ofString "/s") 0
        (fileWorld (List.replicate (2 ^ 32 + 1) 0)) = .ok m w' ∧
      (m.entries.map ManifestEntry.size).sum = 2 ^ 32 + 1 ∧
      (∃ entry ∈ m.entries, 4096 < entry.chunkCount ∧ entry.chunkCount < 2 ^ 32 ∧
        chunkOffset narrowPlatform 4096 m.chunkSize = 0) ∧
      ¬ OffsetsSound narrowPlatform m := by
  have general : ∀ content : Bytes, content.length = 2 ^ 32 + 1 →
      ∃ m w', buildManifest narrowPlatform (.ofString "/s") 0 (fileWorld content) = .ok m w' ∧
        (m.entries.map ManifestEntry.size).sum = 2 ^ 32 + 1 ∧
        (∃ entry ∈ m.entries, 4096 < entry.chunkCount ∧ entry.chunkCount < 2 ^ 32 ∧
          chunkOffset narrowPlatform 4096 m.chunkSize = 0) ∧
        ¬ OffsetsSound narrowPlatform m := by
    intro content length
    have calm : (fileWorld content).env.Calm := ⟨fun _ _ => rfl, fun _ => rfl⟩
    have free : FileSystem.empty.Free sampleRoot := by decide +kernel
    have found : (fileWorld content).fs.content sampleRoot = some content :=
      FileSystem.content_eq_some.mpr ⟨7, FileSystem.node_put_same free _⟩
    have spells : Path.ofString "/s" = .ofLoc sampleRoot := by decide +kernel
    have leads : (fileWorld content).fs.resolve (fileWorld content).env.cwd (.ofString "/s") =
        some sampleRoot := by
      rw [spells]
      exact FileSystem.resolve_ofLoc (FileSystem.node_put_same free _)
    obtain ⟨m, w', ran, size, entry, k, entries, isSize, chunks⟩ :=
      buildManifest_file narrowPlatform calm leads found 0
    have default : effectiveChunkSize 0 = 2 ^ 20 := by decide
    have full : ReadsFill (fileWorld content).env k (2 ^ 20) content.length :=
      Surroundings.FillsBuffers.readsFill (fun _ => Nat.le_refl (2 ^ 20)) k content.length
    have count : entry.chunkCount = 4097 := by
      rw [ManifestEntry.chunkCount, chunks, List.length_map, default, readParts,
        (parts_eq_pieces_iff (by decide) (Nat.lt_succ_self _)).mpr full, pieces, List.length_map,
        List.length_range, length]
      decide
    have wrapped : chunkOffset narrowPlatform 4096 m.chunkSize = 0 := by
      rw [size, default]
      decide
    refine ⟨m, w', ran, ?_, ⟨entry, ?_, ?_, ?_, wrapped⟩, fun sound => ?_⟩
    · rw [entries, List.map_singleton, List.sum_singleton, isSize, length]
    · rw [entries]
      exact List.mem_singleton.mpr rfl
    · rw [count]
      decide
    · rw [count]
      decide
    · have listed : entry ∈ m.entries := by
        rw [entries]
        exact List.mem_singleton.mpr rfl
      have offset := sound.exact entry listed 4096 (by rw [count]; decide)
      rw [wrapped, size, default] at offset
      exact absurd offset (by decide)
  exact general _ List.length_replicate

end SendRs
