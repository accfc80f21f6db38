/-
**What a set bit stands for.**

`chunkPresent` is the check that `verify_chunk_at` makes: the target file has the bytes of the chunk
where they belong, with the hash that the manifest gives. A chunk that is present stays present while
nobody writes to its file, while its file is given its size, and while other chunks of the file are
written, in whole or in part; a chunk that was copied is present (`copyChunk_window`).

`doneBytes` adds up the chunks whose bits are set, `presentBytes` those that are present.
-/

import SendRs.Transfer.Counting
import SendRs.Transfer.Trace
import SendRs.Transfer.Soundness

namespace SendRs

open Effect Pieces

/-! ### Chunks in the target -/

/-- `verify_chunk_at`, on the tree. -/
def chunkIntact (platform : Platform) (fs : FileSystem) (chunkSize : Nat) (file : Loc)
    (entry : ManifestEntry) (k : Nat) : Bool :=
  match fs.content file, entry.chunkHashes[k]? with
  | some content, some expected =>
    decide (chunkOffset platform k chunkSize + chunkLen platform entry.size k chunkSize ≤
        content.length) &&
      platform.blake3 ((content.drop (chunkOffset platform k chunkSize)).take
        (chunkLen platform entry.size k chunkSize)) == expected
  | _, _ => false

/-- The chunk of the entry is in the target, with the right hash. -/
def chunkPresent (platform : Platform) (fs : FileSystem) (cwd : Loc) (target : Path)
    (rootName : String) (single : Bool) (chunkSize : Nat) (entry : ManifestEntry) (k : Nat) : Bool :=
  match destLoc cwd target rootName single entry with
  | some file => chunkIntact platform fs chunkSize file entry k
  | none => false

/-- The bytes of the chunks with a property. -/
def bytesWhere (platform : Platform) (manifest : TransferManifest)
    (holds : ManifestEntry → Nat → Bool) : Nat :=
  (manifest.entries.map fun entry => ((List.range entry.chunkCount).map fun k =>
    if holds entry k then chunkLen platform entry.size k manifest.chunkSize else 0).sum).sum

/-- The bytes of the chunks whose bits are set. -/
def doneBytes (platform : Platform) (manifest : TransferManifest) : Nat :=
  bytesWhere platform manifest isChunkDone

/-- The bytes of the chunks that are in the target, with the right hash. -/
def presentBytes (platform : Platform) (fs : FileSystem) (cwd : Loc) (target : Path) (single : Bool)
    (manifest : TransferManifest) : Nat :=
  bytesWhere platform manifest
    (chunkPresent platform fs cwd target manifest.rootName single manifest.chunkSize)

section Present

variable {platform : Platform} {fs fs' : FileSystem} {cwd : Loc} {target : Path} {rootName : String}
  {single : Bool} {chunkSize : Nat} {file : Loc} {entry entry' : ManifestEntry} {k : Nat}

theorem chunkIntact_iff : chunkIntact platform fs chunkSize file entry k = true ↔
    ∃ content expected, fs.content file = some content ∧ entry.chunkHashes[k]? = some expected ∧
      chunkOffset platform k chunkSize + chunkLen platform entry.size k chunkSize ≤ content.length ∧
      platform.blake3 ((content.drop (chunkOffset platform k chunkSize)).take
        (chunkLen platform entry.size k chunkSize)) = expected := by
  unfold chunkIntact
  cases fs.content file with
  | none => simp
  | some content =>
    cases entry.chunkHashes[k]? with
    | none => simp
    | some expected =>
      constructor
      · intro intact
        simp only [Bool.and_eq_true, decide_eq_true_eq, beq_iff_eq] at intact
        exact ⟨content, expected, rfl, rfl, intact⟩
      · rintro ⟨_, _, same, same', inside, matched⟩
        cases same
        cases same'
        simp [inside, matched]

theorem chunkPresent_iff : chunkPresent platform fs cwd target rootName single chunkSize entry k = true ↔
    ∃ file, destLoc cwd target rootName single entry = some file ∧
      chunkIntact platform fs chunkSize file entry k = true := by
  unfold chunkPresent
  cases destLoc cwd target rootName single entry with
  | none => simp
  | some file => simp

/-- The bits of the entry do not matter. -/
theorem chunkPresent_bare (same : entry.bare = entry'.bare) :
    chunkPresent platform fs cwd target rootName single chunkSize entry k =
      chunkPresent platform fs cwd target rootName single chunkSize entry' k := by
  have hashes : entry.bare.chunkHashes = entry'.bare.chunkHashes := by rw [same]
  have size : entry.bare.size = entry'.bare.size := by rw [same]
  have hashes : entry.chunkHashes = entry'.chunkHashes := hashes
  have size : entry.size = entry'.size := size
  unfold chunkPresent chunkIntact
  rw [destLoc_bare same, hashes, size]

/-- A chunk stays as long as its file does. -/
theorem chunkIntact_mono (kept : ∀ content, fs.content file = some content →
      fs'.content file = some content)
    (intact : chunkIntact platform fs chunkSize file entry k = true) :
    chunkIntact platform fs' chunkSize file entry k = true := by
  obtain ⟨content, expected, found, rest⟩ := chunkIntact_iff.mp intact
  exact chunkIntact_iff.mpr ⟨content, expected, kept content found, rest⟩

/-- A chunk stays as long as its window does. -/
theorem chunkIntact_of_window {content content' : Bytes} (found : fs.content file = some content)
    (found' : fs'.content file = some content')
    (inside : chunkOffset platform k chunkSize + chunkLen platform entry.size k chunkSize ≤
      content'.length)
    (window : chunkOffset platform k chunkSize + chunkLen platform entry.size k chunkSize ≤
        content.length →
      (content'.drop (chunkOffset platform k chunkSize)).take
        (chunkLen platform entry.size k chunkSize) =
      (content.drop (chunkOffset platform k chunkSize)).take
        (chunkLen platform entry.size k chunkSize))
    (intact : chunkIntact platform fs chunkSize file entry k = true) :
    chunkIntact platform fs' chunkSize file entry k = true := by
  obtain ⟨other, expected, there, hash, fits, matched⟩ := chunkIntact_iff.mp intact
  obtain rfl := Option.some.inj (found.symm.trans there)
  exact chunkIntact_iff.mpr ⟨content', expected, found', hash, inside, by rw [window fits, matched]⟩

end Present

/-- More chunks, more bytes. -/
theorem bytesWhere_le {platform : Platform} {manifest : TransferManifest}
    {fewer more : ManifestEntry → Nat → Bool}
    (imp : ∀ entry ∈ manifest.entries, ∀ k < entry.chunkCount,
      chunkLen platform entry.size k manifest.chunkSize ≠ 0 → fewer entry k = true →
        more entry k = true) :
    bytesWhere platform manifest fewer ≤ bytesWhere platform manifest more := by
  unfold bytesWhere
  refine List.sum_le_sum fun entry member => List.sum_le_sum fun k inside => ?_
  by_cases holds : fewer entry k = true
  · rw [if_pos holds]
    by_cases empty : chunkLen platform entry.size k manifest.chunkSize = 0
    · rw [empty]
      exact Nat.zero_le _
    · rw [if_pos (imp entry member k (List.mem_range.mp inside) empty holds)]
  · rw [if_neg holds]
    exact Nat.zero_le _

/-! ### Bits and bytes -/

/-- Changing one member changes the sum by what it changes of the member. -/
theorem sum_map_modify {α : Type} (g : α → Nat) (f : α → α) : ∀ {l : List α} {i : Nat} {a : α},
    l[i]? = some a → ((l.modify i f).map g).sum + g a = (l.map g).sum + g (f a) := by
  intro l
  induction l with
  | nil =>
    intro i a found
    cases found
  | cons x l ih =>
    intro i a found
    cases i with
    | zero =>
      obtain rfl : x = a := Option.some.inj found
      rw [List.modify_zero_cons, List.map_cons, List.map_cons, List.sum_cons, List.sum_cons]
      omega
    | succ i =>
      have rest := ih (i := i) (by simpa using found)
      rw [List.modify_succ_cons, List.map_cons, List.map_cons, List.sum_cons, List.sum_cons]
      omega

/-- Changing one index changes the sum by what it changes there. -/
theorem sum_range_update {n k : Nat} (inside : k < n) {f g : Nat → Nat}
    (same : ∀ j, j ≠ k → g j = f j) :
    ((List.range n).map g).sum + f k = ((List.range n).map f).sum + g k := by
  induction n with
  | zero => exact absurd inside (Nat.not_lt_zero _)
  | succ n ih =>
    rw [List.range_succ, List.map_append, List.map_append, List.sum_append, List.sum_append,
      List.map_singleton, List.map_singleton, List.sum_singleton, List.sum_singleton]
    rcases Nat.lt_succ_iff_lt_or_eq.mp inside with before | rfl
    · have rest := ih before
      rw [same n (Nat.ne_of_gt before)]
      omega
    · have front : (List.range k).map g = (List.range k).map f :=
        List.map_congr_left fun j member => same j (Nat.ne_of_lt (List.mem_range.mp member))
      rw [front]
      omega

/-- The entry with one bit written. -/
def ManifestEntry.withBit (entry : ManifestEntry) (k : Nat) (value : Bool) : ManifestEntry :=
  { entry with resumeBitmap := setBitmap entry.resumeBitmap k value }

/-- The manifest with one bit written. -/
def TransferManifest.withBit (manifest : TransferManifest) (i k : Nat) (value : Bool) :
    TransferManifest :=
  { manifest with entries := manifest.entries.modify i (·.withBit k value) }

theorem getElem?_withBit {manifest : TransferManifest} {i : Nat} {entry : ManifestEntry}
    (found : manifest.entries[i]? = some entry) (k : Nat) (value : Bool) :
    (manifest.withBit i k value).entries[i]? = some (entry.withBit k value) := by
  rw [TransferManifest.withBit, List.getElem?_modify, found]
  simp

theorem isChunkDone_withBit_ne {entry : ManifestEntry} {j k : Nat} (different : j ≠ k)
    (value : Bool) : isChunkDone (entry.withBit k value) j = isChunkDone entry j :=
  getBitmap_setBitmap_ne _ (Ne.symm different) value

theorem isChunkDone_withBit {entry : ManifestEntry} {k : Nat}
    (reach : k / 8 < entry.resumeBitmap.length) (value : Bool) :
    isChunkDone (entry.withBit k value) k = value :=
  (getBitmap_setBitmap _ k k value).trans (if_pos ⟨rfl, reach⟩)

/-- What a write to one bit does to the bytes that the bits stand for. -/
theorem doneBytes_withBit (platform : Platform) {manifest : TransferManifest} {i k : Nat}
    {entry : ManifestEntry} (found : manifest.entries[i]? = some entry)
    (inside : k < entry.chunkCount) (reach : k / 8 < entry.resumeBitmap.length) (value : Bool) :
    doneBytes platform (manifest.withBit i k value) +
      (if isChunkDone entry k then chunkLen platform entry.size k manifest.chunkSize else 0) =
    doneBytes platform manifest +
      (if value then chunkLen platform entry.size k manifest.chunkSize else 0) := by
  let counted (entry : ManifestEntry) (k : Nat) : Nat :=
    if isChunkDone entry k then chunkLen platform entry.size k manifest.chunkSize else 0
  have chunks : ((List.range entry.chunkCount).map (counted (entry.withBit k value))).sum +
      counted entry k = ((List.range entry.chunkCount).map (counted entry)).sum +
        counted (entry.withBit k value) k :=
    sum_range_update inside fun j different => by
      show (if isChunkDone (entry.withBit k value) j then _ else 0) = _
      rw [isChunkDone_withBit_ne different]
      rfl
  have entries := sum_map_modify (fun entry => ((List.range entry.chunkCount).map (counted entry)).sum)
    (·.withBit k value) found
  have written : counted (entry.withBit k value) k =
      if value then chunkLen platform entry.size k manifest.chunkSize else 0 := by
    show (if isChunkDone (entry.withBit k value) k then _ else 0) = _
    rw [isChunkDone_withBit reach]
    rfl
  rw [written] at chunks
  have sums : ((manifest.entries.modify i (·.withBit k value)).map fun entry =>
      ((List.range entry.chunkCount).map (counted entry)).sum).sum + counted entry k =
        (manifest.entries.map fun entry => ((List.range entry.chunkCount).map (counted entry)).sum).sum +
          if value then chunkLen platform entry.size k manifest.chunkSize else 0 := by
    have count : (entry.withBit k value).chunkCount = entry.chunkCount := rfl
    simp only [count] at entries
    omega
  exact sums

/-- What `done_size` counts for an entry. -/
theorem doneSizeEntry_mod (platform : Platform) (chunkSize : Nat) (entry : ManifestEntry) :
    doneSizeEntry platform chunkSize entry = ((List.range entry.chunkCount).map fun k =>
      if isChunkDone entry k then chunkLen platform entry.size k chunkSize else 0).sum % 2 ^ 64 := by
  rw [doneSizeEntry, sumU64_mod]
  congr 1
  generalize List.range entry.chunkCount = indices
  induction indices with
  | nil => rfl
  | cons k indices ih =>
    rw [List.filterMap_cons, List.map_cons, List.sum_cons, ← ih]
    cases isChunkDone entry k with
    | true => exact List.sum_cons
    | false => exact (Nat.zero_add _).symm

/-- **What `done_size` counts** are the bytes of the chunks whose bits are set, in a `u64`. -/
theorem doneSize_mod (platform : Platform) (manifest : TransferManifest) :
    doneSize platform manifest = doneBytes platform manifest % 2 ^ 64 := by
  have sums : manifest.entries.map (doneSizeEntry platform manifest.chunkSize) =
      (manifest.entries.map fun entry => ((List.range entry.chunkCount).map fun k =>
        if isChunkDone entry k then chunkLen platform entry.size k manifest.chunkSize else 0).sum).map
          (· % 2 ^ 64) := by
    rw [List.map_map]
    exact List.map_congr_left fun entry _ => doneSizeEntry_mod platform manifest.chunkSize entry
  rw [doneSize, sumU64_mod, sums, ← List.sum_nat_mod]
  rfl

/-- It is at most what there is to count. -/
theorem doneSize_le (platform : Platform) (manifest : TransferManifest) :
    doneSize platform manifest ≤ doneBytes platform manifest := by
  rw [doneSize_mod]
  exact Nat.mod_le _ _

/-! ### Writing a chunk -/

/-- What is kept is in its place, and the file holds the content. -/
structure OnFile (env : Surroundings) (kept : Loc → Node → Prop) (file : Loc) (content : Bytes)
    (w : World) : Prop where
  holds : Holds env kept w
  there : w.fs.content file = some content

section OnFile

variable {platform : Platform} {env : Surroundings} {kept : Loc → Node → Prop} {file : Loc}
  {content : Bytes}

/-- What leaves every file alone leaves this one alone. -/
theorem onFile_of_keeps {α : Type} {prog : Sys α}
    (keeps : ∀ modified, Keeps (Holds env fun loc there =>
      kept loc there ∨ loc = file ∧ there = .file content modified) prog) :
    Keeps (OnFile env kept file content) prog := by
  rintro w ⟨holds, there⟩
  obtain ⟨modified, found⟩ := FileSystem.content_eq_some.mp there
  refine (keeps modified).conseq (fun _ start => start) ?_ ?_ w ⟨holds.env_eq, ?_⟩
  · exact fun _ w' holds' => ⟨holds'.mono fun _ _ member => Or.inl member,
      FileSystem.content_eq_some.mpr ⟨modified, holds'.node_eq _ _ (Or.inr ⟨rfl, rfl⟩)⟩⟩
  · exact fun _ w' holds' => ⟨holds'.mono fun _ _ member => Or.inl member,
      FileSystem.content_eq_some.mpr ⟨modified, holds'.node_eq _ _ (Or.inr ⟨rfl, rfl⟩)⟩⟩
  · rintro loc node (member | ⟨rfl, rfl⟩)
    · exact holds.node_eq loc node member
    · exact found

theorem spares_file (spares : env.Spares kept) (alone : env.SparesLoc file) (modified : Int) :
    env.Spares fun loc there => kept loc there ∨ loc = file ∧ there = .file content modified := by
  rintro loc there (member | ⟨rfl, _⟩)
  · exact spares loc there member
  · exact alone

/-- A write to the file. -/
theorem onFile_put {w : World} (onFile : OnFile env kept file content w)
    (outside : Outside kept file) (content' : Bytes) (modified : Int) :
    OnFile env kept file content' { w with fs := w.fs.put file (.file content' modified) } := by
  obtain ⟨_, found⟩ := FileSystem.content_eq_some.mp onFile.there
  exact ⟨onFile.holds.put outside _, FileSystem.content_eq_some.mpr
    ⟨modified, FileSystem.node_put_same (FileSystem.free_of_file found) _⟩⟩

/-- Writing all bytes, or a part of them and failing. -/
theorem writeAll_onFile (spares : env.Spares kept) (alone : env.SparesLoc file)
    (outside : Outside kept file) {offset : Nat} (inside : offset ≤ content.length) (bytes : Bytes) :
    Triple (OnFile env kept file content) (writeAll file offset bytes)
      (fun _ => OnFile env kept file (patch 0 content offset bytes))
      (fun _ w => ∃ n, OnFile env kept file (patch 0 content offset (bytes.take n)) w) := by
  have nothing : patch 0 content offset (bytes.take 0) = content := by
    rw [List.take_zero, patch, List.takeD_eq_take _ inside, List.append_nil, List.length_nil,
      Nat.add_zero, List.take_append_drop]
  have unchanged : ∀ w, OnFile env kept file content w →
      ∃ n, OnFile env kept file (patch 0 content offset (bytes.take n)) w :=
    fun w onFile => ⟨0, nothing.symm ▸ onFile⟩
  refine Triple.bind ((onFile_of_keeps fun modified =>
    keeps_turn (spares_file spares alone modified)).conseq (fun _ start => start)
    (fun _ _ holds => holds) fun _ => unchanged) fun t => ?_
  refine Triple.bind (M := fun there w => there = some content ∧ OnFile env kept file content w)
    (Triple.observe fun w onFile => ⟨onFile.there, onFile⟩) fun there => Triple.given fun same => ?_
  subst same
  cases t.fault with
  | none => exact Triple.update fun w onFile => onFile_put onFile outside _ _
  | some fault =>
    cases fault with
    | before => exact Triple.throw unchanged
    | after n =>
      refine Triple.bind (M := fun _ => OnFile env kept file (patch 0 content offset (bytes.take n)))
        (Triple.update fun w onFile => onFile_put onFile outside _ _) fun _ => ?_
      exact Triple.throw fun w onFile => ⟨n, onFile⟩

/-- What is read has the length that was asked for. -/
theorem readExact_length {inv : World → Prop} {failed : Error → World → Prop}
    (called : Triple inv call (fun _ => inv) failed) (stops : ∀ error w, inv w → failed error w)
    {src : Loc} {offset len : Nat} :
    Triple inv (readExact src offset len) (fun buf w => buf.length = len ∧ inv w) failed := by
  refine Triple.bind called fun _ => Triple.bind (M := fun _ => inv)
    (Triple.observe fun _ holds => holds) fun there => ?_
  cases there with
  | none => exact Triple.throw fun w holds => stops _ w holds
  | some bytes =>
    refine Triple.ite (fun inside => Triple.pure fun w holds => ⟨?_, holds⟩) fun _ =>
      Triple.throw fun w holds => stops _ w holds
    rw [List.length_take, List.length_drop]
    omega

/-- **Verifying a chunk** says yes of a chunk that is intact, and of no other. -/
theorem verifyChunkAt_onFile (spares : env.Spares kept) (alone : env.SparesLoc file)
    (offset len : Nat) (expected : String) :
    Triple (OnFile env kept file content) (verifyChunkAt platform file offset len expected)
      (fun intact w => (intact = true ↔ offset + len ≤ content.length ∧
        platform.blake3 ((content.drop offset).take len) = expected) ∧
          OnFile env kept file content w)
      (fun _ => OnFile env kept file content) := by
  have called : Triple (OnFile env kept file content) call (fun _ => OnFile env kept file content)
      fun _ => OnFile env kept file content :=
    onFile_of_keeps fun modified => keeps_call (spares_file spares alone modified)
  have seeks : Keeps (OnFile env kept file content) seek :=
    Triple.bind called fun _ => Triple.pure fun _ onFile => onFile
  refine Triple.bind (Triple.context seeks) fun _ => ?_
  refine Triple.bind (M := fun buf w => (offset + len ≤ content.length ∧
    buf = (content.drop offset).take len) ∧ OnFile env kept file content w)
    (Triple.context (Triple.bind called fun _ => ?_)) fun buf => ?_
  · refine Triple.bind (M := fun there w => there = some content ∧ OnFile env kept file content w)
      (Triple.observe fun w onFile => ⟨onFile.there, onFile⟩) fun there => Triple.given fun same => ?_
    subst same
    exact Triple.ite (fun inside => Triple.pure fun w onFile => ⟨⟨inside, rfl⟩, onFile⟩)
      fun _ => Triple.throw fun _ onFile => onFile
  · refine Triple.given fun ⟨inside, isBuf⟩ => Triple.pure fun w onFile => ⟨?_, onFile⟩
    rw [isBuf]
    exact beq_iff_eq.trans (and_iff_right inside).symm

/-- **Copying a chunk** writes bytes with its hash at its offset; when it fails, it has written a
part of such bytes, or nothing. -/
theorem copyChunk_onFile (spares : env.Spares kept) (alone : env.SparesLoc file)
    (outside : Outside kept file) {src : Loc} {offset readLen : Nat} {expected : String}
    (inside : offset ≤ content.length) :
    Triple (OnFile env kept file content) (copyChunk platform src file offset readLen expected)
      (fun _ w => ∃ buf, (buf.length = readLen ∧ platform.blake3 buf = expected) ∧
        OnFile env kept file (patch 0 content offset buf) w)
      (fun _ w => ∃ buf, buf.length ≤ readLen ∧
        OnFile env kept file (patch 0 content offset buf) w) := by
  have nothing : patch 0 content offset [] = content := by
    rw [patch, List.takeD_eq_take _ inside, List.append_nil, List.length_nil, Nat.add_zero,
      List.take_append_drop]
  have unchanged : ∀ w, OnFile env kept file content w → ∃ buf, buf.length ≤ readLen ∧
      OnFile env kept file (patch 0 content offset buf) w :=
    fun w onFile => ⟨[], Nat.zero_le _, nothing.symm ▸ onFile⟩
  have seeks : Triple (OnFile env kept file content) seek (fun _ => OnFile env kept file content)
      fun _ w => ∃ buf, buf.length ≤ readLen ∧
        OnFile env kept file (patch 0 content offset buf) w :=
    (onFile_of_keeps fun modified => keeps_seek (spares_file spares alone modified)).conseq
      (fun _ start => start) (fun _ _ holds => holds) fun _ => unchanged
  refine Triple.bind (Triple.context seeks) fun _ => ?_
  have called : Triple (OnFile env kept file content) call (fun _ => OnFile env kept file content)
      fun _ w => ∃ buf, buf.length ≤ readLen ∧
        OnFile env kept file (patch 0 content offset buf) w :=
    (onFile_of_keeps fun modified => keeps_call (spares_file spares alone modified)).conseq
      (fun _ start => start) (fun _ _ holds => holds) fun _ => unchanged
  refine Triple.bind (Triple.context (readExact_length called fun _ => unchanged)) fun buf =>
    Triple.given fun length => ?_
  refine Triple.ite (fun _ => Triple.throw unchanged) fun matched => ?_
  refine Triple.bind (Triple.context seeks) fun _ => ?_
  refine Triple.context ((writeAll_onFile spares alone outside inside buf).conseq
    (fun _ start => start) (fun _ w onFile => ⟨buf, ⟨length, not_not.mp matched⟩, onFile⟩) ?_)
  rintro _ w ⟨n, onFile⟩
  refine ⟨buf.take n, ?_, onFile⟩
  rw [List.length_take, length]
  exact Nat.min_le_right _ _

end OnFile

end SendRs
