/-
**Incremental progress is recomputed progress.**

`execute_local_transfer` keeps a counter of the bytes done beside the bitmaps: it starts as
`done_size`, loses the size of a chunk whose bit was wrong and gains the size of a chunk that was
copied. The chunks that are counted are those that the loops have left behind and, of the others,
those whose bits are set; the counter is their tally.

The ghost of a tallied run collects the progress events, each with the manifest at that moment, and
for each subtraction what was subtracted from what. `Tallied` is the invariant of the two loops, with
the place up to which chunks are counted, the place up to which they are marked, and what the counter
still owes between a chunk's subtraction and its copy. `talliedChunk_spec` is one round of the chunk
loop.

Result: `progress_exact`.
-/

import SendRs.Library.Tally
import SendRs.Transfer.Checkpoints
import SendRs.Transfer.Reads

namespace SendRs

open Effect Tally

/-- What is collected of a run: the progress events with the manifests of their moments, and the
subtractions, each with the counter before it and the number that is subtracted. -/
structure TallyLog where
  reports : List (ProgressEvent × TransferManifest)
  discounts : List (Nat × Nat)

/-- Before a run. -/
def TallyLog.start : TallyLog := ⟨[], []⟩

/-- The last progress event, with the manifest of now. -/
def lastReport (t : Transfer) : List (ProgressEvent × TransferManifest) :=
  (t.events.getLast?.map fun event => (event, t.manifest)).toList

/-- A part of a tallied run. -/
abbrev TalliedRun (α : Type) := Prog Error (Traced Transfer TallyLog) α

/-- The last progress event is collected. -/
def noteReport : TalliedRun Unit :=
  note fun t log => { log with reports := log.reports ++ lastReport t }

variable (platform : Platform)

/-- `copyWithRetries`, which reports once, when it has copied the chunk. -/
def talliedRetries (job : Job) (bytesTotal : Nat) (file : OpenEntry)
    (chunkIdx offset readLen : Nat) (expected : String) : TalliedRun Unit := do
  lift (copyWithRetries platform job bytesTotal file chunkIdx offset readLen expected)
  noteReport

/-- `transferChunk`. -/
def talliedChunk (job : Job) (bytesTotal chunkSize : Nat) (file : OpenEntry)
    (chunk : String × Nat) : TalliedRun Unit :=
  let offset := chunkOffset platform chunk.2 chunkSize
  let readLen := chunkLen platform file.entry.size chunk.2 chunkSize
  if readLen = 0 then pure ()
  else do
    let current ← observe fun s => s.run.manifest.entries[file.idx]?
    if (current.map fun entry => isChunkDone entry chunk.2) = some true then do
      let intact ← lift (sys (verifyChunkAt platform file.dst offset readLen chunk.1))
      if intact then pure ()
      else do
        lift (modifyEntry file.idx fun entry => clearChunkDone entry chunk.2)
        note fun t log => { log with discounts := log.discounts ++ [(t.bytesDone, readLen)] }
        lift (subBytesDone readLen)
        talliedRetries platform job bytesTotal file chunk.2 offset readLen chunk.1
    else talliedRetries platform job bytesTotal file chunk.2 offset readLen chunk.1

/-- `transferEntry`. -/
def talliedEntry (job : Job) (single : Bool) (bytesTotal chunkSize : Nat) (idx : Nat) :
    TalliedRun Unit := do
  let manifest ← observe fun s => s.run.manifest
  match manifest.entries[idx]? with
  | none => throw ["index out of bounds"]
  | some entry => do
    let sourceIsFile ← lift (sys (isFile job.source))
    let srcFilePath :=
      if sourceIsFile then job.source else job.source.join (.ofString entry.relativePath)
    let destPath := destFilePath job.target manifest.rootName single entry.relativePath
    lift (sys (createParent destPath))
    let src ← lift (sys (withContext ("open source file " ++ srcFilePath.display)
      (openRead srcFilePath)))
    let dst ← lift (sys (withContext ("open target file " ++ destPath.display)
      (openWrite destPath)))
    lift (sys (withContext ("set target size " ++ destPath.display) (setLen dst entry.size)))
    entry.chunkHashes.zipIdx.forM
      (talliedChunk platform job bytesTotal chunkSize ⟨idx, entry, src, dst⟩)
    let hashes ← lift (sys (hashFile platform destPath chunkSize))
    if hashes.1 ≠ entry.fileHash then throw ["file hash mismatch for " ++ entry.relativePath]
    else lift (update fun t => { t with filesCompleted := t.filesCompleted + 1 })

/-- `transferFiles`. -/
def talliedFiles (job : Job) (single : Bool) : TalliedRun TransferReport := do
  let manifest ← observe fun s => s.run.manifest
  let bytesTotal := totalSize manifest
  lift (update fun t => { t with bytesDone := doneSize platform manifest, filesCompleted := 0 })
  lift (onProgress bytesTotal "")
  noteReport
  (List.range manifest.entries.length).forM
    (talliedEntry platform job single bytesTotal manifest.chunkSize)
  lift (saveCheckpoint platform job)
  observe fun s => {
    bytesTotal
    bytesDone := s.run.bytesDone
    filesTotal := s.run.manifest.entries.length
    filesCompleted := s.run.filesCompleted }

/-- `executeLocalTransfer`. -/
def talliedTransfer (job : Job) : TalliedRun TransferReport := do
  let single ← lift (startTransfer job)
  talliedFiles platform job single

/-- What is collected of a run of `execute_local_transfer`. -/
def tallyOf (job : Job) (t : Transfer) : TallyLog :=
  (final (talliedTransfer platform job) ⟨t, .start⟩).ghost

/-! ### The tallied run is the run -/

section Erases

variable {platform} {job : Job} {bytesTotal : Nat}

theorem talliedRetries_erases (file : OpenEntry) (chunkIdx offset readLen : Nat)
    (expected : String) :
    Erases (talliedRetries platform job bytesTotal file chunkIdx offset readLen expected)
      (copyWithRetries platform job bytesTotal file chunkIdx offset readLen expected) :=
  Erases.noted (Erases.lift _)

theorem talliedChunk_erases (chunkSize : Nat) (file : OpenEntry) (chunk : String × Nat) :
    Erases (talliedChunk platform job bytesTotal chunkSize file chunk)
      (transferChunk platform job bytesTotal chunkSize file chunk) := by
  refine Erases.ite (Erases.pure _) ?_
  refine Erases.bind (Erases.observe fun t : Transfer => t.manifest.entries[file.idx]?) fun _ => ?_
  refine Erases.ite (Erases.bind (Erases.lift _) fun intact => ?_) (talliedRetries_erases _ _ _ _ _)
  refine Erases.ite (Erases.pure _) (Erases.bind (Erases.lift _) fun _ => Erases.note ?_)
  exact Erases.bind (Erases.lift _) fun _ => talliedRetries_erases _ _ _ _ _

theorem talliedEntry_erases (single : Bool) (chunkSize idx : Nat) :
    Erases (talliedEntry platform job single bytesTotal chunkSize idx)
      (transferEntry platform job single bytesTotal chunkSize idx) := by
  refine Erases.bind (Erases.observe fun t : Transfer => t.manifest) fun manifest => ?_
  cases manifest.entries[idx]? with
  | none => exact Erases.throw _
  | some entry =>
    refine Erases.bind (Erases.lift _) fun sourceIsFile => ?_
    refine Erases.bind (Erases.lift _) fun _ => Erases.bind (Erases.lift _) fun src => ?_
    refine Erases.bind (Erases.lift _) fun dst => Erases.bind (Erases.lift _) fun _ => ?_
    refine Erases.bind (Erases.forM fun chunk => talliedChunk_erases _ _ chunk) fun _ => ?_
    exact Erases.bind (Erases.lift _) fun hashes => Erases.ite (Erases.throw _) (Erases.lift _)

theorem talliedFiles_erases (single : Bool) :
    Erases (talliedFiles platform job single) (transferFiles platform job single) := by
  refine Erases.bind (Erases.observe fun t : Transfer => t.manifest) fun manifest => ?_
  refine Erases.bind (Erases.lift _) fun _ => Erases.bind (Erases.lift _) fun _ => Erases.note ?_
  refine Erases.bind (Erases.forM fun idx => talliedEntry_erases _ _ idx) fun _ => ?_
  refine Erases.bind (Erases.lift _) fun _ => ?_
  exact Erases.observe fun t : Transfer => (⟨totalSize manifest, t.bytesDone,
    t.manifest.entries.length, t.filesCompleted⟩ : TransferReport)

/-- **Tallying changes nothing.** -/
theorem talliedTransfer_erases :
    Erases (talliedTransfer platform job) (executeLocalTransfer platform job) :=
  Erases.bind (Erases.lift _) fun single => talliedFiles_erases single

end Erases

/-! ### What the counter should be -/

/-- Whether the bit of a chunk is set. -/
def doneAt (m : TransferManifest) (i k : Nat) : Bool :=
  (m.entries[i]?).any fun entry => isChunkDone entry k

/-- The chunks of a manifest. -/
def chunksOf (m : TransferManifest) : Finset ((_ : ℕ) × ℕ) :=
  (Finset.range m.entries.length).sigma fun i =>
    Finset.range ((m.entries[i]?).elim 0 ManifestEntry.chunkCount)

/-- The size of a chunk. -/
def chunkWeight (platform : Platform) (m : TransferManifest) (x : (_ : ℕ) × ℕ) : ℕ :=
  (m.entries[x.1]?).elim 0 fun entry => chunkLen platform entry.size x.2 m.chunkSize

section Sums

variable {platform} {m m' : TransferManifest}

theorem mem_chunksOf {i k : Nat} :
    (⟨i, k⟩ : (_ : ℕ) × ℕ) ∈ chunksOf m ↔
      ∃ entry, m.entries[i]? = some entry ∧ k < entry.chunkCount := by
  unfold chunksOf
  rw [Finset.mem_sigma, Finset.mem_range, Finset.mem_range]
  constructor
  · rintro ⟨inside, below⟩
    have found := List.getElem?_eq_getElem inside
    rw [found] at below
    exact ⟨_, found, below⟩
  · rintro ⟨entry, found, below⟩
    rw [found]
    exact ⟨(List.getElem?_eq_some_iff.mp found).1, below⟩

theorem chunksOf_bare (same : m.bare = m'.bare) : chunksOf m = chunksOf m' := by
  ext ⟨i, k⟩
  rw [mem_chunksOf, mem_chunksOf]
  constructor
  · rintro ⟨entry, found, below⟩
    obtain ⟨entry', found', same'⟩ := entry_of_bare same found
    exact ⟨entry', found', chunkCount_bare same' ▸ below⟩
  · rintro ⟨entry, found, below⟩
    obtain ⟨entry', found', same'⟩ := entry_of_bare same.symm found
    exact ⟨entry', found', chunkCount_bare same' ▸ below⟩

theorem chunkWeight_bare (same : m.bare = m'.bare) :
    chunkWeight platform m = chunkWeight platform m' := by
  funext x
  unfold chunkWeight
  rw [chunkSize_bare same]
  cases found : m.entries[x.1]? with
  | none =>
    cases found' : m'.entries[x.1]? with
    | none => rfl
    | some entry' =>
      obtain ⟨entry, here, _⟩ := entry_of_bare same.symm found'
      rw [found] at here
      cases here
  | some entry =>
    obtain ⟨entry', found', same'⟩ := entry_of_bare same found
    rw [found', Option.elim_some, Option.elim_some, size_bare same']

theorem sizes_bare (same : m.bare = m'.bare) :
    m.entries.map ManifestEntry.size = m'.entries.map ManifestEntry.size := by
  have entries : m.entries.map ManifestEntry.bare = m'.entries.map ManifestEntry.bare :=
    congrArg TransferManifest.entries same
  have sizes := congrArg (List.map ManifestEntry.size) entries
  rwa [List.map_map, List.map_map] at sizes

theorem offsetsFit_bare (same : m.bare = m'.bare) (offsets : OffsetsFit platform m) :
    OffsetsFit platform m' := by
  intro entry member k inside
  obtain ⟨i, found⟩ := List.getElem?_of_mem member
  obtain ⟨entry', found', same'⟩ := entry_of_bare same.symm found
  rw [← chunkSize_bare same]
  exact offsets entry' (List.mem_of_getElem? found') k (chunkCount_bare same' ▸ inside)

/-- A sum over a list, by index. -/
theorem sum_map_eq_sum_range {α : Type} (f : α → ℕ) (l : List α) :
    (l.map f).sum = ∑ i ∈ Finset.range l.length, (l[i]?).elim 0 f := by
  induction l with
  | nil => rfl
  | cons a l ih =>
    rw [List.map_cons, List.sum_cons, List.length_cons, Finset.sum_range_succ', Nat.add_comm, ih]
    rfl

/-- A sum over the chunks, entry by entry. -/
theorem sum_chunksOf (f : (_ : ℕ) × ℕ → ℕ) (g : ManifestEntry → ℕ)
    (each : ∀ i entry, m.entries[i]? = some entry →
      ∑ k ∈ Finset.range entry.chunkCount, f ⟨i, k⟩ = g entry) :
    ∑ x ∈ chunksOf m, f x = (m.entries.map g).sum := by
  unfold chunksOf
  rw [Finset.sum_sigma, sum_map_eq_sum_range]
  refine Finset.sum_congr rfl fun i inside => ?_
  have found := List.getElem?_eq_getElem (Finset.mem_range.mp inside)
  rw [found, Option.elim_some, Option.elim_some]
  exact each i _ found

/-- An entry whose size sum fits is small. -/
theorem size_lt (small : (m.entries.map ManifestEntry.size).sum < 2 ^ 64) :
    ∀ entry ∈ m.entries, entry.size < 2 ^ 64 := fun _ member =>
  Nat.lt_of_le_of_lt (List.single_le_sum (fun _ _ => Nat.zero_le _) _
    (List.mem_map.mpr ⟨_, member, rfl⟩)) small

/-- The size of all chunks: of each entry as much as its chunks reach. -/
theorem sum_chunkWeight (offsets : OffsetsFit platform m) :
    ∑ x ∈ chunksOf m, chunkWeight platform m x =
      (m.entries.map fun entry => min (entry.chunkCount * m.chunkSize) entry.size).sum := by
  refine sum_chunksOf _ _ fun i entry found => ?_
  rw [← sum_pieceSize]
  refine Finset.sum_congr rfl fun k inside => ?_
  unfold chunkWeight
  rw [found, Option.elim_some]
  exact chunkLen_eq (offsets entry (List.mem_of_getElem? found) k (Finset.mem_range.mp inside))

/-- The chunks are at most the whole. -/
theorem sum_chunkWeight_le (offsets : OffsetsFit platform m) :
    ∑ x ∈ chunksOf m, chunkWeight platform m x ≤ (m.entries.map ManifestEntry.size).sum := by
  rw [sum_chunkWeight offsets]
  exact List.sum_le_sum fun entry _ => Nat.min_le_right _ _

/-- **What `done_size` computes** is the tally of the bits. -/
theorem doneSize_eq_talliedSum (small : (m.entries.map ManifestEntry.size).sum < 2 ^ 64)
    (offsets : OffsetsFit platform m) :
    doneSize platform m =
      talliedSum (chunksOf m) (chunkWeight platform m) fun x => doneAt m x.1 x.2 = true := by
  have each : ∀ entry ∈ m.entries, doneSizeEntry platform m.chunkSize entry =
      pendingSize (pieceSize m.chunkSize entry.size) (isChunkDone entry) entry.chunkCount 0 :=
    fun entry member => doneSizeEntry_eq (size_lt small entry member) (offsets entry member)
  have bound : (m.entries.map (doneSizeEntry platform m.chunkSize)).sum ≤
      (m.entries.map ManifestEntry.size).sum := by
    refine List.sum_le_sum fun entry member => ?_
    rw [each entry member]
    exact Nat.le_trans (pendingSize_le _ _ _ (Nat.zero_le _)) (Nat.sub_le _ _)
  rw [doneSize, sumU64_eq (Nat.lt_of_le_of_lt bound small), talliedSum_eq_sum]
  refine (sum_chunksOf _ _ fun i entry found => ?_).symm
  rw [each entry (List.mem_of_getElem? found), pendingSize_zero]
  refine Finset.sum_congr rfl fun k inside => ?_
  have fits := offsets entry (List.mem_of_getElem? found) k (Finset.mem_range.mp inside)
  unfold doneAt chunkWeight
  rw [found, Option.any_some, Option.elim_some, chunkLen_eq fits]

end Sums

/-! ### One bit -/

section Bit

variable {m : TransferManifest} {i k : Nat} {value : Bool}

theorem doneAt_withBit_ne {x : (_ : ℕ) × ℕ} (different : x ≠ ⟨i, k⟩) :
    doneAt (m.withBit i k value) x.1 x.2 = doneAt m x.1 x.2 := by
  obtain ⟨j, l⟩ := x
  show ((m.entries.modify i (·.withBit k value))[j]?).any _ = _
  unfold doneAt
  rw [List.getElem?_modify]
  by_cases sameEntry : i = j
  · subst sameEntry
    have other : l ≠ k := by
      rintro rfl
      exact different rfl
    cases m.entries[i]? with
    | none => rfl
    | some entry => simp [isChunkDone_withBit_ne other]
  · simp [sameEntry]

theorem doneAt_withBit {entry : ManifestEntry} (found : m.entries[i]? = some entry)
    (reach : k / 8 < entry.resumeBitmap.length) : doneAt (m.withBit i k value) i k = value := by
  unfold doneAt
  rw [getElem?_withBit found, Option.any_some, isChunkDone_withBit reach]

/-- Writing a bit leaves everything else. -/
theorem rebitted_withBit (m : TransferManifest) (i k : Nat) (value : Bool) :
    Rebitted m (m.withBit i k value) := by
  refine ⟨bare_modify (f := (·.withBit k value)) (fun _ => rfl) m i,
    fun j entry entry' found found' => ?_⟩
  rw [TransferManifest.withBit, List.getElem?_modify, found] at found'
  obtain rfl := Option.some.inj found'
  split
  · exact length_setBitmap _ _ _
  · rfl

end Bit

/-! ### The invariant of the loops -/

/-- Every bitmap has a bit for each chunk. -/
def BitmapsReach (m : TransferManifest) : Prop :=
  ∀ entry ∈ m.entries, (entry.chunkCount + 7) / 8 ≤ entry.resumeBitmap.length

instance (m : TransferManifest) : Decidable (BitmapsReach m) :=
  inferInstanceAs (Decidable (∀ entry ∈ m.entries, _))

/-- The chunk is counted: it was left behind, or its bit is set. -/
def InCount (m : TransferManifest) (place : Place) (x : (_ : ℕ) × ℕ) : Prop :=
  place.Behind x.1 x.2 ∨ doneAt m x.1 x.2 = true

/-- What holds of the counter in a run that was called with the manifest `m`: with what it still owes
it is the tally of the chunks that are counted; and behind the second place every bit is set, if there
are bits. -/
structure Tallied (platform : Platform) (m : TransferManifest) (counting marking : Place)
    (owed : Nat) (t : Transfer) : Prop where
  bits : Rebitted m t.manifest
  counter : t.bytesDone + owed =
    talliedSum (chunksOf m) (chunkWeight platform m) (InCount t.manifest counting)
  marked : BitmapsReach m → ∀ x ∈ chunksOf m, chunkWeight platform m x ≠ 0 →
    marking.Behind x.1 x.2 → doneAt t.manifest x.1 x.2 = true

section Steps

variable {platform} {m : TransferManifest} {i k owed : Nat} {counting marking : Place} {t : Transfer}

theorem behind_self : ¬ (⟨i, k, false⟩ : Place).Behind i k := by
  rintro (before | ⟨_, before⟩)
  · exact Nat.lt_irrefl _ before
  · exact Nat.lt_irrefl _ before

theorem behind_next : (⟨i, k + 1, false⟩ : Place).Behind i k := Or.inr ⟨rfl, Nat.lt_succ_self k⟩

/-- The next place has one more chunk behind it. -/
theorem behind_next_ne {x : (_ : ℕ) × ℕ} (different : x ≠ ⟨i, k⟩) :
    (⟨i, k + 1, false⟩ : Place).Behind x.1 x.2 ↔ (⟨i, k, false⟩ : Place).Behind x.1 x.2 := by
  obtain ⟨j, l⟩ := x
  show (j < i ∨ j = i ∧ l < k + 1) ↔ (j < i ∨ j = i ∧ l < k)
  refine or_congr_right (and_congr_right fun sameEntry => ?_)
  have other : l ≠ k := by
    rintro rfl
    exact different (by rw [sameEntry])
  omega

/-- The world does not matter. -/
theorem Tallied.moved (tallied : Tallied platform m counting marking owed t) (w : World) :
    Tallied platform m counting marking owed { t with world := w } :=
  ⟨tallied.bits, tallied.counter, tallied.marked⟩

/-- A chunk of the manifest, in the manifest of now. -/
theorem Tallied.entry (tallied : Tallied platform m counting marking owed t)
    (member : (⟨i, k⟩ : (_ : ℕ) × ℕ) ∈ chunksOf m) :
    ∃ entry, t.manifest.entries[i]? = some entry ∧
      (BitmapsReach m → k / 8 < entry.resumeBitmap.length) := by
  obtain ⟨entry, found, inside⟩ := mem_chunksOf.mp member
  obtain ⟨entry', found', _⟩ := entry_of_bare tallied.bits.bare_eq.symm found
  refine ⟨entry', found', fun reach => ?_⟩
  have enough := reach entry (List.mem_of_getElem? found)
  rw [tallied.bits.lengths i entry entry' found found']
  omega

/-- A chunk whose bit is clear comes to be counted: the counter owes its size. -/
theorem Tallied.owe (tallied : Tallied platform m ⟨i, k, false⟩ marking 0 t)
    (member : (⟨i, k⟩ : (_ : ℕ) × ℕ) ∈ chunksOf m) (clear : doneAt t.manifest i k = false) :
    Tallied platform m ⟨i, k + 1, false⟩ marking (chunkWeight platform m ⟨i, k⟩) t := by
  refine ⟨tallied.bits, ?_, tallied.marked⟩
  have out : ¬ InCount t.manifest ⟨i, k, false⟩ ⟨i, k⟩ := by
    rintro (behind | set)
    · exact behind_self behind
    · rw [show doneAt t.manifest i k = true from set] at clear
      cases clear
  have grown : talliedSum (chunksOf m) (chunkWeight platform m) (InCount t.manifest ⟨i, k + 1, false⟩) =
      talliedSum (chunksOf m) (chunkWeight platform m) (InCount t.manifest ⟨i, k, false⟩) +
        chunkWeight platform m ⟨i, k⟩ :=
    talliedSum_insert member out (Or.inl behind_next) fun x different =>
      or_congr_left (behind_next_ne different)
  rw [grown, ← tallied.counter, Nat.add_zero]

/-- A chunk whose bit is set stays counted. -/
theorem Tallied.pass (tallied : Tallied platform m ⟨i, k, false⟩ ⟨i, k, false⟩ 0 t)
    (settled : chunkWeight platform m ⟨i, k⟩ ≠ 0 → doneAt t.manifest i k = true) :
    Tallied platform m ⟨i, k + 1, false⟩ ⟨i, k + 1, false⟩ 0 t := by
  refine ⟨tallied.bits, tallied.counter.trans (talliedSum_congr fun x _ nonzero => ?_),
    fun reach x member nonzero behind => ?_⟩
  · by_cases here : x = ⟨i, k⟩
    · subst here
      exact iff_of_true (Or.inr (settled nonzero)) (Or.inr (settled nonzero))
    · exact (or_congr_left (behind_next_ne here)).symm
  · by_cases here : x = ⟨i, k⟩
    · subst here
      exact settled nonzero
    · exact tallied.marked reach x member nonzero ((behind_next_ne here).mp behind)

/-- The bit of a chunk that is counted may be written: it is counted as left behind. -/
theorem Tallied.clear (tallied : Tallied platform m ⟨i, k, false⟩ ⟨i, k, false⟩ 0 t)
    (set : doneAt t.manifest i k = true) :
    Tallied platform m ⟨i, k + 1, false⟩ ⟨i, k, false⟩ 0
      { t with manifest := t.manifest.withBit i k false } := by
  refine ⟨tallied.bits.trans (rebitted_withBit _ _ _ _),
    tallied.counter.trans (talliedSum_congr fun x _ _ => ?_), fun reach x member nonzero behind => ?_⟩
  · by_cases here : x = ⟨i, k⟩
    · subst here
      exact iff_of_true (Or.inr set) (Or.inl behind_next)
    · refine or_congr (behind_next_ne here).symm ?_
      rw [doneAt_withBit_ne here]
  · have here : x ≠ ⟨i, k⟩ := by
      rintro rfl
      exact behind_self behind
    rw [doneAt_withBit_ne here]
    exact tallied.marked reach x member nonzero behind

/-- The counter has the size of every chunk that is counted. -/
theorem Tallied.enough (tallied : Tallied platform m counting marking 0 t) {x : (_ : ℕ) × ℕ}
    (member : x ∈ chunksOf m) (counted : InCount t.manifest counting x) :
    chunkWeight platform m x ≤ t.bytesDone := by
  have part : chunkWeight platform m x ≤
      talliedSum (chunksOf m) (chunkWeight platform m) (InCount t.manifest counting) :=
    le_talliedSum member counted
  rwa [← tallied.counter] at part

/-- What is subtracted is owed. -/
theorem Tallied.discount {n : Nat} (tallied : Tallied platform m counting marking 0 t)
    (enough : n ≤ t.bytesDone) :
    Tallied platform m counting marking n { t with bytesDone := t.bytesDone - n } := by
  refine ⟨tallied.bits, ?_, tallied.marked⟩
  show t.bytesDone - n + n = _
  rw [Nat.sub_add_cancel enough]
  exact tallied.counter

/-- A chunk that was copied is marked. -/
theorem Tallied.mark (tallied : Tallied platform m ⟨i, k + 1, false⟩ ⟨i, k, false⟩ owed t)
    (member : (⟨i, k⟩ : (_ : ℕ) × ℕ) ∈ chunksOf m) :
    Tallied platform m ⟨i, k + 1, false⟩ ⟨i, k + 1, false⟩ owed
      { t with manifest := t.manifest.withBit i k true } := by
  refine ⟨tallied.bits.trans (rebitted_withBit _ _ _ _),
    tallied.counter.trans (talliedSum_congr fun x _ _ => ?_), fun reach x member' nonzero behind => ?_⟩
  · by_cases here : x = ⟨i, k⟩
    · subst here
      exact iff_of_true (Or.inl behind_next) (Or.inl behind_next)
    · refine or_congr_right ?_
      rw [doneAt_withBit_ne here]
  · by_cases here : x = ⟨i, k⟩
    · subst here
      obtain ⟨entry, found, inside⟩ := tallied.entry member
      exact doneAt_withBit found (inside reach)
    · rw [doneAt_withBit_ne here]
      exact tallied.marked reach x member' nonzero ((behind_next_ne here).mp behind)

/-- What is owed is added. -/
theorem Tallied.add (tallied : Tallied platform m counting marking owed t)
    (small : (m.entries.map ManifestEntry.size).sum < 2 ^ 64) (offsets : OffsetsFit platform m) :
    Tallied platform m counting marking 0
        { t with bytesDone := (t.bytesDone + owed) % 2 ^ 64 } ∧
      (t.bytesDone + owed) % 2 ^ 64 = t.bytesDone + owed := by
  have bound : t.bytesDone + owed < 2 ^ 64 := by
    rw [tallied.counter]
    exact Nat.lt_of_le_of_lt ((talliedSum_le _ _ _).trans (sum_chunkWeight_le offsets)) small
  have same : (t.bytesDone + owed) % 2 ^ 64 = t.bytesDone + owed := Nat.mod_eq_of_lt bound
  refine ⟨⟨tallied.bits, ?_, tallied.marked⟩, same⟩
  show (t.bytesDone + owed) % 2 ^ 64 + 0 = _
  rw [same]
  exact tallied.counter

/-- What is behind the last chunk of an entry is behind the first one of the next. -/
theorem behind_turn {entry : ManifestEntry} (found : m.entries[i]? = some entry) {x : (_ : ℕ) × ℕ}
    (member : x ∈ chunksOf m) : (⟨i, entry.chunkCount, false⟩ : Place).Behind x.1 x.2 ↔
      (⟨i + 1, 0, false⟩ : Place).Behind x.1 x.2 := by
  obtain ⟨j, l⟩ := x
  obtain ⟨entry', found', inside⟩ := mem_chunksOf.mp member
  show (j < i ∨ j = i ∧ l < entry.chunkCount) ↔ (j < i + 1 ∨ j = i + 1 ∧ l < 0)
  constructor
  · rintro (before | ⟨rfl, _⟩)
    · exact Or.inl (Nat.lt_succ_of_lt before)
    · exact Or.inl (Nat.lt_succ_self _)
  · rintro (before | ⟨_, impossible⟩)
    · rcases Nat.lt_succ_iff_lt_or_eq.mp before with less | rfl
      · exact Or.inl less
      · obtain rfl := Option.some.inj (found.symm.trans found')
        exact Or.inr ⟨rfl, inside⟩
    · exact absurd impossible (Nat.not_lt_zero _)

/-- Behind the last chunk of an entry is before the first one of the next. -/
theorem Tallied.turn {entry : ManifestEntry} (found : m.entries[i]? = some entry)
    (tallied : Tallied platform m ⟨i, entry.chunkCount, false⟩ ⟨i, entry.chunkCount, false⟩ 0 t) :
    Tallied platform m ⟨i + 1, 0, false⟩ ⟨i + 1, 0, false⟩ 0 t := by
  refine ⟨tallied.bits, tallied.counter.trans (talliedSum_congr fun x member _ =>
    or_congr_left (behind_turn found member)), fun reach x member nonzero behind => ?_⟩
  exact tallied.marked reach x member nonzero ((behind_turn found member).mpr behind)

/-- At the end the counter is the recomputed one, if there are bits. -/
theorem Tallied.doneSize_eq (tallied : Tallied platform m counting counting 0 t)
    (small : (m.entries.map ManifestEntry.size).sum < 2 ^ 64) (offsets : OffsetsFit platform m)
    (reach : BitmapsReach m) : t.bytesDone = doneSize platform t.manifest := by
  have same := tallied.bits.bare_eq
  rw [doneSize_eq_talliedSum (sizes_bare same ▸ small) (offsetsFit_bare same.symm offsets),
    chunksOf_bare same, chunkWeight_bare same]
  refine tallied.counter.trans (talliedSum_congr fun x member nonzero => ?_)
  exact or_iff_right_of_imp (tallied.marked reach x member nonzero)

end Steps

/-! ### The run -/

/-- What is said of the progress events and of the subtractions that were collected; `level` is what
the next event will at least report. -/
structure Logged (platform : Platform) (m : TransferManifest) (before : List ProgressEvent)
    (level : Nat) (events : List ProgressEvent) (log : TallyLog) : Prop where
  events_eq : events = before ++ log.reports.map Prod.fst
  increasing : (log.reports.map fun report => report.1.bytesDone).Pairwise (· ≤ ·)
  below : ∀ report ∈ log.reports, report.1.bytesDone ≤ level
  whole : ∀ report ∈ log.reports, report.1.bytesTotal = totalSize m
  total : ∀ report ∈ log.reports, report.1.bytesDone ≤ report.1.bytesTotal
  exactly : BitmapsReach m → ∀ report ∈ log.reports,
    report.1.bytesDone = doneSize platform report.2
  enough : ∀ discount ∈ log.discounts, discount.2 ≤ discount.1

/-- The tallied run is before a chunk. -/
structure AtChunk (platform : Platform) (m : TransferManifest) (before : List ProgressEvent)
    (i k : Nat) (s : Traced Transfer TallyLog) : Prop where
  tallied : Tallied platform m ⟨i, k, false⟩ ⟨i, k, false⟩ 0 s.run
  logged : Logged platform m before s.run.bytesDone s.run.events s.ghost
  last : ∃ report, s.ghost.reports.getLast? = some report ∧ report.1.bytesDone = s.run.bytesDone

/-- The tallied run has stopped. -/
def TallyStopped (platform : Platform) (m : TransferManifest) (before : List ProgressEvent)
    (s : Traced Transfer TallyLog) : Prop :=
  ∃ level, Logged platform m before level s.run.events s.ghost

section Run

variable {platform} {m : TransferManifest} {before : List ProgressEvent} {i k : Nat}
  {job : Job} {file : OpenEntry}

/-- The level may rise. -/
theorem Logged.raise {level level' : Nat} {events : List ProgressEvent} {log : TallyLog}
    (logged : Logged platform m before level events log) (rises : level ≤ level') :
    Logged platform m before level' events log :=
  { logged with below := fun report member => (logged.below report member).trans rises }

/-- A progress event is collected. -/
theorem Logged.report {level : Nat} {events : List ProgressEvent} {log : TallyLog} {t : Transfer}
    {event : ProgressEvent} (logged : Logged platform m before level events log)
    (isLast : t.events = events ++ [event]) (more : level ≤ event.bytesDone)
    (whole : event.bytesTotal = totalSize m) (total : event.bytesDone ≤ event.bytesTotal)
    (exactly : BitmapsReach m → event.bytesDone = doneSize platform t.manifest) :
    Logged platform m before event.bytesDone t.events
      { log with reports := log.reports ++ lastReport t } ∧
    (log.reports ++ lastReport t).getLast? = some (event, t.manifest) := by
  have isReport : lastReport t = [(event, t.manifest)] := by
    unfold lastReport
    rw [isLast, List.getLast?_concat]
    rfl
  rw [isReport]
  -- each report is an earlier one or the new one
  have either {P : ProgressEvent × TransferManifest → Prop} (earlier : ∀ report ∈ log.reports, P report)
      (new : P (event, t.manifest)) : ∀ report ∈ log.reports ++ [(event, t.manifest)], P report := by
    intro report member
    rcases List.mem_append.mp member with inside | isNew
    · exact earlier report inside
    · exact List.mem_singleton.mp isNew ▸ new
  refine ⟨⟨?_, ?_, either (fun report member => (logged.below report member).trans more) le_rfl,
    either logged.whole whole, either logged.total total, fun reach => either (logged.exactly reach) (exactly reach),
    logged.enough⟩, List.getLast?_concat⟩
  · rw [isLast, logged.events_eq, List.map_append, List.append_assoc]
    rfl
  · rw [List.map_append, List.map_singleton, List.pairwise_append]
    refine ⟨logged.increasing, List.pairwise_singleton _ _, fun n earlier n' isNew => ?_⟩
    obtain ⟨report, member, rfl⟩ := List.mem_map.mp earlier
    rw [List.mem_singleton.mp isNew]
    exact (logged.below report member).trans more

/-- A call to the system leaves the run before its chunk. -/
theorem lift_atChunk {α : Type} {prog : Run α}
    (worldOnly : ∀ inv : Transfer → Prop,
      (∀ (t : Transfer) (w : World), inv t → inv { t with world := w }) → Keeps inv prog) :
    Triple (AtChunk platform m before i k) (lift prog) (fun _ => AtChunk platform m before i k)
      (fun _ => TallyStopped platform m before) := by
  intro s start
  have keeps := worldOnly (fun t => AtChunk platform m before i k ⟨t, s.ghost⟩)
    fun t w holds => ⟨holds.tallied.moved w, holds.logged, holds.last⟩
  refine ((Triple.lift keeps (· = s.ghost)).conseq (fun _ holds => holds) ?_ ?_) s ⟨start, rfl⟩
  · rintro _ ⟨run, ghost⟩ ⟨holds, rfl⟩
    exact holds
  · rintro _ ⟨run, ghost⟩ ⟨holds, rfl⟩
    exact ⟨_, holds.logged⟩

/-! ### One chunk -/

/-- The chunk is to be copied: its size is owed. -/
structure Owing (platform : Platform) (m : TransferManifest) (i k : Nat)
    (events : List ProgressEvent) (counter : Nat) (t : Transfer) : Prop where
  tallied : Tallied platform m ⟨i, k + 1, false⟩ ⟨i, k, false⟩ (chunkWeight platform m ⟨i, k⟩) t
  events_eq : t.events = events
  counter_eq : t.bytesDone = counter

/-- The chunk was copied, counted and reported. -/
structure Paid (platform : Platform) (m : TransferManifest) (i k : Nat)
    (events : List ProgressEvent) (counter : Nat) (t : Transfer) : Prop where
  tallied : Tallied platform m ⟨i, k + 1, false⟩ ⟨i, k + 1, false⟩ 0 t
  counter_eq : t.bytesDone = counter + chunkWeight platform m ⟨i, k⟩
  events_eq : ∃ currentFile, t.events = events ++ [⟨totalSize m, t.bytesDone, currentFile⟩]

theorem Owing.moved {events : List ProgressEvent} {counter : Nat} {t : Transfer}
    (owing : Owing platform m i k events counter t) (w : World) :
    Owing platform m i k events counter { t with world := w } :=
  ⟨owing.tallied.moved w, owing.events_eq, owing.counter_eq⟩

section Copy

variable {events : List ProgressEvent} {counter : Nat}

/-- What follows a chunk that was copied. -/
theorem chunkCopied_paid (small : (m.entries.map ManifestEntry.size).sum < 2 ^ 64)
    (offsets : OffsetsFit platform m) (member : (⟨file.idx, k⟩ : (_ : ℕ) × ℕ) ∈ chunksOf m) :
    Triple (Owing platform m file.idx k events counter)
      (chunkCopied platform job (totalSize m) file k (chunkWeight platform m ⟨file.idx, k⟩))
      (fun _ => Paid platform m file.idx k events counter) (fun _ t => t.events = events) := by
  refine Triple.bind (M := fun _ t => Tallied platform m ⟨file.idx, k + 1, false⟩
    ⟨file.idx, k + 1, false⟩ (chunkWeight platform m ⟨file.idx, k⟩) t ∧ t.events = events ∧
      t.bytesDone = counter) (Triple.update fun t owing =>
        ⟨owing.tallied.mark member, owing.events_eq, owing.counter_eq⟩) fun _ => ?_
  refine Triple.bind (M := fun _ t => Tallied platform m ⟨file.idx, k + 1, false⟩
    ⟨file.idx, k + 1, false⟩ 0 t ∧ t.events = events ∧
      t.bytesDone = counter + chunkWeight platform m ⟨file.idx, k⟩)
    (Triple.update fun t ⟨tallied, same, counted⟩ => ?_) fun _ => ?_
  · obtain ⟨added, exact'⟩ := tallied.add small offsets
    exact ⟨added, same, exact'.trans (by rw [counted])⟩
  refine Triple.bind (M := fun _ t => Tallied platform m ⟨file.idx, k + 1, false⟩
    ⟨file.idx, k + 1, false⟩ 0 t ∧ t.events = events ∧
      t.bytesDone = counter + chunkWeight platform m ⟨file.idx, k⟩) ?_ fun _ => ?_
  · exact (saveCheckpoint_worldOnly job fun t w ⟨tallied, rest⟩ => ⟨tallied.moved w, rest⟩).conseq
      (fun _ start => start) (fun _ _ holds => holds) fun _ _ holds => holds.2.1
  · exact Triple.update fun t ⟨tallied, same, counted⟩ =>
      ⟨⟨tallied.bits, tallied.counter, tallied.marked⟩, counted, _, by rw [same]⟩

/-- The attempts pay what is owed, or leave it. -/
theorem copyAttempts_paid (small : (m.entries.map ManifestEntry.size).sum < 2 ^ 64)
    (offsets : OffsetsFit platform m) (member : (⟨file.idx, k⟩ : (_ : ℕ) × ℕ) ∈ chunksOf m)
    (offset : Nat) (expected : String) :
    ∀ attempts lastError, (lastError = none → attempts ≠ 0) →
      Triple (Owing platform m file.idx k events counter)
        (copyAttempts platform job (totalSize m) file k offset
          (chunkWeight platform m ⟨file.idx, k⟩) expected attempts lastError)
        (fun last t => last.elim (Paid platform m file.idx k events counter t)
          fun _ => t.events = events)
        (fun _ t => t.events = events) := by
  intro attempts
  induction attempts with
  | zero =>
    intro lastError tried
    cases lastError with
    | none => exact absurd rfl (tried rfl)
    | some err => exact Triple.pure fun _ owing => owing.events_eq
  | succ attempts ih =>
    intro lastError _
    refine Triple.bind ((sys_worldOnly _ fun t w owing => owing.moved w).conseq
      (fun _ start => start) (fun _ _ holds => holds) fun _ _ owing => owing.events_eq) fun outcome => ?_
    cases outcome with
    | ok _ =>
      exact Triple.bind (chunkCopied_paid small offsets member) fun _ =>
        Triple.pure fun _ paid => paid
    | error err => exact ih (some err) fun absurdity => by cases absurdity

theorem copyWithRetries_paid (small : (m.entries.map ManifestEntry.size).sum < 2 ^ 64)
    (offsets : OffsetsFit platform m) (member : (⟨file.idx, k⟩ : (_ : ℕ) × ℕ) ∈ chunksOf m)
    (offset : Nat) (expected : String) :
    Triple (Owing platform m file.idx k events counter)
      (copyWithRetries platform job (totalSize m) file k offset
        (chunkWeight platform m ⟨file.idx, k⟩) expected)
      (fun _ => Paid platform m file.idx k events counter) (fun _ t => t.events = events) := by
  have tried : max job.maxRetries 1 ≠ 0 := by omega
  refine Triple.bind (copyAttempts_paid small offsets member offset expected _ none fun _ => tried)
    fun lastError => ?_
  cases lastError with
  | none => exact Triple.pure fun _ paid => paid
  | some err => exact Triple.throw fun _ same => same

end Copy

/-- The total of a manifest that fits. -/
theorem totalSize_eq (small : (m.entries.map ManifestEntry.size).sum < 2 ^ 64) :
    totalSize m = (m.entries.map ManifestEntry.size).sum := sumU64_eq small

/-- The counter never exceeds the total. -/
theorem Tallied.le_total {counting marking : Place} {owed : Nat} {t : Transfer}
    (tallied : Tallied platform m counting marking owed t)
    (small : (m.entries.map ManifestEntry.size).sum < 2 ^ 64) (offsets : OffsetsFit platform m) :
    t.bytesDone + owed ≤ totalSize m := by
  rw [tallied.counter, totalSize_eq small]
  exact (talliedSum_le _ _ _).trans (sum_chunkWeight_le offsets)

/-- A chunk that is owed is copied and reported. -/
theorem talliedRetries_spec (small : (m.entries.map ManifestEntry.size).sum < 2 ^ 64)
    (offsets : OffsetsFit platform m) (member : (⟨file.idx, k⟩ : (_ : ℕ) × ℕ) ∈ chunksOf m)
    (offset : Nat) (expected : String) :
    Triple
      (fun s => Owing platform m file.idx k s.run.events s.run.bytesDone s.run ∧
        Logged platform m before (s.run.bytesDone + chunkWeight platform m ⟨file.idx, k⟩)
          s.run.events s.ghost)
      (talliedRetries platform job (totalSize m) file k offset
        (chunkWeight platform m ⟨file.idx, k⟩) expected)
      (fun _ => AtChunk platform m before file.idx (k + 1))
      (fun _ => TallyStopped platform m before) := by
  intro s ⟨owing, logged⟩
  -- the log of before the copy, and what the copy adds
  have copies : Triple
      (fun t => Owing platform m file.idx k s.run.events s.run.bytesDone t.run ∧ t.ghost = s.ghost)
      (lift (copyWithRetries platform job (totalSize m) file k offset
        (chunkWeight platform m ⟨file.idx, k⟩) expected))
      (fun _ t => Paid platform m file.idx k s.run.events s.run.bytesDone t.run ∧
        t.ghost = s.ghost)
      (fun _ => TallyStopped platform m before) := by
    refine (Triple.lift (copyWithRetries_paid small offsets member offset expected)
      (· = s.ghost)).conseq (fun _ holds => holds) (fun _ _ holds => holds) ?_
    rintro _ t ⟨same, sameLog⟩
    exact ⟨_, by rw [same, sameLog]; exact logged⟩
  refine Triple.bind copies (fun _ => Triple.update ?_) s ⟨owing, rfl⟩
  rintro t ⟨paid, sameLog⟩
  obtain ⟨currentFile, isLast⟩ := paid.events_eq
  rw [← paid.counter_eq] at logged
  obtain ⟨longer, last⟩ := logged.report isLast le_rfl rfl
    (paid.tallied.le_total small offsets) (paid.tallied.doneSize_eq small offsets)
  rw [← sameLog] at longer last
  exact ⟨paid.tallied, longer, _, last, rfl⟩

/-- **One round of the chunk loop.** -/
theorem talliedChunk_spec (file : OpenEntry)
    (small : (m.entries.map ManifestEntry.size).sum < 2 ^ 64) (offsets : OffsetsFit platform m)
    {entry : ManifestEntry}
    (found : m.entries[file.idx]? = some entry) (same : file.entry.bare = entry.bare)
    (inside : k < entry.chunkCount) (expected : String) :
    Triple (AtChunk platform m before file.idx k)
      (talliedChunk platform job (totalSize m) m.chunkSize file (expected, k))
      (fun _ => AtChunk platform m before file.idx (k + 1))
      (fun _ => TallyStopped platform m before) := by
  have member : (⟨file.idx, k⟩ : (_ : ℕ) × ℕ) ∈ chunksOf m := mem_chunksOf.mpr ⟨entry, found, inside⟩
  have weight : chunkLen platform file.entry.size k m.chunkSize =
      chunkWeight platform m ⟨file.idx, k⟩ := by
    unfold chunkWeight
    rw [found, Option.elim_some, size_bare same]
  unfold talliedChunk
  rw [weight]
  refine Triple.ite (fun empty => Triple.pure fun s atChunk => ?_) fun nonempty => ?_
  · -- an empty chunk is passed over
    exact ⟨atChunk.tallied.pass fun nonempty => absurd empty nonempty, atChunk.logged, atChunk.last⟩
  refine Triple.bind (M := fun current s =>
    ((current.map fun entry => isChunkDone entry k) = some true ↔
      doneAt s.run.manifest file.idx k = true) ∧ AtChunk platform m before file.idx k s)
    (Triple.observe fun s atChunk => ⟨?_, atChunk⟩) fun current => ?_
  · unfold doneAt
    cases s.run.manifest.entries[file.idx]? with
    | none => simp
    | some entry => simp
  refine Triple.ite (fun set => ?_) fun unset => ?_
  · refine Triple.bind (M := fun _ s => doneAt s.run.manifest file.idx k = true ∧
      AtChunk platform m before file.idx k s) ?_ fun intact => ?_
    · -- the check looks at the target only
      intro s ⟨current, atChunk⟩
      have keeps : Keeps (fun t => doneAt t.manifest file.idx k = true ∧
          AtChunk platform m before file.idx k ⟨t, s.ghost⟩)
          (sys (verifyChunkAt platform file.dst (chunkOffset platform k m.chunkSize)
            (chunkWeight platform m ⟨file.idx, k⟩) expected)) :=
        sys_worldOnly _ fun t w ⟨done, holds⟩ =>
          ⟨done, holds.tallied.moved w, holds.logged, holds.last⟩
      refine (Triple.lift keeps (· = s.ghost)).conseq (fun _ holds => holds) ?_ ?_ s
        ⟨⟨current.mp set, atChunk⟩, rfl⟩
      · rintro _ ⟨run, ghost⟩ ⟨holds, rfl⟩
        exact holds
      · rintro _ ⟨run, ghost⟩ ⟨holds, rfl⟩
        exact ⟨_, holds.2.logged⟩
    refine Triple.ite (fun _ => Triple.pure fun s ⟨done, atChunk⟩ => ?_) fun _ => ?_
    · exact ⟨atChunk.tallied.pass fun _ => done, atChunk.logged, atChunk.last⟩
    -- a stale chunk: its bit is cleared and its size subtracted
    intro s ⟨done, atChunk⟩
    have enough : chunkWeight platform m ⟨file.idx, k⟩ ≤ s.run.bytesDone :=
      atChunk.tallied.enough member (Or.inr done)
    refine talliedRetries_spec small offsets member _ expected _ ⟨⟨?_, rfl, rfl⟩, ?_⟩
    · exact (atChunk.tallied.clear done).discount enough
    · show Logged platform m before (s.run.bytesDone - _ + _) _ _
      rw [Nat.sub_add_cancel enough]
      refine { atChunk.logged with enough := fun discount member => ?_ }
      rcases List.mem_append.mp member with earlier | isNew
      · exact atChunk.logged.enough discount earlier
      · rw [List.mem_singleton.mp isNew]
        exact enough
  · refine (talliedRetries_spec small offsets member _ expected).pre fun s ⟨current, atChunk⟩ => ?_
    have clear : doneAt s.run.manifest file.idx k = false :=
      Bool.eq_false_iff.mpr fun done => unset (current.mpr done)
    exact ⟨⟨atChunk.tallied.owe member clear, rfl, rfl⟩,
      atChunk.logged.raise (Nat.le_add_right _ _)⟩

/-- **One round of the entry loop.** -/
theorem talliedEntry_spec (small : (m.entries.map ManifestEntry.size).sum < 2 ^ 64)
    (offsets : OffsetsFit platform m) (single : Bool) (inside : i < m.entries.length) :
    Triple (AtChunk platform m before i 0)
      (talliedEntry platform job single (totalSize m) m.chunkSize i)
      (fun _ => AtChunk platform m before (i + 1) 0) (fun _ => TallyStopped platform m before) := by
  refine Triple.bind (M := fun manifest s => manifest.bare = m.bare ∧
    AtChunk platform m before i 0 s) (Triple.observe fun s atChunk =>
      ⟨atChunk.tallied.bits.bare_eq, atChunk⟩) fun manifest => Triple.given fun same => ?_
  obtain ⟨entry, found, sameEntry⟩ := entry_of_bare same.symm (List.getElem?_eq_getElem inside)
  rw [found]
  have calls {α : Type} (prog : Sys α) : Triple (AtChunk platform m before i 0) (lift (sys prog))
      (fun _ => AtChunk platform m before i 0) (fun _ => TallyStopped platform m before) :=
    lift_atChunk fun _ moved => sys_worldOnly prog moved
  refine Triple.bind (calls _) fun sourceIsFile => Triple.bind (calls _) fun _ => ?_
  refine Triple.bind (calls _) fun src => Triple.bind (calls _) fun dst => ?_
  refine Triple.bind (calls _) fun _ => ?_
  have count : entry.chunkHashes.zipIdx.length = m.entries[i].chunkCount := by
    rw [List.length_zipIdx, chunkCount_bare sameEntry]
    rfl
  have loop : Triple (AtChunk platform m before i 0)
      (entry.chunkHashes.zipIdx.forM
        (talliedChunk platform job (totalSize m) m.chunkSize ⟨i, entry, src, dst⟩))
      (fun _ => AtChunk platform m before i entry.chunkHashes.zipIdx.length)
      (fun _ => TallyStopped platform m before) := by
    refine Triple.forM (fun k => AtChunk platform m before i k) fun k within => ?_
    rw [List.getElem_zipIdx, Nat.zero_add]
    exact talliedChunk_spec ⟨i, entry, src, dst⟩ small offsets (List.getElem?_eq_getElem inside)
      sameEntry.symm (count ▸ within) _
  rw [count] at loop
  refine Triple.bind loop fun _ => ?_
  refine Triple.bind (M := fun _ => AtChunk platform m before (i + 1) 0)
    ((lift_atChunk fun _ moved => sys_worldOnly _ moved).post fun _ s atChunk =>
      ⟨atChunk.tallied.turn (List.getElem?_eq_getElem inside), atChunk.logged, atChunk.last⟩)
    fun hashes => ?_
  refine Triple.ite (fun _ => Triple.throw fun s atChunk => ⟨_, atChunk.logged⟩) fun _ => ?_
  exact Triple.update fun s atChunk => ⟨⟨atChunk.tallied.bits, atChunk.tallied.counter,
    atChunk.tallied.marked⟩, atChunk.logged, atChunk.last⟩

/-- Before the first chunk the bits are what is counted. -/
theorem tallied_start {t : Transfer} (small : (t.manifest.entries.map ManifestEntry.size).sum < 2 ^ 64)
    (offsets : OffsetsFit platform t.manifest) :
    Tallied platform t.manifest ⟨0, 0, false⟩ ⟨0, 0, false⟩ 0
      { t with bytesDone := doneSize platform t.manifest, filesCompleted := 0 } := by
  have nothing (x : (_ : ℕ) × ℕ) : ¬ (⟨0, 0, false⟩ : Place).Behind x.1 x.2 := by
    rintro (before | ⟨_, before⟩)
    · exact Nat.not_lt_zero _ before
    · exact Nat.not_lt_zero _ before
  refine ⟨Rebitted.refl _, (doneSize_eq_talliedSum small offsets).trans (talliedSum_congr fun x _ _ => ?_),
    fun _ x _ _ behind => absurd behind (nothing x)⟩
  exact (or_iff_right (nothing x)).symm

/-- The run after its start. -/
theorem talliedFiles_spec (small : (m.entries.map ManifestEntry.size).sum < 2 ^ 64)
    (offsets : OffsetsFit platform m) (single : Bool) :
    Triple (fun s => s.run.manifest = m ∧ s.run.events = before ∧ s.ghost = .start)
      (talliedFiles platform job single)
      (fun report s => (report.bytesTotal = totalSize m ∧ report.bytesDone = s.run.bytesDone) ∧
        AtChunk platform m before m.entries.length 0 s)
      (fun _ => TallyStopped platform m before) := by
  refine Triple.bind (M := fun manifest s => manifest = m ∧ s.run.manifest = m ∧
    s.run.events = before ∧ s.ghost = .start) (Triple.observe fun s holds => ⟨holds.1, holds⟩)
    fun manifest => Triple.given fun same => ?_
  subst same
  -- the counter is computed and reported
  refine Triple.bind (M := fun _ s => Tallied platform manifest ⟨0, 0, false⟩ ⟨0, 0, false⟩ 0 s.run ∧
    s.run.events = before ∧ s.ghost = .start) ?_ fun _ => ?_
  · rintro ⟨run, ghost⟩ ⟨rfl, rest⟩
    exact ⟨tallied_start small offsets, rest⟩
  refine Triple.bind (M := fun _ s => Tallied platform manifest ⟨0, 0, false⟩ ⟨0, 0, false⟩ 0 s.run ∧
    s.run.events = before ++ [⟨totalSize manifest, s.run.bytesDone, ""⟩] ∧ s.ghost = .start) ?_
    fun _ => ?_
  · rintro ⟨run, ghost⟩ ⟨tallied, rfl, rest⟩
    exact ⟨⟨tallied.bits, tallied.counter, tallied.marked⟩, rfl, rest⟩
  refine Triple.bind (M := fun _ => AtChunk platform manifest before 0 0) ?_ fun _ => ?_
  · rintro ⟨run, ghost⟩ ⟨tallied, isLast, isStart⟩
    change ghost = .start at isStart
    subst isStart
    have nothing : Logged platform manifest before 0 before .start :=
      ⟨(List.append_nil _).symm, .nil, fun _ member => (List.not_mem_nil member).elim,
        fun _ member => (List.not_mem_nil member).elim, fun _ member => (List.not_mem_nil member).elim,
        fun _ _ member => (List.not_mem_nil member).elim,
        fun _ member => (List.not_mem_nil member).elim⟩
    obtain ⟨logged, last⟩ := nothing.report isLast (Nat.zero_le _) rfl
      (tallied.le_total small offsets) (tallied.doneSize_eq small offsets)
    exact ⟨tallied, logged, _, last, rfl⟩
  refine Triple.bind (Triple.forM_range (fun i => AtChunk platform manifest before i 0)
    fun i inside => talliedEntry_spec small offsets single inside) fun _ => ?_
  refine Triple.bind (lift_atChunk fun _ moved => saveCheckpoint_worldOnly job moved) fun _ => ?_
  exact Triple.observe fun s atChunk => ⟨⟨rfl, rfl⟩, atChunk⟩

/-- The whole run. -/
theorem talliedTransfer_spec (small : (m.entries.map ManifestEntry.size).sum < 2 ^ 64)
    (offsets : OffsetsFit platform m) :
    Triple (fun s => s.run.manifest = m ∧ s.run.events = before ∧ s.ghost = .start)
      (talliedTransfer platform job)
      (fun report s => (report.bytesTotal = totalSize m ∧ report.bytesDone = s.run.bytesDone) ∧
        AtChunk platform m before m.entries.length 0 s)
      (fun _ => TallyStopped platform m before) := by
  refine Triple.bind ?_ fun single => talliedFiles_spec small offsets single
  have keeps : Keeps (fun t => t.manifest = m ∧ t.events = before) (startTransfer job) :=
    startTransfer_worldOnly job fun _ _ same => same
  refine (Triple.lift keeps (· = .start)).conseq (fun s holds => ⟨⟨holds.1, holds.2.1⟩, holds.2.2⟩)
    (fun _ s holds => ⟨holds.1.1, holds.1.2, holds.2⟩) ?_
  rintro _ ⟨run, ghost⟩ ⟨⟨_, same⟩, rfl⟩
  change run.events = before at same
  exact ⟨0, same.trans (List.append_nil _).symm, .nil, fun _ member => (List.not_mem_nil member).elim,
    fun _ member => (List.not_mem_nil member).elim, fun _ member => (List.not_mem_nil member).elim,
    fun _ _ member => (List.not_mem_nil member).elim,
    fun _ member => (List.not_mem_nil member).elim⟩

/-- Behind the last entry everything is counted. -/
theorem AtChunk.bytesDone_eq {s : Traced Transfer TallyLog}
    (atEnd : AtChunk platform m before m.entries.length 0 s) :
    s.run.bytesDone = ∑ x ∈ chunksOf m, chunkWeight platform m x := by
  have counter := atEnd.tallied.counter
  rw [Nat.add_zero] at counter
  refine counter.trans (talliedSum_all fun x member _ => Or.inl (Or.inl ?_))
  obtain ⟨entry, found, _⟩ := mem_chunksOf.mp member
  exact (List.getElem?_eq_some_iff.mp found).1

end Run

/-- The chunks of a manifest that was built make up the files. -/
theorem sum_chunkWeight_built {platform : Platform} {path : Path} {chunkSize : Nat} {w w' : World}
    {m m' : TransferManifest} (still : w.env.Still)
    (built : buildManifest platform path chunkSize w = .ok m w') (same : m'.bare = m.bare)
    (offsets : OffsetsFit platform m') :
    ∑ x ∈ chunksOf m', chunkWeight platform m' x = (m'.entries.map ManifestEntry.size).sum := by
  obtain ⟨⟨size, reads⟩, _⟩ := (buildManifest_reads still path chunkSize).of_ok ⟨rfl, rfl⟩ built
  have sameSize := chunkSize_bare same
  rw [sum_chunkWeight offsets]
  refine congrArg List.sum (List.map_congr_left fun entry member => Nat.min_eq_right ?_)
  obtain ⟨i, found⟩ := List.getElem?_of_mem member
  obtain ⟨entry', found', sameEntry⟩ := entry_of_bare same found
  obtain ⟨content, read⟩ := reads entry' (List.mem_of_getElem? found')
  rw [size_bare sameEntry, chunkCount_bare sameEntry, sameSize, size]
  exact read.size_le (effectiveChunkSize_pos chunkSize)

/-- **Incremental progress equals the recomputed progress**, in every run, whether it returns or
fails: the events report numbers that never fall and never exceed the total, no subtraction saturates,
each number is what `done_size` computes at that moment if every bitmap has a bit for each chunk, and
a run that returns has done everything if the manifest was built. -/
theorem progress_exact {platform : Platform} {job : Job} {t t' : Transfer}
    (small : (t.manifest.entries.map ManifestEntry.size).sum < 2 ^ 64)
    (offsets : OffsetsFit platform t.manifest)
    (ends : Ends (executeLocalTransfer platform job) t t') :
    t'.events = t.events ++ (tallyOf platform job t).reports.map Prod.fst ∧
    ((tallyOf platform job t).reports.map fun report => report.1.bytesDone).Pairwise (· ≤ ·) ∧
    (∀ report ∈ (tallyOf platform job t).reports, report.1.bytesDone ≤ report.1.bytesTotal) ∧
    (∀ discount ∈ (tallyOf platform job t).discounts, discount.2 ≤ discount.1) ∧
    (BitmapsReach t.manifest → ∀ report ∈ (tallyOf platform job t).reports,
      report.1.bytesDone = doneSize platform report.2) ∧
    ∀ report, executeLocalTransfer platform job t = .ok report t' →
      ∀ path chunkSize w w' m, w.env.Still →
        buildManifest platform path chunkSize w = .ok m w' → t.manifest.bare = m.bare →
          report.bytesDone = report.bytesTotal ∧ ∃ last,
            (tallyOf platform job t).reports.getLast? = some last ∧
              last.1.bytesDone = last.1.bytesTotal := by
  have spec : Triple (fun s => s.run.manifest = t.manifest ∧ s.run.events = t.events ∧
      s.ghost = .start) (talliedTransfer platform job) _ _ := talliedTransfer_spec small offsets
  have erases : Erases (talliedTransfer platform job) (executeLocalTransfer platform job) :=
    talliedTransfer_erases
  have erased := erases ⟨t, TallyLog.start⟩
  rcases ends with ⟨report, run⟩ | ⟨error, run⟩
  · rw [run] at erased
    obtain ⟨ghost, run'⟩ := erased
    obtain ⟨⟨isTotal, isDone⟩, atEnd⟩ := spec.of_ok ⟨rfl, rfl, rfl⟩ run'
    have sameLog : tallyOf platform job t = ghost := by rw [tallyOf, final, run']
    rw [sameLog]
    have logged := atEnd.logged
    refine ⟨logged.events_eq, logged.increasing, logged.total, logged.enough, logged.exactly, ?_⟩
    intro report' run'' path chunkSize w w' m still built same
    obtain ⟨rfl⟩ : report = report' := by
      rw [run] at run''
      injection run''
    have everything : t'.bytesDone = totalSize t.manifest := by
      rw [totalSize_eq small, ← sum_chunkWeight_built still built same offsets]
      exact atEnd.bytesDone_eq
    obtain ⟨last, isLast, done⟩ := atEnd.last
    refine ⟨isDone.trans (everything.trans isTotal.symm), last, isLast, ?_⟩
    rw [done, logged.whole last (List.mem_of_getLast? isLast)]
    exact everything
  · rw [run] at erased
    obtain ⟨ghost, run'⟩ := erased
    have stopped := spec ⟨t, .start⟩ ⟨rfl, rfl, rfl⟩
    rw [run'] at stopped
    obtain ⟨level, logged⟩ := stopped
    have sameLog : tallyOf platform job t = ghost := by rw [tallyOf, final, run']
    rw [sameLog]
    refine ⟨logged.events_eq, logged.increasing, logged.total, logged.enough, logged.exactly, ?_⟩
    intro report run''
    rw [run] at run''
    cases run''

/-- The run on the small tree starts with a bit that is wrong: the two bytes are subtracted, copied
and added again. -/
theorem progress_exact_sample :
    (tallyOf samplePlatform sampleJob sampleTransfer).discounts = [(2, 2)] ∧
    ∃ t', executeLocalTransfer samplePlatform sampleJob sampleTransfer = .ok ⟨2, 2, 1, 1⟩ t' ∧
      t'.events = (tallyOf samplePlatform sampleJob sampleTransfer).reports.map Prod.fst ∧
      (∀ discount ∈ (tallyOf samplePlatform sampleJob sampleTransfer).discounts,
        discount.2 ≤ discount.1) ∧
      (∀ report ∈ (tallyOf samplePlatform sampleJob sampleTransfer).reports,
        report.1.bytesDone = doneSize samplePlatform report.2) ∧
      ∃ last, (tallyOf samplePlatform sampleJob sampleTransfer).reports.getLast? = some last ∧
        last.1.bytesDone = last.1.bytesTotal := by
  have wrong : (tallyOf samplePlatform sampleJob sampleTransfer).discounts = [(2, 2)] := by
    decide +kernel
  have small : (sampleTransfer.manifest.entries.map ManifestEntry.size).sum < 2 ^ 64 := by
    decide +kernel
  have offsets : OffsetsFit samplePlatform sampleTransfer.manifest := by decide +kernel
  have reach : BitmapsReach sampleTransfer.manifest := by decide +kernel
  obtain ⟨t', run⟩ := sample_ran
  obtain ⟨w', built⟩ := sample_built
  obtain ⟨events, _, _, enough, exactly, done⟩ := progress_exact small offsets (Or.inl ⟨_, run⟩)
  have none : sampleTransfer.events = [] := rfl
  rw [none, List.nil_append] at events
  exact ⟨wrong, t', run, events, enough, exactly reach,
    (done _ run (.ofString "/s") 2 sampleWorld w' (sampleManifest [0]) (fun _ _ => rfl) built rfl).2⟩

end SendRs
