/-
**What a finished transfer leaves behind.**

A run with a manifest as it was built starts with clear bits, so every chunk that is not empty is copied
once. `Books` is what holds of the manifest and of the counter while the loops are at a place: the chunks
that were left behind are marked, the others are clear, and the counter is what the bits stand for.
Of the target, `Landed` says of one entry that the way to its file is there, and that the file is `Whole`:
its length, its hash and its chunks are those of the entry. Where the checkpoint is saved over the file of
an entry, that is an empty one.

Result: `executeLocalTransfer_finished`, for every pattern of failures, and for chunks that the reads have
cut short. A chunk that was copied keeps its hash: where the offsets fit, the chunks lie beside each
other; where they wrap, whatever else is written to the file comes from the same offset of the same
source, as long as nothing is written over that.
-/

import SendRs.Os.Persist
import SendRs.Transfer.SourceFrame
import SendRs.Transfer.Tally

namespace SendRs

open Effect Pieces

/-! ### The manifest and the counter -/

/-- What holds of the manifest and the counters of a run with the fresh manifest `m`, at a place. -/
structure Books (platform : Platform) (m : TransferManifest) (place : Place) (t : Transfer) : Prop where
  bits : Rebitted m t.manifest
  counter : t.bytesDone = doneBytes platform t.manifest % 2 ^ 64
  marked : ∀ x ∈ chunksOf m, chunkWeight platform m x ≠ 0 → place.Behind x.1 x.2 →
    doneAt t.manifest x.1 x.2 = true
  clear : ∀ x : (_ : ℕ) × ℕ, ¬ place.Behind x.1 x.2 → doneAt t.manifest x.1 x.2 = false
  files_eq : t.filesCompleted = place.entry

section Books

variable {platform : Platform} {m : TransferManifest} {place : Place} {i k : Nat} {t : Transfer}

/-- The world does not matter. -/
theorem Books.moved (books : Books platform m place t) (w : World) :
    Books platform m place { t with world := w } :=
  ⟨books.bits, books.counter, books.marked, books.clear, books.files_eq⟩

/-- Nor do the events. -/
theorem Books.event (books : Books platform m place t) (events : List ProgressEvent) :
    Books platform m place { t with events } :=
  ⟨books.bits, books.counter, books.marked, books.clear, books.files_eq⟩

theorem Books.entry (books : Books platform m place t) {entry : ManifestEntry}
    (found : m.entries[i]? = some entry) :
    ∃ entry', t.manifest.entries[i]? = some entry' ∧ entry'.bare = entry.bare := by
  obtain ⟨entry', found', same⟩ := entry_of_bare books.bits.bare_eq.symm found
  exact ⟨entry', found', same.symm⟩

/-- An empty chunk is passed over. -/
theorem Books.pass (books : Books platform m ⟨i, k, false⟩ t)
    (empty : chunkWeight platform m ⟨i, k⟩ = 0) : Books platform m ⟨i, k + 1, false⟩ t := by
  refine ⟨books.bits, books.counter, fun x member nonzero behind => ?_, fun x ahead => ?_,
    books.files_eq⟩
  · have different : x ≠ ⟨i, k⟩ := fun same => nonzero (same ▸ empty)
    exact books.marked x member nonzero ((behind_next_ne different).mp behind)
  · refine books.clear x fun behind => ahead ?_
    exact behind.imp_right fun ⟨same, less⟩ => ⟨same, Nat.lt_succ_of_lt less⟩

/-- **A chunk that was copied** is marked and counted. -/
theorem Books.mark (reach : BitmapsReach m) (books : Books platform m ⟨i, k, false⟩ t)
    {entry : ManifestEntry} (found : m.entries[i]? = some entry) (inside : k < entry.chunkCount) :
    Books platform m ⟨i, k + 1, false⟩ { t with
      manifest := t.manifest.withBit i k true
      bytesDone := (t.bytesDone + chunkLen platform entry.size k m.chunkSize) % 2 ^ 64 } := by
  obtain ⟨entry', found', same⟩ := books.entry found
  have inside' : k < entry'.chunkCount := chunkCount_bare same ▸ inside
  have within : k / 8 < entry'.resumeBitmap.length := by
    have enough := reach entry (List.mem_of_getElem? found)
    rw [books.bits.lengths i entry entry' found found']
    omega
  have wasClear : isChunkDone entry' k = false := by
    have clear := books.clear ⟨i, k⟩ behind_self
    rwa [doneAt, found', Option.any_some] at clear
  have chunkSize := chunkSize_bare books.bits.bare_eq
  refine ⟨books.bits.trans (rebitted_withBit _ _ _ _), ?_, fun x member nonzero behind => ?_,
    fun x ahead => ?_, books.files_eq⟩
  · have bytes := doneBytes_withBit platform found' inside' within true
    rw [wasClear, if_neg Bool.false_ne_true, if_pos rfl, Nat.add_zero, chunkSize, size_bare same] at bytes
    show (t.bytesDone + _) % 2 ^ 64 = doneBytes platform (t.manifest.withBit i k true) % 2 ^ 64
    rw [bytes, books.counter, Nat.mod_add_mod]
  · by_cases here : x = ⟨i, k⟩
    · subst here
      exact doneAt_withBit found' within
    · show doneAt (t.manifest.withBit i k true) x.1 x.2 = true
      rw [doneAt_withBit_ne here]
      exact books.marked x member nonzero ((behind_next_ne here).mp behind)
  · have here : x ≠ ⟨i, k⟩ := by
      rintro rfl
      exact ahead behind_next
    show doneAt (t.manifest.withBit i k true) x.1 x.2 = false
    rw [doneAt_withBit_ne here]
    exact books.clear x fun behind => ahead ((behind_next_ne here).mpr behind)

/-- A round of the entry loop is over. -/
theorem Books.turn {entry : ManifestEntry} (found : m.entries[i]? = some entry)
    (books : Books platform m ⟨i, entry.chunkCount, false⟩ t) :
    Books platform m ⟨i + 1, 0, false⟩ { t with filesCompleted := t.filesCompleted + 1 } := by
  refine ⟨books.bits, books.counter, fun x member nonzero behind => ?_, fun x ahead => ?_,
    congrArg (· + 1) books.files_eq⟩
  · exact books.marked x member nonzero ((behind_turn found member).mpr behind)
  · refine books.clear x fun behind => ahead (Or.inl ?_)
    rcases behind with before | ⟨same, _⟩
    · exact Nat.lt_succ_of_lt before
    · exact same ▸ Nat.lt_succ_self i

/-- A call to the system, beside what does not depend on the world. -/
theorem sys_beside {α : Type} {B : Transfer → Prop} {P : World → Prop} {R : α → World → Prop}
    {prog : Sys α} {failed : Error → World → Prop} {failed' : Error → Transfer → Prop}
    (moved : ∀ t w, B t → B { t with world := w }) (triple : Triple P prog R failed)
    (fails : ∀ error t, B t → failed error t.world → failed' error t) :
    Triple (fun t => B t ∧ P t.world) (sys prog) (fun a t => B t ∧ R a t.world) failed' :=
  Triple.zoom fun t ⟨beside, holds⟩ => triple.conseq (fun _ here => here ▸ holds)
    (fun _ w outcome => ⟨moved t w beside, outcome⟩)
    fun error w outcome => fails error _ (moved t w beside) outcome

end Books

/-! ### The chunk loop of a fresh entry -/

/-- What the chunk loop needs of a file: `W k` holds of the world before the round of chunk `k`, `U k`
while it is being copied. -/
structure CopyRules (platform : Platform) (job : Job) (m : TransferManifest) (file : OpenEntry)
    (W U : Nat → World → Prop) : Prop where
  empty : ∀ k w, chunkLen platform file.entry.size k m.chunkSize = 0 → W k w → W (k + 1) w
  begin : ∀ k w, W k w → U k w
  copy : ∀ k hash, file.entry.chunkHashes[k]? = some hash →
    chunkLen platform file.entry.size k m.chunkSize ≠ 0 → Triple (U k)
      (copyChunk platform file.src file.dst (chunkOffset platform k m.chunkSize)
        (chunkLen platform file.entry.size k m.chunkSize) hash)
      (fun _ => U (k + 1)) (fun _ => U k)
  saved : ∀ k path manifest, job.checkpoint = some path → manifest.bare = m.bare →
    Triple (U (k + 1)) (saveManifest platform path manifest) (fun _ => W (k + 1)) (fun _ _ => True)
  unsaved : ∀ k w, job.checkpoint = none → U (k + 1) w → W (k + 1) w

section Chunks

variable {platform : Platform} {job : Job} {m : TransferManifest} {file : OpenEntry}
  {W U : Nat → World → Prop} {k bytesTotal : Nat} {entry : ManifestEntry}

/-- What holds of the manifest and of the world before the round of chunk `k`. -/
def ChunkAt (platform : Platform) (m : TransferManifest) (i : Nat) (P : Nat → World → Prop) (k : Nat)
    (t : Transfer) : Prop := Books platform m ⟨i, k, false⟩ t ∧ P k t.world

/-- What follows a chunk that was copied. -/
theorem chunkCopied_books (reach : BitmapsReach m) (rules : CopyRules platform job m file W U)
    (found : m.entries[file.idx]? = some entry) (same : entry.bare = file.entry.bare)
    (inside : k < entry.chunkCount) :
    Triple (fun t => Books platform m ⟨file.idx, k, false⟩ t ∧ U (k + 1) t.world)
      (chunkCopied platform job bytesTotal file k (chunkLen platform file.entry.size k m.chunkSize))
      (fun _ => ChunkAt platform m file.idx W (k + 1)) (fun _ _ => True) := by
  refine Triple.bind (M := fun _ t => ∃ t₀ : Transfer, (Books platform m ⟨file.idx, k, false⟩ t₀ ∧
    U (k + 1) t₀.world) ∧ t = { t₀ with manifest := t₀.manifest.withBit file.idx k true })
    (Triple.update fun t holds => ⟨t, holds, rfl⟩) fun _ => ?_
  refine Triple.bind (M := fun _ t => Books platform m ⟨file.idx, k + 1, false⟩ t ∧
    U (k + 1) t.world) (Triple.update ?_) fun _ => ?_
  · rintro _ ⟨t, ⟨books, copied⟩, rfl⟩
    rw [← size_bare same]
    exact ⟨books.mark reach found inside, copied⟩
  refine Triple.bind (M := fun _ => ChunkAt platform m file.idx W (k + 1)) ?_ fun _ =>
    Triple.update fun t ⟨books, holds⟩ => ⟨books.event _, holds⟩
  refine Triple.bind (M := fun manifest t => manifest.bare = m.bare ∧
    Books platform m ⟨file.idx, k + 1, false⟩ t ∧ U (k + 1) t.world)
    (Triple.observe fun t holds => ⟨holds.1.bits.bare_eq, holds⟩) fun manifest => ?_
  refine Triple.given fun sameBare => ?_
  cases isSaved : job.checkpoint with
  | none => exact Triple.pure fun t holds => ⟨holds.1, rules.unsaved k t.world isSaved holds.2⟩
  | some path =>
    exact sys_beside (fun _ w books => books.moved w) (rules.saved k path manifest isSaved sameBare)
      fun _ _ _ _ => trivial

/-- The attempts at a chunk, if one succeeds. -/
theorem copyAttempts_books (reach : BitmapsReach m) (rules : CopyRules platform job m file W U)
    (found : m.entries[file.idx]? = some entry) (same : entry.bare = file.entry.bare)
    (inside : k < entry.chunkCount) {hash : String} (listed : file.entry.chunkHashes[k]? = some hash)
    (nonempty : chunkLen platform file.entry.size k m.chunkSize ≠ 0) :
    ∀ attempts lastError, (lastError = none → attempts ≠ 0) →
      Triple (ChunkAt platform m file.idx U k)
        (copyAttempts platform job bytesTotal file k (chunkOffset platform k m.chunkSize)
          (chunkLen platform file.entry.size k m.chunkSize) hash attempts lastError)
        (fun last t => last = none → ChunkAt platform m file.idx W (k + 1) t) (fun _ _ => True) := by
  intro attempts
  induction attempts with
  | zero => exact fun lastError tried => Triple.pure fun _ _ none => absurd rfl (tried none)
  | succ attempts ih =>
    intro lastError _
    have copies : Triple (U k) (attempt (copyChunk platform file.src file.dst
        (chunkOffset platform k m.chunkSize) (chunkLen platform file.entry.size k m.chunkSize) hash))
        (fun outcome w => outcome.toOption.elim (U k w) fun _ => U (k + 1) w) Never :=
      Triple.attempt (rules.copy k hash listed nonempty)
    refine Triple.bind (sys_beside (fun _ w books => books.moved w) copies fun _ _ _ _ => trivial)
      fun outcome => ?_
    cases outcome with
    | ok _ =>
      exact Triple.bind (chunkCopied_books reach rules found same inside) fun _ =>
        Triple.pure fun _ holds _ => holds
    | error err => exact ih (some err) fun absurdity => by cases absurdity

/-- **One round of the chunk loop.** The bit is clear, so the chunk is copied. -/
theorem transferChunk_books (reach : BitmapsReach m) (rules : CopyRules platform job m file W U)
    (found : m.entries[file.idx]? = some entry) (same : entry.bare = file.entry.bare)
    (inside : k < entry.chunkCount) {hash : String}
    (listed : file.entry.chunkHashes[k]? = some hash) :
    Triple (ChunkAt platform m file.idx W k)
      (transferChunk platform job bytesTotal m.chunkSize file (hash, k))
      (fun _ => ChunkAt platform m file.idx W (k + 1)) (fun _ _ => True) := by
  refine Triple.ite (fun empty => Triple.pure fun t ⟨books, holds⟩ => ?_) fun nonempty => ?_
  · refine ⟨books.pass ?_, rules.empty k t.world empty holds⟩
    rw [chunkWeight, found, Option.elim_some, size_bare same]
    exact empty
  refine Triple.bind (M := fun current t => (current.map fun entry => isChunkDone entry k) ≠ some true ∧
    ChunkAt platform m file.idx U k t) (Triple.observe fun t ⟨books, holds⟩ => ?_) fun current => ?_
  · refine ⟨fun done => ?_, books, rules.begin k t.world holds⟩
    have clear := books.clear ⟨file.idx, k⟩ behind_self
    obtain ⟨entry', there, set⟩ := Option.map_eq_some_iff.mp done
    rw [doneAt, there, Option.any_some, set] at clear
    cases clear
  refine Triple.given fun unset => Triple.ite (fun set => absurd set unset) fun _ => ?_
  have tried : max job.maxRetries 1 ≠ 0 := by omega
  refine Triple.bind (copyAttempts_books reach rules found same inside listed nonempty _ none
    fun _ => tried) fun lastError => ?_
  cases lastError with
  | none => exact Triple.pure fun _ holds => holds rfl
  | some err => exact Triple.throw fun _ _ => trivial

/-- The chunk loop. -/
theorem chunkLoop_books (reach : BitmapsReach m) (rules : CopyRules platform job m file W U)
    (found : m.entries[file.idx]? = some entry) (same : entry.bare = file.entry.bare) :
    Triple (ChunkAt platform m file.idx W 0)
      (file.entry.chunkHashes.zipIdx.forM (transferChunk platform job bytesTotal m.chunkSize file))
      (fun _ => ChunkAt platform m file.idx W entry.chunkCount) (fun _ _ => True) := by
  have count : file.entry.chunkHashes.zipIdx.length = entry.chunkCount := by
    rw [List.length_zipIdx, chunkCount_bare same]
    rfl
  rw [← count]
  refine Triple.forM (ChunkAt platform m file.idx W) fun k within => ?_
  rw [List.getElem_zipIdx, Nat.zero_add]
  exact transferChunk_books reach rules found same (count ▸ within) (List.getElem?_eq_getElem _)

end Chunks

/-! ### The file of an entry -/

/-- The checkpoint is saved to the location. -/
def SavedAt (cwd : Loc) (job : Job) (loc : Loc) : Prop :=
  ∃ path, job.checkpoint = some path ∧ path.lexical cwd = some loc

/-- The bytes are those that the entry describes. -/
structure Whole (platform : Platform) (chunkSize : Nat) (entry : ManifestEntry) (content : Bytes) :
    Prop where
  lists : Lists platform chunkSize entry content
  fileHash_eq : platform.blake3 content = entry.fileHash

/-- The bytes have the length of the entry, and of the first `n` chunks each one that is not empty has its
hash. Where the source is known to stay as it is, these chunks are as in the source. -/
structure Filled (platform : Platform) (chunkSize : Nat) (entry : ManifestEntry)
    (source : Option Bytes) (content : Bytes) (n : Nat) : Prop where
  length_eq : content.length = entry.size
  chunks : ∀ k < n, ∀ hash, entry.chunkHashes[k]? = some hash →
    chunkLen platform entry.size k chunkSize ≠ 0 →
      (∀ kept ∈ source,
        (content.drop (chunkOffset platform k chunkSize)).take (chunkLen platform entry.size k chunkSize) =
          (kept.drop (chunkOffset platform k chunkSize)).take
            (chunkLen platform entry.size k chunkSize)) ∧
      platform.blake3 ((content.drop (chunkOffset platform k chunkSize)).take
        (chunkLen platform entry.size k chunkSize)) = hash

/-- What is read at an offset is either known, or read once: the source stays as it is, or the chunks up
to `k` have offsets that fit. -/
def Steady (platform : Platform) (chunkSize : Nat) (source : Option Bytes) (k : Nat) : Prop :=
  source = none → ∀ j ≤ k, j * chunkSize < 2 ^ platform.pointerWidth

section File

variable {platform : Platform} {chunkSize n k : Nat} {entry : ManifestEntry} {source : Option Bytes}
  {content read : Bytes}

theorem Filled.start (length_eq : content.length = entry.size) :
    Filled platform chunkSize entry source content 0 :=
  ⟨length_eq, fun _ impossible => absurd impossible (Nat.not_lt_zero _)⟩

/-- An empty chunk is filled. -/
theorem Filled.pass (filled : Filled platform chunkSize entry source content k)
    (empty : chunkLen platform entry.size k chunkSize = 0) :
    Filled platform chunkSize entry source content (k + 1) := by
  refine ⟨filled.length_eq, fun j before hash listed nonempty => ?_⟩
  rcases Nat.lt_succ_iff_lt_or_eq.mp before with earlier | rfl
  · exact filled.chunks j earlier hash listed nonempty
  · exact absurd empty nonempty

/-- Two chunks whose offsets fit lie beside each other. -/
theorem chunks_beside {j : Nat} (fits : ∀ j ≤ k, j * chunkSize < 2 ^ platform.pointerWidth)
    (before : j < k) (size : Nat) :
    chunkOffset platform j chunkSize + chunkLen platform size j chunkSize ≤
      chunkOffset platform k chunkSize := by
  have short : chunkLen platform size j chunkSize ≤ chunkSize := Nat.min_le_right _ _
  have next : (j + 1) * chunkSize ≤ k * chunkSize := Nat.mul_le_mul_right _ before
  rw [Nat.succ_mul] at next
  rw [chunkOffset, chunkOffset, Nat.mod_eq_of_lt (fits j (Nat.le_of_lt before)),
    Nat.mod_eq_of_lt (fits k (Nat.le_refl k))]
  omega

/-- A part of what was read, written in its place, leaves the chunks that are filled. -/
theorem Filled.write (filled : Filled platform chunkSize entry source content k)
    (steady : Steady platform chunkSize source k) (isRead : ∀ kept ∈ source, read = kept)
    (nonempty : chunkLen platform entry.size k chunkSize ≠ 0) {part : Bytes}
    (isPart : part <+: (read.drop (chunkOffset platform k chunkSize)).take
      (chunkLen platform entry.size k chunkSize)) :
    Filled platform chunkSize entry source
      (patch 0 content (chunkOffset platform k chunkSize) part) k := by
  have reach : chunkOffset platform k chunkSize + chunkLen platform entry.size k chunkSize ≤
      content.length := by
    rw [filled.length_eq]
    unfold chunkLen at nonempty ⊢
    omega
  have short : part.length ≤ chunkLen platform entry.size k chunkSize :=
    Nat.le_trans isPart.length_le (List.length_take_le _ _)
  refine ⟨?_, fun j before hash listed nonempty' => ?_⟩
  · rw [length_patch (by omega), filled.length_eq]
  obtain ⟨same, hashed⟩ := filled.chunks j before hash listed nonempty'
  cases source with
  | none =>
    have beside := chunks_beside (steady rfl) before entry.size
    rw [window_patch_beside (by omega) (Or.inl beside)]
    refine ⟨?_, hashed⟩
    rintro _ ⟨⟩
  | some kept =>
    obtain rfl := isRead kept rfl
    have again := same read rfl
    have written : ((patch 0 content (chunkOffset platform k chunkSize) part).drop
        (chunkOffset platform j chunkSize)).take (chunkLen platform entry.size j chunkSize) = _ :=
      window_patch_source (by omega) (isPart.trans (List.take_prefix _ _)) again
    rw [written, ← again]
    refine ⟨?_, hashed⟩
    rintro _ ⟨⟩
    exact again

/-- **A chunk that is written whole** is filled. -/
theorem Filled.next (filled : Filled platform chunkSize entry source content k)
    (steady : Steady platform chunkSize source k) (isRead : ∀ kept ∈ source, read = kept)
    (nonempty : chunkLen platform entry.size k chunkSize ≠ 0) {buf : Bytes}
    (reach : chunkOffset platform k chunkSize + chunkLen platform entry.size k chunkSize ≤ read.length)
    (isBuf : buf = (read.drop (chunkOffset platform k chunkSize)).take
      (chunkLen platform entry.size k chunkSize))
    (hashed : entry.chunkHashes[k]? = some (platform.blake3 buf)) :
    Filled platform chunkSize entry source
      (patch 0 content (chunkOffset platform k chunkSize) buf) (k + 1) := by
  have isPart : buf <+: (read.drop (chunkOffset platform k chunkSize)).take
      (chunkLen platform entry.size k chunkSize) := by
    rw [← isBuf]
  have before := filled.write steady isRead nonempty isPart
  refine ⟨before.length_eq, fun j within hash listed nonempty' => ?_⟩
  rcases Nat.lt_succ_iff_lt_or_eq.mp within with earlier | rfl
  · exact before.chunks j earlier hash listed nonempty'
  · have inside : chunkOffset platform j chunkSize ≤ content.length := by
      rw [filled.length_eq]
      unfold chunkLen at nonempty
      omega
    have full : buf.length = chunkLen platform entry.size j chunkSize := by
      rw [isBuf, List.length_take, List.length_drop]
      omega
    have written : ((patch 0 content (chunkOffset platform j chunkSize) buf).drop
        (chunkOffset platform j chunkSize)).take buf.length = buf := window_patch_self inside
    rw [full] at written
    rw [written]
    refine ⟨fun kept known => ?_, Option.some.inj (hashed.symm.trans listed)⟩
    rw [isBuf, isRead kept known]

/-- A file that is filled and has the right hash is whole. -/
theorem Filled.whole (filled : Filled platform chunkSize entry source content entry.chunkCount)
    (hashed : platform.blake3 content = entry.fileHash) : Whole platform chunkSize entry content := by
  refine ⟨⟨filled.length_eq.symm, fun k hash listed nonempty => ?_⟩, hashed⟩
  have inside : k < entry.chunkCount := (List.getElem?_eq_some_iff.mp listed).1
  exact (filled.chunks k inside hash listed nonempty).2

theorem fileHash_bare {entry' : ManifestEntry} (same : entry.bare = entry'.bare) :
    entry.fileHash = entry'.fileHash := by
  show entry.bare.fileHash = entry'.bare.fileHash
  rw [same]

theorem relativePath_bare {entry' : ManifestEntry} (same : entry.bare = entry'.bare) :
    entry.relativePath = entry'.relativePath := by
  show entry.bare.relativePath = entry'.bare.relativePath
  rw [same]

/-- The bits of the entry do not matter. -/
theorem Whole.of_bare {entry' : ManifestEntry} (whole : Whole platform chunkSize entry' content)
    (same : entry.bare = entry'.bare) : Whole platform chunkSize entry content := by
  refine ⟨⟨(size_bare same).trans whole.lists.size_eq, ?_⟩,
    whole.fileHash_eq.trans (fileHash_bare same).symm⟩
  rw [chunkHashes_bare same, size_bare same]
  exact whole.lists.hash_eq

/-- When the chunks reach the end and all are empty, the file is empty. -/
theorem size_zero (positive : 0 < chunkSize) (covered : entry.size ≤ entry.chunkCount * chunkSize)
    (empty : ∀ k < entry.chunkCount, chunkLen platform entry.size k chunkSize = 0) : entry.size = 0 := by
  rcases Nat.eq_zero_or_pos entry.chunkCount with none | some
  · rw [none, Nat.zero_mul] at covered
    exact Nat.le_zero.mp covered
  · have first := empty 0 some
    rw [chunkLen, chunkOffset, Nat.zero_mul, Nat.zero_mod] at first
    omega

end File

/-! ### The round of an entry -/

/-- What an entry leaves behind: the way to its file, and the file. Where the checkpoint is saved over the
file, that is an empty one. -/
structure Landed (platform : Platform) (cwd : Loc) (job : Job) (single : Bool) (m : TransferManifest)
    (entry : ManifestEntry) (fs : FileSystem) : Prop where
  parent : ∀ parent, (destFilePath job.target m.rootName single entry.relativePath).parent = some parent →
    fs.DirsAlong (parent.start cwd) parent.pieces
  file : ∃ loc content,
    fs.resolve cwd (destFilePath job.target m.rootName single entry.relativePath) = some loc ∧
    (fs.content loc).isSome ∧ Whole platform m.chunkSize entry content ∧
    (SavedAt cwd job loc → content = []) ∧ (¬ SavedAt cwd job loc → fs.content loc = some content)

/-- What a run may write in the round of an entry: its destination, and the checkpoint. -/
def Writable (cwd : Loc) (job : Job) (single : Bool) (m : TransferManifest) (entry : ManifestEntry)
    (loc : Loc) : Prop :=
  destLoc cwd job.target m.rootName single entry = some loc ∨ SavedAt cwd job loc

/-- No file that is written, be it a destination or the checkpoint, is the source or a file of it. -/
def SourceUnwritten (cwd : Loc) (job : Job) (single : Bool) (m : TransferManifest) : Prop :=
  ∀ entry ∈ m.entries, ∀ sourceIsFile loc,
    (sourcePath job.source sourceIsFile entry.relativePath).lexical cwd = some loc →
      ∀ other ∈ m.entries, ¬ Writable cwd job single m other loc

/-- No manifest hashes to the hash of the file over which it is saved. -/
def NoSelfHash (platform : Platform) (cwd : Loc) (job : Job) (single : Bool) (m : TransferManifest) :
    Prop :=
  ∀ entry ∈ m.entries, ∀ loc, destLoc cwd job.target m.rootName single entry = some loc →
    SavedAt cwd job loc → ∀ m' : TransferManifest, m'.bare = m.bare →
      platform.blake3 (platform.manifestJson m') ≠ entry.fileHash

/-- What is assumed of a first run: the others change nothing, the manifest is as it was built, the
destinations are distinct, and the offsets fit or nothing is written over the source. -/
structure FirstRun (platform : Platform) (env : Surroundings) (m : TransferManifest) (job : Job)
    (single : Bool) : Prop where
  still : env.Still
  positive : 0 < m.chunkSize
  reach : BitmapsReach m
  clear : ∀ i k, doneAt m i k = false
  covered : ∀ entry ∈ m.entries, entry.size ≤ entry.chunkCount * m.chunkSize
  distinct : DistinctDestinations env.cwd job.target single m
  steady : OffsetsFit platform m ∨ SourceUnwritten env.cwd job single m
  noSelfHash : NoSelfHash platform env.cwd job single m

/-- While a chunk is being copied: unless the checkpoint is saved over the file, its first `n` chunks are
filled. -/
structure Underway (platform : Platform) (cwd : Loc) (job : Job) (chunkSize : Nat) (file : OpenEntry)
    (written : Loc → Prop) (base : FileSystem) (source : Option Bytes) (n : Nat) (fs : FileSystem) : Prop where
  persists : Persists written base fs
  file : ∃ content, fs.content file.dst = some content ∧
    (¬ SavedAt cwd job file.dst → Filled platform chunkSize file.entry source content n)

/-- Between two chunks: if the checkpoint is saved over the file, that holds a manifest, or only empty
chunks were passed. -/
structure Between (platform : Platform) (cwd : Loc) (job : Job) (m : TransferManifest) (file : OpenEntry)
    (written : Loc → Prop) (base : FileSystem) (source : Option Bytes) (n : Nat) (fs : FileSystem) : Prop where
  persists : Persists written base fs
  file : ∃ content, fs.content file.dst = some content ∧
    (¬ SavedAt cwd job file.dst → Filled platform m.chunkSize file.entry source content n) ∧
    (SavedAt cwd job file.dst →
      (content.length = file.entry.size ∧
        ∀ k < n, chunkLen platform file.entry.size k m.chunkSize = 0) ∨
      ∃ m' : TransferManifest, m'.bare = m.bare ∧ content = platform.manifestJson m')

section Round

variable {platform : Platform} {env : Surroundings} {m : TransferManifest} {job : Job} {single : Bool}
  {file : OpenEntry} {written : Loc → Prop} {base : FileSystem} {source : Option Bytes} {k : Nat}

/-- Copying a chunk fills it; an attempt that fails leaves the chunks that are filled. -/
theorem copyChunk_underway (still : env.Still) (may : written file.dst)
    (reads : ∀ fs, Persists written base fs → ∀ content, fs.content file.src = some content →
      ∀ kept ∈ source, content = kept)
    (steady : Steady platform m.chunkSize source k) {hash : String} (listed : file.entry.chunkHashes[k]? = some hash)
    (nonempty : chunkLen platform file.entry.size k m.chunkSize ≠ 0) :
    Triple (InTree env (Underway platform env.cwd job m.chunkSize file written base source k))
      (copyChunk platform file.src file.dst (chunkOffset platform k m.chunkSize)
        (chunkLen platform file.entry.size k m.chunkSize) hash)
      (fun _ => InTree env (Underway platform env.cwd job m.chunkSize file written base source (k + 1)))
      (fun _ => InTree env (Underway platform env.cwd job m.chunkSize file written base source k)) := by
  have frame := inTree_frame still (Underway platform env.cwd job m.chunkSize file written base source k)
  refine Triple.bind (Triple.context frame.seek) fun _ => ?_
  refine Triple.bind (M := fun buf w => (∃ read : Bytes, (∀ kept ∈ source, read = kept) ∧
    chunkOffset platform k m.chunkSize + chunkLen platform file.entry.size k m.chunkSize ≤ read.length ∧
      buf = (read.drop (chunkOffset platform k m.chunkSize)).take
        (chunkLen platform file.entry.size k m.chunkSize)) ∧
    InTree env (Underway platform env.cwd job m.chunkSize file written base source k) w)
    (Triple.context ((readExact_there still _ _ _).post ?_))
    fun buf => Triple.given fun ⟨read, isRead, reach, isBuf⟩ => ?_
  · rintro buf w ⟨⟨content, found, inside, isBuf⟩, holds⟩
    exact ⟨⟨content, reads w.fs holds.tree.persists content found, inside, isBuf⟩, holds⟩
  refine Triple.ite (fun _ => Triple.throw fun _ holds => holds) fun matched => ?_
  have hashed : file.entry.chunkHashes[k]? = some (platform.blake3 buf) := by
    rw [not_not.mp matched]
    exact listed
  refine Triple.bind (Triple.context frame.seek) fun _ => Triple.context ?_
  -- a write to the file leaves everything else
  have put {fs : FileSystem} {n n' : Nat} {content content' : Bytes} {modified : Int}
      (holds : Underway platform env.cwd job m.chunkSize file written base source n fs)
      (found : fs.content file.dst = some content)
      (filled : Filled platform m.chunkSize file.entry source content n →
        Filled platform m.chunkSize file.entry source content' n') :
      Underway platform env.cwd job m.chunkSize file written base source n'
        (fs.put file.dst (.file content' modified)) := by
    obtain ⟨old, there, isFilled⟩ := holds.file
    obtain rfl := Option.some.inj (there.symm.trans found)
    refine ⟨holds.persists.trans (persists_write may _ _), content', ?_, fun apart => filled (isFilled apart)⟩
    exact FileSystem.content_eq_some.mpr ⟨modified, FileSystem.node_put_same (free_of_content found) _⟩
  refine writeAll_there still (fun fs content modified holds found => ?_)
    fun fs content part modified holds found isPart => ?_
  · exact put holds found fun filled => filled.next steady isRead nonempty reach isBuf hashed
  · exact put holds found fun filled => filled.write steady isRead nonempty (isBuf ▸ isPart)

/-- Saving the checkpoint, over the file or elsewhere. -/
theorem saveManifest_between (still : env.Still) (saving : ∀ loc, SavedAt env.cwd job loc → written loc)
    {path : Path} (isSaved : job.checkpoint = some path) {manifest : TransferManifest}
    (same : manifest.bare = m.bare) :
    Triple (InTree env (Underway platform env.cwd job m.chunkSize file written base source k))
      (saveManifest platform path manifest)
      (fun _ => InTree env (Between platform env.cwd job m file written base source k))
      (fun _ _ => True) := by
  rintro w ⟨rfl, holds⟩
  have saves : Triple (Since w.env (SavedAt w.env.cwd job) w.fs)
      (fsWrite path (platform.manifestJson manifest)) _ _ :=
    fsWrite_there still (fun loc lexical => ⟨path, isSaved, lexical⟩) _
  refine (Triple.context saves).post ?_ w (since_now rfl)
  rintro _ w' ⟨⟨loc, leads, found⟩, since⟩
  obtain ⟨content, there, filled⟩ := holds.file
  refine ⟨since.env_eq, holds.persists.trans (since.tree.mono saving), ?_⟩
  by_cases saved : SavedAt w.env.cwd job file.dst
  · obtain ⟨path', isSaved', lexical⟩ := saved
    obtain rfl := Option.some.inj (isSaved.symm.trans isSaved')
    obtain rfl : loc = file.dst :=
      Option.some.inj ((FileSystem.lexical_of_resolve leads).symm.trans lexical)
    exact ⟨_, found, fun apart => absurd ⟨path, isSaved, lexical⟩ apart,
      fun _ => Or.inr ⟨manifest, same, rfl⟩⟩
  · exact ⟨content, since.tree.contents _ content saved there, filled, fun absurdity => absurd absurdity saved⟩

/-- The chunk loop may run on the open file. -/
theorem copyRules (still : env.Still) (may : written file.dst)
    (saving : ∀ loc, SavedAt env.cwd job loc → written loc)
    (reads : ∀ fs, Persists written base fs → ∀ content, fs.content file.src = some content →
      ∀ kept ∈ source, content = kept)
    (steady : ∀ k < file.entry.chunkCount, Steady platform m.chunkSize source k) :
    CopyRules platform job m file
      (fun k => InTree env (Between platform env.cwd job m file written base source k))
      (fun k => InTree env (Underway platform env.cwd job m.chunkSize file written base source k)) := by
  refine ⟨fun k w empty holds => ?_, fun k w holds => ?_, fun k hash listed nonempty => ?_,
    fun k path manifest isSaved same => ?_, fun k w unsaved holds => ?_⟩
  · obtain ⟨content, there, filled, saved⟩ := holds.tree.file
    refine ⟨holds.env_eq, holds.tree.persists, content, there, fun apart => (filled apart).pass empty,
      fun isSaved => (saved isSaved).imp_left fun ⟨length, before⟩ => ⟨length, fun j inside => ?_⟩⟩
    rcases Nat.lt_succ_iff_lt_or_eq.mp inside with earlier | rfl
    · exact before j earlier
    · exact empty
  · obtain ⟨content, there, filled, _⟩ := holds.tree.file
    exact ⟨holds.env_eq, holds.tree.persists, content, there, filled⟩
  · have inside : k < file.entry.chunkCount := (List.getElem?_eq_some_iff.mp listed).1
    exact copyChunk_underway still may reads (steady k inside) listed nonempty
  · exact saveManifest_between still saving isSaved same
  · have apart : ¬ SavedAt env.cwd job file.dst := by
      rintro ⟨path, isSaved, _⟩
      rw [unsaved] at isSaved
      cases isSaved
    obtain ⟨content, there, filled⟩ := holds.tree.file
    exact ⟨holds.env_eq, holds.tree.persists, content, there, filled, fun saved => absurd saved apart⟩

/-- Whatever is read from a source that is not written is the same. -/
theorem source_read {src : Loc} (there : (base.node src).isSome) (apart : ¬ written src) :
    ∃ source : Bytes, ∀ fs, Persists written base fs → ∀ content, fs.content src = some content →
      content = source := by
  obtain ⟨node, found⟩ := Option.isSome_iff_exists.mp there
  cases node with
  | dir =>
    refine ⟨[], fun fs persists content read => ?_⟩
    have isDir : fs.node src = some .dir := persists.dirs src found
    rw [FileSystem.content, isDir] at read
    cases read
  | file bytes modified =>
    refine ⟨bytes, fun fs persists content read => ?_⟩
    have kept := persists.contents src bytes apart (FileSystem.content_eq_some.mpr ⟨modified, found⟩)
    exact Option.some.inj (read.symm.trans kept)

/-- What is read of the source of an entry is known, or its chunks lie beside each other. -/
theorem FirstRun.source_read (first : FirstRun platform env m job single) {entry : ManifestEntry}
    (listed : entry ∈ m.entries) {sourceIsFile : Bool} {src : Loc}
    (denotes : (sourcePath job.source sourceIsFile entry.relativePath).lexical env.cwd = some src)
    (there : (base.node src).isSome) :
    ∃ source : Option Bytes,
      (∀ fs, Persists (Writable env.cwd job single m entry) base fs → ∀ content,
        fs.content src = some content → ∀ kept ∈ source, content = kept) ∧
      ∀ k < entry.chunkCount, Steady platform m.chunkSize source k := by
  rcases first.steady with fits | unwritten
  · refine ⟨none, fun fs kept content found => ?_, fun k inside _ j below => ?_⟩
    · rintro _ ⟨⟩
    · exact fits entry listed j (Nat.lt_of_le_of_lt below inside)
  · obtain ⟨source, reads⟩ := SendRs.source_read there
      (unwritten entry listed sourceIsFile src denotes entry listed)
    refine ⟨some source, fun fs kept content found => ?_, fun k _ => ?_⟩
    · rintro _ ⟨⟩
      exact reads fs kept content found
    · rintro ⟨⟩

/-- The directories above a destination are there. -/
theorem createParent_there (still : env.Still) (path : Path) :
    Triple (Since env written base) (createParent path)
      (fun _ w => (∀ parent, path.parent = some parent →
        w.fs.DirsAlong (parent.start env.cwd) parent.pieces) ∧ Since env written base w)
      (fun _ _ => True) := by
  unfold createParent
  cases isParent : path.parent with
  | none => exact Triple.pure fun _ since => ⟨fun _ absurdity => (by cases absurdity), since⟩
  | some parent =>
    refine Triple.context ((createDirAll_there still parent).post fun _ w ⟨along, since⟩ => ⟨?_, since⟩)
    rintro other same
    obtain rfl := Option.some.inj same
    exact along

/-- The hash of a file that a path leads to. -/
theorem hashFile_inTree (still : env.Still) {Q : FileSystem → Prop} {path : Path} {loc : Loc}
    (leads : ∀ fs, Q fs → fs.resolve env.cwd path = some loc) {chunkSize : Nat}
    (positive : 0 < chunkSize) :
    Triple (InTree env Q) (hashFile platform path chunkSize)
      (fun result w => (∃ content, w.fs.content loc = some content ∧
        result.1 = platform.blake3 content) ∧ InTree env Q w)
      (fun _ => InTree env Q) := by
  rintro w ⟨rfl, holds⟩
  refine (hashFile_stands still positive (leads w.fs holds)).conseq (fun _ start => start) ?_ ?_ w
    ⟨rfl, rfl⟩
  · rintro result w' ⟨⟨content, found, hash, _⟩, sameEnv, sameTree⟩
    rw [← sameTree] at found holds
    exact ⟨⟨content, found, hash⟩, sameEnv, holds⟩
  · rintro _ w' ⟨sameEnv, sameTree⟩
    rw [← sameTree] at holds
    exact ⟨sameEnv, holds⟩

/-- A call to the system; the rest goes on with what is known of the tree by then. -/
theorem callThen {α β : Type} {B : Transfer → Prop} {A : α → FileSystem → Prop} {prog : Sys α}
    {rest : α → Run β} {after : β → Transfer → Prop} (moved : ∀ t w, B t → B { t with world := w })
    (calls : Triple (Since env written base) prog
      (fun a w => A a w.fs ∧ Since env written base w) fun _ _ => True)
    (next : ∀ a fs, A a fs → Persists written base fs →
      Triple (fun t => B t ∧ Since env written fs t.world) (rest a) after fun _ _ => True) :
    Triple (fun t => B t ∧ Since env written base t.world) (sys prog >>= rest) after
      fun _ _ => True :=
  Triple.bind (sys_beside moved calls fun _ _ _ _ => trivial) fun a t ⟨beside, known, since⟩ =>
    next a t.world.fs known since.tree t ⟨beside, since_now since.env_eq⟩

/-- A program starts in some tree. -/
theorem fromTree {α : Type} {B : Transfer → Prop} {A : FileSystem → Prop} {prog : Run α}
    {after : α → Transfer → Prop} {failed : Error → Transfer → Prop} (written : Loc → Prop)
    (next : ∀ fs, A fs → Triple (fun t => B t ∧ Since env written fs t.world) prog after failed) :
    Triple (fun t => B t ∧ InTree env A t.world) prog after failed :=
  fun t ⟨beside, holds⟩ => next t.world.fs holds.tree t ⟨beside, since_now holds.env_eq⟩

theorem Landed.persists {entry : ManifestEntry} {fs fs' : FileSystem} {cwd : Loc}
    (landed : Landed platform cwd job single m entry fs) (persists : Persists written fs fs')
    (apart : ∀ loc, destLoc cwd job.target m.rootName single entry = some loc →
      ¬ SavedAt cwd job loc → ¬ written loc) : Landed platform cwd job single m entry fs' := by
  obtain ⟨loc, content, leads, there, whole, empty, found⟩ := landed.file
  refine ⟨fun parent isParent => (landed.parent parent isParent).mono persists.dirs, loc, content,
    persists.resolve leads, persists.files loc there, whole, empty, fun unsaved => ?_⟩
  exact persists.contents loc content (apart loc (FileSystem.lexical_of_resolve leads) unsaved)
    (found unsaved)

/-- After `n` rounds of the entry loop. -/
structure Rounds (platform : Platform) (cwd : Loc) (job : Job) (single : Bool) (m : TransferManifest)
    (n : Nat) (fs : FileSystem) : Prop where
  target : fs.DirsAlong (job.target.start cwd) job.target.pieces
  landed : ∀ i < n, ∀ entry, m.entries[i]? = some entry → Landed platform cwd job single m entry fs

/-- What persists through one more round. -/
theorem Rounds.persists {i : Nat} {entry : ManifestEntry} {fs fs' : FileSystem}
    (first : FirstRun platform env m job single) (found : m.entries[i]? = some entry)
    (rounds : Rounds platform env.cwd job single m i fs)
    (persists : Persists (Writable env.cwd job single m entry) fs fs') :
    Rounds platform env.cwd job single m i fs' := by
  refine ⟨rounds.target.mono persists.dirs, fun j before other found' => ?_⟩
  refine (rounds.landed j before other found').persists persists fun loc dest unsaved may => ?_
  rcases may with dest' | saved
  · exact absurd (first.distinct j i other entry loc found' found dest dest') (Nat.ne_of_lt before)
  · exact unsaved saved

/-- A file that was hashed has landed. -/
theorem Between.whole (first : FirstRun platform env m job single) {entry : ManifestEntry}
    (listed : entry ∈ m.entries) (same : entry.bare = file.entry.bare) {fs : FileSystem}
    (dest : destLoc env.cwd job.target m.rootName single entry = some file.dst)
    (holds : Between platform env.cwd job m file written base source entry.chunkCount fs)
    {content : Bytes} (there : fs.content file.dst = some content)
    (hashed : platform.blake3 content = file.entry.fileHash) :
    ∃ whole, Whole platform m.chunkSize file.entry whole ∧
      (SavedAt env.cwd job file.dst → whole = []) ∧
      (¬ SavedAt env.cwd job file.dst → fs.content file.dst = some whole) := by
  obtain ⟨current, here, filled, saved⟩ := holds.file
  obtain rfl := Option.some.inj (here.symm.trans there)
  rw [chunkCount_bare same] at filled saved
  by_cases isSaved : SavedAt env.cwd job file.dst
  · -- the hash is not that of a manifest
    rcases saved isSaved with ⟨length, empty⟩ | ⟨manifest, sameBare, rfl⟩
    · have covered := first.covered entry listed
      rw [size_bare same, chunkCount_bare same] at covered
      have none : current = [] := by
        rw [← List.length_eq_zero_iff, length]
        exact size_zero first.positive covered empty
      refine ⟨current, ⟨⟨length.symm, fun k hash listed nonempty => ?_⟩, hashed⟩, fun _ => none,
        fun _ => there⟩
      exact absurd (empty k (List.getElem?_eq_some_iff.mp listed).1) nonempty
    · exact absurd (hashed.trans (fileHash_bare same).symm)
        (first.noSelfHash entry listed file.dst dest isSaved manifest sameBare)
  · exact ⟨current, (filled isSaved).whole hashed, fun absurdity => absurd absurdity isSaved,
      fun _ => there⟩

/-- **One round of the entry loop.** -/
theorem transferEntry_rounds (first : FirstRun platform env m job single) {i : Nat}
    {entry : ManifestEntry} (found : m.entries[i]? = some entry) (bytesTotal : Nat) :
    Triple (fun t => Books platform m ⟨i, 0, false⟩ t ∧
        InTree env (Rounds platform env.cwd job single m i) t.world)
      (transferEntry platform job single bytesTotal m.chunkSize i)
      (fun _ t => Books platform m ⟨i + 1, 0, false⟩ t ∧
        InTree env (Rounds platform env.cwd job single m (i + 1)) t.world)
      (fun _ _ => True) := by
  have still := first.still
  have listed := List.mem_of_getElem? found
  have moved (t : Transfer) (w : World) (books : Books platform m ⟨i, 0, false⟩ t) :
      Books platform m ⟨i, 0, false⟩ { t with world := w } := books.moved w
  refine Triple.bind (M := fun manifest t => manifest.bare = m.bare ∧
    Books platform m ⟨i, 0, false⟩ t ∧ InTree env (Rounds platform env.cwd job single m i) t.world)
    (Triple.observe fun t holds => ⟨holds.1.bits.bare_eq, holds⟩) fun manifest => ?_
  refine Triple.given fun sameBare => ?_
  obtain ⟨entry', found', same⟩ := entry_of_bare sameBare.symm found
  rw [found']
  dsimp only
  rw [rootName_bare sameBare, ← relativePath_bare same]
  refine fromTree (Writable env.cwd job single m entry) fun base rounds => ?_
  refine Triple.bind (sys_beside moved ((since_frame still).isFile _).onSuccess
    fun _ _ _ _ => trivial) fun sourceIsFile => ?_
  refine callThen (A := fun _ fs => ∀ parent, (destFilePath job.target m.rootName single
    entry.relativePath).parent = some parent → fs.DirsAlong (parent.start env.cwd) parent.pieces)
    moved (createParent_there still _) fun _ fs₁ along kept₁ => ?_
  refine callThen (A := fun src fs => (sourcePath job.source sourceIsFile
    entry.relativePath).lexical env.cwd = some src ∧ (fs.node src).isSome) moved
    (Triple.context (openRead_there still _)) fun src fs₂ ⟨denotes, there⟩ kept₂ => ?_
  refine callThen (A := fun dst fs => fs.resolve env.cwd (destFilePath job.target m.rootName single
    entry.relativePath) = some dst ∧ (fs.content dst).isSome) moved
    (Triple.context (openWrite_there still _)) fun dst fs₃ ⟨leads, isFile⟩ kept₃ => ?_
  -- what is known of the two files
  have dest : destLoc env.cwd job.target m.rootName single entry = some dst :=
    FileSystem.lexical_of_resolve leads
  have may : Writable env.cwd job single m entry dst := Or.inl dest
  obtain ⟨source, reads, steady⟩ := first.source_read listed denotes there
  have rules : CopyRules platform job m ⟨i, entry', src, dst⟩ _ _ := copyRules still may
    (fun _ saved => Or.inr saved) (fun fs kept => reads fs (kept₃.trans kept))
    (chunkCount_bare same ▸ steady)
  have sized (message : String) : Triple (Since env (Writable env.cwd job single m entry) fs₃)
      (withContext message (setLen dst entry'.size))
      (fun _ w => (∃ content, w.fs.content dst = some content ∧ content.length = entry'.size) ∧
        Since env (Writable env.cwd job single m entry) fs₃ w)
      fun _ _ => True := Triple.context (setLen_there still may _)
  refine Triple.bind (sys_beside moved (sized _) fun _ _ _ _ => trivial) fun _ => ?_
  refine Triple.bind ((chunkLoop_books first.reach rules found same).pre ?_) fun _ => ?_
  · rintro t ⟨books, ⟨content, isThere, length⟩, since⟩
    exact ⟨books, since.env_eq, since.tree, content, isThere, fun _ => Filled.start length,
      fun _ => Or.inl ⟨length, fun _ impossible => absurd impossible (Nat.not_lt_zero _)⟩⟩
  refine Triple.bind (sys_beside (fun _ w books => books.moved w) (hashFile_inTree still
    (fun fs holds => holds.persists.resolve leads) first.positive) fun _ _ _ _ => trivial) fun hashes => ?_
  refine Triple.ite (fun _ => Triple.throw fun _ _ => trivial) fun matched => Triple.update ?_
  rintro t ⟨books, ⟨content, isThere, hash⟩, holds⟩
  have kept := kept₁.trans (kept₂.trans (kept₃.trans holds.tree.persists))
  obtain ⟨whole, isWhole, empty, isContent⟩ := holds.tree.whole first listed same dest isThere
    (hash.symm.trans (not_not.mp matched))
  refine ⟨books.turn found, holds.env_eq, rounds.target.mono kept.dirs, fun j before other found'' => ?_⟩
  rcases Nat.lt_succ_iff_lt_or_eq.mp before with earlier | rfl
  · exact (rounds.persists first found kept).landed j earlier other found''
  · obtain rfl := Option.some.inj (found.symm.trans found'')
    refine ⟨fun parent isParent => (along parent isParent).mono ?_, dst, whole,
      holds.tree.persists.resolve leads, by rw [isThere]; rfl, isWhole.of_bare same, empty, isContent⟩
    exact (kept₂.trans (kept₃.trans holds.tree.persists)).dirs

end Round

/-! ### The whole run -/

/-- What a finished run leaves in the target: the files of all entries, and its manifest in the
checkpoint. -/
structure Finished (platform : Platform) (cwd : Loc) (job : Job) (single : Bool)
    (m m' : TransferManifest) (fs : FileSystem) : Prop where
  rounds : Rounds platform cwd job single m m.entries.length fs
  checkpoint : ∀ path, job.checkpoint = some path →
    ∃ loc, fs.resolve cwd path = some loc ∧ fs.content loc = some (platform.manifestJson m')

section Run

variable {platform : Platform} {env : Surroundings} {m : TransferManifest} {job : Job} {single : Bool}
  {t t' : Transfer}

/-- No bit of a manifest that was just built is set. -/
theorem doneAt_fresh (fresh : ∀ entry ∈ m.entries,
    entry.resumeBitmap = List.replicate ((entry.chunkCount + 7) / 8) 0) (i k : Nat) :
    doneAt m i k = false := by
  unfold doneAt
  cases found : m.entries[i]? with
  | none => rfl
  | some entry =>
    rw [Option.any_some, isChunkDone, fresh entry (List.mem_of_getElem? found), getBitmap_replicate]

/-- The books of a run that has just started. -/
theorem books_start (clear : ∀ i k, doneAt m i k = false) (same : t.manifest = m) :
    Books platform m ⟨0, 0, false⟩
      { t with bytesDone := doneSize platform m, filesCompleted := 0 } := by
  subst same
  refine ⟨Rebitted.refl _, doneSize_mod _ _, fun x _ _ behind => ?_, fun x _ => clear x.1 x.2, rfl⟩
  rcases behind with before | ⟨_, before⟩
  · exact absurd before (Nat.not_lt_zero _)
  · exact absurd before (Nat.not_lt_zero _)

/-- The start of a run leads to a target that is there. -/
theorem startTransfer_target (still : env.Still) :
    Triple (fun t => t.manifest = m ∧ t.world.env = env) (startTransfer job)
      (fun _ t => t.manifest = m ∧ InTree env
        (fun fs => fs.DirsAlong (job.target.start env.cwd) job.target.pieces) t.world)
      (fun _ _ => True) := by
  rintro t ⟨same, sameEnv⟩
  have starts : Triple (fun t' => t'.manifest = m ∧ Since env (fun _ => True) t.world.fs t'.world)
      (startTransfer job) (fun _ t => t.manifest = m ∧ InTree env
        (fun fs => fs.DirsAlong (job.target.start env.cwd) job.target.pieces) t.world)
      (fun _ _ => True) := by
    refine callThen (A := fun _ fs => fs.DirsAlong (job.target.start env.cwd) job.target.pieces)
      (fun _ _ same => same) (Triple.context (createDirAll_there still _)) fun _ fs along kept => ?_
    refine Triple.bind (sys_beside (fun _ _ same => same) ((since_frame still).isFile _).onSuccess
      fun _ _ _ _ => trivial) fun sourceIsFile => ?_
    refine Triple.bind (M := fun _ t => t.manifest = m ∧ Since env (fun _ => True) fs t.world)
      (Triple.observe fun _ holds => holds) fun manifest => Triple.pure ?_
    exact fun t ⟨same, since⟩ => ⟨same, since.env_eq, along.mono since.tree.dirs⟩
  exact starts t ⟨same, since_now sameEnv⟩

/-- The last save. -/
theorem saveCheckpoint_finished (still : env.Still) {place : Place} :
    Triple (fun t => Books platform m place t ∧
        InTree env (Rounds platform env.cwd job single m m.entries.length) t.world)
      (saveCheckpoint platform job)
      (fun _ t => Books platform m place t ∧
        InTree env (Finished platform env.cwd job single m t.manifest) t.world)
      (fun _ _ => True) := by
  refine Triple.bind (M := fun manifest t => (Books platform m place t ∧ t.manifest = manifest) ∧
    InTree env (Rounds platform env.cwd job single m m.entries.length) t.world)
    (Triple.observe fun t ⟨books, holds⟩ => ⟨⟨books, rfl⟩, holds⟩) fun manifest => ?_
  cases isSaved : job.checkpoint with
  | none =>
    refine Triple.pure fun t ⟨⟨books, _⟩, holds⟩ => ⟨books, holds.env_eq, holds.tree, ?_⟩
    intro path absurdity
    rw [isSaved] at absurdity
    cases absurdity
  | some path =>
    refine fromTree (SavedAt env.cwd job) fun base rounds => ?_
    have saves : Triple (Since env (SavedAt env.cwd job) base) (saveManifest platform path manifest)
        (fun _ w => (∃ loc, w.fs.resolve env.cwd path = some loc ∧
          w.fs.content loc = some (platform.manifestJson manifest)) ∧
          Since env (SavedAt env.cwd job) base w) fun _ _ => True :=
      Triple.context (fsWrite_there still (fun loc lexical => ⟨path, isSaved, lexical⟩) _)
    refine (sys_beside (fun t w ⟨books, same⟩ => ⟨books.moved w, same⟩) saves
      fun _ _ _ _ => trivial).post ?_
    rintro _ t ⟨⟨books, rfl⟩, there, since⟩
    refine ⟨books, since.env_eq, ⟨rounds.target.mono since.tree.dirs, fun i before entry found => ?_⟩,
      fun path' isSaved' => ?_⟩
    · exact (rounds.landed i before entry found).persists since.tree fun _ _ unsaved => unsaved
    · obtain rfl := Option.some.inj (isSaved.symm.trans isSaved')
      exact there

/-- **The rest of a run.** -/
theorem transferFiles_finished (first : FirstRun platform env m job single) :
    Triple (fun t => t.manifest = m ∧ InTree env
        (fun fs => fs.DirsAlong (job.target.start env.cwd) job.target.pieces) t.world)
      (transferFiles platform job single)
      (fun report t => (report = ⟨totalSize m, doneSize platform t.manifest, m.entries.length,
          m.entries.length⟩ ∧ Books platform m ⟨m.entries.length, 0, false⟩ t) ∧
        InTree env (Finished platform env.cwd job single m t.manifest) t.world)
      (fun _ _ => True) := by
  refine Triple.bind (M := fun manifest t => manifest = m ∧ t.manifest = m ∧ InTree env
    (fun fs => fs.DirsAlong (job.target.start env.cwd) job.target.pieces) t.world)
    (Triple.observe fun t holds => ⟨holds.1, holds⟩) fun manifest => Triple.given fun same => ?_
  subst same
  refine Triple.bind (M := fun _ t => Books platform manifest ⟨0, 0, false⟩ t ∧
    InTree env (Rounds platform env.cwd job single manifest 0) t.world) (Triple.update ?_) fun _ => ?_
  · exact fun t ⟨same, holds⟩ => ⟨books_start first.clear same, holds.env_eq, holds.tree,
      fun _ impossible => absurd impossible (Nat.not_lt_zero _)⟩
  refine Triple.bind (M := fun _ t => Books platform manifest ⟨0, 0, false⟩ t ∧
    InTree env (Rounds platform env.cwd job single manifest 0) t.world)
    (Triple.update fun t ⟨books, holds⟩ => ⟨books.event _, holds⟩) fun _ => ?_
  refine Triple.bind (Triple.forM_range (fun i t => Books platform manifest ⟨i, 0, false⟩ t ∧
    InTree env (Rounds platform env.cwd job single manifest i) t.world) fun i inside =>
      transferEntry_rounds first (List.getElem?_eq_getElem inside) _) fun _ => ?_
  refine Triple.bind (M := fun _ t => Books platform manifest ⟨manifest.entries.length, 0, false⟩ t ∧
    InTree env (Finished platform env.cwd job single manifest t.manifest) t.world) ?_ fun _ => ?_
  · exact saveCheckpoint_finished first.still
  · refine Triple.observe fun t ⟨books, holds⟩ => ⟨⟨?_, books⟩, holds⟩
    rw [length_bare books.bits.bare_eq, books.counter, ← doneSize_mod, books.files_eq]

/-- A manifest that was built is fit for a first run. -/
theorem firstRun_built {path : Path} {chunkSize : Nat} {w w' : World} (still : w.env.Still)
    (built : buildManifest platform path chunkSize w = .ok m w') (stillToo : env.Still)
    (distinct : DistinctDestinations env.cwd job.target single m)
    (steady : OffsetsFit platform m ∨ SourceUnwritten env.cwd job single m)
    (noSelfHash : NoSelfHash platform env.cwd job single m) :
    FirstRun platform env m job single := by
  obtain ⟨⟨isSize, reads⟩, _⟩ := (buildManifest_reads still path chunkSize).of_ok ⟨rfl, rfl⟩ built
  obtain ⟨positive, bitmaps⟩ := (buildManifest_fresh platform path chunkSize).of_ok trivial built
  refine ⟨stillToo, positive, fun entry member => ?_, doneAt_fresh bitmaps, fun entry member => ?_, distinct,
    steady, noSelfHash⟩
  · rw [bitmaps entry member, List.length_replicate]
  · obtain ⟨content, read⟩ := reads entry member
    rw [isSize]
    exact read.size_le (effectiveChunkSize_pos chunkSize)

/-- **A run that returns has finished**: all of its manifest is marked, all of it is in the target, and
the report says so. -/
theorem executeLocalTransfer_finished (still : t.world.env.Still)
    (first : ∀ single ∈ layout job t, FirstRun platform t.world.env t.manifest job single)
    {report : TransferReport} (run : executeLocalTransfer platform job t = .ok report t') :
    ∃ single ∈ layout job t,
      (report = ⟨totalSize t.manifest, doneSize platform t'.manifest, t.manifest.entries.length,
          t.manifest.entries.length⟩ ∧
        Books platform t.manifest ⟨t.manifest.entries.length, 0, false⟩ t') ∧
      InTree t.world.env (Finished platform t.world.env.cwd job single t.manifest t'.manifest)
        t'.world := by
  cases started : startTransfer job t with
  | error e t₁ =>
    rw [executeLocalTransfer, bind_of_error started] at run
    cases run
  | ok single t₁ =>
    have isLayout : single ∈ layout job t := by
      rw [layout, returned, started]
      rfl
    have begun := (startTransfer_target still).of_ok ⟨rfl, rfl⟩ started
    rw [executeLocalTransfer, bind_of_ok started] at run
    exact ⟨single, isLayout, (transferFiles_finished (first single isLayout)).of_ok begun run⟩

end Run

end SendRs
