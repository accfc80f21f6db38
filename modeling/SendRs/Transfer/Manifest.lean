/-
**The manifest: what is to be transferred, and which chunks are done.**

The arithmetic is the machine's: `u64` sums wrap at `2 ^ 64`, and the offset of a chunk is a `usize`
product, which wraps at the pointer width of the platform. `Platform` also holds the code the
program only calls: the hash function and the JSON encoder.
-/

import Mathlib
import SendRs.Os.Text

namespace SendRs

/-- `DEFAULT_CHUNK_SIZE`. -/
def defaultChunkSize : Nat := 1024 * 1024

/-- `DEFAULT_MAX_RETRIES`. -/
def defaultMaxRetries : Nat := 3

/-- One file of a transfer. -/
structure ManifestEntry where
  relativePath : String
  size : Nat
  modifiedUnix : Int
  fileHash : String
  chunkHashes : List String
  resumeBitmap : List UInt8
deriving DecidableEq

/-- The files of a transfer. -/
structure TransferManifest where
  transferId : String
  rootName : String
  chunkSize : Nat
  createdAt : Int
  entries : List ManifestEntry
deriving DecidableEq

/-- What `execute_local_transfer` reports while it runs. -/
structure ProgressEvent where
  bytesTotal : Nat
  bytesDone : Nat
  currentFile : String
deriving DecidableEq

/-- What `execute_local_transfer` returns. -/
structure TransferReport where
  bytesTotal : Nat
  bytesDone : Nat
  filesTotal : Nat
  filesCompleted : Nat
deriving DecidableEq

/-- The platform and the libraries the program is linked with. -/
structure Platform where
  /-- The number of bits of a `usize`. -/
  pointerWidth : Nat
  supported : pointerWidth = 32 ∨ pointerWidth = 64
  /-- `blake3::hash(bytes).to_hex()`. -/
  blake3 : Bytes → String
  /-- `serde_json::to_string_pretty` of a manifest, as bytes. -/
  manifestJson : TransferManifest → Bytes

/-- `ManifestEntry::chunk_count`. -/
def ManifestEntry.chunkCount (entry : ManifestEntry) : Nat := entry.chunkHashes.length

/-! ### The resume bitmap -/

/-- `set_bitmap`: an index past the end is ignored. -/
def setBitmap (bitmap : List UInt8) (idx : Nat) (value : Bool) : List UInt8 :=
  bitmap.modify (idx / 8) fun byte =>
    if value then byte ||| (1 <<< UInt8.ofNat (idx % 8))
    else byte &&& ~~~(1 <<< UInt8.ofNat (idx % 8))

/-- `get_bitmap`: an index past the end reads as false. -/
def getBitmap (bitmap : List UInt8) (idx : Nat) : Bool :=
  match bitmap[idx / 8]? with
  | some byte => byte &&& (1 <<< UInt8.ofNat (idx % 8)) != 0
  | none => false

/-- `mark_chunk_done`. -/
def markChunkDone (entry : ManifestEntry) (chunkIdx : Nat) : ManifestEntry :=
  { entry with resumeBitmap := setBitmap entry.resumeBitmap chunkIdx true }

/-- `clear_chunk_done`. -/
def clearChunkDone (entry : ManifestEntry) (chunkIdx : Nat) : ManifestEntry :=
  { entry with resumeBitmap := setBitmap entry.resumeBitmap chunkIdx false }

/-- `is_chunk_done`. -/
def isChunkDone (entry : ManifestEntry) (chunkIdx : Nat) : Bool :=
  getBitmap entry.resumeBitmap chunkIdx

/-! ### Sizes and offsets -/

/-- A sum of `u64` values. -/
def sumU64 (values : List Nat) : Nat := values.foldl (fun sum value => (sum + value) % 2 ^ 64) 0

/-- `(chunk_idx * chunk_size) as u64`. -/
def chunkOffset (platform : Platform) (chunkIdx chunkSize : Nat) : Nat :=
  chunkIdx * chunkSize % 2 ^ platform.pointerWidth

/-- `entry_size.saturating_sub(offset).min(chunk_size as u64)`. -/
def chunkLen (platform : Platform) (entrySize chunkIdx chunkSize : Nat) : Nat :=
  min (entrySize - chunkOffset platform chunkIdx chunkSize) chunkSize

/-- `total_size`. -/
def totalSize (manifest : TransferManifest) : Nat :=
  sumU64 (manifest.entries.map ManifestEntry.size)

/-- The part of `done_size` that is due to one entry. -/
def doneSizeEntry (platform : Platform) (chunkSize : Nat) (entry : ManifestEntry) : Nat :=
  sumU64 ((List.range entry.chunkCount).filterMap fun idx =>
    if isChunkDone entry idx then some (chunkLen platform entry.size idx chunkSize) else none)

/-- `done_size`. -/
def doneSize (platform : Platform) (manifest : TransferManifest) : Nat :=
  sumU64 (manifest.entries.map (doneSizeEntry platform manifest.chunkSize))

/-! ### Bits -/

/-- Reading through the mask is reading one bit. -/
theorem mask_ne_zero (byte : UInt8) (i : Fin 8) :
    (byte &&& (1 <<< UInt8.ofNat i) != 0) = byte.toBitVec.getLsbD i := by
  cases byte with
  | ofBitVec byte =>
    cases byte with
    | ofFin byte =>
      revert byte i
      decide +kernel

/-- The mask of an index is its bit. -/
theorem getLsbD_mask (i j : Fin 8) :
    (1 <<< UInt8.ofNat i : UInt8).toBitVec.getLsbD j = decide (i = j) := by
  revert i j
  decide

/-- The bits of a byte are independent of each other. -/
theorem mask_set (byte : UInt8) (i j : Fin 8) (value : Bool) :
    ((if value then byte ||| (1 <<< UInt8.ofNat i) else byte &&& ~~~(1 <<< UInt8.ofNat i)) &&&
        (1 <<< UInt8.ofNat j) != 0) =
      if i = j then value else byte &&& (1 <<< UInt8.ofNat j) != 0 := by
  rw [mask_ne_zero, mask_ne_zero]
  cases value
  · rw [if_neg Bool.false_ne_true, UInt8.toBitVec_and, UInt8.toBitVec_not, BitVec.getLsbD_and,
      BitVec.getLsbD_not, getLsbD_mask]
    by_cases same : i = j <;> simp [same, j.isLt]
  · rw [if_pos rfl, UInt8.toBitVec_or, BitVec.getLsbD_or, getLsbD_mask]
    by_cases same : i = j <;> simp [same]

/-- **A write to one index is seen at that index only**, and there if the bitmap reaches it. -/
theorem getBitmap_setBitmap (bitmap : List UInt8) (idx other : Nat) (value : Bool) :
    getBitmap (setBitmap bitmap idx value) other =
      if idx = other ∧ idx / 8 < bitmap.length then value else getBitmap bitmap other := by
  unfold getBitmap setBitmap
  rw [List.getElem?_modify]
  cases found : bitmap[other / 8]? with
  | none =>
    have outside := List.getElem?_eq_none_iff.mp found
    rw [if_neg fun both => absurd both.2 (by have := both.1; omega)]
    rfl
  | some byte =>
    obtain ⟨inside, _⟩ := List.getElem?_eq_some_iff.mp found
    simp only [Option.map_eq_map, Option.map_some]
    by_cases sameByte : idx / 8 = other / 8
    · have sameBit : (⟨idx % 8, Nat.mod_lt _ (by decide)⟩ : Fin 8) =
          ⟨other % 8, Nat.mod_lt _ (by decide)⟩ ↔ idx = other := by
        rw [Fin.mk.injEq]
        omega
      have bit := mask_set byte ⟨idx % 8, Nat.mod_lt _ (by decide)⟩
        ⟨other % 8, Nat.mod_lt _ (by decide)⟩ value
      simp only [sameBit] at bit
      simp only [sameByte, if_true, bit, inside, and_true]
    · rw [if_neg sameByte, if_neg fun both => sameByte (by rw [both.1])]

/-- Marking or clearing one chunk leaves the answer for the others. -/
theorem getBitmap_setBitmap_ne (bitmap : List UInt8) {idx other : Nat} (different : idx ≠ other)
    (value : Bool) : getBitmap (setBitmap bitmap idx value) other = getBitmap bitmap other := by
  rw [getBitmap_setBitmap, if_neg fun both => different both.1]

/-- A bitmap of zeros marks nothing. -/
theorem getBitmap_replicate (n idx : Nat) : getBitmap (List.replicate n 0) idx = false := by
  unfold getBitmap
  rw [List.getElem?_replicate]
  by_cases inside : idx / 8 < n
  · simp [inside]
  · simp [inside]

@[simp] theorem length_setBitmap (bitmap : List UInt8) (idx : Nat) (value : Bool) :
    (setBitmap bitmap idx value).length = bitmap.length := List.length_modify _ _ _

end SendRs
