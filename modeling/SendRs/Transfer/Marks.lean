/-
**The resume bitmap is a faithful set of chunk indices.**

The bits of a bitmap are cells that are addressed by a chunk index (`bitmapCells`): byte `idx / 8`, bit
`idx % 8`. A run of `mark_chunk_done` and `clear_chunk_done` is a run of writes to these cells, so a chunk
of an entry that was built is done when the last call for its index has marked it.

Result: `resumeBitmap_faithful`, for every entry that `build_entry` returns, whatever the reads were.
-/

import SendRs.Library.LastWrite
import SendRs.Transfer.Soundness

namespace SendRs

open Effect LastWrite

/-- The bits of a bitmap. -/
def bitmapCells : Cells (List UInt8) ℕ Bool where
  read := getBitmap
  write := setBitmap
  has bitmap idx := idx / 8 < bitmap.length
  read_same bitmap idx value inside := by rw [getBitmap_setBitmap, if_pos ⟨rfl, inside⟩]
  read_other bitmap idx other value different := getBitmap_setBitmap_ne bitmap different value
  write_outside bitmap idx value outside := List.modify_eq_self (Nat.le_of_not_lt outside)
  has_write bitmap idx other value := by rw [length_setBitmap]

/-- A call that changes the bitmap of an entry. -/
inductive BitmapCall where
  | markChunkDone (chunkIdx : Nat)
  | clearChunkDone (chunkIdx : Nat)
deriving DecidableEq

/-- The index that is called for. -/
def BitmapCall.chunkIdx : BitmapCall → Nat
  | markChunkDone chunkIdx => chunkIdx
  | clearChunkDone chunkIdx => chunkIdx

/-- What the index is to read as. -/
def BitmapCall.done : BitmapCall → Bool
  | markChunkDone _ => true
  | clearChunkDone _ => false

/-- What a call does to an entry. -/
def ManifestEntry.call (entry : ManifestEntry) : BitmapCall → ManifestEntry
  | .markChunkDone chunkIdx => SendRs.markChunkDone entry chunkIdx
  | .clearChunkDone chunkIdx => SendRs.clearChunkDone entry chunkIdx

/-- A run of calls. -/
def ManifestEntry.run (entry : ManifestEntry) (calls : List BitmapCall) : ManifestEntry :=
  calls.foldl ManifestEntry.call entry

/-- The last call for an index. -/
def lastCall (j : Nat) (calls : List BitmapCall) : Option BitmapCall :=
  (calls.filter fun call => call.chunkIdx = j).getLast?

section Calls

variable {entry : ManifestEntry} {call : BitmapCall} {calls : List BitmapCall}

/-- A call writes one bit. -/
theorem call_eq : entry.call call =
    { entry with resumeBitmap := setBitmap entry.resumeBitmap call.chunkIdx call.done } := by
  cases call with
  | markChunkDone chunkIdx => rfl
  | clearChunkDone chunkIdx => rfl

theorem run_append : entry.run (calls ++ [call]) = (entry.run calls).call call := by
  rw [ManifestEntry.run, List.foldl_append]
  rfl

/-- **A run of calls** is a run of writes to the bits, and changes nothing else. -/
theorem run_eq : entry.run calls = { entry with
    resumeBitmap := bitmapCells.run entry.resumeBitmap
      (calls.map fun call => (call.chunkIdx, call.done)) } := by
  induction calls using List.reverseRecOn with
  | nil => rfl
  | append_singleton calls call ih =>
    rw [run_append, ih, List.map_append, List.map_singleton, Cells.run_concat]
    exact call_eq

theorem length_run : (entry.run calls).resumeBitmap.length = entry.resumeBitmap.length := by
  induction calls using List.reverseRecOn with
  | nil => rfl
  | append_singleton calls call ih =>
    rw [run_append, call_eq, ← ih]
    exact length_setBitmap _ _ _

/-- The last write to a bit is the last call for its index. -/
theorem lastTo_calls (j : Nat) : lastTo j (calls.map fun call => (call.chunkIdx, call.done)) =
    (lastCall j calls).map BitmapCall.done := by
  unfold lastTo lastCall
  rw [List.filter_map, List.getLast?_map, Option.map_map]
  rfl

end Calls

/-- **The resume bitmap is a faithful set of chunk indices.** After any calls, a chunk of an entry that was
built is done if the last call for it has marked it, and not if there was none; a call changes no other
answer; past the bitmap nothing is done, and calls are ignored; and the bitmap keeps its length. -/
theorem resumeBitmap_faithful {platform : Platform} {path : Path} {relativePath : String}
    {chunkSize : Nat} {w w' : World} {entry : ManifestEntry}
    (built : buildEntry platform path relativePath chunkSize w = .ok entry w')
    (calls : List BitmapCall) :
    (∀ j < entry.chunkCount,
      isChunkDone (entry.run calls) j = ((lastCall j calls).map BitmapCall.done).getD false) ∧
    (∀ (call : BitmapCall) (j : Nat), call.chunkIdx ≠ j →
      isChunkDone ((entry.run calls).call call) j = isChunkDone (entry.run calls) j) ∧
    (∀ j, 8 * (entry.run calls).resumeBitmap.length ≤ j →
      isChunkDone (entry.run calls) j = false ∧
        ∀ call : BitmapCall, call.chunkIdx = j → (entry.run calls).call call = entry.run calls) ∧
    (entry.run calls).resumeBitmap.length = entry.chunkCount ⌈/⌉ 8 := by
  have bitmap : entry.resumeBitmap = List.replicate ((entry.chunkCount + 7) / 8) 0 :=
    (buildEntry_fresh platform path relativePath chunkSize).of_ok trivial built
  refine ⟨fun j inside => ?_, fun call j different => ?_, fun j outside => ⟨?_, ?_⟩, ?_⟩
  · have has : bitmapCells.has entry.resumeBitmap j := by
      show j / 8 < entry.resumeBitmap.length
      rw [bitmap, List.length_replicate]
      omega
    have clear : getBitmap entry.resumeBitmap j = false := by
      rw [bitmap, getBitmap_replicate]
    rw [isChunkDone, run_eq, ← lastTo_calls, ← clear]
    exact bitmapCells.read_run _ _ has
  · rw [call_eq]
    exact getBitmap_setBitmap_ne _ different _
  · rw [isChunkDone, getBitmap, List.getElem?_eq_none (by omega)]
  · rintro call rfl
    have past : ¬ bitmapCells.has (entry.run calls).resumeBitmap call.chunkIdx := by
      show ¬ call.chunkIdx / 8 < (entry.run calls).resumeBitmap.length
      omega
    have ignored := bitmapCells.write_outside _ _ call.done past
    rw [call_eq]
    exact congrArg (fun bitmap => { entry.run calls with resumeBitmap := bitmap }) ignored
  · rw [length_run, bitmap, List.length_replicate]
    rfl

/-- The small file `/s` in chunks of one byte: the first chunk is marked, the second one is marked and
cleared, and there is a call past the bitmap. -/
theorem resumeBitmap_faithful_sample : ∃ (entry : ManifestEntry) (w' : World),
    buildEntry samplePlatform (.ofString "/s") "s" 1 sampleWorld = .ok entry w' ∧
      ∀ calls, calls = [BitmapCall.markChunkDone 0, .markChunkDone 1, .markChunkDone 9,
        .clearChunkDone 1] →
        isChunkDone (entry.run calls) 0 = true ∧ isChunkDone (entry.run calls) 1 = false ∧
          isChunkDone (entry.run calls) 9 = false ∧ (entry.run calls).resumeBitmap.length = 1 := by
  have returns : returned (buildEntry samplePlatform (.ofString "/s") "s" 1) sampleWorld =
      some ⟨"s", 2, 7, sampleHash [104, 105], [sampleHash [104], sampleHash [105]], [0]⟩ := by
    decide +kernel
  obtain ⟨w', built⟩ := ok_of_returned returns
  refine ⟨_, w', built, ?_⟩
  rintro calls rfl
  obtain ⟨inside, _, outside, length⟩ := resumeBitmap_faithful built
    [.markChunkDone 0, .markChunkDone 1, .markChunkDone 9, .clearChunkDone 1]
  exact ⟨inside 0 (by decide), inside 1 (by decide), (outside 9 (by rw [length]; decide)).1, length⟩

end SendRs
