/-
**The JSON of the stored records.**

How `serde_json` writes the records that are kept in files, as formats: names and members in the order of
the source, indented by two spaces, times as `chrono` writes them.

Result: `Format.faithful`. A record that is an object or a list in its format is written and read as the
programs rely on: it is read back, and no text that is cut short is read.
-/

import SendRs.Library.CivilTime
import SendRs.Library.JsonFormat
import SendRs.Store.Identity

namespace SendRs

open Cli
open Json (Format Layout)
open Json.Format

/-! ### Files of one format -/

/-- `serde_json::to_string_pretty` and `serde_json::from_str` at a type with this format. -/
def codecOf {α : Type} (format : Format α) : JsonCodec α := ⟨format.text (.indented 0), format.parse⟩

theorem codecOf_body {α : Type} (format : Format α) (value : α) :
    (codecOf format).body value = encodeChars (format.write (.indented 0) value) :=
  utf8_ofList _

/-- No text is empty. -/
theorem codecOf_body_pos {α : Type} (format : Format α) (value : α) :
    0 < ((codecOf format).body value).length := by
  obtain ⟨c, tail, split, _⟩ := format.head (.indented 0) value
  rw [codecOf_body, split, encodeChars_cons, List.length_append, String.length_utf8EncodeChar]
  have := c.utf8Size_pos
  omega

/-- **A format that says where its text ends is faithful.** -/
theorem codecOf_faithful {α : Type} {format : Format α} (closed : format.Closed) :
    (codecOf format).Faithful where
  roundTrip value := Json.parse_text closed _ value
  torn value n s short spelled := by
    have bytes := utf8_of_toStr spelled
    rw [codecOf_body] at bytes short
    have whole : encodeChars s.toList ++ (encodeChars (format.write (.indented 0) value)).drop n =
        encodeChars (format.write (.indented 0) value) := by
      rw [← utf8_eq, bytes, List.take_append_drop]
    obtain ⟨more, cut⟩ := prefix_of_encodeChars whole
    refine Json.parse_cut closed cut ?_
    rintro rfl
    rw [List.append_nil] at cut
    rw [utf8_eq, cut] at bytes
    have lengths := congrArg List.length bytes
    rw [List.length_take] at lengths
    omega

/-! ### Values -/

/-- A string is not null. -/
theorem string_head (layout : Layout) (s : String) : (string.write layout s).head? ≠ some 'n' := by
  show some '"' ≠ some 'n'
  decide

/-- A string that may be missing. -/
def optional : Format (Option String) := nullable string string_head

/-- A byte of a `Vec<u8>`, as a number. -/
def byteFormat : Format UInt8 :=
  nat.as (fun n => if n < 256 then some (UInt8.ofNat n) else none) UInt8.toNat fun byte => by
    rw [if_pos byte.toNat_lt, UInt8.ofNat_toNat]

/-- A time, of seconds since 1970 and nanoseconds. -/
def instantFormat : Format (Int × Nat) :=
  string.as (fun s => (CivilTime.parse s.toList).map Prod.fst)
    (fun time => String.ofList (CivilTime.print time.1 time.2)) fun time => by
      rw [String.toList_ofList, CivilTime.parse_print]
      rfl

/-- A time without a fraction. -/
def timeFormat : Format Int :=
  instantFormat.as (fun time => some time.1) (fun seconds => (seconds, 0)) fun _ => rfl

/-! ### Records -/

/-- `ManifestEntry`. -/
def manifestEntryFormat : Format ManifestEntry :=
  record (both (member "relative_path" string) <| both (member "size" nat) <|
      both (member "modified_unix" int) <| both (member "file_hash" string) <|
      both (member "chunk_hashes" (many string .square)) (member "resume_bitmap" (many byteFormat .square)))
    (fun (path, size, modified, hash, chunks, bitmap) => ⟨path, size, modified, hash, chunks, bitmap⟩)
    (fun entry => (entry.relativePath, entry.size, entry.modifiedUnix, entry.fileHash, entry.chunkHashes,
      entry.resumeBitmap)) fun _ => rfl

/-- `TransferManifest`. -/
def manifestFormat : Format TransferManifest :=
  record (both (member "transfer_id" string) <| both (member "root_name" string) <|
      both (member "chunk_size" nat) <| both (member "created_at" timeFormat)
      (member "entries" (many manifestEntryFormat .square)))
    (fun (id, root, chunkSize, createdAt, entries) => ⟨id, root, chunkSize, createdAt, entries⟩)
    (fun m => (m.transferId, m.rootName, m.chunkSize, m.createdAt, m.entries)) fun _ => rfl

/-- The members of a `TransferHistoryEntry`, with formats for its role and its status. -/
def historyMembers {ρ σ : Type} (role : Format ρ) (status : Format σ) : Format (String × String × ρ × σ ×
    Option String × Option String × Option String × Option String × Nat × Nat × String × String ×
    Option String) :=
  both (member "id" string) <| both (member "code" string) <| both (member "role" role) <|
    both (member "status" status) <| both (member "source" optional) <| both (member "target" optional) <|
    both (member "peer_id" optional) <| both (member "peer_name" optional) <|
    both (member "bytes_done" nat) <| both (member "bytes_total" nat) <|
    both (member "started_at" string) <| both (member "finished_at" string) (member "error" optional)

theorem role_found (role : Role) :
    ([Role.send, .receive].find? fun other => roleText other = roleText role) = some role := by
  cases role <;> simp [roleText]

theorem phase_found (phase : Phase) :
    ([Phase.waitingReceiver, .transferring, .completed, .failed].find? fun other =>
      phaseText other = phaseText phase) = some phase := by
  cases phase <;> simp [phaseText]

/-- A `TransferHistoryEntry` as a session knows it. The identifier, the code, the source and the times
are those of one entry. -/
def sessionEntryFormat : Format TransferHistoryEntry :=
  (object (historyMembers (choice roleText _ role_found) (choice phaseText _ phase_found))).as
    (fun (_, _, role, status, _, target, peerId, peerName, bytesDone, bytesTotal, _, _, error) => do
      some ⟨role, status, ← target, ← peerId, ← peerName, bytesDone, bytesTotal, error⟩)
    (fun entry => ("5d1c2c3e-52a1-4f5e-8d39-7a61b8c1f0aa", "0B0C-1D5E", entry.role, entry.status,
      some "/h/s", some entry.target, some entry.peerId, some entry.peerName, entry.bytesDone,
      entry.bytesTotal, "2026-02-11T08:00:00+00:00", "2026-02-11T08:00:05+00:00", entry.error))
    fun _ => rfl

/-- `PairedPeer`. -/
def pairedPeerFormat : Format PairedPeer :=
  record (both (member "peer_id" string) <| both (member "code_hash" string) (member "paired_at" timeFormat))
    (fun (peerId, codeHash, pairedAt) => ⟨peerId, codeHash, pairedAt⟩)
    (fun peer => (peer.peerId, peer.codeHash, peer.pairedAt)) fun _ => rfl

/-- The peers by their ids, where no id is there twice. -/
def peersOf (members : List (String × PairedPeer)) : Option TrustStore :=
  let entries : List (Sigma fun _ : String => PairedPeer) := members.map fun (id, peer) => ⟨id, peer⟩
  if distinct : entries.keys.Nodup then some ⟨⟨entries, distinct⟩⟩ else none

def TrustStore.members (store : TrustStore) : List (String × PairedPeer) :=
  store.peers.entries.map fun entry => (entry.1, entry.2)

theorem peersOf_members (store : TrustStore) : peersOf store.members = some store := by
  obtain ⟨⟨entries, distinct⟩⟩ := store
  have same : (TrustStore.members ⟨⟨entries, distinct⟩⟩).map (fun member => Sigma.mk member.1 member.2) =
      entries := by
    rw [TrustStore.members, List.map_map]
    exact List.map_id _
  show (if distinct : _ then _ else _) = _
  simp only [same]
  exact dif_pos distinct

/-- `TrustStore`. -/
def trustStoreFormat : Format TrustStore :=
  (object (member "peers" (many (pair Json.colon string pairedPeerFormat) .curly))).as peersOf
    TrustStore.members peersOf_members

/-- `LocalIdentity`. -/
def identityFormat : Format LocalIdentity :=
  record (both (member "identity" (object (both (member "device_id" string) <|
      both (member "display_name" string) (member "public_key" string)))) <|
      both (member "private_key_b64" string) (member "created_at" timeFormat))
    (fun ((deviceId, displayName, publicKey), privateKey, createdAt) =>
      ⟨⟨deviceId, displayName, publicKey⟩, privateKey, createdAt⟩)
    (fun local' => ((local'.identity.deviceId, local'.identity.displayName, local'.identity.publicKey),
      local'.privateKeyB64, local'.createdAt)) fun _ => rfl

/-- A trust store with one peer, as `pair_peer` writes it. -/
example : (codecOf trustStoreFormat).encode ⟨(∅ : AList fun _ => PairedPeer).insert "b" ⟨"b", "85b8", 1⟩⟩ =
    "\x7b\n  \"peers\": \x7b\n    \"b\": \x7b\n      \"peer_id\": \"b\",\n" ++
      "      \"code_hash\": \"85b8\",\n      \"paired_at\": \"1970-01-01T00:00:01Z\"\n    \x7d\n  \x7d\n\x7d" := by
  decide +kernel

end SendRs
