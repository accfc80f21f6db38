/-
**Listening for the devices around.**

`listen_for_snapshot` receives datagrams until its deadline and keeps one `PeerInfo` for each device
whose beacon it has heard, and one announcement for each offer. The parser is a parameter with two
entry points, for tagged packets and for beacons without a tag; a payload may be anything.

* `listen_ok`: the peers and the offers are two folds, over the beacons and over the announcements
  that were heard;
* `peers_faithful`: one `PeerInfo` for each device, with its addresses in the order of arrival;
* `snapshot_faithful`: besides, neither the form of a beacon nor the order of the datagrams, nor how
  often they came, nor any other datagram makes a difference.
-/

import Mathlib.Data.Finset.Lattice.Lemmas
import Mathlib.Data.List.Induction
import SendRs.Library.KeyedFold
import SendRs.Os.Text

namespace SendRs.Discovery

open KeyedFold

/-- `DiscoveryBeacon`. -/
structure DiscoveryBeacon where
  peerId : String
  displayName : String
  listenPort : UInt16
  publicEnabled : Bool
  version : String
deriving DecidableEq

/-- `SharedOfferAnnouncement`. -/
structure SharedOfferAnnouncement where
  code : String
  ownerPeerId : String
  ownerName : String
  sourceName : String
  isDir : Bool
  bytesTotal : UInt64
  publicEnabled : Bool
  createdAt : String
deriving DecidableEq

/-- `DiscoveryPacket`. -/
inductive DiscoveryPacket where
  | beacon (beacon : DiscoveryBeacon)
  | shareOffer (offer : SharedOfferAnnouncement)
deriving DecidableEq

/-- `PeerInfo`. -/
structure PeerInfo where
  peerId : String
  displayName : String
  addresses : List String
  publicEnabled : Bool
  lastSeen : Int
deriving DecidableEq

/-- `DiscoverySnapshot`. -/
structure DiscoverySnapshot where
  peers : List PeerInfo
  offers : List SharedOfferAnnouncement
deriving DecidableEq

/-- `serde_json::from_slice` at the two types the listener reads. -/
structure Decoder where
  packet : Bytes → Option DiscoveryPacket
  beacon : Bytes → Option DiscoveryBeacon

/-- The address of a sender, of a socket bound to `0.0.0.0`. -/
structure Ipv4Addr where
  a : UInt8
  b : UInt8
  c : UInt8
  d : UInt8
deriving DecidableEq

/-- Its `Display`. -/
def Ipv4Addr.display (ip : Ipv4Addr) : String :=
  toString ip.a ++ "." ++ toString ip.b ++ "." ++ toString ip.c ++ "." ++ toString ip.d

/-- What `recv_from` gives, and the clock while a datagram is handled. -/
inductive Outcome where
  | datagram (ip : Ipv4Addr) (payload : Bytes) (now : Int)
  | timedOut
  | failed
deriving DecidableEq

/-- A turn of the loop: the instant that is compared with the deadline, and what is received. -/
structure Turn where
  instant : Int
  outcome : Outcome
deriving DecidableEq

/-- The socket: whether it can be set up, the instant the deadline is counted from, and the turns of
the loop. The deadline has passed after the last one. -/
structure Socket where
  bound : Bool
  timeoutSet : Bool
  start : Int
  turns : List Turn

/-- The order in which the maps give their values. -/
structure IterationOrder where
  peers : List PeerInfo → List PeerInfo
  offers : List SharedOfferAnnouncement → List SharedOfferAnnouncement
  peers_perm : ∀ values, (peers values).Perm values
  offers_perm : ∀ values, (offers values).Perm values

/-- The step that failed. -/
inductive ListenError where
  | bindUdpListener
  | setReadTimeout
  | readDiscoveryDatagram
deriving DecidableEq

/-- A beacon, with the address it came from and the clock. -/
structure Sighting where
  beacon : DiscoveryBeacon
  ip : Ipv4Addr
  now : Int
deriving DecidableEq

namespace Sighting

def peerId (sighting : Sighting) : String := sighting.beacon.peerId

/-- `addr_text`. -/
def address (sighting : Sighting) : String :=
  sighting.ip.display ++ ":" ++ toString sighting.beacon.listenPort

/-- The entry of the sighted device: found or put in, then with the address pushed where it is not
there, and with the time. The branch of tagged and the one of untagged beacons have both these
statements. -/
def merge (found : Option PeerInfo) (sighting : Sighting) : PeerInfo :=
  let entry := found.getD
    { peerId := sighting.beacon.peerId
      displayName := sighting.beacon.displayName
      addresses := [sighting.address]
      publicEnabled := sighting.beacon.publicEnabled
      lastSeen := sighting.now }
  let entry := if entry.addresses.any (· == sighting.address) then entry
    else { entry with addresses := entry.addresses ++ [sighting.address] }
  { entry with lastSeen := sighting.now }

end Sighting

/-- The key of an offer. -/
def SharedOfferAnnouncement.key (offer : SharedOfferAnnouncement) : String :=
  offer.ownerPeerId ++ ":" ++ offer.code

/-- The two maps. -/
structure Maps where
  peers : AList fun _ : String => PeerInfo
  offers : AList fun _ : String => SharedOfferAnnouncement

def Maps.empty : Maps := ⟨∅, ∅⟩

/-- What a payload does to the maps. -/
def Decoder.handle (decoder : Decoder) (ip : Ipv4Addr) (payload : Bytes) (now : Int) (maps : Maps) :
    Maps :=
  match decoder.packet payload with
  | some (.beacon beacon) =>
    { maps with peers := step Sighting.peerId Sighting.merge maps.peers ⟨beacon, ip, now⟩ }
  | some (.shareOffer offer) => { maps with offers := maps.offers.insert offer.key offer }
  | none =>
    match decoder.beacon payload with
    | some beacon =>
      { maps with peers := step Sighting.peerId Sighting.merge maps.peers ⟨beacon, ip, now⟩ }
    | none => maps

/-- The length of the receive buffer. -/
def bufferSize : Nat := 8192

/-- The receive loop. A longer datagram is cut off at the end of the buffer. -/
def Decoder.listenLoop (decoder : Decoder) (deadline : Int) : List Turn → Maps → Except ListenError Maps
  | [], maps => .ok maps
  | turn :: turns, maps =>
    if turn.instant < deadline then
      match turn.outcome with
      | .datagram ip payload now =>
        decoder.listenLoop deadline turns (decoder.handle ip (payload.take bufferSize) now maps)
      | .timedOut => decoder.listenLoop deadline turns maps
      | .failed => .error .readDiscoveryDatagram
    else .ok maps

/-- `listen_for_snapshot`. -/
def Decoder.listenForSnapshot (decoder : Decoder) (order : IterationOrder) (socket : Socket)
    (timeout : Nat) : Except ListenError DiscoverySnapshot :=
  if socket.bound then
    if socket.timeoutSet then
      (decoder.listenLoop (socket.start + timeout) socket.turns Maps.empty).map fun maps =>
        ⟨order.peers (values maps.peers), order.offers (values maps.offers)⟩
    else .error .setReadTimeout
  else .error .bindUdpListener

/-! ### What is heard -/

/-- The beacon of a payload, in either form. -/
def Decoder.beaconOf (decoder : Decoder) (payload : Bytes) : Option DiscoveryBeacon :=
  match decoder.packet payload with
  | some (.beacon beacon) => some beacon
  | some (.shareOffer _) => none
  | none => decoder.beacon payload

/-- The offer of a payload. -/
def Decoder.offerOf (decoder : Decoder) (payload : Bytes) : Option SharedOfferAnnouncement :=
  match decoder.packet payload with
  | some (.shareOffer offer) => some offer
  | _ => none

/-- The beacon that a turn hears. -/
def Turn.sighting? (decoder : Decoder) (turn : Turn) : Option Sighting :=
  match turn.outcome with
  | .datagram ip payload now => (decoder.beaconOf payload).map fun beacon => ⟨beacon, ip, now⟩
  | _ => none

/-- The offer that a turn hears. -/
def Turn.offer? (decoder : Decoder) (turn : Turn) : Option SharedOfferAnnouncement :=
  match turn.outcome with
  | .datagram _ payload _ => decoder.offerOf payload
  | _ => none

/-- The sender and the payload of a turn. -/
def Turn.datagram? (turn : Turn) : Option (Ipv4Addr × Bytes) :=
  match turn.outcome with
  | .datagram ip payload _ => some (ip, payload)
  | _ => none

/-- All beacons heard. -/
def sightings (decoder : Decoder) (turns : List Turn) : List Sighting :=
  turns.filterMap (Turn.sighting? decoder)

/-- All offers heard. -/
def announcements (decoder : Decoder) (turns : List Turn) : List SharedOfferAnnouncement :=
  turns.filterMap (Turn.offer? decoder)

/-- All datagrams. -/
def datagrams (turns : List Turn) : List (Ipv4Addr × Bytes) := turns.filterMap Turn.datagram?

/-- A turn within the deadline that fails nothing and receives no more than the buffer holds. -/
def Turn.Fine (deadline : Int) (turn : Turn) : Prop :=
  turn.instant < deadline ∧ turn.outcome ≠ .failed ∧
    ∀ datagram ∈ turn.datagram?, datagram.2.length ≤ bufferSize

/-- The socket is set up, and all its turns are within the deadline and fail nothing. -/
structure Socket.Fine (timeout : Nat) (socket : Socket) : Prop where
  bound : socket.bound = true
  timeoutSet : socket.timeoutSet = true
  turns : ∀ turn ∈ socket.turns, turn.Fine (socket.start + timeout)

/-- The maps after all beacons and all offers. -/
def heard (decoder : Decoder) (turns : List Turn) : Maps where
  peers := fold Sighting.peerId Sighting.merge ∅ (sightings decoder turns)
  offers := fold SharedOfferAnnouncement.key (fun _ offer => offer) ∅ (announcements decoder turns)

section Loop

variable {decoder : Decoder} {deadline : Int}

/-- **One datagram** adds what it carries to the two folds. -/
theorem handle_eq (ip : Ipv4Addr) (payload : Bytes) (now : Int) (maps : Maps) :
    decoder.handle ip payload now maps =
      ⟨fold Sighting.peerId Sighting.merge maps.peers
          ((decoder.beaconOf payload).map fun beacon => (⟨beacon, ip, now⟩ : Sighting)).toList,
        fold SharedOfferAnnouncement.key (fun _ offer => offer) maps.offers
          (decoder.offerOf payload).toList⟩ := by
  unfold Decoder.handle Decoder.beaconOf Decoder.offerOf
  cases decoder.packet payload with
  | some packet =>
    cases packet with
    | beacon beacon => rfl
    | shareOffer offer => rfl
  | none =>
    cases decoder.beacon payload with
    | some beacon => rfl
    | none => rfl

theorem sightings_cons (turn : Turn) (turns : List Turn) :
    sightings decoder (turn :: turns) =
      (turn.sighting? decoder).toList ++ sightings decoder turns := by
  simp only [sightings, List.filterMap_cons]
  cases turn.sighting? decoder with
  | none => rfl
  | some sighting => rfl

theorem announcements_cons (turn : Turn) (turns : List Turn) :
    announcements decoder (turn :: turns) =
      (turn.offer? decoder).toList ++ announcements decoder turns := by
  simp only [announcements, List.filterMap_cons]
  cases turn.offer? decoder with
  | none => rfl
  | some offer => rfl

/-- **The loop** is the two folds. -/
theorem listenLoop_eq (turns : List Turn) (fine : ∀ turn ∈ turns, turn.Fine deadline) (maps : Maps) :
    decoder.listenLoop deadline turns maps =
      .ok ⟨fold Sighting.peerId Sighting.merge maps.peers (sightings decoder turns),
        fold SharedOfferAnnouncement.key (fun _ offer => offer) maps.offers
          (announcements decoder turns)⟩ := by
  induction turns generalizing maps with
  | nil => rfl
  | cons turn turns ih =>
    obtain ⟨early, noFailure, small⟩ := fine turn List.mem_cons_self
    have rest := ih fun other member => fine other (List.mem_cons_of_mem _ member)
    rw [Decoder.listenLoop, if_pos early, sightings_cons, announcements_cons]
    obtain ⟨instant, outcome⟩ := turn
    cases outcome with
    | datagram ip payload now =>
      have whole : payload.take bufferSize = payload := List.take_of_length_le (small _ rfl)
      simp only [whole, rest, handle_eq, Turn.sighting?, Turn.offer?, fold_append]
    | timedOut => exact rest maps
    | failed => exact absurd rfl noFailure

end Loop

/-- **What a snapshot is**: the values of the two folds, in some order. -/
theorem listen_ok {decoder : Decoder} (order : IterationOrder) {socket : Socket} {timeout : Nat}
    (fine : socket.Fine timeout) :
    decoder.listenForSnapshot order socket timeout =
      .ok ⟨order.peers (values (heard decoder socket.turns).peers),
        order.offers (values (heard decoder socket.turns).offers)⟩ := by
  rw [Decoder.listenForSnapshot, if_pos fine.bound, if_pos fine.timeoutSet,
    listenLoop_eq _ fine.turns]
  rfl

/-! ### The peers -/

/-- The addresses of a device, in the order of their first arrival. -/
def addressesOf (seen : List Sighting) (id : String) : List String :=
  ((seen.filter fun sighting => sighting.peerId = id).map Sighting.address).eraseDups

/-- The peers of a snapshot as a map from identifiers to sets of addresses. -/
def addressMap (peers : List PeerInfo) (id : String) : Option (Finset String) :=
  (peers.find? fun peer => peer.peerId = id).map fun peer => peer.addresses.toFinset

/-- The peers are the devices of the sightings, one for each, with the addresses they were seen at. -/
structure Faithful (seen : List Sighting) (peers : List PeerInfo) : Prop where
  one : (peers.map PeerInfo.peerId).Nodup
  all : ∀ id, id ∈ peers.map PeerInfo.peerId ↔ ∃ sighting ∈ seen, sighting.peerId = id
  addresses : ∀ peer ∈ peers, peer.addresses = addressesOf seen peer.peerId
  distinct : ∀ peer ∈ peers, peer.addresses.Nodup

/-- `eraseDups`, one element at a time. -/
theorem eraseDups_concat (found : List String) (address : String) :
    (found ++ [address]).eraseDups =
      if address ∈ found.eraseDups then found.eraseDups else found.eraseDups ++ [address] := by
  rw [List.eraseDups_append]
  by_cases member : address ∈ found
  · simp [member, List.removeAll]
  · simp [member, List.removeAll, List.eraseDups_cons]

theorem eraseDups_nodup (found : List String) : found.eraseDups.Nodup := by
  induction found using List.reverseRecOn with
  | nil => exact List.nodup_nil
  | append_singleton found address ih =>
    rw [eraseDups_concat]
    split
    · exact ih
    · rename_i absent
      exact List.nodup_append.mpr ⟨ih, List.nodup_singleton _, fun other member same isAddress =>
        fun equal => absent (List.mem_singleton.mp isAddress ▸ equal ▸ member)⟩

section Entry

variable {id : String} {found : Option PeerInfo} {sighting : Sighting} {seen : List Sighting}

theorem merge_peerId :
    (sighting.merge found).peerId = (found.map PeerInfo.peerId).getD sighting.peerId := by
  unfold Sighting.merge
  dsimp only
  split
  · cases found <;> rfl
  · cases found <;> rfl

/-- **One sighting** adds its address at the end, if it is new. -/
theorem merge_addresses :
    (sighting.merge found).addresses =
      if sighting.address ∈ (found.map PeerInfo.addresses).getD [] then
        (found.map PeerInfo.addresses).getD []
      else (found.map PeerInfo.addresses).getD [] ++ [sighting.address] := by
  cases found with
  | none => simp [Sighting.merge]
  | some peer =>
    by_cases known : sighting.address ∈ peer.addresses
    · simp [Sighting.merge, known]
    · simp [Sighting.merge, known]

/-- The sightings of one device. -/
theorem entry_peerId (same : ∀ sighting ∈ seen, sighting.peerId = id) :
    ∀ peer ∈ entry Sighting.merge none seen, peer.peerId = id := by
  induction seen using List.reverseRecOn with
  | nil => intro peer isEntry; cases isEntry
  | append_singleton seen sighting ih =>
    intro peer isEntry
    rw [entry_concat] at isEntry
    rw [← Option.some.inj isEntry, merge_peerId]
    have before := ih fun other member => same other (List.mem_append_left _ member)
    cases earlier : entry Sighting.merge none seen with
    | none => exact same _ List.mem_concat_self
    | some peer => exact before peer earlier

theorem entry_addresses :
    ((entry Sighting.merge none seen).map PeerInfo.addresses).getD [] =
      (seen.map Sighting.address).eraseDups := by
  induction seen using List.reverseRecOn with
  | nil => rfl
  | append_singleton seen sighting ih =>
    rw [entry_concat, Option.map_some, Option.getD_some, merge_addresses, ih, List.map_append,
      List.map_singleton, eraseDups_concat]

/-- **The entry of a device** after all sightings. -/
theorem lookup_sightings {peer : PeerInfo}
    (isEntry : (fold Sighting.peerId Sighting.merge ∅ seen).lookup id = some peer) :
    peer.peerId = id ∧ peer.addresses = addressesOf seen id := by
  rw [lookup_fold, AList.lookup_empty] at isEntry
  constructor
  · exact entry_peerId (fun sighting member => of_decide_eq_true (List.mem_filter.mp member).2) _
      isEntry
  · rw [addressesOf, ← entry_addresses, isEntry]
    rfl

end Entry

/-- **The peers of a snapshot** are the devices whose beacons were heard. -/
theorem peers_faithful (order : IterationOrder) (seen : List Sighting) :
    Faithful seen (order.peers (values (fold Sighting.peerId Sighting.merge ∅ seen))) := by
  have perm := order.peers_perm (values (fold Sighting.peerId Sighting.merge ∅ seen))
  have keys := (perm.map PeerInfo.peerId).trans
    (List.Perm.of_eq (map_values fun id peer isEntry => (lookup_sightings isEntry).1))
  have addresses : ∀ peer ∈ values (fold Sighting.peerId Sighting.merge ∅ seen),
      peer.addresses = addressesOf seen peer.peerId := by
    intro peer member
    obtain ⟨id, isEntry⟩ := mem_values.mp member
    obtain ⟨isId, same⟩ := lookup_sightings isEntry
    rw [same, isId]
  refine ⟨?_, ?_, ?_, ?_⟩
  · exact keys.nodup_iff.mpr (AList.keys_nodup _)
  · intro id
    rw [keys.mem_iff, ← AList.mem_keys, mem_fold]
    exact or_iff_right (AList.notMem_empty _)
  · exact fun peer member => addresses peer (perm.mem_iff.mp member)
  · intro peer member
    rw [addresses peer (perm.mem_iff.mp member)]
    exact eraseDups_nodup _

/-- The addresses in a snapshot are those of the sightings. -/
theorem addressMap_eq {seen : List Sighting} {peers : List PeerInfo} (faithful : Faithful seen peers)
    (id : String) :
    addressMap peers id =
      if (addressesOf seen id).toFinset = ∅ then none else some (addressesOf seen id).toFinset := by
  have nonempty : (addressesOf seen id).toFinset = ∅ ↔ ¬ ∃ sighting ∈ seen, sighting.peerId = id := by
    rw [List.toFinset_eq_empty_iff]
    constructor
    · intro empty seenThere
      obtain ⟨sighting, member, isId⟩ := seenThere
      have known : sighting.address ∈ addressesOf seen id :=
        List.mem_eraseDups.mpr (List.mem_map_of_mem (List.mem_filter.mpr ⟨member, decide_eq_true isId⟩))
      rw [empty] at known
      cases known
    · intro unseen
      rw [addressesOf, List.filter_eq_nil_iff.mpr fun sighting member isId =>
        unseen ⟨sighting, member, of_decide_eq_true isId⟩]
      rfl
  rw [← faithful.all] at nonempty
  unfold addressMap
  cases found : peers.find? fun peer => peer.peerId = id with
  | none =>
    have absent : id ∉ peers.map PeerInfo.peerId := by
      intro member
      obtain ⟨peer, isPeer, isId⟩ := List.mem_map.mp member
      exact absurd isId (by simpa using List.find?_eq_none.mp found peer isPeer)
    rw [if_pos (nonempty.mpr absent), Option.map_none]
  | some peer =>
    have isPeer := List.mem_of_find?_eq_some found
    have isId : peer.peerId = id := by simpa using List.find?_some found
    rw [if_neg fun empty => nonempty.mp empty (List.mem_map.mpr ⟨peer, isPeer, isId⟩),
      Option.map_some, faithful.addresses peer isPeer, isId]

/-- `other` is `turn`, or hears in the legacy form the beacon that `turn` hears with its tag. -/
def Turn.Restates (decoder : Decoder) (turn other : Turn) : Prop :=
  other = turn ∨ ∃ ip tagged legacy now beacon,
    turn.outcome = .datagram ip tagged now ∧ other.outcome = .datagram ip legacy now ∧
      decoder.packet tagged = some (.beacon beacon) ∧ decoder.packet legacy = none ∧
        decoder.beacon legacy = some beacon

/-- The turn hears a beacon. -/
def Turn.hearsBeacon (decoder : Decoder) (turn : Turn) : Bool := (turn.sighting? decoder).isSome

section Compare

variable {decoder : Decoder} {turns others : List Turn}

/-- The form of a beacon makes no difference. -/
theorem sightings_restated (restated : List.Forall₂ (Turn.Restates decoder) turns others) :
    sightings decoder others = sightings decoder turns := by
  induction restated with
  | nil => rfl
  | cons related _ ih =>
    rw [sightings_cons, sightings_cons, ih]
    rcases related with rfl | ⟨ip, tagged, legacy, now, beacon, first, second, isTagged, noPacket, isLegacy⟩
    · rfl
    · simp only [Turn.sighting?, first, second, Decoder.beaconOf, isTagged, noPacket, isLegacy]

/-- Turns that hear no beacon add no sighting. -/
theorem sightings_filter :
    sightings decoder (turns.filter (Turn.hearsBeacon decoder)) = sightings decoder turns := by
  rw [sightings, List.filterMap_filter]
  refine List.filterMap_congr fun turn _ => ?_
  cases heard : turn.sighting? decoder with
  | none => simp [Turn.hearsBeacon, heard]
  | some sighting => simp [Turn.hearsBeacon, heard]

/-- The device and the address of a sighting are read off its datagram. -/
theorem mem_addressesOf {id address : String} :
    address ∈ addressesOf (sightings decoder turns) id ↔
      ∃ datagram ∈ datagrams turns, ∃ beacon, decoder.beaconOf datagram.2 = some beacon ∧
        beacon.peerId = id ∧
          datagram.1.display ++ ":" ++ toString beacon.listenPort = address := by
  simp only [addressesOf, List.mem_eraseDups, List.mem_map, List.mem_filter, sightings, datagrams,
    List.mem_filterMap]
  constructor
  · intro found
    obtain ⟨sighting, ⟨⟨turn, member, hears⟩, isId⟩, isAddress⟩ := found
    obtain ⟨instant, outcome⟩ := turn
    cases outcome with
    | datagram ip payload now =>
      obtain ⟨beacon, isBeacon, rfl⟩ := Option.map_eq_some_iff.mp hears
      exact ⟨(ip, payload), ⟨_, member, rfl⟩, beacon, isBeacon, of_decide_eq_true isId, isAddress⟩
    | timedOut => cases hears
    | failed => cases hears
  · intro found
    obtain ⟨datagram, ⟨turn, member, isDatagram⟩, beacon, isBeacon, isId, isAddress⟩ := found
    obtain ⟨instant, outcome⟩ := turn
    cases outcome with
    | datagram ip payload now =>
      cases isDatagram
      exact ⟨⟨beacon, ip, now⟩, ⟨⟨_, member, Option.map_eq_some_iff.mpr ⟨beacon, isBeacon, rfl⟩⟩,
        decide_eq_true isId⟩, isAddress⟩
    | timedOut => cases isDatagram
    | failed => cases isDatagram

end Compare

/-- **Discovery is a faithful fold of the datagrams.** The peers are the devices whose beacons came
in, each once, with its addresses in the order of arrival. Another run gives the same peers if it
differs in the form of beacons or in datagrams that hold none, and the same map from devices to sets
of addresses if it has the same datagrams in another order or number. -/
theorem snapshot_faithful (decoder : Decoder) (order : IterationOrder) {socket : Socket}
    {timeout : Nat} (fine : socket.Fine timeout) :
    ∃ snapshot, decoder.listenForSnapshot order socket timeout = .ok snapshot ∧
      Faithful (sightings decoder socket.turns) snapshot.peers ∧
      ∀ (order' : IterationOrder) (other : Socket) (timeout' : Nat), other.Fine timeout' →
        ∃ snapshot', decoder.listenForSnapshot order' other timeout' = .ok snapshot' ∧
          (List.Forall₂ (Turn.Restates decoder) socket.turns other.turns →
            snapshot'.peers.Perm snapshot.peers) ∧
          (other.turns.filter (Turn.hearsBeacon decoder) =
              socket.turns.filter (Turn.hearsBeacon decoder) →
            snapshot'.peers.Perm snapshot.peers) ∧
          ((∀ datagram, datagram ∈ datagrams other.turns ↔ datagram ∈ datagrams socket.turns) →
            addressMap snapshot'.peers = addressMap snapshot.peers) := by
  refine ⟨_, listen_ok order fine, peers_faithful order _, ?_⟩
  intro order' other timeout' otherFine
  refine ⟨_, listen_ok order' otherFine, ?_, ?_, ?_⟩
  · intro restated
    have same := sightings_restated restated
    rw [heard, heard, same]
    exact (order'.peers_perm _).trans (order.peers_perm _).symm
  · intro filtered
    have same : sightings decoder other.turns = sightings decoder socket.turns := by
      rw [← sightings_filter, filtered, sightings_filter]
    rw [heard, heard, same]
    exact (order'.peers_perm _).trans (order.peers_perm _).symm
  · intro same
    funext id
    have addresses : (addressesOf (sightings decoder other.turns) id).toFinset =
        (addressesOf (sightings decoder socket.turns) id).toFinset := by
      ext address
      rw [List.mem_toFinset, List.mem_toFinset, mem_addressesOf, mem_addressesOf]
      simp only [same]
    have left := addressMap_eq (peers_faithful order' (sightings decoder other.turns)) id
    have right := addressMap_eq (peers_faithful order (sightings decoder socket.turns)) id
    rw [addresses] at left
    exact left.trans right.symm

/-! ### A sample -/

/-- A device announces itself with a tag and without. -/
def sampleBeacon : DiscoveryBeacon := ⟨"a", "Alice", 38080, false, "0.1.0"⟩

def sampleTagged : Bytes :=
  utf8 ("\x7b\"kind\":\"beacon\",\"beacon\":\x7b\"peer_id\":\"a\",\"display_name\":\"Alice\"," ++
    "\"listen_port\":38080,\"public_enabled\":false,\"version\":\"0.1.0\"\x7d\x7d")

def sampleLegacy : Bytes :=
  utf8 ("\x7b\"peer_id\":\"a\",\"display_name\":\"Alice\"," ++
    "\"listen_port\":38080,\"public_enabled\":false,\"version\":\"0.1.0\"\x7d")

/-- What the parser makes of these payloads. -/
def sampleDecoder : Decoder where
  packet payload := if payload = sampleTagged then some (.beacon sampleBeacon) else none
  beacon payload := if payload = sampleLegacy then some sampleBeacon else none

def sampleOrder : IterationOrder := ⟨id, id, fun _ => .refl _, fun _ => .refl _⟩

def sampleSocket : Socket where
  bound := true
  timeoutSet := true
  start := 0
  turns := [⟨0, .datagram ⟨10, 0, 0, 1⟩ sampleTagged 5⟩, ⟨1, .timedOut⟩,
    ⟨2, .datagram ⟨10, 0, 0, 1⟩ (utf8 "ping") 6⟩, ⟨3, .datagram ⟨10, 0, 0, 2⟩ sampleLegacy 7⟩]

theorem sampleSocket_fine : sampleSocket.Fine 1000 := by
  refine ⟨rfl, rfl, ?_⟩
  have tagged : sampleTagged.length ≤ bufferSize := by decide +kernel
  have legacy : sampleLegacy.length ≤ bufferSize := by decide +kernel
  have other : (utf8 "ping").length ≤ bufferSize := by decide +kernel
  simp [sampleSocket, Turn.Fine, Turn.datagram?, tagged, legacy, other]

/-- The two addresses of a device heard in both forms. -/
theorem snapshot_faithful_sample :
    ∃ snapshot, sampleDecoder.listenForSnapshot sampleOrder sampleSocket 1000 = .ok snapshot ∧
      Faithful (sightings sampleDecoder sampleSocket.turns) snapshot.peers ∧
      sightings sampleDecoder sampleSocket.turns =
        [⟨sampleBeacon, ⟨10, 0, 0, 1⟩, 5⟩, ⟨sampleBeacon, ⟨10, 0, 0, 2⟩, 7⟩] := by
  obtain ⟨snapshot, heard, faithful, _⟩ :=
    snapshot_faithful sampleDecoder sampleOrder sampleSocket_fine
  exact ⟨snapshot, heard, faithful, by decide +kernel⟩

end SendRs.Discovery
