/-
**The offers of a snapshot.**

`listen_for_snapshot` keeps the offers under the text `owner_peer_id:code`. Another owner and code may give
the same text, since both may have a colon in them, and then one offer displaces the other.

* `key_eq_iff`: exactly when two offers have the same key;
* `listen_offers`: the offers of any snapshot are the fold of the offers that were received;
* `offers_lastOfEach_iff`: a snapshot has the last offer of each owner and code if and only if no two offers
  that were received clash;
* `offers_displaced`: two that do.
-/

import SendRs.Discovery.Snapshot

namespace SendRs.Discovery

open KeyedFold

/-! ### The keys -/

/-- The owner and the code of an offer. -/
def SharedOfferAnnouncement.pair (offer : SharedOfferAnnouncement) : String × String :=
  (offer.ownerPeerId, offer.code)

/-- The owner of `b` is the one of `a` with a colon and some text after it, and the code of `a` is that of
`b` with this text and a colon before it. -/
def Clash (a b : SharedOfferAnnouncement) : Prop :=
  ∃ middle, b.ownerPeerId = a.ownerPeerId ++ ":" ++ middle ∧ a.code = middle ++ ":" ++ b.code

/-- Two texts with a mark in them. -/
theorem append_cons_eq_iff {α : Type} {mark : α} {x y x' y' : List α} :
    x ++ mark :: y = x' ++ mark :: y' ↔
      (x = x' ∧ y = y') ∨ (∃ middle, x' = x ++ mark :: middle ∧ y = middle ++ mark :: y') ∨
        ∃ middle, x = x' ++ mark :: middle ∧ y' = middle ++ mark :: y := by
  -- the text that one left part has more than the other is empty or starts with the mark
  have longer {x y x' y' : List α} (more : List α) (left : x' = x ++ more)
      (right : mark :: y = more ++ mark :: y') :
      (x = x' ∧ y = y') ∨ ∃ middle, x' = x ++ mark :: middle ∧ y = middle ++ mark :: y' := by
    cases more with
    | nil => exact .inl ⟨by rw [left, List.append_nil], (List.cons.inj right).2⟩
    | cons first middle =>
      obtain ⟨rfl, isRight⟩ := List.cons.inj right
      exact .inr ⟨middle, left, isRight⟩
  constructor
  · intro same
    rcases List.append_eq_append_iff.mp same with ⟨more, left, right⟩ | ⟨more, left, right⟩
    · rcases longer more left right with equal | clash
      · exact .inl equal
      · exact .inr (.inl clash)
    · rcases longer more left right with ⟨left, right⟩ | clash
      · exact .inl ⟨left.symm, right.symm⟩
      · exact .inr (.inr clash)
  · rintro (⟨rfl, rfl⟩ | ⟨middle, rfl, rfl⟩ | ⟨middle, rfl, rfl⟩)
    · rfl
    · rw [List.append_assoc, List.cons_append]
    · rw [List.append_assoc, List.cons_append]

section Keys

variable {a b : SharedOfferAnnouncement}

theorem clash_iff : Clash a b ↔ ∃ middle : List Char,
    b.ownerPeerId.toList = a.ownerPeerId.toList ++ ':' :: middle ∧
      a.code.toList = middle ++ ':' :: b.code.toList := by
  constructor
  · rintro ⟨middle, owner, code⟩
    exact ⟨middle.toList, by simp [owner], by simp [code]⟩
  · rintro ⟨middle, owner, code⟩
    refine ⟨String.ofList middle, String.toList_injective ?_, String.toList_injective ?_⟩
    · simp [owner]
    · simp [code]

/-- No offer clashes with one whose owner has no colon, as the owners have that the program names. -/
theorem not_clash_of_noColon (noColon : ':' ∉ b.ownerPeerId.toList) : ¬ Clash a b := by
  intro clash
  obtain ⟨middle, owner, _⟩ := clash_iff.mp clash
  refine noColon ?_
  rw [owner]
  exact List.mem_append_right _ List.mem_cons_self

/-- **When two offers have the same key.** -/
theorem key_eq_iff : a.key = b.key ↔ a.pair = b.pair ∨ Clash a b ∨ Clash b a := by
  have key (offer : SharedOfferAnnouncement) :
      offer.key.toList = offer.ownerPeerId.toList ++ ':' :: offer.code.toList := by
    simp [SharedOfferAnnouncement.key]
  rw [← String.toList_inj, key, key, append_cons_eq_iff, clash_iff, clash_iff]
  simp [SharedOfferAnnouncement.pair, String.toList_inj]

theorem key_of_pair (same : a.pair = b.pair) : a.key = b.key := key_eq_iff.mpr (.inl same)

/-- Offers that clash are of different owners. -/
theorem Clash.pair_ne (clash : Clash a b) : a.pair ≠ b.pair := by
  intro same
  obtain ⟨middle, owner, _⟩ := clash_iff.mp clash
  have lengths := congrArg List.length owner
  rw [show a.ownerPeerId = b.ownerPeerId from congrArg Prod.fst same, List.length_append,
    List.length_cons] at lengths
  omega

end Keys

/-! ### The offers that are received -/

/-- A turn with the part of the payload that the buffer holds. -/
def Turn.cut (turn : Turn) : Turn :=
  match turn.outcome with
  | .datagram ip payload now => ⟨turn.instant, .datagram ip (payload.take bufferSize) now⟩
  | _ => turn

/-- The turns up to the deadline. -/
def beforeDeadline (deadline : Int) (turns : List Turn) : List Turn :=
  (turns.takeWhile fun turn => turn.instant < deadline).map Turn.cut

/-- The offers that a socket receives up to the deadline. -/
def Socket.offers (decoder : Decoder) (socket : Socket) (timeout : Nat) : List SharedOfferAnnouncement :=
  announcements decoder (beforeDeadline (socket.start + timeout) socket.turns)

/-- **Any loop that returns** has folded the offers up to the deadline. -/
theorem listenLoop_offers {decoder : Decoder} {deadline : Int} (turns : List Turn) (maps : Maps)
    {final : Maps} (run : decoder.listenLoop deadline turns maps = .ok final) :
    final.offers = fold SharedOfferAnnouncement.key (fun _ offer => offer) maps.offers
      (announcements decoder (beforeDeadline deadline turns)) := by
  induction turns generalizing maps with
  | nil =>
    obtain rfl := Except.ok.inj run
    rfl
  | cons turn turns ih =>
    rw [Decoder.listenLoop] at run
    by_cases early : turn.instant < deadline
    · rw [if_pos early] at run
      rw [beforeDeadline, List.takeWhile_cons_of_pos (by simpa using early), List.map_cons,
        announcements_cons, fold_append]
      obtain ⟨instant, outcome⟩ := turn
      cases outcome with
      | datagram ip payload now =>
        rw [ih _ run, handle_eq]
        rfl
      | timedOut => exact ih _ run
      | failed => cases run
    · rw [if_neg early] at run
      obtain rfl := Except.ok.inj run
      rw [beforeDeadline, List.takeWhile_cons_of_neg (by simpa using early)]
      rfl

/-- The table of the offers. -/
def offerTable (received : List SharedOfferAnnouncement) :
    AList fun _ : String => SharedOfferAnnouncement :=
  fold SharedOfferAnnouncement.key (fun _ offer => offer) ∅ received

/-- **The offers of a snapshot** are the values of the table. -/
theorem listen_offers {decoder : Decoder} {order : IterationOrder} {socket : Socket} {timeout : Nat}
    {snapshot : DiscoverySnapshot}
    (run : decoder.listenForSnapshot order socket timeout = .ok snapshot) :
    snapshot.offers.Perm (values (offerTable (socket.offers decoder timeout))) := by
  unfold Decoder.listenForSnapshot at run
  split at run
  · split at run
    · cases outcome : decoder.listenLoop (socket.start + timeout) socket.turns Maps.empty with
      | ok maps =>
        rw [outcome] at run
        obtain rfl := Except.ok.inj run
        have offers := listenLoop_offers socket.turns Maps.empty outcome
        rw [offerTable, Socket.offers]
        exact (order.offers_perm _).trans (List.Perm.of_eq (congrArg values offers))
      | error step =>
        rw [outcome] at run
        cases run
    · cases run
  · cases run

/-! ### The last offer of each owner and code -/

/-- The offers are one for each owner and code that was received: the last one. -/
structure LastOfEach (received offers : List SharedOfferAnnouncement) : Prop where
  one : (offers.map SharedOfferAnnouncement.pair).Nodup
  all : ∀ pair, pair ∈ offers.map SharedOfferAnnouncement.pair ↔
    pair ∈ received.map SharedOfferAnnouncement.pair
  last : ∀ offer ∈ offers,
    (received.filter fun other => other.pair = offer.pair).getLast? = some offer

section Table

variable {received offers : List SharedOfferAnnouncement} {offer : SharedOfferAnnouncement}

/-- What is in the table under a key: the last offer with this key. -/
theorem lookup_offerTable (key : String) : (offerTable received).lookup key =
    (received.filter fun offer => offer.key = key).getLast? := by
  rw [offerTable, lookup_fold, AList.lookup_empty, entry_replaced]

theorem mem_offerTable (member : offer ∈ values (offerTable received)) :
    (received.filter fun other => other.key = offer.key).getLast? = some offer := by
  obtain ⟨key, isEntry⟩ := mem_values.mp member
  rw [lookup_offerTable] at isEntry
  have isKey := of_decide_eq_true (List.mem_filter.mp (List.mem_of_getLast? isEntry)).2
  rw [isKey]
  exact isEntry

theorem received_of_mem_offerTable (member : offer ∈ values (offerTable received)) :
    offer ∈ received := List.mem_of_mem_filter (List.mem_of_getLast? (mem_offerTable member))

/-- The table has an offer under the key of each offer received. -/
theorem exists_mem_offerTable (member : offer ∈ received) :
    ∃ other ∈ values (offerTable received), other.key = offer.key := by
  have there : offer.key ∈ offerTable received := (mem_fold _ _ _).mpr (.inr ⟨offer, member, rfl⟩)
  obtain ⟨other, isEntry⟩ := Option.isSome_iff_exists.mp (AList.lookup_isSome.mpr there)
  refine ⟨other, mem_values.mpr ⟨_, isEntry⟩, ?_⟩
  rw [lookup_offerTable] at isEntry
  exact of_decide_eq_true (List.mem_filter.mp (List.mem_of_getLast? isEntry)).2

/-- One offer is kept for each key. -/
theorem keys_nodup (perm : offers.Perm (values (offerTable received))) :
    (offers.map SharedOfferAnnouncement.key).Nodup := by
  have named : (values (offerTable received)).map SharedOfferAnnouncement.key =
      (offerTable received).keys := by
    refine map_values fun key offer isEntry => ?_
    rw [lookup_offerTable] at isEntry
    exact of_decide_eq_true (List.mem_filter.mp (List.mem_of_getLast? isEntry)).2
  rw [(perm.map _).nodup_iff, named]
  exact AList.keys_nodup _

/-- Offers that clash are not both kept. -/
theorem not_clash_of_lastOfEach (perm : offers.Perm (values (offerTable received)))
    (faithful : LastOfEach received offers) {a b : SharedOfferAnnouncement} (isA : a ∈ received)
    (isB : b ∈ received) : ¬ Clash a b := by
  intro clash
  obtain ⟨a', keptA, pairA⟩ := List.mem_map.mp ((faithful.all _).mpr (List.mem_map_of_mem isA))
  obtain ⟨b', keptB, pairB⟩ := List.mem_map.mp ((faithful.all _).mpr (List.mem_map_of_mem isB))
  have keys : a'.key = b'.key := calc
    a'.key = a.key := key_of_pair pairA
    _ = b.key := key_eq_iff.mpr (.inr (.inl clash))
    _ = b'.key := (key_of_pair pairB).symm
  have same : a' = b' := List.inj_on_of_nodup_map (keys_nodup perm) keptA keptB keys
  exact clash.pair_ne (by rw [← pairA, ← pairB, same])

/-- Where no offers clash, the last one of each owner and code is kept. -/
theorem lastOfEach_of_not_clash (perm : offers.Perm (values (offerTable received)))
    (apart : ∀ a ∈ received, ∀ b ∈ received, ¬ Clash a b) : LastOfEach received offers := by
  have pair_of_key {a b : SharedOfferAnnouncement} (isA : a ∈ received) (isB : b ∈ received)
      (same : a.key = b.key) : a.pair = b.pair := by
    rcases key_eq_iff.mp same with equal | clash | clash
    · exact equal
    · exact absurd clash (apart a isA b isB)
    · exact absurd clash (apart b isB a isA)
  refine ⟨?_, fun pair => ⟨fun kept => ?_, fun heard => ?_⟩, fun offer kept => ?_⟩
  · -- the key is read off the pair
    refine List.Nodup.of_map (fun pair : String × String => pair.1 ++ ":" ++ pair.2) ?_
    rw [List.map_map]
    exact keys_nodup perm
  · obtain ⟨offer, isKept, rfl⟩ := List.mem_map.mp kept
    exact List.mem_map_of_mem (received_of_mem_offerTable (perm.mem_iff.mp isKept))
  · obtain ⟨offer, member, rfl⟩ := List.mem_map.mp heard
    obtain ⟨other, kept, same⟩ := exists_mem_offerTable member
    rw [← pair_of_key (received_of_mem_offerTable kept) member same]
    exact List.mem_map_of_mem (perm.mem_iff.mpr kept)
  · have isKept := perm.mem_iff.mp kept
    rw [← mem_offerTable isKept]
    refine congrArg List.getLast? (List.filter_congr fun other member => decide_eq_decide.mpr ?_)
    exact ⟨key_of_pair, pair_of_key member (received_of_mem_offerTable isKept)⟩

end Table

/-- **When offers do not displace each other.** A snapshot has exactly the last offer of each owner and code
that was received, if and only if no two of these offers clash. -/
theorem offers_lastOfEach_iff {decoder : Decoder} {order : IterationOrder} {socket : Socket}
    {timeout : Nat} {snapshot : DiscoverySnapshot}
    (run : decoder.listenForSnapshot order socket timeout = .ok snapshot) :
    LastOfEach (socket.offers decoder timeout) snapshot.offers ↔
      ∀ a ∈ socket.offers decoder timeout, ∀ b ∈ socket.offers decoder timeout, ¬ Clash a b :=
  ⟨fun faithful _ isA _ isB => not_clash_of_lastOfEach (listen_offers run) faithful isA isB,
    lastOfEach_of_not_clash (listen_offers run)⟩

/-! ### Samples -/

def sampleOffer (owner code source : String) : SharedOfferAnnouncement :=
  ⟨code, owner, "Alice", source, false, 3, false, "2026-01-01T00:00:00Z"⟩

/-- The packet of such an offer. -/
def samplePacket (owner code source : String) : Bytes :=
  utf8 "\x7b\"kind\":\"share_offer\",\"offer\":\x7b\"code\":\"" ++ utf8 code ++
    utf8 "\",\"owner_peer_id\":\"" ++ utf8 owner ++
    utf8 "\",\"owner_name\":\"Alice\",\"source_name\":\"" ++ utf8 source ++
    utf8 "\",\"is_dir\":false,\"bytes_total\":3,\"public_enabled\":false," ++
    utf8 "\"created_at\":\"2026-01-01T00:00:00Z\"\x7d\x7d"

/-- What the parser makes of some of these packets. -/
def offerDecoder (samples : List (String × String × String)) : Decoder where
  packet payload :=
    (samples.find? fun sample => payload = samplePacket sample.1 sample.2.1 sample.2.2).map
      fun sample => .shareOffer (sampleOffer sample.1 sample.2.1 sample.2.2)
  beacon _ := none

/-- A socket that receives these packets. -/
def offerSocket (samples : List (String × String × String)) : Socket where
  bound := true
  timeoutSet := true
  start := 0
  turns := samples.map fun sample =>
    ⟨0, .datagram ⟨10, 0, 0, 1⟩ (samplePacket sample.1 sample.2.1 sample.2.2) 5⟩

/-- Two offers of one owner, one of them twice. -/
def keptSamples : List (String × String × String) :=
  [("a", "b", "x"), ("a", "c", "y"), ("a", "b", "z")]

theorem offers_lastOfEach_sample : ∃ snapshot,
    (offerDecoder keptSamples).listenForSnapshot sampleOrder (offerSocket keptSamples) 1000 =
        .ok snapshot ∧
      LastOfEach [sampleOffer "a" "b" "x", sampleOffer "a" "c" "y", sampleOffer "a" "b" "z"]
        snapshot.offers := by
  have run : (offerDecoder keptSamples).listenForSnapshot sampleOrder (offerSocket keptSamples) 1000 =
      .ok ⟨[], [sampleOffer "a" "b" "z", sampleOffer "a" "c" "y"]⟩ := by decide +kernel
  have received : (offerSocket keptSamples).offers (offerDecoder keptSamples) 1000 =
      [sampleOffer "a" "b" "x", sampleOffer "a" "c" "y", sampleOffer "a" "b" "z"] := by
    decide +kernel
  have noColon : ∀ offer ∈ [sampleOffer "a" "b" "x", sampleOffer "a" "c" "y",
      sampleOffer "a" "b" "z"], ':' ∉ offer.ownerPeerId.toList := by decide +kernel
  have condition := offers_lastOfEach_iff run
  rw [received] at condition
  exact ⟨_, run, condition.mpr fun a _ b isB => not_clash_of_noColon (noColon b isB)⟩

/-- The owner `a` offers `b:c`, and then the owner `a:b` offers `c`. -/
def displacedSamples : List (String × String × String) := [("a", "b:c", "x"), ("a:b", "c", "y")]

/-- The first of the two offers is lost. -/
theorem offers_displaced : ∃ snapshot,
    (offerDecoder displacedSamples).listenForSnapshot sampleOrder (offerSocket displacedSamples) 1000 =
        .ok snapshot ∧
      snapshot.offers = [sampleOffer "a:b" "c" "y"] ∧
      ¬ LastOfEach ((offerSocket displacedSamples).offers (offerDecoder displacedSamples) 1000)
        snapshot.offers := by
  have run : (offerDecoder displacedSamples).listenForSnapshot sampleOrder
      (offerSocket displacedSamples) 1000 = .ok ⟨[], [sampleOffer "a:b" "c" "y"]⟩ := by decide +kernel
  have received : (offerSocket displacedSamples).offers (offerDecoder displacedSamples) 1000 =
      [sampleOffer "a" "b:c" "x", sampleOffer "a:b" "c" "y"] := by decide +kernel
  refine ⟨_, run, rfl, fun faithful => ?_⟩
  rw [received] at faithful
  have kept := (faithful.all ("a", "b:c")).mpr (by decide +kernel)
  exact absurd kept (by decide +kernel)

end SendRs.Discovery
