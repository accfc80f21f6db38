/-
**Pairing from several processes.**

`pair_peer` loads the whole trust store, inserts one peer and saves the store. The processes of a
device share one store, and a call that saves what it has loaded undoes the pairings that other
calls have saved in between. Calls for the same peer do no such harm: the one that saves last
replaces what it has missed (`insertPeer_absorbs`). So nothing is lost in a run in which no call for
another peer is saved between the load and the save of a call (`pairings_kept`).
-/

import SendRs.Library.ReadModifyWrite
import SendRs.Store.Json
import SendRs.Transfer.Soundness

namespace SendRs

open Machines ReadModifyWrite

variable {ι : Type} {platform : Platform}

/-! ### The store after some calls -/

/-- A pairing makes up for pairings of the same peer. -/
theorem insertPeer_absorbs (call : Pairing) (missed : List (Saved ι Pairing))
    (same : ∀ saved ∈ missed, saved.call.peerId = call.peerId) :
    ∀ stored, insertPeer platform call (replay (insertPeer platform) stored missed) =
      insertPeer platform call stored := by
  induction missed with
  | nil => exact fun _ => rfl
  | cons saved missed ih =>
    intro stored
    have others : ∀ saved ∈ missed, saved.call.peerId = call.peerId :=
      fun other member => same other (List.mem_cons_of_mem _ member)
    rw [replay, List.foldl_cons, ← replay, ih others]
    unfold insertPeer
    rw [Option.getD_some, same saved List.mem_cons_self, AList.insert_insert]

/-- The entry of a peer that was paired is that of its last call. -/
theorem lookup_replay (stored : Option TrustStore) (log : List (Saved ι Pairing))
    {saved : Saved ι Pairing} (member : saved ∈ log) :
    ∃ (store : TrustStore) (n : Nat) (last : Saved ι Pairing),
      replay (insertPeer platform) stored log = some store ∧ log[n]? = some last ∧
        last.call.peerId = saved.call.peerId ∧
        (∀ k later, log[k]? = some later → later.call.peerId = saved.call.peerId → k ≤ n) ∧
        store.peers.lookup saved.call.peerId = some (last.call.peer platform) := by
  induction log using List.reverseRecOn with
  | nil => cases member
  | append_singleton log newest ih =>
    have step : replay (insertPeer platform) stored (log ++ [newest]) =
        insertPeer platform newest.call (replay (insertPeer platform) stored log) := by
      rw [replay, replay, List.foldl_append]
      rfl
    rw [step]
    by_cases same : newest.call.peerId = saved.call.peerId
    · refine ⟨_, log.length, newest, rfl, by simp, same, fun k later found _ => ?_, ?_⟩
      · obtain ⟨inside, _⟩ := List.getElem?_eq_some_iff.mp found
        rw [List.length_append, List.length_singleton] at inside
        exact Nat.le_of_lt_succ inside
      · rw [same]
        exact AList.lookup_insert _
    · have before : saved ∈ log := by
        rcases List.mem_append.mp member with before | here
        · exact before
        · rw [List.mem_singleton.mp here] at same
          exact absurd rfl same
      obtain ⟨store, n, last, isStore, found, isPeer, latest, entry⟩ := ih before
      obtain ⟨inside, _⟩ := List.getElem?_eq_some_iff.mp found
      refine ⟨_, n, last, rfl, ?_, isPeer, fun k later found' isPeer' => ?_, ?_⟩
      · rwa [List.getElem?_append_left inside]
      · rcases Nat.lt_trichotomy k log.length with earlier | rfl | outside
        · rw [List.getElem?_append_left earlier] at found'
          exact latest k later found' isPeer'
        · simp only [List.getElem?_concat_length, Option.some.injEq] at found'
          exact absurd (found' ▸ isPeer') same
        · rw [List.getElem?_eq_none (by simp; omega)] at found'
          cases found'
      · rw [isStore, Option.getD_some, AList.lookup_insert_ne (Ne.symm same)]
        exact entry

/-! ### Runs of the processes -/

variable [DecidableEq ι]

/-- The processes that pair peers in one store. A load is the read of the store, and a save is the
write of `pair_peer`. -/
def pairingMachine (platform : Platform) (file : Option TrustStore) (todo : ι → List Pairing) :
    Machine (Cell ι Pairing (Option TrustStore)) (Move ι) :=
  machine (insertPeer platform) file todo

/-- No call for another peer was saved since the load of the call that is saved now. -/
def Undisturbed (s : Cell ι Pairing (Option TrustStore)) : Move ι → Prop
  | .load _ => True
  | .save i => ∀ call ∈ (s.todo i).head?, ∀ loaded ∈ s.loaded i, ∀ saved ∈ s.log.drop loaded.2,
      saved.call.peerId = call.peerId

instance (s : Cell ι Pairing (Option TrustStore)) : ∀ a, Decidable (Undisturbed s a)
  | .load _ => .isTrue trivial
  | .save i => inferInstanceAs (Decidable (∀ call ∈ (s.todo i).head?, ∀ loaded ∈ s.loaded i,
      ∀ saved ∈ s.log.drop loaded.2, saved.call.peerId = call.peerId))

/-- Every call that has returned left its peer in the store, with the code of a call for this peer
that no later call for it superseded: none has loaded after that one was saved. -/
def PairingsKept (platform : Platform) (s : Cell ι Pairing (Option TrustStore)) : Prop :=
  ∀ saved ∈ s.log, ∃ (store : TrustStore) (n : Nat) (last : Saved ι Pairing),
    s.value = some store ∧ s.log[n]? = some last ∧ last.call.peerId = saved.call.peerId ∧
      (∀ later ∈ s.log, later.call.peerId = saved.call.peerId → later.since ≤ n) ∧
      (store.peers.lookup saved.call.peerId).isSome ∧
      store.paired platform saved.call.peerId last.call.shortCode = true

section Runs

variable {file : Option TrustStore} {todo : ι → List Pairing}
  {s : Cell ι Pairing (Option TrustStore)}

/-- Each call has missed calls for its own peer only. -/
theorem missed_of_reach (reach : Reach (pairingMachine platform file todo) Undisturbed s) :
    ∀ n saved, s.log[n]? = some saved →
      ∀ missed ∈ (s.log.take n).drop saved.since, missed.call.peerId = saved.call.peerId := by
  refine Reach.invariant (P := fun s : Cell ι Pairing (Option TrustStore) =>
    ∀ n saved, s.log[n]? = some saved → ∀ missed ∈ (s.log.take n).drop saved.since,
      missed.call.peerId = saved.call.peerId) ?_ ?_ reach
  · rintro _ rfl n saved found
    cases found
  · rintro s (j | j) s' holds undisturbed takes
    · obtain ⟨_, _, rfl⟩ := step_load (insertPeer platform) takes
      exact holds
    · obtain ⟨call, rest, seen, since, isTodo, isLoaded, rfl⟩ := step_save (insertPeer platform) takes
      intro n saved found
      rcases Nat.lt_trichotomy n s.log.length with inside | rfl | outside
      · rw [List.getElem?_append_left inside] at found
        rw [List.take_append_of_le_length (Nat.le_of_lt inside)]
        exact holds n saved found
      · simp only [List.getElem?_concat_length, Option.some.injEq] at found
        subst found
        rw [List.take_left]
        exact undisturbed call (by rw [isTodo]; rfl) (seen, since) isLoaded
      · rw [List.getElem?_eq_none (by simp; omega)] at found
        cases found

/-- So each call makes up for those it has missed. -/
theorem absorbed_of_reach (reach : Reach (pairingMachine platform file todo) Undisturbed s) :
    Absorbed (insertPeer platform) file s.log := by
  intro n saved found
  have early := (since_le reach).1 n saved found
  have split : s.log.take n = s.log.take saved.since ++ (s.log.take n).drop saved.since := by
    have cut := (List.take_append_drop saved.since (s.log.take n)).symm
    rwa [List.take_take, Nat.min_eq_left early] at cut
  rw [split, replay, List.foldl_append]
  exact insertPeer_absorbs saved.call _ (missed_of_reach reach n saved found) _

end Runs

/-- **No pairing is lost** in a run in which no call for another peer is saved between the load and
the save of a call; and when all calls have returned, these are all. -/
theorem pairings_kept (file : Option TrustStore) (todo : ι → List Pairing)
    {s : Cell ι Pairing (Option TrustStore)}
    (reach : Reach (pairingMachine platform file todo) Undisturbed s) :
    PairingsKept platform s ∧ (s.Done → ∀ i, ∀ call ∈ todo i, ∃ saved ∈ s.log,
      saved.proc = i ∧ saved.call = call) := by
  constructor
  · intro saved member
    obtain ⟨store, n, last, isStore, found, isPeer, latest, entry⟩ :=
      lookup_replay file s.log member
    refine ⟨store, n, last, ?_, found, isPeer, fun later member' isPeer' => ?_, ?_, ?_⟩
    · rw [(linear_of_absorbed reach (absorbed_of_reach reach)).value_eq, isStore]
    · obtain ⟨k, found'⟩ := List.getElem?_of_mem member'
      exact Nat.le_trans ((since_le reach).1 k later found') (latest k later found' isPeer')
    · rw [entry]
      rfl
    · rw [TrustStore.paired, entry]
      exact beq_self_eq_true _
  · intro done i call member
    have order := log_in_order reach i
    rw [done i, List.append_nil] at order
    rw [← order] at member
    obtain ⟨saved, inside, same⟩ := List.mem_map.mp member
    obtain ⟨inside, isProc⟩ := List.mem_filter.mp inside
    exact ⟨saved, inside, of_decide_eq_true isProc, same⟩

/-! ### Two processes with one peer each -/

/-- The two ends of a handshake pair each other on one device. -/
def samplePairings : Bool → List Pairing
  | false => [⟨"receiver", "trusted-by-yes", 1⟩]
  | true => [⟨"sender", "trusted-by-yes", 1⟩]

/-- One call after the other keeps both pairings. -/
theorem pairings_kept_sample :
    ∃ s, (pairingMachine samplePlatform none samplePairings).run Undisturbed
        (start none samplePairings) [.load false, .save false, .load true, .save true] = some s ∧
      PairingsKept samplePlatform s ∧ s.log.map (fun saved => saved.call.peerId) =
        ["receiver", "sender"] := by
  have ends : ∃ s, (pairingMachine samplePlatform none samplePairings).run Undisturbed
      (start none samplePairings) [.load false, .save false, .load true, .save true] = some s ∧
      s.log.map (fun saved => saved.call.peerId) = ["receiver", "sender"] := ⟨_, rfl, rfl⟩
  obtain ⟨s, ends, log⟩ := ends
  exact ⟨s, ends, (pairings_kept none samplePairings (reach_of_run _ (.start rfl) ends)).1, log⟩

/-- When both load before one saves, the peer that is saved first is lost. -/
theorem pairing_lost :
    ∃ s, (pairingMachine samplePlatform none samplePairings).run Anything
        (start none samplePairings) [.load false, .load true, .save false, .save true] = some s ∧
      s.Done ∧ (∃ store, s.value = some store ∧ store.peers.lookup "receiver" = none) ∧
      ¬ PairingsKept samplePlatform s := by
  have lost : ∃ s, (pairingMachine samplePlatform none samplePairings).run Anything
      (start none samplePairings) [.load false, .load true, .save false, .save true] = some s ∧
      s.Done ∧ (∃ saved ∈ s.log, saved.call.peerId = "receiver") ∧
      ∃ store, s.value = some store ∧ store.peers.lookup "receiver" = none := by
    refine ⟨_, rfl, fun i => ?_, ⟨_, List.mem_cons_self, rfl⟩, _, rfl, by decide +kernel⟩
    cases i <;> rfl
  obtain ⟨s, ends, done, ⟨saved, member, isPeer⟩, store, isStore, gone⟩ := lost
  refine ⟨s, ends, done, ⟨store, isStore, gone⟩, fun kept => ?_⟩
  obtain ⟨store', _, _, isStore', _, _, _, there, _⟩ := kept saved member
  obtain rfl := Option.some.inj (isStore.symm.trans isStore')
  rw [isPeer, gone] at there
  cases there

end SendRs
