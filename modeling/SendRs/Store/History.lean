/-
**Appending to the history from several processes.**

`append_history` loads the whole list, adds an entry and writes the list back. The processes of a
device share one history file, and nothing keeps a call of one from falling between the load and the
write of another. When all calls have returned, every entry is in the file once, after the old ones
and in the order of its process, exactly when each call was made as a whole (`history_kept_iff`): a
call that saves a list it loaded too early leaves the file one entry short for good.
-/

import SendRs.Library.ReadModifyWrite
import SendRs.Store.Json

namespace SendRs

open Machines ReadModifyWrite Cli

variable {ι : Type}

/-- Appending one entry after the other. -/
theorem replay_pushEntry (file : Option (List TransferHistoryEntry))
    (log : List (Saved ι TransferHistoryEntry)) :
    (replay pushEntry file log).getD [] = file.getD [] ++ log.map Saved.call := by
  induction log generalizing file with
  | nil => rw [replay, List.foldl_nil, List.map_nil, List.append_nil]
  | cons saved log ih =>
    rw [replay, List.foldl_cons]
    refine (ih _).trans ?_
    rw [pushEntry, Option.getD_some, List.map_cons, List.append_assoc, List.singleton_append]

variable [DecidableEq ι]

/-- The processes that append to one history, each with the entries of its calls. A load is
`load_history`, and a save is the write of `append_history`. -/
def historyMachine (file : Option (List TransferHistoryEntry))
    (todo : ι → List TransferHistoryEntry) :
    Machine (Cell ι TransferHistoryEntry (Option (List TransferHistoryEntry))) (Move ι) :=
  machine pushEntry file todo

/-- The file holds the old entries, and then every appended entry once, each process's in order. -/
def HistoryKept (file file' : Option (List TransferHistoryEntry))
    (todo : ι → List TransferHistoryEntry) : Prop :=
  ∃ appended : List (ι × TransferHistoryEntry),
    file'.getD [] = file.getD [] ++ appended.map Prod.snd ∧
      ∀ i, (appended.filter fun one => one.1 = i).map Prod.snd = todo i

/-- What one process has in a list of calls. -/
theorem count_filter {κ : Type} [DecidableEq κ] (l : List (ι × κ)) (i : ι) (k : κ) :
    ((l.filter fun one => one.1 = i).map Prod.snd).count k = l.count (i, k) := by
  induction l with
  | nil => rfl
  | cons one l ih =>
    obtain ⟨j, k'⟩ := one
    rw [List.count_cons, List.filter_cons]
    by_cases same : j = i
    · subst same
      simp [List.count_cons, ih]
    · simp [ih, same]

/-- Two lists of calls in which each process has the same are as long as each other. -/
theorem length_eq_of_filter {κ : Type} [DecidableEq κ] {l l' : List (ι × κ)}
    (same : ∀ i, (l.filter fun one => one.1 = i).map Prod.snd =
      (l'.filter fun one => one.1 = i).map Prod.snd) : l.length = l'.length := by
  refine List.Perm.length_eq (List.perm_iff_count.mpr fun one => ?_)
  obtain ⟨i, k⟩ := one
  rw [← count_filter, ← count_filter, same]

/-- **No history entry is lost** exactly when every `load_history` is directly followed by the write
of the same call. -/
theorem history_kept_iff (file : Option (List TransferHistoryEntry))
    (todo : ι → List TransferHistoryEntry) (moves : List (Move ι))
    {s : Cell ι TransferHistoryEntry (Option (List TransferHistoryEntry))}
    (ends : (historyMachine file todo).run Anything (start file todo) moves = some s)
    (returned : s.Done) : HistoryKept file s.value todo ↔ Serial moves := by
  have reach := reach_of_run moves (.start rfl) ends
  have inOrder : ∀ i, (s.log.filter fun saved => saved.proc = i).map Saved.call = todo i := by
    intro i
    have order := log_in_order reach i
    rwa [returned i, List.append_nil] at order
  -- the calls in the order of their saves
  have saves : ∀ i, ((s.log.map fun saved => (saved.proc, saved.call)).filter fun one =>
      one.1 = i).map Prod.snd = todo i := by
    intro i
    rw [List.filter_map, List.map_map]
    exact inOrder i
  rw [← timely_iff_serial ends returned]
  constructor
  · rintro ⟨appended, content, each⟩
    by_contra late
    obtain ⟨_, _, fewer⟩ := size_of_reach (fun file => (file.getD []).length)
      (fun call file => by simp [pushEntry]) reach
    have short := fewer late
    have count := length_eq_of_filter fun i => (each i).trans (saves i).symm
    rw [List.length_map] at count
    rw [content, List.length_append, List.length_map, count] at short
    exact Nat.lt_irrefl _ short
  · intro timely
    refine ⟨s.log.map fun saved => (saved.proc, saved.call), ?_, saves⟩
    rw [(linear_of_absorbed reach timely.absorbed).value_eq, replay_pushEntry, List.map_map]
    rfl

/-! ### Two processes with one entry each -/

def sampleEntry (role : Role) : TransferHistoryEntry :=
  ⟨role, .completed, "/t", "device", "name", 2, 2, none⟩

/-- The sender (`false`) and the receiver (`true`) of a transfer append their entries. -/
def sampleTodo : Bool → List TransferHistoryEntry
  | false => [sampleEntry .send]
  | true => [sampleEntry .receive]

/-- One call after the other keeps both entries. -/
theorem history_kept_sample :
    ∃ s, (historyMachine none sampleTodo).run Anything (start none sampleTodo)
        [.load false, .save false, .load true, .save true] = some s ∧
      HistoryKept none s.value sampleTodo := by
  refine ⟨_, rfl, (history_kept_iff none sampleTodo _ rfl ?_).mpr ⟨[false, true], rfl⟩⟩
  intro i
  cases i <;> rfl

/-- When both load before one writes, the first entry that is written is lost. -/
theorem history_lost :
    ∃ s, (historyMachine none sampleTodo).run Anything (start none sampleTodo)
        [.load false, .load true, .save false, .save true] = some s ∧ s.Done ∧
      s.value = some [sampleEntry .receive] ∧ ¬ HistoryKept none s.value sampleTodo := by
  refine ⟨_, rfl, fun i => ?_, rfl, ?_⟩
  · cases i <;> rfl
  · rintro ⟨appended, content, each⟩
    have lost : sampleEntry .send ∈ appended.map Prod.snd := by
      have sent := each false
      have member : sampleEntry .send ∈ (appended.filter fun one => one.1 = false).map Prod.snd := by
        rw [sent]
        exact List.mem_singleton_self _
      obtain ⟨one, inside, same⟩ := List.mem_map.mp member
      exact List.mem_map.mpr ⟨one, (List.mem_filter.mp inside).1, same⟩
    rw [Option.getD_none, List.nil_append] at content
    rw [← content] at lost
    exact absurd lost (by decide)

end SendRs
