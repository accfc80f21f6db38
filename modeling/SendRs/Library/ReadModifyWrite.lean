/-
**Processes that read, change and write one shared cell.**

Each process makes a list of calls. A call loads the cell, and in a later step it saves what its
edit makes of the value it has loaded; in between, any steps of the others may be taken. The log
says which calls have saved, in order, each with the number of saves before its load.

* `log_in_order`: each process saves its calls in its own order;
* `linear_of_absorbed`: if every call makes up for the calls that were saved since its load, then the
  cell holds what the saved calls make of the initial value, one after the other;
* `timely_iff_serial`: once all calls have returned, every call has saved on top of the value that
  was in the cell exactly when every load was directly followed by its save.
-/

import Mathlib.Data.List.Basic
import Mathlib.Logic.Function.Basic
import SendRs.Library.Machine

namespace ReadModifyWrite

open Machines

variable {ι κ β : Type}

/-- A call that has saved: whose it is, and how many saves there were when it loaded. -/
structure Saved (ι κ : Type) where
  proc : ι
  call : κ
  since : Nat

/-- The cell, the calls each process still has to make, what a process has loaded for the first of
them (and after how many saves), and the log. -/
structure Cell (ι κ β : Type) where
  value : β
  todo : ι → List κ
  loaded : ι → Option (β × Nat)
  log : List (Saved ι κ)

/-- A step of a process. -/
inductive Move (ι : Type) where
  | load (i : ι)
  | save (i : ι)
deriving DecidableEq

/-- All calls have returned. -/
def Cell.Done (s : Cell ι κ β) : Prop := ∀ i, s.todo i = []

/-- Every load is directly followed by the save of the same process. -/
def Serial (moves : List (Move ι)) : Prop :=
  ∃ order : List ι, moves = order.flatMap fun i => [.load i, .save i]

theorem serial_append {moves : List (Move ι)} (serial : Serial moves) (i : ι) :
    Serial (moves ++ [.load i] ++ [.save i]) := by
  obtain ⟨order, rfl⟩ := serial
  exact ⟨order ++ [i], by simp⟩

/-! ### Logs -/

section Logs

variable (edit : κ → β → β)

/-- The calls one after the other. -/
def replay (value : β) (log : List (Saved ι κ)) : β :=
  log.foldl (fun value saved => edit saved.call value) value

/-- Every call was saved on top of the value it had loaded. -/
def Timely (log : List (Saved ι κ)) : Prop :=
  ∀ (n : Nat) (saved : Saved ι κ), log[n]? = some saved → saved.since = n

/-- Every call makes up for those that were saved since its load: it leaves the same with them as
without them. -/
def Absorbed (value : β) (log : List (Saved ι κ)) : Prop :=
  ∀ (n : Nat) (saved : Saved ι κ), log[n]? = some saved →
    edit saved.call (replay edit value (log.take n)) =
      edit saved.call (replay edit value (log.take saved.since))

variable {edit} {value : β} {log : List (Saved ι κ)}

theorem timely_append {saved : Saved ι κ} :
    Timely (log ++ [saved]) ↔ Timely log ∧ saved.since = log.length := by
  constructor
  · intro timely
    refine ⟨fun n other found => ?_, timely _ _ (by simp)⟩
    obtain ⟨inside, _⟩ := List.getElem?_eq_some_iff.mp found
    exact timely n other (by rwa [List.getElem?_append_left inside])
  · rintro ⟨timely, last⟩ n other found
    rcases Nat.lt_trichotomy n log.length with inside | rfl | outside
    · rw [List.getElem?_append_left inside] at found
      exact timely n other found
    · simp only [List.getElem?_concat_length, Option.some.injEq] at found
      rw [← found, last]
    · rw [List.getElem?_eq_none (by simp; omega)] at found
      cases found

theorem Absorbed.init {saved : Saved ι κ}
    (absorbed : Absorbed edit value (log ++ [saved]))
    (bounded : ∀ (n : Nat) (other : Saved ι κ), log[n]? = some other → other.since ≤ n) : Absorbed edit value log := by
  intro n other found
  obtain ⟨inside, _⟩ := List.getElem?_eq_some_iff.mp found
  have before := bounded n other found
  have here := absorbed n other (by rwa [List.getElem?_append_left inside])
  rwa [List.take_append_of_le_length (by omega), List.take_append_of_le_length (by omega)] at here

/-- A call that has missed none makes up for all. -/
theorem Timely.absorbed (timely : Timely log) : Absorbed edit value log :=
  fun n saved found => by rw [timely n saved found]

end Logs

/-! ### Steps -/

variable [DecidableEq ι] (edit : κ → β → β)

/-- One step. -/
def step (s : Cell ι κ β) : Move ι → Option (Cell ι κ β)
  | .load i =>
    match s.todo i, s.loaded i with
    | _ :: _, none =>
      some { s with loaded := Function.update s.loaded i (some (s.value, s.log.length)) }
    | _, _ => none
  | .save i =>
    match s.todo i, s.loaded i with
    | call :: rest, some (seen, since) =>
      some {
        value := edit call seen
        todo := Function.update s.todo i rest
        loaded := Function.update s.loaded i none
        log := s.log ++ [⟨i, call, since⟩] }
    | _, _ => none

/-- Nothing is loaded and nothing is saved yet. -/
def start (value : β) (todo : ι → List κ) : Cell ι κ β := ⟨value, todo, fun _ => none, []⟩

/-- The processes with their calls, on a cell. -/
def machine (value : β) (todo : ι → List κ) : Machine (Cell ι κ β) (Move ι) :=
  ⟨(· = start value todo), step edit⟩

/-! ### What one step can do -/

variable {edit} {s s' : Cell ι κ β} {i : ι}

theorem step_load (edit : κ → β → β) {s s' : Cell ι κ β} {i : ι}
    (takes : step edit s (.load i) = some s') :
    s.loaded i = none ∧ s.todo i ≠ [] ∧
      s' = { s with loaded := Function.update s.loaded i (some (s.value, s.log.length)) } := by
  rw [step] at takes
  cases isTodo : s.todo i with
  | nil => simp [isTodo] at takes
  | cons call rest =>
    cases isLoaded : s.loaded i with
    | some seen => simp [isTodo, isLoaded] at takes
    | none =>
      simp only [isTodo, isLoaded, Option.some.injEq] at takes
      exact ⟨rfl, List.cons_ne_nil _ _, takes.symm⟩

theorem step_save (edit : κ → β → β) {s s' : Cell ι κ β} {i : ι}
    (takes : step edit s (.save i) = some s') :
    ∃ call rest seen since, s.todo i = call :: rest ∧ s.loaded i = some (seen, since) ∧
      s' = {
        value := edit call seen
        todo := Function.update s.todo i rest
        loaded := Function.update s.loaded i none
        log := s.log ++ [⟨i, call, since⟩] } := by
  rw [step] at takes
  cases isTodo : s.todo i with
  | nil => simp [isTodo] at takes
  | cons call rest =>
    cases isLoaded : s.loaded i with
    | none => simp [isTodo, isLoaded] at takes
    | some seen =>
      simp only [isTodo, isLoaded, Option.some.injEq] at takes
      exact ⟨call, rest, seen.1, seen.2, rfl, rfl, takes.symm⟩

/-- What is loaded after a load. -/
theorem loaded_after_load {α : Type} {loaded : ι → Option α} {i j : ι} {new found : α}
    (here : Function.update loaded j (some new) i = some found) :
    i = j ∧ new = found ∨ i ≠ j ∧ loaded i = some found := by
  by_cases same : i = j
  · rw [same, Function.update_self] at here
    exact Or.inl ⟨same, Option.some.inj here⟩
  · rw [Function.update_of_ne same] at here
    exact Or.inr ⟨same, here⟩

/-- What is loaded after a save. -/
theorem loaded_after_save {α : Type} {loaded : ι → Option α} {i j : ι} {found : α}
    (here : Function.update loaded j none i = some found) : loaded i = some found := by
  by_cases same : i = j
  · rw [same, Function.update_self] at here
    cases here
  · rwa [Function.update_of_ne same] at here

/-! ### Every run -/

section Runs

variable {value : β} {todo : ι → List κ} {allowed : Cell ι κ β → Move ι → Prop}

/-- What has been loaded is for a call that is still to be made. -/
theorem todo_of_loaded (reach : Reach (machine edit value todo) allowed s) :
    ∀ i, s.todo i = [] → s.loaded i = none := by
  refine Reach.invariant (P := fun s : Cell ι κ β => ∀ i, s.todo i = [] → s.loaded i = none)
    ?_ ?_ reach
  · rintro _ rfl i _
    rfl
  · rintro s (j | j) s' holds _ takes i
    · obtain ⟨_, more, rfl⟩ := step_load edit takes
      dsimp only
      intro none
      have different : i ≠ j := fun same => more (same ▸ none)
      rw [Function.update_of_ne different]
      exact holds i none
    · obtain ⟨call, rest, seen, since, _, _, rfl⟩ := step_save edit takes
      dsimp only
      intro none
      by_cases same : i = j
      · rw [same, Function.update_self]
      · rw [Function.update_of_ne same] at none ⊢
        exact holds i none

/-- **Each process saves its calls in its own order.** -/
theorem log_in_order (reach : Reach (machine edit value todo) allowed s) :
    ∀ i, (s.log.filter fun saved => saved.proc = i).map Saved.call ++ s.todo i = todo i := by
  refine Reach.invariant (P := fun s : Cell ι κ β => ∀ i,
    (s.log.filter fun saved => saved.proc = i).map Saved.call ++ s.todo i = todo i) ?_ ?_ reach
  · rintro _ rfl i
    rfl
  · rintro s (j | j) s' holds _ takes i
    · obtain ⟨_, _, rfl⟩ := step_load edit takes
      exact holds i
    · obtain ⟨call, rest, seen, since, isTodo, _, rfl⟩ := step_save edit takes
      rw [← holds i, List.filter_append, List.map_append, List.append_assoc]
      by_cases same : i = j
      · subst same
        simp [isTodo]
      · simp [Ne.symm same, Function.update_of_ne same]

/-- The cell, and what was loaded from it, are what the saved calls make of the initial value. -/
structure Linear (edit : κ → β → β) (value : β) (s : Cell ι κ β) : Prop where
  value_eq : s.value = replay edit value s.log
  loaded_eq : ∀ i seen since, s.loaded i = some (seen, since) →
    since ≤ s.log.length ∧ seen = replay edit value (s.log.take since)

/-- A load is before the save. -/
theorem since_le (reach : Reach (machine edit value todo) allowed s) :
    (∀ (n : Nat) (saved : Saved ι κ), s.log[n]? = some saved → saved.since ≤ n) ∧
      ∀ i seen since, s.loaded i = some (seen, since) → since ≤ s.log.length := by
  refine Reach.invariant (P := fun s : Cell ι κ β =>
    (∀ (n : Nat) (saved : Saved ι κ), s.log[n]? = some saved → saved.since ≤ n) ∧
      ∀ i seen since, s.loaded i = some (seen, since) → since ≤ s.log.length) ?_ ?_ reach
  · rintro _ rfl
    refine ⟨fun n saved found => ?_, fun i seen since found => ?_⟩
    · cases found
    · cases found
  · rintro s (j | j) s' ⟨logged, pending⟩ _ takes
    · obtain ⟨_, _, rfl⟩ := step_load edit takes
      refine ⟨logged, fun i seen since found => ?_⟩
      rcases loaded_after_load found with ⟨_, new⟩ | ⟨_, before⟩
      · exact Nat.le_of_eq (Prod.mk.inj new).2.symm
      · exact pending i seen since before
    · obtain ⟨call, rest, seen, since, _, isLoaded, rfl⟩ := step_save edit takes
      refine ⟨fun n saved found => ?_, fun i seen' since' found => ?_⟩
      · rcases Nat.lt_trichotomy n s.log.length with inside | rfl | outside
        · rw [List.getElem?_append_left inside] at found
          exact logged n saved found
        · simp only [List.getElem?_concat_length, Option.some.injEq] at found
          exact found ▸ pending j seen since isLoaded
        · rw [List.getElem?_eq_none (by simp; omega)] at found
          cases found
      · rw [List.length_append]
        exact Nat.le_add_right_of_le (pending i seen' since' (loaded_after_save found))

/-- **If every call makes up for those it has missed, none is lost.** -/
theorem linear_of_absorbed (reach : Reach (machine edit value todo) allowed s)
    (absorbed : Absorbed edit value s.log) : Linear edit value s := by
  revert absorbed
  refine Reach.invariant_of (P := fun s : Cell ι κ β =>
    Absorbed edit value s.log → Linear edit value s) ?_ ?_ reach
  · rintro _ rfl _
    refine ⟨rfl, fun i seen since found => ?_⟩
    cases found
  · rintro s (j | j) s' reached holds _ takes absorbed
    · obtain ⟨_, _, rfl⟩ := step_load edit takes
      obtain ⟨value_eq, loaded_eq⟩ := holds absorbed
      refine ⟨value_eq, fun i seen since found => ?_⟩
      rcases loaded_after_load found with ⟨_, new⟩ | ⟨_, before⟩
      · obtain ⟨rfl, rfl⟩ := Prod.mk.inj new
        exact ⟨Nat.le_refl _, by rw [List.take_length, value_eq]⟩
      · exact loaded_eq i seen since before
    · obtain ⟨call, rest, seen, since, _, isLoaded, rfl⟩ := step_save edit takes
      obtain ⟨value_eq, loaded_eq⟩ := holds (absorbed.init (since_le reached).1)
      obtain ⟨early, isSeen⟩ := loaded_eq j seen since isLoaded
      have last := absorbed s.log.length ⟨j, call, since⟩ (by simp)
      rw [List.take_left, List.take_append_of_le_length early] at last
      refine ⟨?_, fun i seen' since' found => ?_⟩
      · show edit call seen = _
        rw [isSeen, ← last, replay, replay, List.foldl_append]
        rfl
      · obtain ⟨early', isSeen'⟩ := loaded_eq i seen' since' (loaded_after_save found)
        refine ⟨?_, ?_⟩
        · rw [List.length_append]
          exact Nat.le_add_right_of_le early'
        · rw [List.take_append_of_le_length early']
          exact isSeen'

end Runs

/-- **Where every call makes the value larger by one**, the value counts the calls, and it counts
fewer than were saved once a call was saved late. -/
theorem size_of_reach {value : β} {todo : ι → List κ} {allowed : Cell ι κ β → Move ι → Prop}
    (size : β → Nat) (grows : ∀ call value, size (edit call value) = size value + 1)
    (reach : Reach (machine edit value todo) allowed s) :
    (∀ i seen since, s.loaded i = some (seen, since) → size seen ≤ size value + since ∧
      (¬ Timely s.log → since = s.log.length → size seen < size value + since)) ∧
    size s.value ≤ size value + s.log.length ∧
      (¬ Timely s.log → size s.value < size value + s.log.length) := by
  refine Reach.invariant_of (P := fun s : Cell ι κ β =>
    (∀ i seen since, s.loaded i = some (seen, since) → size seen ≤ size value + since ∧
      (¬ Timely s.log → since = s.log.length → size seen < size value + since)) ∧
    size s.value ≤ size value + s.log.length ∧
      (¬ Timely s.log → size s.value < size value + s.log.length)) ?_ ?_ reach
  · rintro _ rfl
    refine ⟨fun i seen since found => ?_, Nat.le_refl _, fun late => ?_⟩
    · cases found
    · refine absurd (fun n saved found => ?_) late
      cases found
  · rintro s (j | j) s' reached ⟨pending, most, fewer⟩ _ takes
    · obtain ⟨_, _, rfl⟩ := step_load edit takes
      refine ⟨fun i seen since found => ?_, most, fewer⟩
      rcases loaded_after_load found with ⟨_, new⟩ | ⟨_, before⟩
      · obtain ⟨rfl, rfl⟩ := Prod.mk.inj new
        exact ⟨most, fun late _ => fewer late⟩
      · exact pending i seen since before
    · obtain ⟨call, rest, seen, since, _, isLoaded, rfl⟩ := step_save edit takes
      have early := (since_le reached).2 j seen since isLoaded
      obtain ⟨atMost, less⟩ := pending j seen since isLoaded
      simp only [grows, List.length_append, List.length_singleton]
      refine ⟨fun i seen' since' found => ?_, by omega, fun late => ?_⟩
      · have before := loaded_after_save found
        have early' := (since_le reached).2 i seen' since' before
        exact ⟨(pending i seen' since' before).1, fun _ last => by omega⟩
      · -- this call was late, or another one was before it
        rcases Nat.lt_or_ge since s.log.length with missed | onTime
        · omega
        · have same : since = s.log.length := Nat.le_antisymm early onTime
          have smaller := less (fun timely => late (timely_append.mpr ⟨timely, same⟩)) same
          omega

/-! ### Runs to the end -/

/-- What is loaded when a schedule has been serial so far: nothing, or the value that is in the
cell. -/
def Tidy (moves : List (Move ι)) (s : Cell ι κ β) : Prop :=
  (Serial moves ∧ ∀ j, s.loaded j = none) ∨
    ∃ before i, Serial before ∧ moves = before ++ [.load i] ∧
      s.loaded i = some (s.value, s.log.length) ∧ ∀ j, j ≠ i → s.loaded j = none

/-- A call has missed another one, or will have when it is saved. -/
def Doomed (s : Cell ι κ β) : Prop :=
  ¬ Timely s.log ∨ (∃ i seen since, s.loaded i = some (seen, since) ∧ since < s.log.length) ∨
    ∃ i j, i ≠ j ∧ (∃ seen, s.loaded i = some (seen, s.log.length)) ∧
      ∃ seen, s.loaded j = some (seen, s.log.length)

/-- Once a call is doomed, it stays so. -/
theorem doomed_step {a : Move ι} (doomed : Doomed s) (takes : step edit s a = some s') :
    Doomed s' := by
  cases a with
  | load k =>
    obtain ⟨free, _, rfl⟩ := step_load edit takes
    have others {i : ι} {loaded : β × Nat} (found : s.loaded i = some loaded) :
        Function.update s.loaded k (some (s.value, s.log.length)) i = some loaded := by
      rw [Function.update_of_ne fun same => ?_, found]
      rw [same, free] at found
      cases found
    rcases doomed with late | ⟨i, seen, since, found, late⟩ | ⟨i, j, different, ⟨seen, found⟩, seen', found'⟩
    · exact Or.inl late
    · exact Or.inr (Or.inl ⟨i, seen, since, others found, late⟩)
    · exact Or.inr (Or.inr ⟨i, j, different, ⟨seen, others found⟩, seen', others found'⟩)
  | save k =>
    obtain ⟨call, rest, seen, since, _, isLoaded, rfl⟩ := step_save edit takes
    have others {i : ι} (different : i ≠ k) {loaded : β × Nat} (found : s.loaded i = some loaded) :
        Function.update s.loaded k none i = some loaded := by
      rw [Function.update_of_ne different, found]
    rcases doomed with late | ⟨i, seen', since', found, late⟩ | ⟨i, j, different, ⟨seenI, found⟩, seenJ, found'⟩
    · exact Or.inl fun timely => late (timely_append.mp timely).1
    · by_cases same : i = k
      · subst same
        obtain ⟨rfl, rfl⟩ := Prod.mk.inj (Option.some.inj (isLoaded.symm.trans found))
        exact Or.inl fun timely => absurd (timely_append.mp timely).2 (Nat.ne_of_lt late)
      · refine Or.inr (Or.inl ⟨i, seen', since', others same found, ?_⟩)
        rw [List.length_append]
        exact Nat.lt_add_right _ late
    · -- one of the two is not the call that is saved now
      have later : s.log.length < (s.log ++ [(⟨k, call, since⟩ : Saved ι κ)]).length := by simp
      by_cases same : i = k
      · exact Or.inr (Or.inl ⟨j, seenJ, _, others (same ▸ different.symm) found', later⟩)
      · exact Or.inr (Or.inl ⟨i, seenI, _, others same found, later⟩)

/-- A step of a tidy run is tidy, or a call is doomed. -/
theorem tidy_step {moves : List (Move ι)} {a : Move ι} (tidy : Tidy moves s)
    (takes : step edit s a = some s') : Tidy (moves ++ [a]) s' ∨ Doomed s' := by
  cases a with
  | load k =>
    obtain ⟨free, _, rfl⟩ := step_load edit takes
    rcases tidy with ⟨serial, empty⟩ | ⟨before, i, _, _, found, _⟩
    · refine Or.inl (Or.inr ⟨moves, k, serial, rfl, Function.update_self _ _ _, fun j different => ?_⟩)
      exact (Function.update_of_ne different _ _).trans (empty j)
    · have different : i ≠ k := by
        rintro rfl
        rw [free] at found
        cases found
      refine Or.inr (Or.inr (Or.inr ⟨i, k, different, ⟨s.value, ?_⟩, s.value, ?_⟩))
      · exact (Function.update_of_ne different _ _).trans found
      · exact Function.update_self _ _ _
  | save k =>
    obtain ⟨call, rest, seen, since, _, isLoaded, rfl⟩ := step_save edit takes
    rcases tidy with ⟨_, empty⟩ | ⟨before, i, serial, rfl, _, others⟩
    · rw [empty k] at isLoaded
      cases isLoaded
    · have same : k = i := by
        by_contra different
        rw [others k different] at isLoaded
        cases isLoaded
      subst same
      refine Or.inl (Or.inl ⟨serial_append serial k, fun j => ?_⟩)
      by_cases here : j = k
      · exact here ▸ Function.update_self _ _ _
      · exact (Function.update_of_ne here _ _).trans (others j here)

section Schedules

variable {value : β} {todo : ι → List κ}

theorem tidy_run (rest : List (Move ι)) :
    ∀ {moves : List (Move ι)} {s s' : Cell ι κ β}, Tidy moves s ∨ Doomed s →
      (machine edit value todo).run Anything s rest = some s' →
      Tidy (moves ++ rest) s' ∨ Doomed s' := by
  induction rest with
  | nil =>
    intro moves s s' holds ends
    rw [← Option.some.inj ends, List.append_nil]
    exact holds
  | cons a rest ih =>
    intro moves s s' holds ends
    rw [run_anything_cons] at ends
    obtain ⟨next, takes, ends⟩ := Option.bind_eq_some_iff.mp ends
    have now : Tidy (moves ++ [a]) next ∨ Doomed next :=
      holds.elim (fun tidy => tidy_step tidy takes) fun doomed => Or.inr (doomed_step doomed takes)
    have later := ih now ends
    rwa [List.append_assoc, List.singleton_append] at later

/-- A load that is directly followed by its save misses no call. -/
theorem timely_run (order : List ι) :
    ∀ {s s' : Cell ι κ β}, Timely s.log → 
      (machine edit value todo).run Anything s (order.flatMap fun i => [.load i, .save i]) = some s' →
      Timely s'.log := by
  induction order with
  | nil =>
    intro s s' timely ends
    exact Option.some.inj ends ▸ timely
  | cons i order ih =>
    intro s s' timely ends
    rw [List.flatMap_cons, List.cons_append, run_anything_cons] at ends
    obtain ⟨between, loads, ends⟩ := Option.bind_eq_some_iff.mp ends
    rw [List.cons_append, run_anything_cons] at ends
    obtain ⟨next, saves, ends⟩ := Option.bind_eq_some_iff.mp ends
    obtain ⟨_, _, rfl⟩ := step_load edit loads
    obtain ⟨call, rest, seen, since, _, isLoaded, rfl⟩ := step_save edit saves
    refine ih (timely_append.mpr ⟨timely, ?_⟩) ends
    have isNew := (Function.update_self _ _ _).symm.trans isLoaded
    exact (Prod.mk.inj (Option.some.inj isNew)).2.symm

/-- **When all calls have returned**, every one of them was saved on top of the value it had loaded
exactly when the schedule was serial. -/
theorem timely_iff_serial {moves : List (Move ι)}
    (ends : (machine edit value todo).run Anything (start value todo) moves = some s)
    (done : s.Done) : Timely s.log ↔ Serial moves := by
  have none : ∀ i, s.loaded i = none := fun i =>
    todo_of_loaded (reach_of_run moves (.start rfl) ends) i (done i)
  constructor
  · intro timely
    have begins : Tidy [] (start value todo : Cell ι κ β) := Or.inl ⟨⟨[], rfl⟩, fun _ => rfl⟩
    rcases tidy_run moves (Or.inl begins) ends with tidy | doomed
    · rcases tidy with ⟨serial, _⟩ | ⟨before, i, _, _, found, _⟩
      · exact serial
      · rw [none i] at found
        cases found
    · rcases doomed with late | ⟨i, seen, since, found, _⟩ | ⟨i, _, _, ⟨seen, found⟩, _⟩
      · exact absurd timely late
      · rw [none i] at found
        cases found
      · rw [none i] at found
        cases found
  · rintro ⟨order, rfl⟩
    refine timely_run order (fun n saved found => ?_) ends
    cases found

end Schedules

end ReadModifyWrite
