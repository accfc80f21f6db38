/-
**Machines that take one step after another.**

A machine has an executable step function from a state and an action to the next state, if the action
is possible. `Reach machine allowed` is what its runs reach when every step is allowed;
`Reach.invariant` is the induction over such runs, `Reach.invariant_of` the one that may use what
holds in every state reached. `run` executes a list of allowed actions, and `reach_of_run` says that
what it ends in is reached.
-/

import Mathlib.Logic.Basic

namespace Machines

/-- States, initial states and steps. -/
structure Machine (σ α : Type*) where
  initial : σ → Prop
  step : σ → α → Option σ

variable {σ α : Type*}

/-- The machine, started in a state. -/
def Machine.restart (machine : Machine σ α) (s : σ) : Machine σ α := { machine with initial := (· = s) }

/-- Every step is allowed. -/
def Anything : σ → α → Prop := fun _ _ => True

/-- The states that runs of allowed steps reach. -/
inductive Reach (machine : Machine σ α) (allowed : σ → α → Prop) : σ → Prop
  | start {s : σ} : machine.initial s → Reach machine allowed s
  | next {s s' : σ} {a : α} : Reach machine allowed s → allowed s a → machine.step s a = some s' →
      Reach machine allowed s'

namespace Reach

variable {machine : Machine σ α} {allowed : σ → α → Prop}

/-- What holds at the start and is preserved by every allowed step holds in every state reached. -/
theorem invariant {P : σ → Prop} (start : ∀ s, machine.initial s → P s)
    (preserved : ∀ s a s', P s → allowed s a → machine.step s a = some s' → P s') {s : σ}
    (reach : Reach machine allowed s) : P s := by
  induction reach with
  | start initial => exact start _ initial
  | next _ may step ih => exact preserved _ _ _ ih may step

/-- The same, where a step may use that its state is reached. -/
theorem invariant_of {P : σ → Prop} (start : ∀ s, machine.initial s → P s)
    (preserved : ∀ s a s', Reach machine allowed s → P s → allowed s a →
      machine.step s a = some s' → P s') {s : σ} (reach : Reach machine allowed s) : P s := by
  induction reach with
  | start initial => exact start _ initial
  | next before may step ih => exact preserved _ _ _ before ih may step

end Reach

instance (s : σ) (a : α) : Decidable (Anything s a) := .isTrue trivial

/-- Execute actions one after the other, as long as they are allowed. -/
def Machine.run (machine : Machine σ α) (allowed : σ → α → Prop) [∀ s a, Decidable (allowed s a)] :
    σ → List α → Option σ
  | s, [] => some s
  | s, a :: rest =>
    if allowed s a then (machine.step s a).bind fun s' => machine.run allowed s' rest else none

/-- Where everything is allowed, an execution takes its first step and goes on. -/
theorem run_anything_cons (machine : Machine σ α) (s : σ) (a : α) (rest : List α) :
    machine.run Anything s (a :: rest) =
      (machine.step s a).bind fun s' => machine.run Anything s' rest := if_pos trivial

/-- An execution in two parts. -/
theorem run_anything_append (machine : Machine σ α) (first second : List α) :
    ∀ s, machine.run Anything s (first ++ second) =
      (machine.run Anything s first).bind fun s' => machine.run Anything s' second := by
  induction first with
  | nil => exact fun s => rfl
  | cons a first ih =>
    intro s
    rw [List.cons_append, run_anything_cons, run_anything_cons, Option.bind_assoc]
    exact Option.bind_congr fun s' _ => ih s'

/-- What every step keeps, an execution keeps. -/
theorem run_keeps {machine : Machine σ α} {P : σ → Prop}
    (keeps : ∀ s a s', machine.step s a = some s' → P s → P s') (actions : List α) :
    ∀ {s s' : σ}, machine.run Anything s actions = some s' → P s → P s' := by
  induction actions with
  | nil =>
    intro s s' ends holds
    rwa [← Option.some.inj ends]
  | cons a rest ih =>
    intro s s' ends holds
    rw [run_anything_cons] at ends
    obtain ⟨next, step, ends⟩ := Option.bind_eq_some_iff.mp ends
    exact ih ends (keeps s a next step holds)

/-- What an execution ends in is reached. -/
theorem reach_of_run {machine : Machine σ α} {allowed : σ → α → Prop}
    [∀ s a, Decidable (allowed s a)] (actions : List α) : ∀ {s s' : σ},
      Reach machine allowed s → machine.run allowed s actions = some s' →
      Reach machine allowed s' := by
  induction actions with
  | nil =>
    intro s s' reach ends
    rwa [← Option.some.inj ends]
  | cons a rest ih =>
    intro s s' reach ends
    rw [Machine.run] at ends
    by_cases may : allowed s a
    · rw [if_pos may, Option.bind_eq_some_iff] at ends
      obtain ⟨next, step, ends⟩ := ends
      exact ih (reach.next may step) ends
    · simp [may] at ends

/-- A property of the end of an execution holds in some state reached. -/
theorem exists_reach_of_run {machine : Machine σ α} {allowed : σ → α → Prop}
    [∀ s a, Decidable (allowed s a)] {start : σ} (initial : machine.initial start)
    (actions : List α) {P : σ → Prop}
    (ends : ∃ s ∈ machine.run allowed start actions, P s) : ∃ s, Reach machine allowed s ∧ P s := by
  obtain ⟨s, ends, holds⟩ := ends
  exact ⟨s, reach_of_run actions (.start initial) ends, holds⟩

end Machines
