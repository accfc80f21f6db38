/-
**Two machines in lockstep.**

A machine follows another one when every action of the first is an action of the second, or none of
its business (`view`), and the two go on or get stuck together: from related states to related states.
One step of the relation (`Lockstep`) gives whole executions (`Lockstep.run`), of which one is
possible exactly when the other one is, and the states reached (`Lockstep.reach`).
-/

import SendRs.Library.Machine

namespace Machines

variable {σ τ α β : Type*}

/-- What an action of the first machine is to the second one: an action of its own, or nothing. -/
def Machine.stepAs (machine : Machine τ β) (t : τ) : Option β → Option τ
  | some b => machine.step t b
  | none => some t

/-- Related states step together, as long as the actions are fair. -/
structure Lockstep (first : Machine σ α) (second : Machine τ β) (view : α → Option β) (fair : α → Prop)
    (R : σ → τ → Prop) : Prop where
  step : ∀ s t a, R s t → fair a → Option.Rel R (first.step s a) (second.stepAs t (view a))

namespace Lockstep

variable {first : Machine σ α} {second : Machine τ β} {view : α → Option β} {fair : α → Prop}
  {R : σ → τ → Prop}

theorem next (lockstep : Lockstep first second view fair R) {s s' : σ} {t : τ} {a : α} (related : R s t)
    (isFair : fair a) (moves : first.step s a = some s') :
    ∃ t', second.stepAs t (view a) = some t' ∧ R s' t' := by
  have both := lockstep.step s t a related isFair
  rw [moves] at both
  generalize second.stepAs t (view a) = other at both ⊢
  cases both with
  | some related' => exact ⟨_, rfl, related'⟩

/-- The second machine takes the steps that are its business. -/
theorem run_stepAs (machine : Machine τ β) (t : τ) (b : Option β) (rest : List β) :
    machine.run Anything t (b.toList ++ rest) =
      (machine.stepAs t b).bind fun t' => machine.run Anything t' rest := by
  cases b with
  | none => rfl
  | some b => exact run_anything_cons machine t b rest

/-- **Executions in lockstep**: one is possible exactly when the other one is, and they end in related
states. -/
theorem run (lockstep : Lockstep first second view fair R) (actions : List α) :
    ∀ {s : σ} {t : τ}, R s t → (∀ a ∈ actions, fair a) →
      Option.Rel R (first.run Anything s actions)
        (second.run Anything t (actions.flatMap fun a => (view a).toList)) := by
  induction actions with
  | nil => exact fun related _ => .some related
  | cons a rest ih =>
    intro s t related allFair
    rw [run_anything_cons, List.flatMap_cons, run_stepAs]
    have both := lockstep.step s t a related (allFair a List.mem_cons_self)
    cases moves : first.step s a with
    | none =>
      rw [moves] at both
      cases other : second.stepAs t (view a) with
      | none => exact .none
      | some t' =>
        rw [other] at both
        cases both
    | some s' =>
      obtain ⟨t', moved, related'⟩ := lockstep.next related (allFair a List.mem_cons_self) moves
      rw [moved]
      exact ih related' fun b member => allFair b (List.mem_cons_of_mem _ member)

/-- What an execution of the first machine ends in is related to what the second one ends in. -/
theorem run_ends (lockstep : Lockstep first second view fair R) {actions : List α} {s s' : σ} {t : τ}
    (related : R s t) (allFair : ∀ a ∈ actions, fair a) (ends : first.run Anything s actions = some s') :
    ∃ t', second.run Anything t (actions.flatMap fun a => (view a).toList) = some t' ∧ R s' t' := by
  have both := lockstep.run actions related allFair
  rw [ends] at both
  generalize second.run Anything t (actions.flatMap fun a => (view a).toList) = other at both ⊢
  cases both with
  | some related' => exact ⟨_, rfl, related'⟩

/-- And the other way around: where an execution of the second machine ends, one of the first does. -/
theorem run_mirrors (lockstep : Lockstep first second view fair R) {actions : List α} {s : σ} {t t' : τ}
    (related : R s t) (allFair : ∀ a ∈ actions, fair a)
    (ends : second.run Anything t (actions.flatMap fun a => (view a).toList) = some t') :
    ∃ s', first.run Anything s actions = some s' ∧ R s' t' := by
  have both := lockstep.run actions related allFair
  rw [ends] at both
  generalize first.run Anything s actions = other at both ⊢
  cases both with
  | some related' => exact ⟨_, rfl, related'⟩

/-- **What the first machine reaches** is related to something that the second one reaches. -/
theorem reach (lockstep : Lockstep first second view fair R)
    (starts : ∀ s, first.initial s → ∃ t, second.initial t ∧ R s t) {s : σ}
    (reached : Reach first (fun _ a => fair a) s) : ∃ t, Reach second Anything t ∧ R s t := by
  induction reached with
  | start initial =>
    obtain ⟨t, initial', related⟩ := starts _ initial
    exact ⟨t, .start initial', related⟩
  | @next s s' a _ isFair moves ih =>
    obtain ⟨t, reached', related⟩ := ih
    obtain ⟨t', moved, related'⟩ := lockstep.next related isFair moves
    refine ⟨t', ?_, related'⟩
    cases sees : view a with
    | none =>
      rw [sees] at moved
      rwa [← Option.some.inj moved]
    | some b =>
      rw [sees] at moved
      exact reached'.next trivial moved

end Lockstep

end Machines
