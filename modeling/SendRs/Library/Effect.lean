/-
**State-and-error programs and their rules of pre- and postconditions.**

A program reads and changes a state and may stop with an error; the state it has reached by then
stays. `Triple before prog after failed` says what holds when it stops either way:

* `Triple.bind`, `Triple.pure`, `Triple.throw`, `Triple.update`: one rule for each way to build a
  program;
* `Triple.context` for an error that is wrapped, `Triple.attempt` for one that is caught,
  `Triple.zoom` for a program that works on one part of a larger state;
* `Triple.forM`: a loop over a list, with an invariant indexed by the number of elements done, and
  `Triple.forM_range` for a loop over numbers; `Triple.mapM`: a loop that collects one related result for each element.

A triple whose `failed` is `Never` says that the program succeeds.
-/

import Mathlib.Data.List.Basic

namespace Effect

/-- A program over the states `σ` that returns an `α` or stops with an `ε`. -/
abbrev Prog (ε σ α : Type) := EStateM ε σ α

variable {ε σ τ α β : Type}

/-- Run a program on one part of a larger state. -/
def zoom (view : τ → σ) (put : σ → τ → τ) (prog : Prog ε σ α) : Prog ε τ α := fun t =>
  match prog (view t) with
  | .ok a s => .ok a (put s t)
  | .error e s => .error e (put s t)

/-- Wrap the error of a program. -/
def context (wrap : ε → ε) (prog : Prog ε σ α) : Prog ε σ α := fun s =>
  match prog s with
  | .ok a s' => .ok a s'
  | .error e s' => .error (wrap e) s'

/-- Catch the error of a program, keeping the state it has reached. -/
def attempt (prog : Prog ε σ α) : Prog ε σ (Except ε α) := fun s =>
  match prog s with
  | .ok a s' => .ok (.ok a) s'
  | .error e s' => .ok (.error e) s'

/-- Change the state. -/
def update (f : σ → σ) : Prog ε σ Unit := fun s => .ok () (f s)

/-- Look at the state. -/
def observe (f : σ → α) : Prog ε σ α := fun s => .ok (f s) s

/-- Catching an error within a part of the state is catching it. -/
theorem zoom_attempt (view : τ → σ) (put : σ → τ → τ) (prog : Prog ε σ α) :
    zoom view put (attempt prog) = attempt (zoom view put prog) := by
  funext t
  simp only [zoom, attempt]
  cases prog (view t) with
  | ok a s => rfl
  | error e s => rfl

/-- From `before`, the program ends in `after` or stops in `failed`. -/
def Triple (before : σ → Prop) (prog : Prog ε σ α) (after : α → σ → Prop)
    (failed : ε → σ → Prop) : Prop :=
  ∀ s, before s → match prog s with
    | .ok a s' => after a s'
    | .error e s' => failed e s'

/-- The error postcondition of a program that cannot fail. -/
def Never : ε → σ → Prop := fun _ _ => False

/-- The program keeps a property of the state, whether it returns or fails. -/
abbrev Keeps (inv : σ → Prop) (prog : Prog ε σ α) : Prop :=
  Triple inv prog (fun _ => inv) (fun _ => inv)

/-- A program goes on where its first part has returned. -/
theorem bind_of_ok {prog : Prog ε σ α} {rest : α → Prog ε σ β} {s s' : σ} {a : α}
    (run : prog s = .ok a s') : (prog >>= rest) s = rest a s' := by
  show EStateM.bind prog rest s = _
  rw [EStateM.bind, run]

/-- A program stops where its first part has failed. -/
theorem bind_of_error {prog : Prog ε σ α} {rest : α → Prog ε σ β} {s s' : σ} {e : ε}
    (run : prog s = .error e s') : (prog >>= rest) s = .error e s' := by
  show EStateM.bind prog rest s = _
  rw [EStateM.bind, run]

/-- What a program returns, if it does. -/
def returned (prog : Prog ε σ α) (s : σ) : Option α :=
  match prog s with
  | .ok a _ => some a
  | .error _ _ => none

theorem ok_of_returned {prog : Prog ε σ α} {s : σ} {a : α} (returns : returned prog s = some a) :
    ∃ s', prog s = .ok a s' := by
  unfold returned at returns
  cases run : prog s with
  | ok b s' =>
    rw [run] at returns
    exact ⟨s', by rw [Option.some.inj returns]⟩
  | error e s' =>
    rw [run] at returns
    cases returns

/-- What a program returns is known when it is known where it returns and where it fails. -/
theorem returned_eq {prog : Prog ε σ α} {s : σ} {answer : Option α}
    (outcome : match prog s with
      | .ok a _ => answer = some a
      | .error _ _ => answer = none) : returned prog s = answer := by
  unfold returned
  cases run : prog s with
  | ok a s' =>
    rw [run] at outcome
    exact outcome.symm
  | error e s' =>
    rw [run] at outcome
    exact outcome.symm

/-- The program, with a look at the state it has reached. -/
def seeing (prog : Prog ε σ α) (view : σ → β) : Prog ε σ (α × β) := do
  let a ← prog
  let b ← observe view
  pure (a, b)

theorem ok_of_returned_seeing {prog : Prog ε σ α} {view : σ → β} {s : σ} {a : α} {b : β}
    (returns : returned (seeing prog view) s = some (a, b)) :
    ∃ s', prog s = .ok a s' ∧ view s' = b := by
  obtain ⟨s', run⟩ := ok_of_returned returns
  change EStateM.bind prog _ s = _ at run
  unfold EStateM.bind at run
  cases outcome : prog s with
  | ok a' t =>
    rw [outcome] at run
    cases run
    exact ⟨_, rfl, rfl⟩
  | error e t =>
    rw [outcome] at run
    cases run

namespace Triple

variable {before before' : σ → Prop} {after after' : α → σ → Prop} {failed failed' : ε → σ → Prop}
  {prog : Prog ε σ α}

/-! ### Reading a triple -/

theorem of_ok (triple : Triple before prog after failed) {s s' : σ} {a : α} (start : before s)
    (run : prog s = .ok a s') : after a s' := by
  have outcome := triple s start
  rw [run] at outcome
  exact outcome

/-- A program that cannot fail returns. -/
theorem returns (triple : Triple before prog after Never) {s : σ} (start : before s) :
    ∃ a s', prog s = .ok a s' ∧ after a s' := by
  have outcome := triple s start
  cases run : prog s with
  | ok a s' =>
    rw [run] at outcome
    exact ⟨a, s', rfl, outcome⟩
  | error e s' =>
    rw [run] at outcome
    exact outcome.elim

/-! ### Consequence -/

theorem conseq (triple : Triple before prog after failed) (weaker : ∀ s, before' s → before s)
    (stronger : ∀ a s, after a s → after' a s) (worse : ∀ e s, failed e s → failed' e s) :
    Triple before' prog after' failed' := by
  intro s start
  have outcome := triple s (weaker s start)
  cases run : prog s with
  | ok a s' =>
    rw [run] at outcome
    exact stronger a s' outcome
  | error e s' =>
    rw [run] at outcome
    exact worse e s' outcome

theorem pre (triple : Triple before prog after failed) (weaker : ∀ s, before' s → before s) :
    Triple before' prog after failed :=
  triple.conseq weaker (fun _ _ holds => holds) (fun _ _ holds => holds)

theorem post (triple : Triple before prog after failed)
    (stronger : ∀ a s, after a s → after' a s) : Triple before prog after' failed :=
  triple.conseq (fun _ holds => holds) stronger (fun _ _ holds => holds)

/-- What holds after an error may be forgotten. -/
theorem onSuccess (triple : Triple before prog after failed) :
    Triple before prog after fun _ _ => True :=
  triple.conseq (fun _ holds => holds) (fun _ _ holds => holds) fun _ _ _ => trivial

/-- Nothing is said. -/
theorem anything (prog : Prog ε σ α) :
    Triple before prog (fun _ _ => True) fun _ _ => True := by
  intro s _
  cases prog s with
  | ok a s' => trivial
  | error e s' => trivial

/-- A fact that does not mention the state may be used to prove the triple. -/
theorem given {fact : Prop} (triple : fact → Triple before prog after failed) :
    Triple (fun s => fact ∧ before s) prog after failed :=
  fun s start => triple start.1 s start.2

/-- A triple proved for each value of a parameter holds for a precondition that names one. -/
theorem exists_pre {ι : Sort*} {P : ι → σ → Prop}
    (triple : ∀ i, Triple (P i) prog after failed) :
    Triple (fun s => ∃ i, P i s) prog after failed :=
  fun s start => start.elim fun i holds => triple i s holds

/-! ### One rule for each way to build a program -/

theorem pure {a : α} (holds : ∀ s, before s → after a s) :
    Triple before (Pure.pure a : Prog ε σ α) after failed := holds

theorem throw {e : ε} (holds : ∀ s, before s → failed e s) :
    Triple before (MonadExcept.throw e : Prog ε σ α) after failed := holds

theorem bind {M : α → σ → Prop} {rest : α → Prog ε σ β} {final : β → σ → Prop}
    (first : Triple before prog M failed)
    (second : ∀ a, Triple (M a) (rest a) final failed) :
    Triple before (prog >>= rest) final failed := by
  intro s start
  have outcome := first s start
  change match EStateM.bind prog rest s with
    | .ok b s' => final b s'
    | .error e s' => failed e s'
  unfold EStateM.bind
  cases run : prog s with
  | ok a s' =>
    rw [run] at outcome
    exact second a s' outcome
  | error e s' =>
    rw [run] at outcome
    exact outcome

theorem update {f : σ → σ} {after : Unit → σ → Prop} (holds : ∀ s, before s → after () (f s)) :
    Triple before (Effect.update f : Prog ε σ Unit) after failed := holds

theorem observe {f : σ → α} (holds : ∀ s, before s → after (f s) s) :
    Triple before (Effect.observe f : Prog ε σ α) after failed := holds

theorem ofExcept {result : Except ε α} (ok : ∀ a, result = .ok a → ∀ s, before s → after a s)
    (error : ∀ e, result = .error e → ∀ s, before s → failed e s) :
    Triple before (MonadExcept.ofExcept result : Prog ε σ α) after failed := by
  cases result with
  | ok a => exact Triple.pure (ok a rfl)
  | error e => exact Triple.throw (error e rfl)

theorem context {wrap : ε → ε} (triple : Triple before prog after fun e => failed (wrap e)) :
    Triple before (Effect.context wrap prog) after failed := by
  intro s start
  have outcome := triple s start
  unfold Effect.context
  cases run : prog s with
  | ok a s' =>
    rw [run] at outcome
    exact outcome
  | error e s' =>
    rw [run] at outcome
    exact outcome

theorem attempt {after : Except ε α → σ → Prop}
    (triple : Triple before prog (fun a => after (.ok a)) fun e => after (.error e)) :
    Triple before (Effect.attempt prog) after failed := by
  intro s start
  have outcome := triple s start
  unfold Effect.attempt
  cases run : prog s with
  | ok a s' =>
    rw [run] at outcome
    exact outcome
  | error e s' =>
    rw [run] at outcome
    exact outcome

/-- There is nothing to catch when the program cannot fail. -/
theorem attempt_never (triple : Triple before prog after Never) :
    Triple before (Effect.attempt prog) (fun outcome s => ∃ a, outcome = .ok a ∧ after a s)
      failed' :=
  Triple.attempt (triple.conseq (fun _ holds => holds) (fun a _ holds => ⟨a, rfl, holds⟩)
    fun _ _ impossible => impossible.elim)

/-- A program on a part of the state, framed: the triple of the part is stated relative to the
whole state `t` the program was started in. -/
theorem zoom {view : τ → σ} {put : σ → τ → τ} {before : τ → Prop} {after : α → τ → Prop}
    {failed : ε → τ → Prop}
    (triple : ∀ t, before t → Triple (fun s => s = view t) prog (fun a s => after a (put s t))
      fun e s => failed e (put s t)) :
    Triple before (Effect.zoom view put prog) after failed := by
  intro t start
  have outcome := triple t start (view t) rfl
  unfold Effect.zoom
  cases run : prog (view t) with
  | ok a s' =>
    rw [run] at outcome
    exact outcome
  | error e s' =>
    rw [run] at outcome
    exact outcome

theorem ite {c : Prop} [Decidable c] {other : Prog ε σ α}
    (yes : c → Triple before prog after failed) (no : ¬ c → Triple before other after failed) :
    Triple before (if c then prog else other) after failed := by
  split
  · next holds => exact yes holds
  · next fails => exact no fails

/-! ### Loops over a list -/

/-- `inv i` holds when `i` elements are done. -/
theorem forM {xs : List α} {body : α → Prog ε σ PUnit} (inv : Nat → σ → Prop)
    (step : ∀ i (inside : i < xs.length),
      Triple (inv i) (body xs[i]) (fun _ => inv (i + 1)) failed) :
    Triple (inv 0) (xs.forM body) (fun _ => inv xs.length) failed := by
  induction xs generalizing inv with
  | nil => exact Triple.pure fun _ start => start
  | cons x xs ih =>
    refine Triple.bind (step 0 (Nat.zero_lt_succ _)) fun _ => ?_
    exact ih (fun i => inv (i + 1)) fun i inside => step (i + 1) (Nat.succ_lt_succ inside)

/-- A loop over the numbers below `n`. -/
theorem forM_range {n : Nat} {body : Nat → Prog ε σ PUnit} (inv : Nat → σ → Prop)
    (step : ∀ i < n, Triple (inv i) (body i) (fun _ => inv (i + 1)) failed) :
    Triple (inv 0) ((List.range n).forM body) (fun _ => inv n) failed := by
  have loop : Triple (inv 0) ((List.range n).forM body) (fun _ => inv (List.range n).length) failed :=
    Triple.forM inv fun i inside => by
      rw [List.getElem_range]
      exact step i (List.length_range (n := n) ▸ inside)
  rwa [List.length_range] at loop

/-- Each result is related to the element it was computed from. -/
theorem mapM {xs : List α} {body : α → Prog ε σ β} {inv : σ → Prop} (related : α → β → Prop)
    (step : ∀ x ∈ xs, Triple inv (body x) (fun b s => related x b ∧ inv s) failed) :
    Triple inv (xs.mapM body) (fun out s => List.Forall₂ related xs out ∧ inv s) failed := by
  induction xs with
  | nil =>
    rw [List.mapM_nil]
    exact Triple.pure fun s start => ⟨.nil, start⟩
  | cons x xs ih =>
    rw [List.mapM_cons]
    refine Triple.bind (step x List.mem_cons_self) fun b => Triple.given fun head => ?_
    refine Triple.bind (ih fun y member => step y (List.mem_cons_of_mem _ member)) fun out => ?_
    exact Triple.given fun tail => Triple.pure fun s holds => ⟨.cons head tail, holds⟩

end Triple

end Effect
