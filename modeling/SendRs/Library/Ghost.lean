/-
**Programs that keep a ghost.**

A traced program works on a larger state: the state of a plain program, and a ghost that nothing the
program does depends on. `Erases` says that it is the plain program but for the ghost. It has one
rule for each way to build a program, so a traced program is checked against the plain one line by
line: `Erases.lift` for the parts without a ghost, `Erases.note` for the steps that only write to
the ghost. What a traced run leaves in the ghost then says something about the plain run
(`Erases.of_ends`).
-/

import SendRs.Library.Effect

namespace Effect

variable {ε σ τ α β γ : Type}

/-- A plain state and a ghost. -/
structure Traced (σ γ : Type) where
  run : σ
  ghost : γ

/-- A plain program, as a part of a traced one. -/
def lift (prog : Prog ε σ α) : Prog ε (Traced σ γ) α :=
  zoom Traced.run (fun run t => { t with run }) prog

/-- Write to the ghost, which may look at the plain state. -/
def note (f : σ → γ → γ) : Prog ε (Traced σ γ) Unit :=
  update fun t => { t with ghost := f t.run t.ghost }

/-- The traced program is the plain one but for the ghost. -/
def Erases (traced : Prog ε (Traced σ γ) α) (plain : Prog ε σ α) : Prop :=
  ∀ t, match plain t.run with
    | .ok a s => ∃ ghost, traced t = .ok a ⟨s, ghost⟩
    | .error e s => ∃ ghost, traced t = .error e ⟨s, ghost⟩

/-- The program stops in the state, with or without an error. -/
def Ends (prog : Prog ε σ α) (s s' : σ) : Prop :=
  (∃ a, prog s = .ok a s') ∨ ∃ e, prog s = .error e s'

/-- The state in which a program stops. -/
def final (prog : Prog ε σ α) (s : σ) : σ :=
  match prog s with
  | .ok _ s' => s'
  | .error _ s' => s'

theorem ends_final (prog : Prog ε σ α) (s : σ) : Ends prog s (final prog s) := by
  unfold Ends final
  cases prog s with
  | ok a s' => exact Or.inl ⟨a, rfl⟩
  | error e s' => exact Or.inr ⟨e, rfl⟩

/-- A program stops where its first part has failed, or where the rest of it stops. -/
theorem Ends.of_bind {prog : Prog ε σ α} {rest : α → Prog ε σ β} {s s' : σ}
    (ends : Ends (prog >>= rest) s s') :
    (∃ e, prog s = .error e s') ∨ ∃ a between, prog s = .ok a between ∧ Ends (rest a) between s' := by
  cases run : prog s with
  | ok a between =>
    have onwards : (prog >>= rest) s = rest a between := bind_of_ok run
    unfold Ends at ends
    rw [onwards] at ends
    exact Or.inr ⟨a, between, rfl, ends⟩
  | error e between =>
    have stops : (prog >>= rest) s = .error e between := bind_of_error run
    unfold Ends at ends
    rw [stops] at ends
    rcases ends with ⟨b, impossible⟩ | ⟨e', same⟩
    · cases impossible
    · cases same
      exact Or.inl ⟨e, rfl⟩

/-- Wrapping an error changes nothing about where a program stops. -/
theorem Ends.of_context {wrap : ε → ε} {prog : Prog ε σ α} {s s' : σ}
    (ends : Ends (context wrap prog) s s') : Ends prog s s' := by
  unfold Ends context at ends
  unfold Ends
  cases run : prog s with
  | ok a t =>
    rw [run] at ends
    rcases ends with ⟨a', same⟩ | ⟨e, impossible⟩
    · cases same
      exact Or.inl ⟨a, rfl⟩
    · cases impossible
  | error e t =>
    rw [run] at ends
    rcases ends with ⟨a, impossible⟩ | ⟨e', same⟩
    · cases impossible
    · cases same
      exact Or.inr ⟨e, rfl⟩

/-- Neither does an answer. -/
theorem Ends.of_answer {prog : Prog ε σ α} {answer : α → β} {s s' : σ}
    (ends : Ends (prog >>= fun a => pure (answer a)) s s') : Ends prog s s' := by
  rcases ends.of_bind with ⟨e, run⟩ | ⟨a, between, run, stops⟩
  · exact Or.inr ⟨e, run⟩
  · rcases stops with ⟨b, same⟩ | ⟨e, impossible⟩
    · cases same
      exact Or.inl ⟨a, run⟩
    · cases impossible

namespace Erases

variable {traced : Prog ε (Traced σ γ) α} {plain : Prog ε σ α}

theorem lift (plain : Prog ε σ α) : Erases (γ := γ) (Effect.lift plain) plain := by
  intro t
  unfold Effect.lift zoom
  cases run : plain t.run with
  | ok a s => exact ⟨t.ghost, rfl⟩
  | error e s => exact ⟨t.ghost, rfl⟩

theorem pure (a : α) :
    Erases (Pure.pure a : Prog ε (Traced σ γ) α) (Pure.pure a : Prog ε σ α) :=
  fun t => ⟨t.ghost, rfl⟩

theorem throw (e : ε) :
    Erases (MonadExcept.throw e : Prog ε (Traced σ γ) α) (MonadExcept.throw e : Prog ε σ α) :=
  fun t => ⟨t.ghost, rfl⟩

theorem observe (f : σ → α) :
    Erases (Effect.observe fun t => f t.run : Prog ε (Traced σ γ) α)
      (Effect.observe f : Prog ε σ α) :=
  fun t => ⟨t.ghost, rfl⟩

theorem bind {rest : α → Prog ε (Traced σ γ) β} {rest' : α → Prog ε σ β}
    (first : Erases traced plain) (second : ∀ a, Erases (rest a) (rest' a)) :
    Erases (traced >>= rest) (plain >>= rest') := by
  intro t
  have one := first t
  cases run : plain t.run with
  | ok a s =>
    rw [run] at one
    obtain ⟨ghost, run'⟩ := one
    rw [bind_of_ok run, bind_of_ok run']
    exact second a ⟨s, ghost⟩
  | error e s =>
    rw [run] at one
    obtain ⟨ghost, run'⟩ := one
    rw [bind_of_error run, bind_of_error run']
    exact ⟨ghost, rfl⟩

/-- A step that only writes to the ghost does nothing to the plain program. -/
theorem note {f : σ → γ → γ} {rest : Unit → Prog ε (Traced σ γ) β} {plain : Prog ε σ β}
    (erases : Erases (rest ()) plain) : Erases (Effect.note f >>= rest) plain :=
  fun t => erases { t with ghost := f t.run t.ghost }

/-- The same for a last step. -/
theorem noted {f : σ → γ → γ} {traced : Prog ε (Traced σ γ) Unit} {plain : Prog ε σ Unit}
    (erases : Erases traced plain) : Erases (traced >>= fun _ => Effect.note f) plain := by
  intro t
  have same := erases t
  cases run : plain t.run with
  | ok a s =>
    rw [run] at same
    obtain ⟨ghost, run'⟩ := same
    exact ⟨f s ghost, bind_of_ok run'⟩
  | error e s =>
    rw [run] at same
    obtain ⟨ghost, run'⟩ := same
    exact ⟨ghost, bind_of_error run'⟩

theorem ite {c : Prop} [Decidable c] {other : Prog ε (Traced σ γ) α} {other' : Prog ε σ α}
    (yes : Erases traced plain) (no : Erases other other') :
    Erases (if c then traced else other) (if c then plain else other') := by
  split
  · exact yes
  · exact no

theorem forM {xs : List β} {body : β → Prog ε (Traced σ γ) PUnit} {body' : β → Prog ε σ PUnit}
    (each : ∀ x, Erases (body x) (body' x)) : Erases (xs.forM body) (xs.forM body') := by
  induction xs with
  | nil => exact Erases.pure _
  | cons x xs ih => exact Erases.bind (each x) fun _ => ih

/-! ### Reading an erasure -/

/-- Where the plain program stops, the traced one stops, with some ghost. -/
theorem of_ends (erases : Erases traced plain) {s s' : σ} (ends : Ends plain s s') (ghost : γ) :
    Ends traced ⟨s, ghost⟩ (final traced ⟨s, ghost⟩) ∧ (final traced ⟨s, ghost⟩).run = s' := by
  have same := erases ⟨s, ghost⟩
  unfold final
  rcases ends with ⟨a, run⟩ | ⟨e, run⟩
  · rw [run] at same
    obtain ⟨ghost', run'⟩ := same
    rw [run']
    exact ⟨Or.inl ⟨a, run'⟩, rfl⟩
  · rw [run] at same
    obtain ⟨ghost', run'⟩ := same
    rw [run']
    exact ⟨Or.inr ⟨e, run'⟩, rfl⟩

end Erases

/-- What a plain program does, and what is said of the ghost meanwhile. -/
theorem Triple.lift {before : σ → Prop} {plain : Prog ε σ α} {after : α → σ → Prop}
    {failed : ε → σ → Prop} (triple : Triple before plain after failed) (aside : γ → Prop) :
    Triple (fun t : Traced σ γ => before t.run ∧ aside t.ghost) (Effect.lift plain)
      (fun a t => after a t.run ∧ aside t.ghost) fun e t => failed e t.run ∧ aside t.ghost :=
  Triple.zoom fun _ ⟨start, said⟩ => triple.conseq (fun _ here => here ▸ start)
    (fun _ _ holds => ⟨holds, said⟩) fun _ _ holds => ⟨holds, said⟩

/-- What holds after a program, whether it returns or fails, holds where it stops. -/
theorem Triple.of_ends {before : σ → Prop} {prog : Prog ε σ α} {after : σ → Prop}
    (triple : Triple before prog (fun _ => after) fun _ => after) {s s' : σ} (start : before s)
    (ends : Ends prog s s') : after s' := by
  have outcome := triple s start
  rcases ends with ⟨a, run⟩ | ⟨e, run⟩
  · rw [run] at outcome
    exact outcome
  · rw [run] at outcome
    exact outcome

end Effect
