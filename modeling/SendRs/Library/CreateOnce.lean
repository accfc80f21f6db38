/-
**Processes that create a shared value if it is not there.**

A call tests whether the slot is filled; it loads the value that is there, or it generates one and
saves it. Between these steps any steps of other calls may be taken, and a call may fail at any of
them; a save that fails may leave the slot torn.

* `agreed_of_timely`: as long as no call saves after another one has returned, all calls return the
  same value, which is the one in the slot;
* `agreed_iff`: where generated values differ, this is also necessary;
* `timely_of_apart`: it is enough that no call tests the slot while another one is between a test
  that found nothing and its save.
-/

import Mathlib.Data.List.Induction
import Mathlib.Logic.Function.Basic
import SendRs.Library.Machine

namespace CreateOnce

open Machines

variable {ι β γ : Type}

/-- What is in the slot. -/
inductive Slot (β : Type) where
  | empty
  | torn
  | holds (value : β)
deriving DecidableEq

/-- How far a call has come. -/
inductive Stage (β : Type) where
  | idle
  | found
  | missing
  | generated (value : β)
  | returned (value : β)
  | failed
deriving DecidableEq

/-- The slot and the calls. -/
structure Shared (ι β : Type) where
  slot : Slot β
  stage : ι → Stage β

/-- A step of a call. A test whose own call fails finds nothing. -/
inductive Move (ι : Type) where
  | test (i : ι)
  | blindTest (i : ι)
  | load (i : ι)
  | generate (i : ι)
  | save (i : ι)
  | tear (i : ι)
  | fail (i : ι)
deriving DecidableEq

/-- A value that a call has returned, or that is in the slot. -/
def Known (s : Shared ι β) (w : β) : Prop := (∃ j, s.stage j = .returned w) ∨ s.slot = .holds w

/-- All calls that have returned have the same value, and so has the slot unless it is torn. -/
def Agreed (key : β → γ) (s : Shared ι β) : Prop :=
  ∀ i v, s.stage i = .returned v → ∀ w, Known s w → key w = key v

/-- The call has found nothing and is about to save. -/
def Stage.Pending : Stage β → Prop
  | .missing => True
  | .generated _ => True
  | _ => False

/-- The slot after a test. -/
def Slot.answer : Slot β → Stage β
  | .empty => .missing
  | _ => .found

variable [DecidableEq ι] (fresh : ι → β)

/-- One step. -/
def step (s : Shared ι β) : Move ι → Option (Shared ι β)
  | .test i =>
    match s.stage i with
    | .idle => some { s with stage := Function.update s.stage i s.slot.answer }
    | _ => none
  | .blindTest i =>
    match s.stage i with
    | .idle => some { s with stage := Function.update s.stage i .missing }
    | _ => none
  | .load i =>
    match s.stage i, s.slot with
    | .found, .holds value => some { s with stage := Function.update s.stage i (.returned value) }
    | .found, _ => some { s with stage := Function.update s.stage i .failed }
    | _, _ => none
  | .generate i =>
    match s.stage i with
    | .missing => some { s with stage := Function.update s.stage i (.generated (fresh i)) }
    | _ => none
  | .save i =>
    match s.stage i with
    | .generated value =>
      some { slot := .holds value, stage := Function.update s.stage i (.returned value) }
    | _ => none
  | .tear i =>
    match s.stage i with
    | .generated _ => some { slot := .torn, stage := Function.update s.stage i .failed }
    | _ => none
  | .fail i =>
    match s.stage i with
    | .returned _ => none
    | _ => some { s with stage := Function.update s.stage i .failed }

/-- No call has begun. -/
def start (slot : Slot β) : Shared ι β := ⟨slot, fun _ => .idle⟩

/-- Any number of calls, on a slot. -/
def machine (slot : Slot β) : Machine (Shared ι β) (Move ι) := ⟨(· = start slot), step fresh⟩

/-- No call saves after another one has returned. -/
def Timely (s : Shared ι β) (a : Move ι) : Prop :=
  ∀ i, a = .save i → ∀ j v, s.stage j ≠ .returned v

/-- No call tests the slot while another one is between a test that found nothing and its save, and
no test fails. -/
def Apart (s : Shared ι β) : Move ι → Prop
  | .test _ => ∀ j, ¬ (s.stage j).Pending
  | .blindTest _ => False
  | _ => True

/-- Some call has saved after another one has returned. -/
def LateSave (slot : Slot β) (moves : List (Move ι)) : Prop :=
  ∃ before i rest s, moves = before ++ .save i :: rest ∧
    (machine fresh slot).run Anything (start slot) before = some s ∧ ∃ j v, s.stage j = .returned v

/-- The generated values differ from each other and from the one that is there. -/
structure Distinct (key : β → γ) (slot : Slot β) (fresh : ι → β) : Prop where
  injective : Function.Injective fun i => key (fresh i)
  new : ∀ v i, slot = .holds v → key (fresh i) ≠ key v

/-! ### What one step can do -/

section Steps

/-- The steps: which call takes one, what it does next, and what is in the slot then. -/
inductive Steps (s : Shared ι β) : Move ι → ι → Stage β → Slot β → Prop
  | absent {i : ι} : s.stage i = .idle → s.slot = .empty → Steps s (.test i) i .missing s.slot
  | present {i : ι} : s.stage i = .idle → s.slot ≠ .empty → Steps s (.test i) i .found s.slot
  | blind {i : ι} : s.stage i = .idle → Steps s (.blindTest i) i .missing s.slot
  | loaded {i : ι} {v : β} : s.stage i = .found → s.slot = .holds v →
      Steps s (.load i) i (.returned v) s.slot
  | unloadable {i : ι} : s.stage i = .found → Steps s (.load i) i .failed s.slot
  | generated {i : ι} : s.stage i = .missing → Steps s (.generate i) i (.generated (fresh i)) s.slot
  | saved {i : ι} {v : β} : s.stage i = .generated v → Steps s (.save i) i (.returned v) (.holds v)
  | torn {i : ι} {v : β} : s.stage i = .generated v → Steps s (.tear i) i .failed .torn
  | failed {i : ι} : (∀ v, s.stage i ≠ .returned v) → Steps s (.fail i) i .failed s.slot

variable {fresh} {s s' : Shared ι β} {a : Move ι} {i : ι} {v : β}

theorem step_cases (takes : step fresh s a = some s') :
    ∃ i next slot, Steps fresh s a i next slot ∧ s' = ⟨slot, Function.update s.stage i next⟩ := by
  cases a with
  | test i =>
    cases stage : s.stage i with
    | idle =>
      simp only [step, stage, Option.some.injEq] at takes
      cases slot : s.slot with
      | empty => exact ⟨i, _, _, .absent stage slot, by rw [← takes, slot]; rfl⟩
      | torn => exact ⟨i, _, _, .present stage (by simp [slot]), by rw [← takes, slot]; rfl⟩
      | holds value => exact ⟨i, _, _, .present stage (by simp [slot]), by rw [← takes, slot]; rfl⟩
    | _ => simp [step, stage] at takes
  | blindTest i =>
    cases stage : s.stage i with
    | idle =>
      simp only [step, stage, Option.some.injEq] at takes
      exact ⟨i, _, _, .blind stage, takes.symm⟩
    | _ => simp [step, stage] at takes
  | load i =>
    cases stage : s.stage i with
    | found =>
      cases slot : s.slot with
      | holds value =>
        simp only [step, stage, slot, Option.some.injEq] at takes
        exact ⟨i, _, _, .loaded stage slot, by rw [← takes, slot]⟩
      | empty =>
        simp only [step, stage, slot, Option.some.injEq] at takes
        exact ⟨i, _, _, .unloadable stage, by rw [← takes, slot]⟩
      | torn =>
        simp only [step, stage, slot, Option.some.injEq] at takes
        exact ⟨i, _, _, .unloadable stage, by rw [← takes, slot]⟩
    | _ => simp [step, stage] at takes
  | generate i =>
    cases stage : s.stage i with
    | missing =>
      simp only [step, stage, Option.some.injEq] at takes
      exact ⟨i, _, _, .generated stage, takes.symm⟩
    | _ => simp [step, stage] at takes
  | save i =>
    cases stage : s.stage i with
    | generated value =>
      simp only [step, stage, Option.some.injEq] at takes
      exact ⟨i, _, _, .saved stage, takes.symm⟩
    | _ => simp [step, stage] at takes
  | tear i =>
    cases stage : s.stage i with
    | generated value =>
      simp only [step, stage, Option.some.injEq] at takes
      exact ⟨i, _, _, .torn stage, takes.symm⟩
    | _ => simp [step, stage] at takes
  | fail i =>
    cases stage : s.stage i with
    | returned value => simp [step, stage] at takes
    | _ =>
      simp only [step, stage, Option.some.injEq] at takes
      exact ⟨i, _, _, .failed (by simp [stage]), takes.symm⟩

/-- What has been returned stays. -/
theorem returned_keeps (takes : step fresh s a = some s') (before : s.stage i = .returned v) :
    s'.stage i = .returned v := by
  obtain ⟨j, next, slot, steps, rfl⟩ := step_cases takes
  have other : i ≠ j := by
    intro same
    subst same
    cases steps with
    | failed free => exact free v before
    | _ => simp_all
  show Function.update s.stage j next i = _
  rw [Function.update_of_ne other, before]

/-- A call returns what it has loaded or saved. -/
theorem returned_step (takes : step fresh s a = some s') (now : s'.stage i = .returned v) :
    s.stage i = .returned v ∨ (a = .load i ∧ s.slot = .holds v) ∨
      (a = .save i ∧ s.stage i = .generated v) := by
  obtain ⟨j, next, slot, steps, rfl⟩ := step_cases takes
  by_cases same : i = j
  · subst same
    simp only [Function.update_self] at now
    cases steps with
    | loaded _ holds => exact Or.inr (Or.inl ⟨rfl, Stage.returned.inj now ▸ holds⟩)
    | saved generated => exact Or.inr (Or.inr ⟨rfl, Stage.returned.inj now ▸ generated⟩)
    | _ => cases now
  · simp only [Function.update_of_ne same] at now
    exact Or.inl now

/-- The slot holds what it held, or what was saved. -/
theorem slot_step (takes : step fresh s a = some s') (now : s'.slot = .holds v) :
    (s.slot = .holds v ∧ ∀ i, a ≠ .save i) ∨
      ∃ i, a = .save i ∧ s.stage i = .generated v ∧ s'.stage i = .returned v := by
  obtain ⟨j, next, slot, steps, rfl⟩ := step_cases takes
  cases steps with
  | saved generated =>
    cases now
    exact Or.inr ⟨j, rfl, generated, Function.update_self ..⟩
  | torn _ => cases now
  | _ => exact Or.inl ⟨now, fun i isSave => by cases isSave⟩

/-- A call saves what it has generated. -/
theorem generated_step (takes : step fresh s a = some s') (now : s'.stage i = .generated v) :
    s.stage i = .generated v ∨ v = fresh i := by
  obtain ⟨j, next, slot, steps, rfl⟩ := step_cases takes
  by_cases same : i = j
  · subst same
    simp only [Function.update_self] at now
    cases steps with
    | generated _ => exact Or.inr (Stage.generated.inj now).symm
    | _ => cases now
  · simp only [Function.update_of_ne same] at now
    exact Or.inl now

end Steps

/-! ### Every run -/

section Runs

variable {fresh} {slot : Slot β} {s s' : Shared ι β} {key : β → γ}

/-- **As long as no call saves after another one has returned**, all have the same value. -/
theorem agreed_of_timely (reach : Reach (machine fresh slot) Timely s) : Agreed id s := by
  refine Reach.invariant (P := Agreed id) ?_ ?_ reach
  · rintro _ rfl i v returned
    cases returned
  · intro s a s' agreed timely (takes : step fresh s a = some s') i v returned w known
    rcases returned_step takes returned with before | ⟨rfl, holds⟩ | ⟨rfl, generated⟩
    · -- nothing is saved now
      rcases known with ⟨j, now⟩ | now
      · rcases returned_step takes now with earlier | ⟨_, holds⟩ | ⟨isSave, _⟩
        · exact agreed i v before w (Or.inl ⟨j, earlier⟩)
        · exact agreed i v before w (Or.inr holds)
        · exact absurd before (timely j isSave i v)
      · rcases slot_step takes now with ⟨holds, _⟩ | ⟨j, isSave, _⟩
        · exact agreed i v before w (Or.inr holds)
        · exact absurd before (timely j isSave i v)
    · rcases known with ⟨j, now⟩ | now
      · rcases returned_step takes now with earlier | ⟨_, same⟩ | ⟨isSave, _⟩
        · exact (agreed j w earlier v (Or.inr holds)).symm
        · exact Slot.holds.inj (same.symm.trans holds)
        · cases isSave
      · rcases slot_step takes now with ⟨same, _⟩ | ⟨j, isSave, _⟩
        · exact Slot.holds.inj (same.symm.trans holds)
        · cases isSave
    · have saves : ∀ j, Move.save i = .save j → s.stage j = .generated w → w = v := by
        intro j isSave other
        cases isSave
        exact Stage.generated.inj (other.symm.trans generated)
      rcases known with ⟨j, now⟩ | now
      · rcases returned_step takes now with earlier | ⟨isLoad, _⟩ | ⟨isSave, other⟩
        · exact absurd earlier (timely i rfl j w)
        · cases isLoad
        · exact saves j isSave other
      · rcases slot_step takes now with ⟨_, noSave⟩ | ⟨j, isSave, other, _⟩
        · exact absurd rfl (noSave i)
        · exact saves j isSave other

/-- Where a value comes from: it was there at first, or a call that has returned it has generated
it. -/
def Origin (fresh : ι → β) (slot : Slot β) (s : Shared ι β) (v : β) : Prop :=
  slot = .holds v ∨ ∃ k, s.stage k = .returned v ∧ v = fresh k

theorem origin_of_reach {allowed : Shared ι β → Move ι → Prop}
    (reach : Reach (machine fresh slot) allowed s) :
    (∀ i v, s.stage i = .generated v → v = fresh i) ∧ ∀ v, Known s v → Origin fresh slot s v := by
  refine Reach.invariant (P := fun s => (∀ i v, s.stage i = .generated v → v = fresh i) ∧
    ∀ v, Known s v → Origin fresh slot s v) ?_ ?_ reach
  · rintro _ rfl
    refine ⟨fun i v generated => ?_, fun v known => ?_⟩
    · cases generated
    · rcases known with ⟨j, returned⟩ | holds
      · cases returned
      · exact Or.inl holds
  · intro s a s' ⟨generates, origin⟩ _ (takes : step fresh s a = some s')
    have keeps : ∀ v, Origin fresh slot s v → Origin fresh slot s' v := by
      rintro v (first | ⟨k, returned, isFresh⟩)
      · exact Or.inl first
      · exact Or.inr ⟨k, returned_keeps takes returned, isFresh⟩
    refine ⟨fun i v now => ?_, fun v known => ?_⟩
    · rcases generated_step takes now with before | isFresh
      · exact generates i v before
      · exact isFresh
    · rcases known with ⟨j, now⟩ | now
      · rcases returned_step takes now with before | ⟨_, holds⟩ | ⟨_, generated⟩
        · exact keeps v (origin v (Or.inl ⟨j, before⟩))
        · exact keeps v (origin v (Or.inr holds))
        · exact Or.inr ⟨j, now, generates j v generated⟩
      · rcases slot_step takes now with ⟨holds, _⟩ | ⟨j, _, generated, returned⟩
        · exact keeps v (origin v (Or.inr holds))
        · exact Or.inr ⟨j, returned, generates j v generated⟩

theorem returned_of_run {i : ι} {v : β} (moves : List (Move ι)) : ∀ {s s' : Shared ι β},
    s.stage i = .returned v → (machine fresh slot).run Anything s moves = some s' →
      s'.stage i = .returned v := by
  induction moves with
  | nil =>
    intro s s' returned ends
    rwa [← Option.some.inj ends]
  | cons a moves ih =>
    intro s s' returned ends
    rw [run_anything_cons, Option.bind_eq_some_iff] at ends
    obtain ⟨next, takes, ends⟩ := ends
    exact ih (returned_keeps takes returned) ends

/-- A run without a late save is one of timely steps. -/
theorem timely_of_run (moves : List (Move ι)) : ∀ {s : Shared ι β},
    (machine fresh slot).run Anything (start slot) moves = some s → ¬ LateSave fresh slot moves →
      Reach (machine fresh slot) Timely s := by
  induction moves using List.reverseRecOn with
  | nil =>
    intro s ends _
    exact Option.some.inj ends ▸ .start rfl
  | append_singleton moves a ih =>
    intro s ends early
    rw [run_anything_append, Option.bind_eq_some_iff] at ends
    obtain ⟨before, ran, last⟩ := ends
    rw [run_anything_cons, Option.bind_eq_some_iff] at last
    obtain ⟨s', takes, same⟩ := last
    cases same
    refine (ih ran ?_).next ?_ takes
    · rintro ⟨front, i, rest, middle, rfl, reached, late⟩
      exact early ⟨front, i, rest ++ [a], middle, by simp, reached, late⟩
    · rintro i rfl j v returned
      exact early ⟨moves, i, [], before, rfl, ran, j, v, returned⟩

/-- **All calls agree exactly when none saves after another one has returned**, where generated
values differ. -/
theorem agreed_iff (distinct : Distinct key slot fresh) (moves : List (Move ι))
    (ends : (machine fresh slot).run Anything (start slot) moves = some s) :
    Agreed key s ↔ ¬ LateSave fresh slot moves := by
  constructor
  · rintro agreed ⟨before, i, rest, middle, rfl, reached, j, v, returned⟩
    rw [run_anything_append, reached, Option.bind_some, run_anything_cons,
      Option.bind_eq_some_iff] at ends
    obtain ⟨next, takes, ends⟩ := ends
    have takes : step fresh middle (.save i) = some next := takes
    obtain ⟨generates, origin⟩ := origin_of_reach (reach_of_run before (.start rfl) reached)
    obtain ⟨k, stage, after, steps, isNext⟩ := step_cases takes
    cases steps with
    | @saved _ w generated =>
      have isFresh := generates i w generated
      have saved : next.stage i = .returned (fresh i) := by
        rw [isNext, isFresh]
        exact Function.update_self ..
      have equal : key v = key (fresh i) :=
        agreed i _ (returned_of_run rest saved ends) v
          (Or.inl ⟨j, returned_of_run rest (returned_keeps takes returned) ends⟩)
      rcases origin v (Or.inl ⟨j, returned⟩) with first | ⟨l, there, isOther⟩
      · exact distinct.new v i first equal.symm
      · have same : l = i := distinct.injective (show key (fresh l) = _ from isOther ▸ equal)
        rw [same, generated] at there
        cases there
  · intro early i v returned w known
    exact congrArg key (agreed_of_timely (timely_of_run moves ends early) i v returned w known)

/-! ### Calls that are apart -/

/-- While a call is about to save, it is the only one, and there is nothing in the slot. -/
structure Tidy (s : Shared ι β) : Prop where
  one : ∀ i j, (s.stage i).Pending → (s.stage j).Pending → i = j
  empty : ∀ i, (s.stage i).Pending → s.slot = .empty
  none : s.slot = .empty → ∀ i, s.stage i ≠ .found ∧ ∀ v, s.stage i ≠ .returned v

/-- What is pending after a step of a call. -/
theorem pending_update {stage : ι → Stage β} {k i : ι} {next : Stage β}
    (pending : (Function.update stage k next i).Pending) :
    (i = k ∧ next.Pending) ∨ (i ≠ k ∧ (stage i).Pending) := by
  by_cases same : i = k
  · rw [same, Function.update_self] at pending
    exact Or.inl ⟨same, pending⟩
  · rw [Function.update_of_ne same] at pending
    exact Or.inr ⟨same, pending⟩

namespace Tidy

/-- A call that does not become pending, and comes to no value while there is nothing. -/
theorem keeps (tidy : Tidy s) {k : ι} {next : Stage β} (pending : next.Pending → (s.stage k).Pending)
    (none : s.slot = .empty → next ≠ .found ∧ ∀ v, next ≠ .returned v) :
    Tidy ⟨s.slot, Function.update s.stage k next⟩ := by
  have before : ∀ i, (Function.update s.stage k next i).Pending → (s.stage i).Pending := by
    intro i now
    rcases pending_update now with ⟨rfl, isNext⟩ | ⟨_, earlier⟩
    · exact pending isNext
    · exact earlier
  refine ⟨fun i j first second => tidy.one i j (before i first) (before j second),
    fun i now => tidy.empty i (before i now), fun empty i => ?_⟩
  by_cases same : i = k
  · subst same
    simpa only [Function.update_self] using none empty
  · simpa only [Function.update_of_ne same] using tidy.none empty i

/-- The pending call fills the slot. -/
theorem fills (tidy : Tidy s) {k : ι} (pending : (s.stage k).Pending) {next : Stage β}
    (settled : ¬ next.Pending) {after : Slot β} (filled : after ≠ .empty) :
    Tidy ⟨after, Function.update s.stage k next⟩ := by
  have nothing : ∀ i, ¬ (Function.update s.stage k next i).Pending := by
    intro i now
    rcases pending_update now with ⟨_, isNext⟩ | ⟨other, earlier⟩
    · exact settled isNext
    · exact other (tidy.one i k earlier pending)
  exact ⟨fun i _ first => absurd first (nothing i), fun i now => absurd now (nothing i),
    fun empty => absurd empty filled⟩

/-- A call that finds nothing, while none is pending. -/
theorem finds (tidy : Tidy s) (apart : ∀ j, ¬ (s.stage j).Pending) (empty : s.slot = .empty)
    (k : ι) : Tidy ⟨s.slot, Function.update s.stage k .missing⟩ := by
  have only : ∀ i, (Function.update s.stage k .missing i).Pending → i = k := by
    intro i now
    rcases pending_update now with ⟨same, _⟩ | ⟨_, earlier⟩
    · exact same
    · exact absurd earlier (apart i)
  refine ⟨fun i j first second => (only i first).trans (only j second).symm, fun _ _ => empty,
    fun _ i => ?_⟩
  by_cases same : i = k
  · subst same
    simp only [Function.update_self]
    exact ⟨fun stage => (by cases stage), fun v stage => (by cases stage)⟩
  · simpa only [Function.update_of_ne same] using tidy.none empty i

end Tidy

theorem tidy_of_reach (reach : Reach (machine fresh slot) Apart s) : Tidy s := by
  refine Reach.invariant (P := Tidy) ?_ ?_ reach
  · rintro _ rfl
    exact ⟨fun i j pending => pending.elim, fun i pending => pending.elim,
      fun _ i => ⟨fun stage => (by cases stage), fun v stage => (by cases stage)⟩⟩
  · intro s a s' tidy apart (takes : step fresh s a = some s')
    obtain ⟨k, next, after, steps, rfl⟩ := step_cases takes
    cases steps with
    | absent _ empty => exact tidy.finds apart empty k
    | present _ filled => exact tidy.keeps (fun pending => pending.elim) fun empty => absurd empty filled
    | blind _ => exact apart.elim
    | loaded _ holds =>
      refine tidy.keeps (fun pending => pending.elim) fun empty => ?_
      rw [holds] at empty
      cases empty
    | unloadable _ => exact tidy.keeps (fun pending => pending.elim) fun _ => by simp
    | generated missing => exact tidy.keeps (fun _ => by rw [missing]; trivial) fun _ => by simp
    | saved generated =>
      refine tidy.fills (by rw [generated]; trivial) ?_ (by simp)
      exact fun pending => pending
    | torn generated =>
      refine tidy.fills (by rw [generated]; trivial) ?_ (by simp)
      exact fun pending => pending
    | failed _ => exact tidy.keeps (fun pending => pending.elim) fun _ => by simp

/-- **Calls that are apart** save in time. -/
theorem timely_of_apart (reach : Reach (machine fresh slot) Apart s) :
    Reach (machine fresh slot) Timely s := by
  induction reach with
  | start initial => exact .start initial
  | @next s s' a before _ takes ih =>
    refine ih.next ?_ takes
    rintro i rfl j v returned
    have steps := step_cases (show step fresh s (.save i) = some s' from takes)
    obtain ⟨k, next, after, steps, _⟩ := steps
    cases steps with
    | saved generated =>
      have tidy := tidy_of_reach before
      exact (tidy.none (tidy.empty i (by rw [generated]; trivial)) j).2 v returned

end Runs

end CreateOnce
