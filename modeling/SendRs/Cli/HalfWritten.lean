/-
**Files that are written in two steps.**

`SendRs.Cli.Session` takes a write as one step. Here the write of a JSON file takes two, as
`fs::write` does: the file is truncated, and then it is filled. In between any other process may take
its steps, and what it reads is no JSON. A read that is passed on with `?` ends the process
(`Halved.fails`), and the log `broken` remembers it; `wait_for_receiver_claim` tries again.

The steps are those of the processes of `SendRs.Cli.Session`; this module says which file each one
reads or writes. Two processes may write one file at a time: what the second one fills it with
overwrites what the first one did, and if that was longer its end is left over.

Result: `processes_unharmed`. In a run in which nobody reads or truncates the state, the history or
the trust store while another process is between the two steps of writing it, and no receiver reads
the state before the sender has written it, no process is ended by what it reads.
-/

import Mathlib.Data.Fintype.Option
import SendRs.Cli.Moves

namespace SendRs.Cli

open Machines

variable {ι : Type}

/-! ### Reading and writing -/

/-- The JSON files the processes share: `receiver.json`, `state.json`, the trust store and the
history. -/
inductive JsonFile where
  | claim
  | state
  | trust
  | history
deriving DecidableEq

/-- A process. -/
inductive Process (ι : Type) where
  | sender
  | receiver (i : ι)
deriving DecidableEq

/-- The process that takes a step. -/
def Action.process : Action ι → Process ι
  | .sender _ => .sender
  | .receiver i _ => .receiver i

/-- The file that the sender writes next. -/
def Sender.writes : Sender → Option JsonFile
  | .starting | .serving _ .rejecting | .serving _ (.transferring _) | .serving _ (.reporting _) =>
    some .state
  | .serving _ (.savingPair _) => some .trust
  | .serving _ (.savingRecord _ _) => some .history
  | _ => none

/-- The file that the sender reads next. -/
def Sender.reads : Sender → Option JsonFile
  | .reading => some .claim
  | .serving _ .lookup | .serving _ .pairing => some .trust
  | .serving _ (.recording _) => some .history
  | _ => none

/-- The file that a receiver writes next. -/
def ReceiverPc.writes : ReceiverPc → Option JsonFile
  | .claiming => some .claim
  | .savingPair _ => some .trust
  | .savingRecord _ _ => some .history
  | _ => none

/-- The file that a receiver reads next. -/
def ReceiverPc.reads : ReceiverPc → Option JsonFile
  | .lookup | .pairing => some .trust
  | .completing => some .state
  | .recording _ => some .history
  | _ => none

/-- The processes, whose writes may be half done. `base` has the contents that were written last,
and where the processes are. -/
structure Halved (ι : Type) where
  base : State ι
  /-- What is in the file is no JSON. -/
  torn : JsonFile → Bool
  /-- The file that a process has truncated and not filled yet. -/
  writing : Process ι → Option JsonFile
  /-- The file that the receiver has truncated was removed. -/
  unlinked : ι → Bool
  /-- The processes that were ended by a file they read. -/
  broken : List (Process ι × JsonFile)

/-- The file that a process writes next. -/
def Halved.writes (s : Halved ι) : Process ι → Option JsonFile
  | .sender => s.base.sender.writes
  | .receiver i => (s.base.receivers i).pc.writes

/-- The file that a step fills. -/
def Halved.fills (s : Halved ι) : Action ι → Option JsonFile
  | .sender .step | .sender (.progress true _ _ _) => s.writes .sender
  | .receiver i .step => s.writes (.receiver i)
  | _ => none

/-- The file that a step reads. -/
def Halved.reads (s : Halved ι) : Action ι → Option JsonFile
  | .sender .step => s.base.sender.reads
  | .receiver i .step => (s.base.receivers i).pc.reads
  | _ => none

/-- A step with a write in two steps. -/
inductive HalfAction (ι : Type) where
  /-- `fs::write` truncates the file. -/
  | truncate (p : Process ι)
  /-- It fills the file; or a step that writes no JSON. -/
  | take (action : Action ι)

/-- The file holds no JSON. A history and a trust store that are not there need not be read. -/
def Halved.Unreadable (s : Halved ι) (f : JsonFile) : Prop :=
  s.torn f = true ∨ f = .state ∧ s.base.files.state = none

instance (s : Halved ι) (f : JsonFile) : Decidable (s.Unreadable f) :=
  inferInstanceAs (Decidable (_ ∨ _))

/-- The files are there again that were there before a write to a removed file. -/
def Halved.isUnlinked (s : Halved ι) : Process ι → Bool
  | .sender => false
  | .receiver i => s.unlinked i

variable [DecidableEq ι]

/-- The file is truncated. A claim that is truncated is a file that exists. -/
def Halved.truncates (session : Session ι) (s : Halved ι) (f : JsonFile) : Process ι → Halved ι
  | .sender => { s with
      torn := Function.update s.torn f true
      writing := Function.update s.writing .sender (some f) }
  | .receiver i => { s with
      base := if f = .claim then
        { s.base with files := { s.base.files with receiver := some (session.claim i) } } else s.base
      torn := Function.update s.torn f true
      writing := Function.update s.writing (.receiver i) (some f)
      unlinked := Function.update s.unlinked i false }

/-- The file is filled, which leaves the step at `base`. What is left over of a longer text that
another process has written meanwhile is no JSON; and what is written to a removed file is lost. -/
def Halved.filled (size : JsonFile → Files → Nat) (s : Halved ι) (p : Process ι) (f : JsonFile)
    (base : State ι) : Halved ι :=
  if s.isUnlinked p then
    { s with base := { base with files := s.base.files }, writing := Function.update s.writing p none }
  else
    { s with
      base
      torn := Function.update s.torn f
        (if s.torn f then false else decide (size f base.files < size f s.base.files))
      writing := Function.update s.writing p none }

/-- The process reads what is no JSON. -/
def Halved.fails (s : Halved ι) (f : JsonFile) : Process ι → Halved ι
  | .sender =>
    -- `wait_for_receiver_claim` tries again
    if f = .claim then { s with base := { s.base with sender := .polling } }
    else { s with
      base := { s.base with sender := .exited }
      broken := s.broken ++ [(.sender, f)] }
  | .receiver i => { s with
      base := { s.base with
        receivers := Function.update s.base.receivers i { s.base.receivers i with
          pc := .exited
          outcome := if (s.base.receivers i).pc = .completing then some (.error "parse json")
            else (s.base.receivers i).outcome } }
      broken := s.broken ++ [(.receiver i, f)] }

/-- A step that leaves the files of `base`. A claim that was removed is not there for the process
that is about to fill it. -/
def Halved.goesOn (s : Halved ι) (base : State ι) : Halved ι :=
  if s.base.files.receiver.isSome ∧ base.files.receiver = none then
    { s with
      base
      torn := Function.update s.torn .claim false
      unlinked := fun i => s.unlinked i || s.writing (.receiver i) == some .claim }
  else { s with base }

/-- One step of the system. -/
def halfStep (session : Session ι) (size : JsonFile → Files → Nat) (s : Halved ι) :
    HalfAction ι → Option (Halved ι)
  | .truncate p =>
    match s.writing p, s.writes p with
    | none, some f => some (s.truncates session f p)
    | _, _ => none
  | .take action =>
    match s.writing action.process with
    | some f =>
      if s.fills action = some f then
        (step session s.base action).map (s.filled size action.process f)
      else none
    | none =>
      if s.fills action ≠ none then none
      else match s.reads action with
        | some f =>
          if s.Unreadable f then some (s.fails f action.process)
          else (step session s.base action).map s.goesOn
        | none => (step session s.base action).map s.goesOn

/-- A start of the session at which no write is half done. -/
structure HalfInitial (s : Halved ι) : Prop where
  base : Initial s.base
  whole : ∀ f, s.torn f = false
  idle : ∀ p, s.writing p = none
  linked : ∀ i, s.unlinked i = false
  unbroken : s.broken = []

/-- The processes on one code, with writes in two steps; `size` is the length of the text of a
file. -/
def halfMachine (session : Session ι) (size : JsonFile → Files → Nat) :
    Machine (Halved ι) (HalfAction ι) := ⟨HalfInitial, halfStep session size⟩

/-! ### The property and its condition -/

/-- No process was ended by a file that it read, and the claims that were read are whole ones. -/
structure Unharmed (session : Session ι) (s : Halved ι) : Prop where
  unbroken : s.broken = []
  whole : ∀ claim, Event.consumed claim ∈ s.base.log → ∃ i, claim = session.claim i

/-- The process that takes the step. -/
def HalfAction.process : HalfAction ι → Process ι
  | .truncate p => p
  | .take action => action.process

/-- The file that a step truncates or reads. -/
def Halved.touches (s : Halved ι) : HalfAction ι → Option JsonFile
  | .truncate p => s.writes p
  | .take action => s.reads action

/-- Nobody reads or truncates the state, the history or the trust store while another process is
between the two steps of writing it, and no receiver reads the state before there is one. -/
def Apart (s : Halved ι) (action : HalfAction ι) : Prop :=
  ∀ f ∈ s.touches action, f ≠ .claim →
    (∀ q, q ≠ action.process → s.writing q ≠ some f) ∧
      (f = .state → action.process ≠ .sender → s.base.files.state ≠ none)

/-! ### What the steps keep -/

/-- What holds in every run that is kept apart. -/
structure HalfHolds (session : Session ι) (s : Halved ι) : Prop where
  torn_iff : ∀ f, f ≠ .claim → (s.torn f = true ↔ ∃ p, s.writing p = some f)
  alone : ∀ p q f, f ≠ .claim → s.writing p = some f → s.writing q = some f → p = q
  linked : ∀ i f, f ≠ .claim → s.writing (.receiver i) = some f → s.unlinked i = false
  claims : ∀ claim, s.base.files.receiver = some claim → ∃ i, claim = session.claim i
  unharmed : Unharmed session s

section Steps

variable {session : Session ι} {size : JsonFile → Files → Nat} {s s' : Halved ι}

/-- A step of a process writes a whole claim or none, and reads the claim that is there. -/
theorem claims_step {base base' : State ι} {action : Action ι}
    (claims : ∀ claim, base.files.receiver = some claim → ∃ i, claim = session.claim i)
    (takes : step session base action = some base') :
    (∀ claim, base'.files.receiver = some claim → ∃ i, claim = session.claim i) ∧
      ∀ claim, Event.consumed claim ∈ base'.log →
        Event.consumed claim ∈ base.log ∨ ∃ i, claim = session.claim i := by
  obtain ⟨files, sender, receivers, log⟩ := base
  obtain ⟨action, files, sender, events, rfl, move, rfl⟩ | ⟨i, action, files, r, rfl, move, rfl⟩ :=
    machine_step takes
  · constructor
    · intro claim present
      refine claims claim ?_
      cases move with
      | serve move => cases move <;> first | exact present | cases present
      | clear file rest =>
        cases file with
        | receiverClaim => cases present
        | senderYes => exact present
        | receiverYes => exact present
      | _ => exact present
    · intro claim member
      rcases List.mem_append.mp member with earlier | isNew
      · exact Or.inl earlier
      · refine Or.inr (claims claim ?_)
        cases move with
        | consume claim' present =>
          cases List.mem_singleton.mp isNew
          exact present
        | serve move => cases move <;> simp at isNew
        | _ => simp at isNew
  · refine ⟨fun claim present => ?_, fun claim member => Or.inl member⟩
    cases move with
    | write here => exact ⟨i, (Option.some.inj present).symm⟩
    | _ => exact claims claim present

/-- The moves of the system. -/
inductive HalfMove (session : Session ι) (size : JsonFile → Files → Nat) (s : Halved ι) :
    HalfAction ι → Halved ι → Prop
  | truncate {p : Process ι} {f : JsonFile} (idle : s.writing p = none) (next : s.writes p = some f) :
    HalfMove session size s (.truncate p) (s.truncates session f p)
  | fill {action : Action ι} {f : JsonFile} {base : State ι}
      (writing : s.writing action.process = some f)
      (takes : step session s.base action = some base) :
    HalfMove session size s (.take action) (s.filled size action.process f base)
  | fail {action : Action ι} {f : JsonFile} (idle : s.writing action.process = none)
      (reads : s.reads action = some f) (unreadable : s.Unreadable f) :
    HalfMove session size s (.take action) (s.fails f action.process)
  | go {action : Action ι} {base : State ι} (takes : step session s.base action = some base) :
    HalfMove session size s (.take action) (s.goesOn base)

/-- A step of the system is one of the moves. -/
theorem halfMove_of_step {action : HalfAction ι} (takes : halfStep session size s action = some s') :
    HalfMove session size s action s' := by
  cases action with
  | truncate p =>
    simp only [halfStep] at takes
    split at takes
    · next f idle next =>
      cases takes
      exact .truncate idle next
    · cases takes
  | take action =>
    simp only [halfStep] at takes
    split at takes
    · next f writing =>
      split at takes
      · obtain ⟨base, moves, rfl⟩ := Option.map_eq_some_iff.mp takes
        exact .fill writing moves
      · cases takes
    · next idle =>
      split at takes
      · cases takes
      · split at takes
        · next f reads =>
          split at takes
          · next unreadable =>
            cases takes
            exact .fail idle reads unreadable
          · obtain ⟨base, moves, rfl⟩ := Option.map_eq_some_iff.mp takes
            exact .go moves
        · obtain ⟨base, moves, rfl⟩ := Option.map_eq_some_iff.mp takes
          exact .go moves

/-- **A file is truncated.** -/
theorem truncates_holds (holds : HalfHolds session s) {p : Process ι} {f : JsonFile}
    (idle : s.writing p = none)
    (apart : f ≠ .claim → ∀ q, q ≠ p → s.writing q ≠ some f) :
    HalfHolds session (s.truncates session f p) := by
  have torn : (s.truncates session f p).torn = Function.update s.torn f true := by
    cases p <;> rfl
  have writing : (s.truncates session f p).writing = Function.update s.writing p (some f) := by
    cases p <;> rfl
  have other {q : Process ι} {g : JsonFile} (isWriting : s.writing q = some g) : q ≠ p := by
    rintro rfl
    rw [idle] at isWriting
    cases isWriting
  refine ⟨fun g notClaim => ?_, fun q q' g notClaim here there => ?_, fun i g notClaim here => ?_, ?_, ?_⟩
  · rw [torn, writing]
    by_cases same : g = f
    · subst same
      rw [Function.update_self]
      exact iff_of_true rfl ⟨p, Function.update_self _ _ _⟩
    · rw [Function.update_of_ne same, holds.torn_iff g notClaim]
      constructor
      · rintro ⟨q, isWriting⟩
        exact ⟨q, by rwa [Function.update_of_ne (other isWriting)]⟩
      · rintro ⟨q, isWriting⟩
        by_cases isP : q = p
        · subst isP
          rw [Function.update_self] at isWriting
          exact absurd (Option.some.inj isWriting).symm same
        · rw [Function.update_of_ne isP] at isWriting
          exact ⟨q, isWriting⟩
  · rw [writing] at here there
    by_cases isP : q = p <;> by_cases isP' : q' = p
    · rw [isP, isP']
    · subst isP
      rw [Function.update_self] at here
      rw [Function.update_of_ne isP'] at there
      obtain rfl := Option.some.inj here
      exact absurd there (apart notClaim q' isP')
    · subst isP'
      rw [Function.update_self] at there
      rw [Function.update_of_ne isP] at here
      obtain rfl := Option.some.inj there
      exact absurd here (apart notClaim q isP)
    · rw [Function.update_of_ne isP] at here
      rw [Function.update_of_ne isP'] at there
      exact holds.alone q q' g notClaim here there
  · cases p with
    | sender =>
      rw [writing, Function.update_of_ne (by intro same; cases same)] at here
      exact holds.linked i g notClaim here
    | receiver j =>
      show Function.update s.unlinked j false i = false
      by_cases same : i = j
      · rw [same, Function.update_self]
      · rw [Function.update_of_ne same]
        rw [writing, Function.update_of_ne (by simpa using same)] at here
        exact holds.linked i g notClaim here
  · cases p with
    | sender => exact holds.claims
    | receiver i =>
      intro claim present
      simp only [Halved.truncates] at present
      split at present
      · exact ⟨i, (Option.some.inj present).symm⟩
      · exact holds.claims claim present
  · cases p with
    | sender => exact ⟨holds.unharmed.unbroken, holds.unharmed.whole⟩
    | receiver i =>
      refine ⟨holds.unharmed.unbroken, fun claim member => holds.unharmed.whole claim ?_⟩
      simp only [Halved.truncates] at member
      split at member <;> exact member

/-- **A file is filled.** -/
theorem filled_holds (holds : HalfHolds session s) {action : Action ι} {f : JsonFile} {base : State ι}
    (writing : s.writing action.process = some f) (takes : step session s.base action = some base) :
    HalfHolds session (s.filled size action.process f base) := by
  obtain ⟨claims, news⟩ := claims_step holds.claims takes
  have whole : ∀ claim, Event.consumed claim ∈ base.log → ∃ i, claim = session.claim i :=
    fun claim member => (news claim member).elim (holds.unharmed.whole claim) id
  -- the writers of the other files
  have writers {q : Process ι} {g : JsonFile} (different : g ≠ f) :
      Function.update s.writing action.process none q = some g ↔ s.writing q = some g := by
    by_cases isP : q = action.process
    · subst isP
      rw [Function.update_self, writing]
      exact iff_of_false (fun impossible => nomatch impossible) fun same =>
        different (Option.some.inj same).symm
    · rw [Function.update_of_ne isP]
  have writer {q : Process ι} {g : JsonFile}
      (isWriting : Function.update s.writing action.process none q = some g) : s.writing q = some g := by
    by_cases isP : q = action.process
    · subst isP
      rw [Function.update_self] at isWriting
      cases isWriting
    · rwa [Function.update_of_ne isP] at isWriting
  unfold Halved.filled
  split
  · next unlinked =>
    have isClaim : f = .claim := by
      by_contra notClaim
      cases isProcess : action.process with
      | sender =>
        rw [isProcess] at unlinked
        cases unlinked
      | receiver i =>
        rw [isProcess] at unlinked writing
        rw [Halved.isUnlinked, holds.linked i f notClaim writing] at unlinked
        cases unlinked
    subst isClaim
    refine ⟨fun g notClaim => ?_, fun q q' g notClaim here there => ?_, fun i g notClaim here => ?_,
      holds.claims, holds.unharmed.unbroken, whole⟩
    · rw [holds.torn_iff g notClaim]
      exact exists_congr fun q => (writers notClaim).symm
    · exact holds.alone q q' g notClaim (writer here) (writer there)
    · exact holds.linked i g notClaim (writer here)
  · refine ⟨fun g notClaim => ?_, fun q q' g notClaim here there => ?_, fun i g notClaim here => ?_,
      claims, holds.unharmed.unbroken, whole⟩
    · show Function.update s.torn f _ g = true ↔ _
      by_cases same : g = f
      · subst same
        have torn : s.torn g = true := (holds.torn_iff g notClaim).mpr ⟨_, writing⟩
        rw [Function.update_self, torn, if_pos rfl]
        refine iff_of_false Bool.false_ne_true fun ⟨q, isWriting⟩ => ?_
        have isWriting : Function.update s.writing action.process none q = some g := isWriting
        rw [holds.alone q action.process g notClaim (writer isWriting) writing,
          Function.update_self] at isWriting
        cases isWriting
      · rw [Function.update_of_ne same, holds.torn_iff g notClaim]
        exact exists_congr fun q => (writers same).symm
    · exact holds.alone q q' g notClaim (writer here) (writer there)
    · exact holds.linked i g notClaim (writer here)

omit [DecidableEq ι] in
/-- Nobody but the sender reads a claim, and it does not read the state. -/
theorem reads_process {action : Action ι} {f : JsonFile} (reads : s.reads action = some f) :
    f = .claim ∧ action.process = .sender ∨ f ≠ .claim ∧ (f = .state → action.process ≠ .sender) := by
  cases action with
  | sender action =>
    cases action with
    | step =>
      have reads : s.base.sender.reads = some f := reads
      unfold Sender.reads at reads
      split at reads <;> cases reads
      · exact Or.inl ⟨rfl, rfl⟩
      all_goals exact Or.inr ⟨by decide, fun same => by cases same⟩
    | _ => cases reads
  | receiver i action =>
    have notSender : (Action.receiver i action).process ≠ .sender := fun same => by cases same
    cases action with
    | step =>
      have reads : (s.base.receivers i).pc.reads = some f := reads
      unfold ReceiverPc.reads at reads
      split at reads <;> cases reads
      all_goals exact Or.inr ⟨by decide, fun _ => notSender⟩
    | _ => cases reads

/-- **What is read can be read.** -/
theorem fails_holds (holds : HalfHolds session s) {action : Action ι} {f : JsonFile}
    (idle : s.writing action.process = none) (reads : s.reads action = some f)
    (unreadable : s.Unreadable f) (apart : Apart s (.take action)) :
    HalfHolds session (s.fails f action.process) := by
  rcases reads_process reads with ⟨rfl, isSender⟩ | ⟨notClaim, notSender⟩
  · rw [isSender]
    exact ⟨holds.torn_iff, holds.alone, holds.linked, holds.claims, holds.unharmed.unbroken,
      holds.unharmed.whole⟩
  · obtain ⟨alone, present⟩ := apart f reads notClaim
    rcases unreadable with torn | ⟨isState, absent⟩
    · obtain ⟨q, writing⟩ := (holds.torn_iff f notClaim).mp torn
      refine absurd writing (alone q ?_)
      rintro rfl
      exact absurd (idle.symm.trans writing) (by simp)
    · exact absurd absent (present isState (notSender isState))

/-- **A step that writes no JSON.** -/
theorem goesOn_holds (holds : HalfHolds session s) {action : Action ι} {base : State ι}
    (takes : step session s.base action = some base) : HalfHolds session (s.goesOn base) := by
  obtain ⟨claims, news⟩ := claims_step holds.claims takes
  have whole : ∀ claim, Event.consumed claim ∈ base.log → ∃ i, claim = session.claim i :=
    fun claim member => (news claim member).elim (holds.unharmed.whole claim) id
  unfold Halved.goesOn
  split
  · refine ⟨fun g notClaim => ?_, holds.alone, fun i g notClaim here => ?_, claims,
      holds.unharmed.unbroken, whole⟩
    · show Function.update s.torn .claim false g = true ↔ _
      rw [Function.update_of_ne notClaim]
      exact holds.torn_iff g notClaim
    · show (s.unlinked i || s.writing (.receiver i) == some .claim) = false
      have here : s.writing (.receiver i) = some g := here
      rw [holds.linked i g notClaim here, here]
      simpa using notClaim
  · exact ⟨holds.torn_iff, holds.alone, holds.linked, claims, holds.unharmed.unbroken, whole⟩

omit [DecidableEq ι] in
/-- The start. -/
theorem halfHolds_start (initial : HalfInitial s) : HalfHolds session s := by
  refine ⟨fun f _ => ?_, ?_, ?_, ?_, initial.unbroken, ?_⟩
  · rw [initial.whole f]
    refine iff_of_false Bool.false_ne_true fun ⟨p, writing⟩ => ?_
    rw [initial.idle p] at writing
    cases writing
  · intro p q f _ writing
    rw [initial.idle p] at writing
    cases writing
  · exact fun i f _ _ => initial.linked i
  · intro claim present
    rw [initial.base.noClaim] at present
    cases present
  · intro claim member
    rw [initial.base.log] at member
    cases member

end Steps

/-- **A half-written file ends nobody** in a run in which no process reads or truncates the state, the
history or the trust store while another one is between the two steps of writing it, and no receiver
reads the state before there is one. -/
theorem processes_unharmed (session : Session ι) (size : JsonFile → Files → Nat) {s : Halved ι}
    (reach : Reach (halfMachine session size) Apart s) : Unharmed session s := by
  suffices holds : HalfHolds session s from holds.unharmed
  apply Reach.invariant (fun _ => halfHolds_start) _ reach
  intro s action s' holds apart takes
  cases halfMove_of_step takes with
  | truncate idle next => exact truncates_holds holds idle fun notClaim => (apart _ next notClaim).1
  | fill writing moves => exact filled_holds holds writing moves
  | fail idle reads unreadable => exact fails_holds holds idle reads unreadable apart
  | go moves => exact goesOn_holds holds moves

/-! ### A transfer that is watched by its receiver -/

instance [Fintype ι] : Fintype (Process ι) :=
  Fintype.ofSurjective (fun process : Option ι => process.elim .sender .receiver) fun
    | .sender => ⟨none, rfl⟩
    | .receiver i => ⟨some i, rfl⟩

instance [Fintype ι] (s : Halved ι) (action : HalfAction ι) : Decidable (Apart s action) :=
  inferInstanceAs (Decidable (∀ f ∈ s.touches action, f ≠ .claim → _ ∧ _))

/-- The sample session, on a device whose processes trust each other. -/
def sampleHalf : Halved Bool :=
  ⟨sampleStart ["device"], fun _ => false, fun _ => none, fun _ => false, []⟩

def sampleHalfMachine : Machine (Halved Bool) (HalfAction Bool) :=
  halfMachine sampleSession fun _ _ => 0

theorem sampleHalf_initial : HalfInitial sampleHalf :=
  ⟨sampleStart_initial _, fun _ => rfl, fun _ => rfl, fun _ => rfl, rfl⟩

/-- The sender announces the session, the first receiver writes its claim and waits, and the transfer
to it begins. -/
def sampleBeginning : List (HalfAction Bool) :=
  [.truncate .sender, .take (.sender .step), .take (.sender .step), .take (.sender .step),
    .take (.sender .step), .truncate (.receiver false), .take (.receiver false .step),
    .take (.receiver false .step), .take (.sender .step), .take (.sender .step),
    .take (.sender .step), .take (.sender (.removed true)), .take (.sender .step),
    .take (.sender .step)]

/-- Progress, the end of the transfer, and the entries of both in the history. -/
def sampleEnding : List (HalfAction Bool) :=
  [.truncate .sender, .take (.sender (.progress true 3 3 "hi")), .take (.receiver false .step),
    .take (.sender (.returned (.ok (3, 3)))), .truncate .sender, .take (.sender .step),
    .take (.receiver false .step), .take (.sender .step), .truncate .sender, .take (.sender .step),
    .take (.receiver false .step), .truncate (.receiver false), .take (.receiver false .step)]

/-- When the receiver looks between the writes, the transfer ends well for both. -/
theorem processes_unharmed_sample :
    ∃ s, sampleHalfMachine.run Apart sampleHalf (sampleBeginning ++ sampleEnding) = some s ∧
      s.base.files.history.length = 2 ∧ Unharmed sampleSession s := by
  have ends : (sampleHalfMachine.run Apart sampleHalf (sampleBeginning ++ sampleEnding)).map
      (fun s => s.base.files.history.length) = some 2 := by decide +kernel
  obtain ⟨s, ends, entries⟩ := Option.map_eq_some_iff.mp ends
  exact ⟨s, ends, entries, processes_unharmed sampleSession _
    (reach_of_run _ (.start sampleHalf_initial) ends)⟩

/-- **A receiver dies of a half-written file**: it looks while the sender is between the two steps of
writing a progress event to the state. -/
theorem receiver_broken :
    ∃ s, Reach sampleHalfMachine Anything s ∧ s.broken = [(.receiver false, .state)] ∧
      (s.base.receivers false).outcome = some (.error "parse json") ∧
      ¬ Unharmed sampleSession s := by
  have ends : ∃ s, sampleHalfMachine.run Anything sampleHalf (sampleBeginning ++
      [.truncate .sender, .take (.receiver false .step)]) = some s ∧
      s.broken = [(.receiver false, .state)] ∧
      (s.base.receivers false).outcome = some (.error "parse json") := ⟨_, rfl, rfl, rfl⟩
  obtain ⟨s, ends, broken, outcome⟩ := ends
  refine ⟨s, reach_of_run _ (.start sampleHalf_initial) ends, broken, outcome, fun unharmed => ?_⟩
  rw [unharmed.unbroken] at broken
  cases broken

end SendRs.Cli
