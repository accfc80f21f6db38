/-
**A transfer task.**

A task is created by `new_send`, and then changed by any calls of its four methods. `run_error` and
`run_status` say what a run of calls leaves in the error message and in the status, by the calls
since the last one that settles them: an `update_progress` below the total settles nothing.

* `errorMessage_iff_failed`: the error message is there exactly when the task has failed, unless the
  last such call is `mark_failed` and some progress was made after it;
* `completed_iff_done`: the counter agrees with the status, unless the total was reached and the
  progress was then set back to zero.
-/

import Mathlib.Data.List.DropRight

namespace SendRs.Core

/-- `Direction`. -/
inductive Direction where
  | send
  | receive
deriving DecidableEq

/-- `NetworkMode`. -/
inductive NetworkMode where
  | lan
  | «public»
deriving DecidableEq

/-- `TransferTaskStatus`. -/
inductive TransferTaskStatus where
  | awaitingAccept
  | pending
  | inProgress
  | completed
  | failed
deriving DecidableEq

/-- `TransferTask`. -/
structure TransferTask where
  taskId : String
  peerId : String
  sourcePath : String
  targetPath : Option String
  direction : Direction
  status : TransferTaskStatus
  networkMode : NetworkMode
  bytesTotal : Nat
  bytesDone : Nat
  errorMessage : Option String
  createdAt : Int
  updatedAt : Int
deriving DecidableEq

namespace TransferTask

/-- `TransferTask::new_send`, with the identifier and the time that it draws. -/
def newSend (taskId : String) (now : Int) (peerId sourcePath : String) (networkMode : NetworkMode)
    (bytesTotal : Nat) : TransferTask where
  taskId
  peerId
  sourcePath
  targetPath := none
  direction := .send
  status := .awaitingAccept
  networkMode
  bytesTotal
  bytesDone := 0
  errorMessage := none
  createdAt := now
  updatedAt := now

/-- `update_progress`. -/
def updateProgress (task : TransferTask) (bytesDone : Nat) (now : Int) : TransferTask :=
  let task := { task with bytesDone := min bytesDone task.bytesTotal, updatedAt := now }
  if task.bytesDone = task.bytesTotal then { task with status := .completed, errorMessage := none }
  else if 0 < task.bytesDone then { task with status := .inProgress }
  else task

/-- `accept_receive`. -/
def acceptReceive (task : TransferTask) (targetPath : String) (now : Int) : TransferTask :=
  { task with
    targetPath := some targetPath, status := .pending, errorMessage := none, updatedAt := now }

/-- `mark_in_progress`. -/
def markInProgress (task : TransferTask) (now : Int) : TransferTask :=
  { task with status := .inProgress, errorMessage := none, updatedAt := now }

/-- `mark_failed`. -/
def markFailed (task : TransferTask) (message : String) (now : Int) : TransferTask :=
  { task with status := .failed, errorMessage := some message, updatedAt := now }

end TransferTask

/-- A call of a method, with the time that it reads. -/
inductive Call where
  | updateProgress (bytesDone : Nat) (now : Int)
  | acceptReceive (targetPath : String) (now : Int)
  | markInProgress (now : Int)
  | markFailed (message : String) (now : Int)
deriving DecidableEq

/-- What a call does to a task. -/
def TransferTask.call (task : TransferTask) : Call → TransferTask
  | .updateProgress bytesDone now => task.updateProgress bytesDone now
  | .acceptReceive targetPath now => task.acceptReceive targetPath now
  | .markInProgress now => task.markInProgress now
  | .markFailed message now => task.markFailed message now

/-- A run of calls. -/
def TransferTask.run (task : TransferTask) (calls : List Call) : TransferTask :=
  calls.foldl TransferTask.call task

namespace Call

/-- An `update_progress` below the total. -/
def below (total : Nat) : Call → Bool
  | .updateProgress bytesDone _ => bytesDone < total
  | _ => false

/-- An `update_progress` to zero, below the total. -/
def toZero (total : Nat) (c : Call) : Bool :=
  c.below total && match c with
    | .updateProgress bytesDone _ => bytesDone = 0
    | _ => false

/-- An `update_progress` to the total. -/
def toTotal (total : Nat) : Call → Bool
  | .updateProgress bytesDone _ => total ≤ bytesDone
  | _ => false

/-- A `mark_failed`. -/
def fails : Call → Bool
  | .markFailed _ _ => true
  | _ => false

end Call

/-- The last call that is not an `update_progress` below the total is `mark_failed`. -/
def FailedLast (total : Nat) (calls : List Call) : Prop :=
  ((calls.rdropWhile (Call.below total)).getLast?.any Call.fails) = true

/-- The calls since then. -/
def sinceSettled (total : Nat) (calls : List Call) : List Call := calls.rtakeWhile (Call.below total)

/-- The last call that settles the task is `mark_failed`, and some progress was made after it. -/
def ProgressAfterFailure (total : Nat) (calls : List Call) : Prop :=
  FailedLast total calls ∧ ∃ c ∈ sinceSettled total calls, c.toZero total = false

/-- The last call but for some that set the progress to zero, and at least one, has reached a total
that is not zero. -/
def SetBackToZero (total : Nat) (calls : List Call) : Prop :=
  ((calls.rdropWhile (Call.toZero total)).getLast?.any (Call.toTotal total)) = true ∧
    calls.rtakeWhile (Call.toZero total) ≠ []

instance (total : Nat) (calls : List Call) : Decidable (FailedLast total calls) :=
  inferInstanceAs (Decidable (_ = _))

instance (total : Nat) (calls : List Call) : Decidable (ProgressAfterFailure total calls) :=
  inferInstanceAs (Decidable (_ ∧ _))

instance (total : Nat) (calls : List Call) : Decidable (SetBackToZero total calls) :=
  inferInstanceAs (Decidable (_ ∧ _))

/-! ### One call -/

section Calls

variable {task : TransferTask} {total : Nat} {c : Call} {calls : List Call}

theorem run_append : task.run (calls ++ [c]) = (task.run calls).call c := List.foldl_concat _ _ _ _

theorem call_bytesTotal : (task.call c).bytesTotal = task.bytesTotal := by
  cases c with
  | updateProgress bytesDone now =>
    show (task.updateProgress bytesDone now).bytesTotal = _
    unfold TransferTask.updateProgress
    dsimp only
    split
    · rfl
    · split
      · rfl
      · rfl
  | acceptReceive targetPath now => rfl
  | markInProgress now => rfl
  | markFailed message now => rfl

theorem run_bytesTotal : (task.run calls).bytesTotal = task.bytesTotal := by
  induction calls using List.reverseRecOn with
  | nil => rfl
  | append_singleton calls c ih => rw [run_append, call_bytesTotal, ih]

/-- An `update_progress` below the total leaves the message as it is, and the status if it is to
zero. -/
theorem call_below (isBelow : c.below task.bytesTotal) :
    (task.call c).errorMessage = task.errorMessage ∧
      (task.call c).status = (if c.toZero task.bytesTotal then task.status else .inProgress) ∧
      (c.toZero task.bytesTotal → (task.call c).bytesDone = 0) := by
  cases c with
  | updateProgress bytesDone now =>
    have less : bytesDone < task.bytesTotal := of_decide_eq_true isBelow
    have clamped : min bytesDone task.bytesTotal = bytesDone := Nat.min_eq_left (Nat.le_of_lt less)
    show (task.updateProgress bytesDone now).errorMessage = _ ∧
      (task.updateProgress bytesDone now).status = _ ∧ (_ → (task.updateProgress bytesDone now).bytesDone = 0)
    simp only [TransferTask.updateProgress, clamped, if_neg (Nat.ne_of_lt less)]
    by_cases zero : bytesDone = 0
    · subst zero
      simp [Call.toZero, Call.below, less]
    · simp [Call.toZero, zero, Nat.pos_of_ne_zero zero]
  | acceptReceive targetPath now => cases isBelow
  | markInProgress now => cases isBelow
  | markFailed message now => cases isBelow

/-- Any other call settles what the task says. -/
theorem call_settles (notBelow : ¬ c.below task.bytesTotal) :
    ((task.call c).errorMessage.isSome ↔ c.fails) ∧ ((task.call c).status = .failed ↔ c.fails) ∧
      ((task.call c).status = .completed ↔ c.toTotal task.bytesTotal) ∧
      (c.toTotal task.bytesTotal → (task.call c).bytesDone = task.bytesTotal) := by
  cases c with
  | updateProgress bytesDone now =>
    have reached : task.bytesTotal ≤ bytesDone := by
      simpa [Call.below] using notBelow
    have clamped : min bytesDone task.bytesTotal = task.bytesTotal := Nat.min_eq_right reached
    show ((task.updateProgress bytesDone now).errorMessage.isSome ↔ _) ∧
      ((task.updateProgress bytesDone now).status = _ ↔ _) ∧
        ((task.updateProgress bytesDone now).status = _ ↔ _) ∧
          (_ → (task.updateProgress bytesDone now).bytesDone = _)
    unfold TransferTask.updateProgress
    rw [clamped]
    simp [Call.fails, Call.toTotal, reached]
  | acceptReceive targetPath now =>
    simp [TransferTask.call, TransferTask.acceptReceive, Call.fails, Call.toTotal]
  | markInProgress now =>
    simp [TransferTask.call, TransferTask.markInProgress, Call.fails, Call.toTotal]
  | markFailed message now =>
    simp [TransferTask.call, TransferTask.markFailed, Call.fails, Call.toTotal]

/-- The counter never passes the total. -/
theorem call_bytesDone_le (small : task.bytesDone ≤ task.bytesTotal) :
    (task.call c).bytesDone ≤ task.bytesTotal := by
  cases c with
  | updateProgress bytesDone now =>
    show (task.updateProgress bytesDone now).bytesDone ≤ _
    unfold TransferTask.updateProgress
    dsimp only
    split
    · exact Nat.min_le_right _ _
    · split
      · exact Nat.min_le_right _ _
      · exact Nat.min_le_right _ _
  | acceptReceive targetPath now => exact small
  | markInProgress now => exact small
  | markFailed message now => exact small

end Calls

/-! ### A run of calls -/

section Run

variable {taskId : String} {now : Int} {peerId sourcePath : String} {networkMode : NetworkMode}
  {total : Nat}

/-- **The message after a run** is there if the last call that settles the task is `mark_failed`. -/
theorem run_error (calls : List Call) :
    (((TransferTask.newSend taskId now peerId sourcePath networkMode total).run
      calls).errorMessage.isSome ↔ FailedLast total calls) := by
  induction calls using List.reverseRecOn with
  | nil => simp [TransferTask.run, TransferTask.newSend, FailedLast]
  | append_singleton calls c ih =>
    have isTotal : ((TransferTask.newSend taskId now peerId sourcePath networkMode total).run
      calls).bytesTotal = total := run_bytesTotal
    rw [run_append]
    by_cases isBelow : c.below total
    · rw [(call_below (isTotal.symm ▸ isBelow)).1, ih, FailedLast, FailedLast,
        List.rdropWhile_concat_pos _ _ _ isBelow]
    · rw [(call_settles (isTotal.symm ▸ isBelow)).1, FailedLast,
        List.rdropWhile_concat_neg _ _ _ isBelow, List.getLast?_concat, Option.any_some]

/-- **The status after a run** is `Failed` if besides no progress was made since. -/
theorem run_failed (calls : List Call) :
    ((TransferTask.newSend taskId now peerId sourcePath networkMode total).run calls).status =
      .failed ↔ FailedLast total calls ∧ ∀ c ∈ sinceSettled total calls, c.toZero total = true := by
  induction calls using List.reverseRecOn with
  | nil => simp [TransferTask.run, TransferTask.newSend, FailedLast]
  | append_singleton calls c ih =>
    have isTotal : ((TransferTask.newSend taskId now peerId sourcePath networkMode total).run
      calls).bytesTotal = total := run_bytesTotal
    rw [run_append, FailedLast, sinceSettled]
    by_cases isBelow : c.below total
    · rw [(call_below (isTotal.symm ▸ isBelow)).2.1, isTotal, List.rdropWhile_concat_pos _ _ _ isBelow,
        List.rtakeWhile_concat_pos _ _ _ isBelow]
      by_cases zero : c.toZero total
      · rw [if_pos zero, ih]
        simp [FailedLast, sinceSettled, or_imp, forall_and, zero]
      · rw [if_neg zero]
        simp [zero]
    · rw [(call_settles (isTotal.symm ▸ isBelow)).2.1, List.rdropWhile_concat_neg _ _ _ isBelow,
        List.rtakeWhile_concat_neg _ _ _ isBelow]
      simp

/-- **The error message is there exactly when the task has failed**, unless progress was made after
the failure: `update_progress` then sets the status and leaves the message. -/
theorem errorMessage_iff_failed (taskId : String) (now : Int) (peerId sourcePath : String)
    (networkMode : NetworkMode) (total : Nat) (calls : List Call) :
    (((TransferTask.newSend taskId now peerId sourcePath networkMode total).run
        calls).errorMessage.isSome ↔
      ((TransferTask.newSend taskId now peerId sourcePath networkMode total).run calls).status =
        .failed) ↔ ¬ ProgressAfterFailure total calls := by
  rw [run_error, run_failed, ProgressAfterFailure]
  simp

/-- A task that has failed and goes on keeps its message. -/
theorem staleError :
    ((TransferTask.newSend "id" 0 "peer" "/s" .lan 2).run
        [.markFailed "disk full" 1, .updateProgress 1 2]).errorMessage = some "disk full" ∧
      ¬ (((TransferTask.newSend "id" 0 "peer" "/s" .lan 2).run
          [.markFailed "disk full" 1, .updateProgress 1 2]).errorMessage.isSome ↔
        ((TransferTask.newSend "id" 0 "peer" "/s" .lan 2).run
          [.markFailed "disk full" 1, .updateProgress 1 2]).status = .failed) := by
  decide

/-- The counter after a run that ends with calls that set it to zero. -/
theorem run_toZero (task : TransferTask) (calls : List Call) :
    (task.run calls).status = (task.run (calls.rdropWhile (Call.toZero task.bytesTotal))).status ∧
      (calls.rtakeWhile (Call.toZero task.bytesTotal) ≠ [] → (task.run calls).bytesDone = 0) := by
  induction calls using List.reverseRecOn with
  | nil => simp
  | append_singleton calls c ih =>
    by_cases zero : c.toZero task.bytesTotal
    · have isBelow : c.below (task.run calls).bytesTotal := by
        rw [run_bytesTotal]
        exact (Bool.and_eq_true _ _ ▸ zero).1
      obtain ⟨_, status, bytesDone⟩ := call_below isBelow
      rw [run_bytesTotal, if_pos zero] at status
      rw [run_append, List.rdropWhile_concat_pos _ _ _ zero, status]
      exact ⟨ih.1, fun _ => bytesDone (run_bytesTotal.symm ▸ zero)⟩
    · rw [List.rdropWhile_concat_neg _ _ _ zero, List.rtakeWhile_concat_neg _ _ _ zero]
      exact ⟨rfl, fun nonempty => absurd rfl nonempty⟩

/-- Where a run ends with a call that does not set the progress to zero, a completed task is done. -/
theorem run_completed (task : TransferTask) (unfinished : task.status ≠ .completed)
    (calls : List Call) (ends : ∀ c ∈ calls.getLast?, c.toZero task.bytesTotal = false) :
    ((task.run calls).status = .completed ↔
      (calls.getLast?.any (Call.toTotal task.bytesTotal)) = true) ∧
      ((task.run calls).status = .completed → (task.run calls).bytesDone = task.bytesTotal) := by
  rcases List.eq_nil_or_concat' calls with rfl | ⟨front, c, rfl⟩
  · exact ⟨by simpa [TransferTask.run] using unfinished, fun done => absurd done unfinished⟩
  · have isTotal : (task.run front).bytesTotal = task.bytesTotal := run_bytesTotal
    rw [List.getLast?_concat] at ends ⊢
    rw [run_append, Option.any_some]
    by_cases isBelow : c.below task.bytesTotal
    · have status := (call_below (isTotal.symm ▸ isBelow)).2.1
      rw [isTotal, ends c rfl] at status
      have notTotal : c.toTotal task.bytesTotal = false := by
        cases c with
        | updateProgress bytesDone now => simpa [Call.toTotal, Call.below] using isBelow
        | acceptReceive targetPath now => rfl
        | markInProgress now => rfl
        | markFailed message now => rfl
      simp [status, notTotal]
    · obtain ⟨_, _, completed, done⟩ := call_settles (isTotal.symm ▸ isBelow)
      rw [isTotal] at completed done
      exact ⟨completed, fun isCompleted => done (completed.mp isCompleted)⟩

theorem run_bytesDone_le (task : TransferTask) (small : task.bytesDone ≤ task.bytesTotal)
    (calls : List Call) : (task.run calls).bytesDone ≤ task.bytesTotal := by
  induction calls using List.reverseRecOn with
  | nil => exact small
  | append_singleton calls c ih =>
    have isTotal : (task.run calls).bytesTotal = task.bytesTotal := run_bytesTotal
    rw [← isTotal] at ih ⊢
    rw [run_append]
    exact call_bytesDone_le ih

/-- **Status and counter agree**, unless the total was reached and the progress was then set back to
zero: `update_progress` sets the counter and leaves the status. -/
theorem completed_iff_done (taskId : String) (now : Int) (peerId sourcePath : String)
    (networkMode : NetworkMode) (total : Nat) (calls : List Call) :
    (((TransferTask.newSend taskId now peerId sourcePath networkMode total).run calls).bytesDone ≤
        total ∧
      (((TransferTask.newSend taskId now peerId sourcePath networkMode total).run calls).status =
          .completed →
        ((TransferTask.newSend taskId now peerId sourcePath networkMode total).run calls).bytesDone =
          total)) ↔ ¬ SetBackToZero total calls := by
  have small : ((TransferTask.newSend taskId now peerId sourcePath networkMode total).run
      calls).bytesDone ≤ total := run_bytesDone_le _ (Nat.zero_le _) calls
  rw [and_iff_right small]
  have unfinished : (TransferTask.newSend taskId now peerId sourcePath networkMode total).status ≠
      .completed := fun same => by cases same
  obtain ⟨status, zero⟩ :=
    run_toZero (TransferTask.newSend taskId now peerId sourcePath networkMode total) calls
  have ends : ∀ c ∈ (calls.rdropWhile (Call.toZero total)).getLast?, c.toZero total = false := by
    intro c last
    have nonempty : calls.rdropWhile (Call.toZero total) ≠ [] := by
      intro nothing
      rw [nothing] at last
      cases last
    rw [List.getLast?_eq_some_getLast nonempty] at last
    rw [← Option.some.inj last]
    exact Bool.eq_false_iff.mpr (List.rdropWhile_last_not _ _ nonempty)
  obtain ⟨completed, done⟩ := run_completed _ unfinished _ ends
  have split : calls.rdropWhile (Call.toZero total) ++ calls.rtakeWhile (Call.toZero total) = calls :=
    List.rdropWhile_append_rtakeWhile
  by_cases trailing : calls.rtakeWhile (Call.toZero total) = []
  · rw [trailing, List.append_nil] at split
    rw [split] at done
    exact iff_of_true done fun setBack => setBack.2 trailing
  · -- the counter is zero, and the total is not
    have positive : 0 < total := by
      obtain ⟨c, member⟩ := List.exists_mem_of_ne_nil _ trailing
      have isZero := List.mem_rtakeWhile_imp member
      cases c with
      | updateProgress bytesDone now =>
        have less : bytesDone < total := of_decide_eq_true (Bool.and_eq_true _ _ ▸ isZero).1
        exact Nat.zero_lt_of_lt less
      | acceptReceive targetPath now => cases isZero
      | markInProgress now => cases isZero
      | markFailed message now => cases isZero
    rw [zero trailing, status]
    constructor
    · exact fun agree setBack => Nat.ne_of_lt positive (agree (completed.mpr setBack.1))
    · exact fun agree isCompleted => absurd ⟨completed.mp isCompleted, trailing⟩ agree

/-- A completed task may have done nothing. -/
theorem completedAtZero :
    ((TransferTask.newSend "id" 0 "peer" "/s" .lan 2).run
        [.updateProgress 2 1, .updateProgress 0 2]).bytesDone = 0 ∧
      ¬ (((TransferTask.newSend "id" 0 "peer" "/s" .lan 2).run
          [.updateProgress 2 1, .updateProgress 0 2]).status = .completed →
        ((TransferTask.newSend "id" 0 "peer" "/s" .lan 2).run
          [.updateProgress 2 1, .updateProgress 0 2]).bytesDone = 2) := by
  decide

end Run

end SendRs.Core
