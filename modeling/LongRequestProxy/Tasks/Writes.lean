import LongRequestProxy.Tasks.Schema

/-!
# The UPDATE statements on `tasks`

Every UPDATE that the program issues is a patch of columns together with a WHERE clause. The
statements of `TasksRepository` and `MaintenanceRepository` are written here in terms of
`updateStatus`; `TaskWrite` names the eight places of the program from which they are issued,
with the values that each place computes.

## Main definitions

* `TaskPatch`, `TaskUpdate`: the SET and the WHERE of an UPDATE.
* `updateStatus`, `updateProgress`, `cancelTask`, `expireTimedOutTasks`: the statements.
* `TaskWrite`, `TaskWrite.stmt`: the program's writes.

## Main results

* `TaskWrite.matches_iff`: the rows that a write matches.
* `TaskWrite.sameOutcome_of_isTerminal`: no write changes the outcome of a task that has ended.
-/

namespace LongRequestProxy

/-- The SET clause of an UPDATE. The outer `none` leaves a column as it is; a nullable column is
set to NULL by `some none`. -/
structure TaskPatch where
  status : Option TaskStatus := none
  progress : Option ℤ := none
  result : Option (Option Json) := none
  error : Option (Option TaskError) := none
  processingStartedAt : Option (Option Timestamp) := none
  expiresAt : Option (Option Timestamp) := none
  completedAt : Option (Option Timestamp) := none

/-- The row after the SET clause. -/
def TaskPatch.apply (s : TaskPatch) (t : TaskSelect) : TaskSelect :=
  { t with
    status := s.status.getD t.status
    progress := s.progress.getD t.progress
    result := s.result.getD t.result
    error := s.error.getD t.error
    processingStartedAt := s.processingStartedAt.getD t.processingStartedAt
    expiresAt := s.expiresAt.getD t.expiresAt
    completedAt := s.completedAt.getD t.completedAt }

/-- An UPDATE statement. -/
structure TaskUpdate where
  set : TaskPatch
  where_ : TaskSelect → Bool

/-! ### The statements of the repositories -/

/-- `TasksRepository.updateStatus`: the UPDATE guarded by the current status. -/
def updateStatus (id : String) (source : List TaskStatus) (target : TaskStatus)
    (extra : TaskPatch) : TaskUpdate where
  set := { extra with status := extra.status.or (some target) }
  where_ t := t.id == id && source.contains t.status

/-- `TasksRepository.updateProgress`. -/
def updateProgress (id : String) (progress : ℤ) : TaskUpdate where
  set := { progress := some progress }
  where_ t := t.id == id

/-- The UPDATE of `TasksRepository.cancelTask`. -/
def cancelTask (id : String) (now : Timestamp) : TaskUpdate where
  set := { status := some .cancelled, completedAt := some (some now) }
  where_ t := t.id == id && [TaskStatus.pending, .processing].contains t.status

/-- The error that the sweeper stores. -/
def timeoutError : TaskError where
  code := "BUSINESS_TIMEOUT"
  message := "Task exceeded its configured timeout and was automatically failed."

/-- The row selection of `MaintenanceRepository.expireTimedOutTasksBatch`. A NULL deadline is
not before any instant. -/
def isOverdue (now : Timestamp) (t : TaskSelect) : Bool :=
  [TaskStatus.pending, .processing].contains t.status &&
    t.expiresAt.any fun deadline => decide (deadline < now)

/-- The UPDATE of `MaintenanceRepository.expireTimedOutTasksBatch`, restricted to one of the
rows that its locking subquery selects. -/
def expireTimedOutTasks (id : String) (now : Timestamp) : TaskUpdate where
  set :=
    { status := some .failed, completedAt := some (some now), error := some (some timeoutError) }
  where_ t := t.id == id && isOverdue now t

/-! ### The program's writes -/

/-- The places from which the program updates a task, with the values computed there. -/
inductive TaskWrite : Type
  /-- `DispatchProcessor.process`, claiming the task. -/
  | dispatchClaim (now : Timestamp) (timeoutSeconds : ℤ)
  /-- `DispatchProcessor.process`, after the executor refused or could not be reached. -/
  | dispatchFailure (now : Timestamp) (error : TaskError)
  /-- `DispatchProcessor.process`, after any other error. -/
  | dispatchRevert
  /-- `ExecutorService.submitResult` with status `completed`. -/
  | submitCompleted (now : Timestamp) (result : List (String × Json))
  /-- `ExecutorService.submitResult` with status `failed`. -/
  | submitFailed (now : Timestamp) (error : TaskError)
  /-- `ExecutorService.updateProgress`. -/
  | progress (progress : ℤ)
  /-- `TasksService.cancel`. -/
  | cancel (now : Timestamp)
  /-- `TimeoutSweeperProcessor.process`, for one row of a batch. -/
  | expire (now : Timestamp)

namespace TaskWrite

/-- The statement that a place issues for the task `id`. -/
def stmt (id : String) : TaskWrite → TaskUpdate
  | dispatchClaim now timeoutSeconds => updateStatus id [.pending] .processing
      { processingStartedAt := some (some now)
        expiresAt := some (some (now.addSeconds timeoutSeconds)) }
  | dispatchFailure now error => updateStatus id [.processing] .failed
      { completedAt := some (some now), error := some (some error) }
  | dispatchRevert => updateStatus id [.processing] .pending
      { processingStartedAt := some none, expiresAt := some none }
  | submitCompleted now result => updateStatus id [.processing] .completed
      { result := some (some (.obj result)), completedAt := some (some now) }
  | submitFailed now error => updateStatus id [.processing] .failed
      { error := some (some error), completedAt := some (some now) }
  | progress n => updateProgress id n
  | cancel now => cancelTask id now
  | expire now => expireTimedOutTasks id now

/-- The failure that `DispatchProcessor.process` records. -/
def isDispatchFailure : TaskWrite → Bool
  | dispatchFailure .. => true
  | _ => false

/-- The revert of `DispatchProcessor.process`. -/
def isDispatchRevert : TaskWrite → Bool
  | dispatchRevert => true
  | _ => false

/-- The claim of `DispatchProcessor.process`. -/
def isDispatchClaim : TaskWrite → Bool
  | dispatchClaim .. => true
  | _ => false

/-- The write's WHERE clause matches the row. -/
def Matches (w : TaskWrite) (t : TaskSelect) : Bool := (w.stmt t.id).where_ t

/-- The row that the write makes of `t`. -/
def apply (w : TaskWrite) (t : TaskSelect) : TaskSelect := (w.stmt t.id).set.apply t

/-- The statuses of the rows that a write matches. -/
theorem matches_iff (w : TaskWrite) (t : TaskSelect) :
    w.Matches t = true ↔
      match w with
      | dispatchClaim .. => t.status = .pending
      | dispatchFailure .. | dispatchRevert | submitCompleted .. | submitFailed .. =>
        t.status = .processing
      | progress _ => True
      | cancel _ => t.status = .pending ∨ t.status = .processing
      | expire now => isOverdue now t = true := by
  cases w <;> simp [Matches, stmt, updateStatus, updateProgress, cancelTask, expireTimedOutTasks]

/-- The WHERE clause of a write names the task. -/
theorem id_of_where {w : TaskWrite} {id : String} {t : TaskSelect}
    (h : (w.stmt id).where_ t = true) : t.id = id := by
  cases w <;>
    simp_all [stmt, updateStatus, updateProgress, cancelTask, expireTimedOutTasks]

/-- On the rows that its WHERE clause names, a statement is the write that issues it. -/
theorem of_where {w : TaskWrite} {id : String} {t : TaskSelect}
    (h : (w.stmt id).where_ t = true) :
    t.id = id ∧ w.Matches t = true ∧ (w.stmt id).set.apply t = w.apply t := by
  obtain rfl := id_of_where h
  exact ⟨rfl, h, rfl⟩

theorem isOverdue_iff (now : Timestamp) (t : TaskSelect) :
    isOverdue now t = true ↔ (t.status = .pending ∨ t.status = .processing) ∧
      ∃ deadline, t.expiresAt = some deadline ∧ deadline < now := by
  simp [isOverdue, Option.any_eq_true]

@[simp] theorem apply_id (w : TaskWrite) (t : TaskSelect) : (w.apply t).id = t.id := rfl

@[simp] theorem apply_idempotencyKey (w : TaskWrite) (t : TaskSelect) :
    (w.apply t).idempotencyKey = t.idempotencyKey := rfl

/-- Only a progress write matches a row in a terminal status. -/
theorem eq_progress_of_isTerminal {w : TaskWrite} {t : TaskSelect} (hm : w.Matches t = true)
    (ht : t.status.isTerminal = true) : ∃ n, w = progress n := by
  rw [matches_iff] at hm
  cases w with
  | progress n => exact ⟨n, rfl⟩
  | expire now =>
    obtain ⟨hs | hs, -⟩ := (isOverdue_iff now t).mp hm <;> simp [hs, TaskStatus.isTerminal] at ht
  | cancel now => obtain hs | hs := hm <;> simp [hs, TaskStatus.isTerminal] at ht
  | _ => simp [show t.status = _ from hm, TaskStatus.isTerminal] at ht

/-- The terminal status in which a write leaves a task. -/
def ending : TaskWrite → Option TaskStatus
  | dispatchClaim .. | dispatchRevert | progress _ => none
  | dispatchFailure .. | submitFailed .. | expire _ => some .failed
  | submitCompleted .. => some .completed
  | cancel _ => some .cancelled

theorem isTerminal_of_ending {w : TaskWrite} {s : TaskStatus} (h : w.ending = some s) :
    s.isTerminal = true := by
  cases w <;> cases h <;> rfl

theorem status_apply_of_ending {w : TaskWrite} {s : TaskStatus} (h : w.ending = some s)
    (t : TaskSelect) : (w.apply t).status = s := by
  cases w <;> cases h <;> rfl

/-- A write that ends a task matches it only while it has not ended. -/
theorem not_isTerminal_of_ending {w : TaskWrite} {s : TaskStatus} {t : TaskSelect}
    (h : w.ending = some s) (hm : w.Matches t = true) : t.status.isTerminal = false := by
  by_contra hterm
  obtain ⟨n, rfl⟩ := eq_progress_of_isTerminal hm (by simpa using hterm)
  cases h

/-- A write that ends no task leaves a task that has not ended so. -/
theorem isTerminal_apply_of_ending_eq_none {w : TaskWrite} {t : TaskSelect}
    (h : w.ending = none) (ht : t.status.isTerminal = false) :
    (w.apply t).status.isTerminal = false := by
  cases w with
  | dispatchClaim _ _ => rfl
  | dispatchRevert => rfl
  | progress n => exact ht
  | _ => cases h

end TaskWrite

/-! ### The outcome of a task -/

/-- Two rows agree on the columns that record how a task ended. -/
structure SameOutcome (t t' : TaskSelect) : Prop where
  status : t'.status = t.status
  result : t'.result = t.result
  error : t'.error = t.error
  completedAt : t'.completedAt = t.completedAt
  processingStartedAt : t'.processingStartedAt = t.processingStartedAt
  expiresAt : t'.expiresAt = t.expiresAt

namespace SameOutcome

@[refl] theorem refl (t : TaskSelect) : SameOutcome t t := ⟨rfl, rfl, rfl, rfl, rfl, rfl⟩

theorem trans {t t' t'' : TaskSelect} (h : SameOutcome t t') (h' : SameOutcome t' t'') :
    SameOutcome t t'' :=
  ⟨h'.status.trans h.status, h'.result.trans h.result, h'.error.trans h.error,
    h'.completedAt.trans h.completedAt, h'.processingStartedAt.trans h.processingStartedAt,
    h'.expiresAt.trans h.expiresAt⟩

end SameOutcome

/-- No write changes the outcome of a task in a terminal status. -/
theorem TaskWrite.sameOutcome_of_isTerminal {w : TaskWrite} {t : TaskSelect}
    (hm : w.Matches t = true) (ht : t.status.isTerminal = true) : SameOutcome t (w.apply t) := by
  obtain ⟨n, rfl⟩ := TaskWrite.eq_progress_of_isTerminal hm ht
  exact ⟨rfl, rfl, rfl, rfl, rfl, rfl⟩

end LongRequestProxy
