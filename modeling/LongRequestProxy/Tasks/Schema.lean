import LongRequestProxy.Data.Json

/-!
# The `tasks` table

The row type, the defaults of an insert and the two CHECK constraints of
`schemas/tasks.sql.ts`. A row is modelled with all its columns but `updated_at`, which no
function reads.

## Main definitions

* `TaskStatus`, `TaskError`, `TaskSelect`, `TaskInsert`: the column types and the rows.
* `TaskInsert.row`: the row that an INSERT stores.
* `tasksStatusCheck`, `tasksValidStateData`: the CHECK constraints, and `SatisfiesChecks` for
  both.
* `CreateTaskDto`, `CreateTaskDto.values`: a creation request that `CreateTaskSchema` accepts, and
  the columns that `TasksService.create` computes from it.
-/

namespace LongRequestProxy

/-- The task lifecycle states. -/
inductive TaskStatus : Type
  | pending
  | processing
  | completed
  | failed
  | cancelled
  deriving DecidableEq, Repr, Inhabited

namespace TaskStatus

/-- The text stored in the `status` column. -/
def text : TaskStatus → String
  | pending => "PENDING"
  | processing => "PROCESSING"
  | completed => "COMPLETED"
  | failed => "FAILED"
  | cancelled => "CANCELLED"

/-- The three states that no write leaves. -/
def isTerminal : TaskStatus → Bool
  | completed | failed | cancelled => true
  | pending | processing => false

theorem isTerminal_eq_false_iff {s : TaskStatus} :
    s.isTerminal = false ↔ s = pending ∨ s = processing := by
  cases s <;> simp [isTerminal]

end TaskStatus

/-- The structured error of a task that failed. -/
structure TaskError where
  code : String
  message : String
  details : Option Json := none

/-- A row of `tasks`. -/
structure TaskSelect where
  id : String
  idempotencyKey : Option String
  status : TaskStatus
  type : String
  payload : Json
  executorUrl : String
  callbackToken : Option String
  webhookUrl : Option String
  cancelUrl : Option String
  result : Option Json
  error : Option TaskError
  progress : ℤ
  timeoutSeconds : ℤ
  processingStartedAt : Option Timestamp
  expiresAt : Option Timestamp
  completedAt : Option Timestamp
  createdAt : Timestamp

/-- The columns that `TasksService.create` gives to an INSERT. -/
structure TaskInsert where
  type : String
  payload : Option Json
  executorUrl : String
  cancelUrl : Option String
  webhookUrl : Option String
  timeoutSeconds : ℤ
  expiresAt : Option Timestamp
  idempotencyKey : Option String
  callbackToken : Option String

/-- The row that an INSERT stores: the given columns, the generated `id`, the column defaults,
and `created_at` from the clock of the database. -/
def TaskInsert.row (v : TaskInsert) (id : String) (createdAt : Timestamp) : TaskSelect where
  id := id
  idempotencyKey := v.idempotencyKey
  status := .pending
  type := v.type
  payload := v.payload.getD (.obj [])
  executorUrl := v.executorUrl
  callbackToken := v.callbackToken
  webhookUrl := v.webhookUrl
  cancelUrl := v.cancelUrl
  result := none
  error := none
  progress := 0
  timeoutSeconds := v.timeoutSeconds
  processingStartedAt := none
  expiresAt := v.expiresAt
  completedAt := none
  createdAt := createdAt

/-! ### CHECK constraints -/

/-- `CHECK (status IN ('PENDING', 'PROCESSING', 'COMPLETED', 'FAILED', 'CANCELLED'))`. -/
def tasksStatusCheck (t : TaskSelect) : Bool :=
  ["PENDING", "PROCESSING", "COMPLETED", "FAILED", "CANCELLED"].contains t.status.text

/-- The CHECK constraint that relates the status to the two lifecycle timestamps. -/
def tasksValidStateData (t : TaskSelect) : Bool :=
  (t.status == .pending && t.processingStartedAt.isNone && t.completedAt.isNone) ||
  (t.status == .processing && t.processingStartedAt.isSome && t.completedAt.isNone) ||
  ((t.status == .completed || t.status == .failed) && t.processingStartedAt.isSome &&
    t.completedAt.isSome) ||
  (t.status == .cancelled && t.completedAt.isSome)

/-- Postgres accepts the row: both CHECK constraints hold of it. -/
def SatisfiesChecks (t : TaskSelect) : Bool :=
  tasksStatusCheck t && tasksValidStateData t

@[simp] theorem tasksStatusCheck_eq_true (t : TaskSelect) : tasksStatusCheck t = true := by
  unfold tasksStatusCheck
  cases t.status <;> decide

/-- The constraints on a row, one case for each status. -/
theorem satisfiesChecks_iff (t : TaskSelect) :
    SatisfiesChecks t = true ↔
      match t.status with
      | .pending => t.processingStartedAt = none ∧ t.completedAt = none
      | .processing => t.processingStartedAt ≠ none ∧ t.completedAt = none
      | .completed | .failed => t.processingStartedAt ≠ none ∧ t.completedAt ≠ none
      | .cancelled => t.completedAt ≠ none := by
  unfold SatisfiesChecks tasksValidStateData
  cases t.status <;> simp [Option.ne_none_iff_isSome]

@[simp] theorem satisfiesChecks_row (v : TaskInsert) (id : String) (createdAt : Timestamp) :
    SatisfiesChecks (v.row id createdAt) = true :=
  (satisfiesChecks_iff _).mpr ⟨rfl, rfl⟩

/-! ### Creation requests -/

/-- The body of `POST /tasks` as `CreateTaskSchema` returns it: `timeoutSeconds` is defaulted and
within a day. -/
structure CreateTaskDto where
  type : String
  payload : Option Json := none
  executorUrl : String
  cancelUrl : Option String := none
  webhookUrl : Option String := none
  idempotencyKey : Option String := none
  timeoutSeconds : ℤ := 300
  timeout_mem : 1 ≤ timeoutSeconds ∧ timeoutSeconds ≤ 86400 := by decide

/-- The columns that `TasksService.create` inserts, for the value `now` of `Date.now()` and the
token `callbackToken` of `randomUUID()`. -/
def CreateTaskDto.values (dto : CreateTaskDto) (now : Timestamp) (callbackToken : String) :
    TaskInsert where
  type := dto.type
  payload := dto.payload
  executorUrl := dto.executorUrl
  cancelUrl := dto.cancelUrl
  webhookUrl := dto.webhookUrl
  timeoutSeconds := dto.timeoutSeconds
  expiresAt := some (now.addSeconds dto.timeoutSeconds)
  idempotencyKey := dto.idempotencyKey
  callbackToken := some callbackToken

end LongRequestProxy
