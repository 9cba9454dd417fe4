import LongRequestProxy.Tasks.Schema

/-!
# The `task_events` table

The append-only event log: one row for each event of a task, numbered by `seq` within the task.

## Main definitions

* `TaskEventType`, `TaskEventSelect`: the event types and the rows.
* `InsertEventInput`: what the services give to `EventsRepository.insertEvent`; `seq` is not
  part of it.
* `TaskEventType.ends`: the terminal status that a terminal event reports.
-/

namespace LongRequestProxy

/-- The event types of `TASK_EVENT_TYPES`. -/
inductive TaskEventType : Type
  | progress
  | completed
  | failed
  | cancelled
  deriving DecidableEq, Repr, Inhabited

namespace TaskEventType

/-- The text stored in the `event_type` column. -/
def text : TaskEventType → String
  | progress => "progress"
  | completed => "completed"
  | failed => "failed"
  | cancelled => "cancelled"

/-- The status of a task whose end the event reports; `none` for an event that ends nothing. -/
def ends : TaskEventType → Option TaskStatus
  | progress => none
  | completed => some .completed
  | failed => some .failed
  | cancelled => some .cancelled

/-- Membership in `TERMINAL_EVENT_TYPES`. -/
def isTerminal (e : TaskEventType) : Bool := e.ends.isSome

theorem isTerminal_of_ends {e : TaskEventType} {s : TaskStatus} (h : e.ends = some s) :
    e.isTerminal = true ∧ s.isTerminal = true := by
  cases e <;> simp_all [ends, isTerminal] <;> subst h <;> rfl

end TaskEventType

/-- A row of `task_events`. -/
structure TaskEventSelect where
  id : String
  taskId : String
  seq : ℤ
  eventType : TaskEventType
  payload : Json
  createdAt : Timestamp

/-- The terminal status that an event of the task reports. -/
def TaskEventSelect.ends (e : TaskEventSelect) : Option TaskStatus := e.eventType.ends

/-- The input of `EventsRepository.insertEvent`, one case for each event type. -/
inductive InsertEventInput : Type
  | progress (taskId : String) (progress : ℤ)
  | completed (taskId : String) (data : Json)
  | failed (taskId : String) (error : TaskError)
  | cancelled (taskId : String)

/-- A task error as the JSON object it is stored as. -/
def TaskError.json (e : TaskError) : Json :=
  .obj ([("code", .str e.code), ("message", .str e.message)] ++
    (e.details.map fun d => ("details", d)).toList)

namespace InsertEventInput

def taskId : InsertEventInput → String
  | progress id _ | completed id _ | failed id _ | cancelled id => id

def eventType : InsertEventInput → TaskEventType
  | progress .. => .progress
  | completed .. => .completed
  | failed .. => .failed
  | cancelled .. => .cancelled

/-- The fields that remain when `taskId` and `eventType` are taken off: the `payload` column. -/
def payloadFields : InsertEventInput → Json
  | progress _ n => .obj [("progress", .num n 0)]
  | completed _ data => .obj [("data", data)]
  | failed _ error => .obj [("error", error.json)]
  | cancelled _ => .obj []

end InsertEventInput

end LongRequestProxy
