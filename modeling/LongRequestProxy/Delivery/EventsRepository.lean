import LongRequestProxy.Store.Calls
import Mathlib.Data.List.Sort

/-!
# `EventsRepository`

Events are numbered under a per-task advisory lock: `insertEventInTx` takes the lock, reads the
highest number and inserts. `insertEvent` does this in a transaction of its own.
-/

namespace LongRequestProxy

/-- The Pub/Sub channel of a task. -/
def taskChannel (taskId : String) : String := "task:" ++ taskId

/-- A nullable text column that JavaScript takes for true. -/
def truthy (s : Option String) : Bool := s.any (· ≠ "")

namespace EventsRepository

/-- `EventsRepository.insertEventInTx`. -/
def insertEventInTx (input : InsertEventInput) : Async TaskEventSelect := do
  call (.txAdvisoryLock input.taskId)
  let nextSeq ← call (.txNextSeq input.taskId)
  call (.txInsertEvent nextSeq input)

/-- `EventsRepository.insertEvent`. -/
def insertEvent (input : InsertEventInput) : Async TaskEventSelect := do
  let inserted ← insertEventInTx input
  call .txCommit
  return inserted

end EventsRepository

/-- `EventsRepository.findEventsSince`: the events of a task after a number, in order. -/
def Backend.findEventsSince (σ : Backend) (taskId : String) (afterSeq : ℤ) :
    List TaskEventSelect :=
  (σ.events.filter fun e => e.taskId == taskId && decide (afterSeq < e.seq)).insertionSort
    fun e e' => e.seq ≤ e'.seq

end LongRequestProxy
