import LongRequestProxy.Delivery.EventsRepository
import LongRequestProxy.Idempotency.Service

/-!
# `TasksService`

Creation takes the idempotency slot, inserts the row, enqueues the dispatch job and commits the
slot; a failure on the way undoes what was done, as far as the servers answer. Cancellation
updates the row and inserts the event in one transaction.

## Main definitions

* `TasksRepository.cancelTask`, `TasksService.cancel`.
* `TasksService.create`, made of `insertOrRelease`, `enqueueOrRollback` and `commitQuietly`.
-/

namespace LongRequestProxy

/-- `TasksRepository.cancelTask`. -/
def TasksRepository.cancelTask (id : String) : Async (Option (TaskSelect × TaskEventSelect)) := do
  let now ← call .now
  match ← call (.txCancelTask id now) with
  | none =>
    call .txCommit
    return none
  | some task =>
    let event ← EventsRepository.insertEventInTx (.cancelled id)
    call .txCommit
    return some (task, event)

/-- The response to a creation request. -/
structure TaskCreatedResponse where
  taskId : String
  statusUrl : String
  streamUrl : String
  deriving DecidableEq, Repr

namespace TasksService

/-- `IDEMPOTENCY_TTL_SECONDS`. -/
def idempotencyTtlSeconds : ℤ := 86400

/-- `TasksService.buildResponse`. -/
def buildResponse (taskId baseUrl : String) : TaskCreatedResponse where
  taskId := taskId
  statusUrl := baseUrl ++ "/tasks/" ++ taskId
  streamUrl := baseUrl ++ "/tasks/" ++ taskId ++ "/stream"

/-- Release the slot of a failed creation; an error is only logged. -/
def releaseQuietly : Option String → Async Unit
  | none => return ()
  | some key => tryCatch (IdempotencyService.releaseSlot key) fun _ => return ()

/-- The first try block of `create`: insert the row, or release the slot. -/
def insertOrRelease (dto : CreateTaskDto) (key : Option String) : Async TaskSelect :=
  tryCatch
    (do
      let now ← call .now
      let callbackToken ← call .randomUUID
      call (.insertTask dto now callbackToken))
    fun error => do
      releaseQuietly key
      throw error

/-- The second try block of `create`: enqueue the dispatch job, or delete the row and release the
slot, whether or not the row could be deleted. -/
def enqueueOrRollback (task : TaskSelect) (key : Option String) : Async Unit :=
  tryCatch (call (.enqueue (.dispatch task.id task.timeoutSeconds)))
    fun error => do
      tryCatch (call (.deleteTask task.id)) fun _ => return ()
      releaseQuietly key
      throw error

/-- Commit the slot; an error is only logged. -/
def commitQuietly (key : Option String) (taskId : String) : Async Unit :=
  match key with
  | none => return ()
  | some key => tryCatch (IdempotencyService.commitResult key taskId) fun _ => return ()

/-- `create` once the slot is taken, or when there is no key. -/
def createTask (dto : CreateTaskDto) (baseUrl : String) (key : Option String) :
    Async TaskCreatedResponse := do
  let task ← insertOrRelease dto key
  enqueueOrRollback task key
  commitQuietly key task.id
  return buildResponse task.id baseUrl

/-- `TasksService.create`. -/
def create (dto : CreateTaskDto) (baseUrl : String) : Async TaskCreatedResponse :=
  -- an empty key is falsy: the slot is skipped
  match dto.idempotencyKey.filter (· ≠ "") with
  | none => createTask dto baseUrl none
  | some key => do
    match ← IdempotencyService.occupySlot key idempotencyTtlSeconds with
    | .pending =>
      throw (.conflict
        "A task with this idempotency key is currently being created. Retry in a moment.")
    | .duplicate taskId => return buildResponse taskId baseUrl
    | .acquired => createTask dto baseUrl (some key)

/-- `TasksService.cancel`. -/
def cancel (id : String) : Async Unit := do
  match ← TasksRepository.cancelTask id with
  | none =>
    match ← call (.findTask id) with
    | none => throw (.notFound ("Task " ++ id ++ " not found"))
    | some currentTask =>
      throw (.conflict ("Task " ++ id ++ " cannot be cancelled in its current state (" ++
        currentTask.status.text ++ ")."))
  | some (task, event) =>
    call (.publish (taskChannel id) event)
    if truthy task.cancelUrl then call (.enqueue (.cancel id))

end TasksService

end LongRequestProxy
