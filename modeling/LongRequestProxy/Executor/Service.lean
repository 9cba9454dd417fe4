import LongRequestProxy.Data.JsNumber
import LongRequestProxy.Delivery.EventsRepository

/-!
# The executor's callbacks

`CallbackAuthGuard` reads the task and checks token and status; the service then writes. The
status update and the event insert of `submitResult` are separate transactions.

## Main definitions

* `extractBearerToken`, `tokensMatch`, `CallbackAuthGuard.canActivate`.
* `ExecutorService.submitResult`, `ExecutorService.updateProgress`.
-/

namespace LongRequestProxy

/-! ### `CallbackAuthGuard` -/

/-- `CallbackAuthGuard.extractBearerToken`. -/
def extractBearerToken (authorization : Option String) : Option String :=
  authorization.bind fun auth =>
    if "Bearer ".toList.isPrefixOf auth.toList then
      let token := jsTrim (auth.toList.drop 7)
      if token.length > 0 then some (String.ofList token) else none
    else none

/-- `Buffer.from(s)`: the bytes of the text in UTF-8. -/
def utf8Bytes (s : String) : List UInt8 := s.toList.flatMap String.utf8EncodeChar

/-- `Buffer.alloc(n)` with `b` copied into it. -/
def padded (n : ℕ) (b : List UInt8) : List UInt8 := b ++ List.replicate (n - b.length) 0

/-- The comparison of `CallbackAuthGuard.validateToken`: constant-time on the padded buffers,
then of the lengths. -/
def tokensMatch (provided stored : String) : Bool :=
  let a := utf8Bytes provided
  let b := utf8Bytes stored
  let maxLen := max a.length b.length
  padded maxLen a == padded maxLen b && a.length == b.length

/-- `CallbackAuthGuard.canActivate`: the task that it attaches to the request. -/
def CallbackAuthGuard.canActivate (taskId : String) (authorization : Option String) :
    Async TaskSelect := do
  match extractBearerToken authorization with
  | none => throw (.unauthorized "Bearer token is required")
  | some token =>
    if taskId = "" then throw (.notFound "Task not found")
    else
      match ← call (.findTask taskId) with
      | none => throw (.notFound "Task not found")
      | some task =>
        match task.callbackToken.filter (· ≠ "") with
        | none => throw (.unauthorized ("Task " ++ taskId ++ " has no callback token configured"))
        | some stored =>
          if !tokensMatch token stored then throw (.unauthorized "Invalid callback token")
          else if task.status ≠ .processing then
            throw (.conflict ("Task " ++ taskId ++ " is not in PROCESSING state (current: " ++
              task.status.text ++ ")"))
          else return task

/-! ### `ExecutorService` -/

/-- The body of `POST /tasks/:id/result` as `SubmitResultSchema` returns it: the result is an
object. -/
inductive SubmitResultDto : Type
  | completed (result : List (String × Json))
  | failed (error : TaskError)

namespace SubmitResultDto

/-- The UPDATE of `submitResult`. -/
def write (now : Timestamp) : SubmitResultDto → TaskWrite
  | completed result => .submitCompleted now result
  | failed error => .submitFailed now error

/-- The event of `submitResult`. -/
def event (taskId : String) : SubmitResultDto → InsertEventInput
  | completed result => .completed taskId (.obj result)
  | failed error => .failed taskId error

end SubmitResultDto

/-- The body of `PATCH /tasks/:id/progress`. -/
structure UpdateProgressDto where
  progress : ℤ
  progress_mem : 0 ≤ progress ∧ progress ≤ 100 := by decide

namespace ExecutorService

/-- `ExecutorService.submitResult`; its two branches differ in the values only. -/
def submitResult (task : TaskSelect) (dto : SubmitResultDto) : Async Unit := do
  let now ← call .now
  match ← call (.updateTask task.id (dto.write now)) with
  | none => return ()
  | some _ =>
    let event ← EventsRepository.insertEvent (dto.event task.id)
    call (.publish (taskChannel task.id) event)
    if truthy task.webhookUrl then call (.enqueue (.webhook task.id))

/-- `ExecutorService.updateProgress`. -/
def updateProgress (task : TaskSelect) (dto : UpdateProgressDto) : Async Unit := do
  let _ ← call (.updateTask task.id (.progress dto.progress))
  let event ← EventsRepository.insertEvent (.progress task.id dto.progress)
  call (.publish (taskChannel task.id) event)

end ExecutorService

end LongRequestProxy
