import LongRequestProxy.Delivery.EventsRepository
import LongRequestProxy.HttpRetry.Service

/-!
# The workers that call executors and clients

`DispatchProcessor.process` claims a `PENDING` task and posts it to its executor; the outcome of
the post decides between leaving the task `PROCESSING`, failing it, and reverting it to
`PENDING`. `CancelProcessor.process` notifies the executor of a cancelled task, and
`WebhookProcessor.process` the client of a result: it reads the task again and posts what it reads.

## Main definitions

* `DispatchProcessor.process`, `CancelProcessor.process`.
* `webhookPayload`, `WebhookProcessor.deliver`, `WebhookProcessor.process`.
-/

namespace LongRequestProxy

/-- The error that `DispatchProcessor.process` stores for an error of the client; `none` for an
error that it takes for one of the infrastructure. -/
def dispatchError : JsError → Option TaskError
  | .nonRetryable message _ => some { code := "EXECUTOR_REJECTED", message := message }
  | .dispatchFailed message _ _ => some { code := "DISPATCH_FAILED", message := message }
  | _ => none

/-- The catch block of `DispatchProcessor.process`. -/
def DispatchProcessor.onError (taskId : String) (err : JsError) : Async Unit :=
  match dispatchError err with
  | some error => do
    let now ← call .now
    let _ ← call (.updateTask taskId (.dispatchFailure now error))
  | none => do
    tryCatch (do let _ ← call (.updateTask taskId .dispatchRevert)) fun _ => return ()
    throw err

/-- `DispatchProcessor.process`. -/
def DispatchProcessor.process (http : HttpClient) (taskId : String) (timeoutSeconds : ℤ) :
    Async Unit := do
  let now ← call .now
  match ← call (.updateTask taskId (.dispatchClaim now timeoutSeconds)) with
  | none => return ()
  | some task =>
    tryCatch
      (do
        let _ ← http.post task.executorUrl
          (.obj [("taskId", .str taskId), ("payload", task.payload)])
          ("Bearer " ++ task.callbackToken.getD "") { attempts := 3 })
      (onError taskId)

/-- `CancelProcessor.process`; every error of the client is only logged. -/
def CancelProcessor.process (http : HttpClient) (taskId : String) : Async Unit := do
  match ← call (.findTask taskId) with
  | none => return ()
  | some task =>
    match task.cancelUrl.filter (· ≠ "") with
    | none => return ()
    | some cancelUrl =>
      tryCatch
        (do
          let _ ← http.post cancelUrl (.obj [("taskId", .str taskId)])
            ("Bearer " ++ task.callbackToken.getD "") { attempts := 2, baseDelayMs := 1000 })
        fun _ => return ()

/-- The payload of a webhook: `result` and `error` are there when they are neither an SQL `NULL`
nor a JSON `null`. -/
def webhookPayload (task : TaskSelect) : Json :=
  .obj ([("taskId", .str task.id), ("status", .str task.status.text)] ++
    ((task.result.filter fun result => !result.isNull).map fun result =>
      ("result", result)).toList ++
    (task.error.map fun error => ("error", error.json)).toList)

/-- The post of `WebhookProcessor.process`, which has no `Authorization` header; the errors of the
client are only logged. -/
def WebhookProcessor.deliver (http : HttpClient) (webhookUrl : String) (payload : Json) :
    Async Unit :=
  tryCatch
    (do
      let _ ← http.post webhookUrl payload ""
        { attempts := 5, baseDelayMs := 1000, maxDelayMs := 60000 })
    fun err => if (dispatchError err).isSome then return () else throw err

/-- `WebhookProcessor.process`. -/
def WebhookProcessor.process (http : HttpClient) (taskId : String) : Async Unit := do
  match ← call (.findTask taskId) with
  | none => return ()
  | some task =>
    match task.webhookUrl.filter (· ≠ "") with
    | none => return ()
    | some webhookUrl => deliver http webhookUrl (webhookPayload task)

end LongRequestProxy
