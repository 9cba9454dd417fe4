import LongRequestProxy.Async.Protocol
import LongRequestProxy.Executor.Service
import LongRequestProxy.Executor.Workers
import LongRequestProxy.Maintenance.Service
import LongRequestProxy.Tasks.Service

/-!
# The system

The requests and jobs that start functions of the program, and the service that they make
together: any number of them run interleaved over the shared state, in any number of processes.
A job may be delivered any number of times once it was enqueued.
-/

namespace LongRequestProxy

open Async

/-- What starts a function of the program. -/
inductive Request : Type
  /-- `POST /tasks`. -/
  | create (dto : CreateTaskDto) (baseUrl : String)
  /-- `DELETE /tasks/:id`. -/
  | cancel (id : String)
  /-- `POST /tasks/:id/result`. -/
  | result (id : String) (authorization : Option String) (dto : SubmitResultDto)
  /-- `PATCH /tasks/:id/progress`. -/
  | progress (id : String) (authorization : Option String) (dto : UpdateProgressDto)
  /-- A job of the `dispatch` queue. -/
  | dispatch (taskId : String) (timeoutSeconds : ℤ)
  /-- A job of the `cancel` queue. -/
  | notifyCancel (taskId : String)
  /-- A job of the `webhook` queue. -/
  | notifyWebhook (taskId : String)
  /-- A run of the timeout sweeper, with a bound on its batches. -/
  | sweep (batches : ℕ)
  /-- A run of the retention job, with a bound on its batches. -/
  | retain (retentionDays : ℤ) (batches : ℕ)

/-- What a request is answered with; jobs are not answered. -/
inductive Response : Type
  | created (response : TaskCreatedResponse)
  | done

/-- The function that a request starts. -/
def Request.run (http : HttpClient) : Request → Async Response
  | create dto baseUrl => do
    let response ← TasksService.create dto baseUrl
    return .created response
  | cancel id => do
    TasksService.cancel id
    return .done
  | result id authorization dto => do
    let task ← CallbackAuthGuard.canActivate id authorization
    ExecutorService.submitResult task dto
    return .done
  | progress id authorization dto => do
    let task ← CallbackAuthGuard.canActivate id authorization
    ExecutorService.updateProgress task dto
    return .done
  | dispatch taskId timeoutSeconds => do
    DispatchProcessor.process http taskId timeoutSeconds
    return .done
  | notifyCancel taskId => do
    CancelProcessor.process http taskId
    return .done
  | notifyWebhook taskId => do
    WebhookProcessor.process http taskId
    return .done
  | sweep batches => do
    TimeoutSweeperProcessor.process batches
    return .done
  | retain retentionDays batches => do
    let _ ← MaintenanceRepository.deleteOldData retentionDays batches
    return .done

/-- A job can be delivered once it was enqueued; every other request at any time. -/
def Request.admitted (σ : Backend) : Request → Bool
  | dispatch taskId timeoutSeconds => σ.queue.contains (.dispatch taskId timeoutSeconds)
  | notifyCancel taskId => σ.queue.contains (.cancel taskId)
  | notifyWebhook taskId => σ.queue.contains (.webhook taskId)
  | _ => true

/-- The clock of the servers moves on. -/
def Backend.tick (t : Timestamp) (σ : Backend) : Option Backend :=
  if σ.clock ≤ t then some { σ with clock := t } else none

/-- The program over its servers. -/
abbrev proxy (http : HttpClient) : Service where
  Call := Await
  Reply := Reply
  Oracle := Oracle
  Store := Backend
  Request := Request
  Answer := Except JsError Response
  Ambient := Timestamp
  perform := perform
  abort p σ := σ.rollback p
  ambient := Backend.tick
  admits := Request.admitted
  body req := (req.run http).run

/-- The system before its first request. -/
def initial (http : HttpClient) (clock : Timestamp) : (proxy http).Config :=
  ⟨{ clock := clock }, []⟩

/-- **Everything that one move can do to the shared state.** -/
theorem store_cases_of_move {http : HttpClient} {c c' : (proxy http).Config}
    {m : (proxy http).Move} (h : c.move m = some c') :
    (∃ time, c'.store = { c.store with clock := time }) ∨
    (∃ p, c'.store = c.store.rollback p) ∨
    ∃ p o req x k v σ, m = .call p o ∧ c.procs[p]? = some (.running req (.call x k)) ∧
      (x.isRemote = true → o.fault ≠ .failed) ∧ exec p o c.store x = some (.ok (v, σ)) ∧
      (c'.store = σ ∨ c'.store = σ.rollback p) := by
  obtain ⟨req, rfl, -, rfl⟩ | ⟨p, o, req, x, k, r, s', rfl, hp, hs, rfl⟩ |
    ⟨p, req, x, k, rfl, -, rfl⟩ | ⟨t, s', rfl, hs, rfl⟩ := Service.Config.move_cases h
  · exact .inl ⟨c.store.clock, rfl⟩
  · obtain ⟨e, -, rfl, -⟩ | ⟨v, -, hx, hf⟩ | ⟨v, σ₁, -, hx, hf, rfl⟩ := perform_cases hs
    · exact .inr (.inl ⟨p, rfl⟩)
    · exact .inr (.inr ⟨p, o, req, x, k, v, s', rfl, hp, hf, hx, .inl rfl⟩)
    · have hf : x.isRemote = true → o.fault ≠ .failed := fun _ => by simp [hf]
      exact .inr (.inr ⟨p, o, req, x, k, v, σ₁, rfl, hp, hf, hx, .inr rfl⟩)
  · exact .inr (.inl ⟨p, rfl⟩)
  · simp only [Backend.tick] at hs
    split at hs
    · cases hs
      exact .inl ⟨t, rfl⟩
    · cases hs

/-- Ids stay issued. -/
theorem issued_subset_of_move {http : HttpClient} {c c' : (proxy http).Config}
    {m : (proxy http).Move} (h : c.move m = some c') : c.store.issued ⊆ c'.store.issued := by
  obtain ⟨time, hσ⟩ | ⟨p, hσ⟩ | ⟨p, o, req, x, k, v, σ, -, -, -, hx, hσ⟩ := store_cases_of_move h
  · rw [hσ]
    exact List.Subset.refl _
  · rw [hσ]
    exact List.Subset.refl _
  · have hissued := issued_subset_of_exec hx
    obtain hσ | hσ := hσ <;> rw [hσ] <;> exact hissued

/-- Only its own steps touch the transaction of a program. -/
theorem tx_of_move_of_ne {http : HttpClient} {c c' : (proxy http).Config} {m : (proxy http).Move}
    (h : c.move m = some c') {p : ℕ} (hcall : ∀ o, m ≠ .call p o) (hcrash : m ≠ .crash p) :
    c'.store.tx p = c.store.tx p := by
  obtain ⟨req, -, -, rfl⟩ | ⟨q, o, req, x, k, r, s', rfl, -, hs, rfl⟩ |
    ⟨q, req, x, k, rfl, -, rfl⟩ | ⟨t, s', -, hs, rfl⟩ := Service.Config.move_cases h
  · rfl
  · have hne : p ≠ q := fun heq => hcall o (by rw [heq])
    obtain ⟨_, -, rfl, -⟩ | ⟨_, -, hx, -⟩ | ⟨_, σ, -, hx, -, rfl⟩ := perform_cases hs
    · exact Backend.tx_rollback_of_ne hne
    · exact exec_tx_of_ne hx hne
    · exact (Backend.tx_rollback_of_ne hne).trans (exec_tx_of_ne hx hne)
  · exact Backend.tx_rollback_of_ne fun heq => hcrash (by rw [heq])
  · simp only [Backend.tick] at hs
    split at hs
    · cases hs
      rfl
    · cases hs

/-- A commit that reaches the server is made, whatever is replied. -/
theorem store_of_commit {http : HttpClient} {c c' : (proxy http).Config} {m : (proxy http).Move}
    {p : ℕ} {o : Oracle} (h : c.move m = some c') (hcall : c.callOf m = some (p, o, .txCommit))
    (hf : o.fault ≠ .failed) :
    c'.store = c.store.commit p ∨ c'.store = (c.store.commit p).rollback p := by
  obtain ⟨r, hr⟩ := Service.Config.perform_of_callOf hcall h
  obtain ⟨e, -, -, hfail | hx⟩ | ⟨v, -, hx, -⟩ | ⟨v, σ, -, hx, -, hσ⟩ := perform_cases hr
  · exact absurd hfail hf
  · cases hx
  · have hσ : c.store.commit p = c'.store := by simpa [exec] using hx
    exact .inl hσ.symm
  · have hσ' : c.store.commit p = σ := by simpa [exec] using hx
    exact .inr (hσ' ▸ hσ)

/-- The store after the death of a program. -/
theorem store_of_crash {http : HttpClient} {c c' : (proxy http).Config} {p : ℕ}
    (hm : c.move (.crash p) = some c') :
    c'.store = c.store.rollback p ∧ ¬ c'.InFlight p := by
  obtain ⟨_, hspawn, -⟩ | ⟨_, _, _, _, _, _, _, hcall, -⟩ | ⟨q, req, x, k, hcrash, hp, rfl⟩ |
    ⟨_, _, hambient, -⟩ := Service.Config.move_cases hm
  · cases hspawn
  · cases hcall
  · cases hcrash
    refine ⟨rfl, ?_⟩
    rintro ⟨req', y, k', hp'⟩
    rw [List.getElem?_set_self (List.getElem?_eq_some_iff.mp hp).1] at hp'
    cases hp'
  · cases hambient

/-! ### Data of the example runs -/

/-- A creation request without an idempotency key. -/
def sampleDto : CreateTaskDto := { type := "pdf", executorUrl := "http://executor" }

/-- A generated task id. -/
def sampleId : String := "11111111-1111-4111-8111-111111111111"

/-- A progress request. -/
def sampleProgress : UpdateProgressDto := { progress := 50 }

/-- A client whose posts all reject with `err`. -/
def rejectingClient (err : JsError) : HttpClient where
  post _ _ _ _ := throw err
  post_uses _ _ _ _ := trivial

end LongRequestProxy
