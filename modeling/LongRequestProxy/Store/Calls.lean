import LongRequestProxy.Async.Program
import LongRequestProxy.Store.Statements

/-!
# The calls of the program

Everything that the program awaits, and the sources of chance that it reads on the way (clock,
`randomUUID`, jitter), as one type of calls. `exec` is what a call does when it reaches its
server; `perform` adds the faults: a call may fail without any effect, and a call may take effect
while its reply is lost. A failed statement aborts the open transaction of its program.

## Main definitions

* `Await`, `Await.Val`, `Reply`: the calls and their replies.
* `Oracle`: the choices of the outside world for one call.
* `exec`, `perform`: the effect of a call.
* `Async`: asynchronous functions of the program.

## Main results

* `perform_cases`: everything that a call can do.
* `exec_error_cases`: the errors of the statements.
-/

namespace LongRequestProxy

open Async

/-- What one HTTP request rejects with: the status of the response, the code of a network error
and the message of the error, as far as there are any. -/
structure HttpError where
  status : Option ℕ := none
  code : Option String := none
  message : String
  deriving DecidableEq, Repr

/-- The calls that a function of the program can await. -/
inductive Await : Type
  /-- `Date.now()`, `new Date()`. -/
  | now
  /-- `randomUUID()`. -/
  | randomUUID
  /-- `Math.floor(Math.random() * 200)`. -/
  | jitter
  | sleep (ms : ℕ)
  /-- A POST request; the `Authorization` header is empty for a request without one. -/
  | httpRequest (url : String) (body : Json) (authorization : String) (timeoutMs : ℕ)
  /-- `EVAL OCCUPY_SCRIPT 1 key value ttlSeconds`. -/
  | redisOccupy (key value : String) (ttlSeconds : ℤ)
  /-- `SET key value KEEPTTL`. -/
  | redisSetKeepTtl (key value : String)
  /-- `DEL key`. -/
  | redisDel (key : String)
  | publish (channel : String) (event : TaskEventSelect)
  | enqueue (job : Job)
  | insertTask (dto : CreateTaskDto) (now : Timestamp) (callbackToken : String)
  | findTask (id : String)
  | deleteTask (id : String)
  | updateTask (id : String) (write : TaskWrite)
  | selectOldTasks (cutoff : Timestamp) (limit : ℕ)
  | txCancelTask (id : String) (now : Timestamp)
  | txExpireTasks (now : Timestamp) (limit : ℕ)
  | txDeleteTasks (ids : List String)
  | txAdvisoryLock (taskId : String)
  | txNextSeq (taskId : String)
  | txInsertEvent (seq : ℤ) (input : InsertEventInput)
  /-- The SELECT of the sweeper's `INSERT INTO task_events … SELECT`: it numbers the events on the
  snapshot of the statement, before a row is inserted. -/
  | txNumberExpiryEvents (ids : List String)
  /-- The rows of that statement are inserted. -/
  | txInsertExpiryEvents (events : List TaskEventSelect)
  | txDeleteEvents (ids : List String)
  | txCommit

namespace Await

/-- What a call returns when it succeeds. -/
abbrev Val : Await → Type
  | now => Timestamp
  | randomUUID => String
  | jitter => ℕ
  | httpRequest .. => Except HttpError Json
  | redisOccupy .. => Bool × Option String
  | insertTask .. => TaskSelect
  | findTask _ | updateTask .. | txCancelTask .. => Option TaskSelect
  | selectOldTasks .. | txExpireTasks .. => List String
  | txNextSeq _ => ℤ
  | txInsertEvent .. => TaskEventSelect
  | txNumberExpiryEvents _ | txInsertExpiryEvents _ => List TaskEventSelect
  | txDeleteTasks _ | txDeleteEvents _ => ℕ
  | _ => Unit

/-- The call goes to Postgres, Redis or a queue. -/
def isRemote : Await → Bool
  | now | randomUUID | jitter | sleep _ | httpRequest .. => false
  | _ => true

/-- The call may write to Postgres, or to the transaction of its program. -/
def writesPostgres : Await → Bool
  | insertTask .. | deleteTask _ | updateTask .. | txCancelTask .. | txExpireTasks ..
  | txDeleteTasks _ | txAdvisoryLock _ | txInsertEvent .. | txInsertExpiryEvents _
  | txDeleteEvents _ | txCommit => true
  | _ => false

/-- The tasks and the numbers under which a call inserts events. -/
def inserts : Await → List (String × ℤ)
  | txInsertEvent seq input => [(input.taskId, seq)]
  | txInsertExpiryEvents events => events.map fun e => (e.taskId, e.seq)
  | _ => []

/-- The call belongs to an HTTP request: it touches no server of the proxy. -/
def IsHttp : Await → Prop
  | jitter | sleep _ | httpRequest .. => True
  | _ => False

end Await

/-- The reply to a call: its value or the error that it throws. -/
abbrev Reply (c : Await) : Type := Except JsError c.Val

/-- An asynchronous function of the program. -/
abbrev Async (α : Type) : Type := ExceptT JsError (Prog Await Reply) α

/-- The function that awaits one call. -/
def call (c : Await) : Async c.Val := ExceptT.mk (Prog.await c)

theorem call_runAlone {σ : Type} (h : σ → (c : Await) → Option (Reply c × σ)) (c : Await) (s : σ) :
    (call c).run.runAlone h s = h s c := by
  change (h s c).bind (fun x => some (x.1, x.2)) = h s c
  simp

/-- What happens to a remote call. -/
inductive Fault : Type
  | none
  /-- The call has no effect and throws. -/
  | failed
  /-- The call has its effect and throws. -/
  | lostReply
  deriving DecidableEq, Repr

/-- The smallest value of `jitter()`. -/
def noJitter : Fin 200 := 0

/-- What the outside world chooses for one call. -/
structure Oracle where
  fault : Fault := .none
  time : Timestamp := 0
  uuid : ℕ → String := fun _ => ""
  jitter : Fin 200 := noJitter
  http : Except HttpError Json := .ok .null
  /-- The rows that a statement with a `LIMIT` returns. -/
  picks : List String := []

/-- The event of an expired task, numbered after the events of the task so far. -/
def expiryEvent (σ : Backend) (p : ℕ) (eventId taskId : String) : TaskEventSelect where
  id := eventId
  taskId := taskId
  seq := σ.maxSeq p taskId + 1
  eventType := .failed
  payload := .obj [("error", timeoutError.json)]
  createdAt := σ.clock

/-- The row that `EventsRepository.insertEventInTx` inserts. -/
def InsertEventInput.row (input : InsertEventInput) (eventId : String) (seq : ℤ)
    (createdAt : Timestamp) : TaskEventSelect where
  id := eventId
  taskId := input.taskId
  seq := seq
  eventType := input.eventType
  payload := input.payloadFields
  createdAt := createdAt

/-- `OCCUPY_SCRIPT`: `SET key value NX EX ttlSeconds`, or the value found. -/
def Backend.occupy (σ : Backend) (p : ℕ) (key value : String) (ttlSeconds : ℤ) :
    (Bool × Option String) × Backend :=
  match σ.lookup key with
  | some e => ((false, some e.value), σ)
  | none =>
    let until_ := σ.clock.addSeconds ttlSeconds
    ((true, none),
      { σ.setKey key (some ⟨value, some until_, p⟩) with
        acquired := (p, key, until_) :: σ.acquired })

/-- What a call of program `p` does when it reaches its server. -/
def exec (p : ℕ) (o : Oracle) (σ : Backend) : (c : Await) → Outcome c.Val
  | .now => some (.ok (o.time, σ))
  | .randomUUID => some (.ok (o.uuid 0, σ))
  | .jitter => some (.ok (o.jitter, σ))
  | .sleep _ => some (.ok ((), σ))
  | .httpRequest .. => some (.ok (o.http, σ))
  | .redisOccupy key value ttl => some (.ok (σ.occupy p key value ttl))
  | .redisSetKeepTtl key value =>
    some (.ok ((), σ.setKey key (some ⟨value, (σ.lookup key).bind (·.expireAt), p⟩)))
  | .redisDel key => some (.ok ((), σ.setKey key none))
  | .publish channel event =>
    some (.ok ((), { σ with published := σ.published ++ [(channel, event)] }))
  | .enqueue job => some (.ok ((), { σ with queue := σ.queue ++ [job] }))
  | .insertTask dto now token => σ.insertTask p (dto.values now token) (o.uuid 0)
  | .findTask id => some (.ok (σ.findTask id, σ))
  | .deleteTask id => σ.deleteTask p id
  | .updateTask id w => σ.updateTask p id w
  | .selectOldTasks cutoff limit => σ.selectOldTasks cutoff limit o.picks
  | .txCancelTask id now => σ.txCancelTask p id now
  | .txExpireTasks now limit => σ.txExpireTasks p now limit o.picks
  | .txDeleteTasks ids => σ.txDeleteTasks p ids
  | .txAdvisoryLock id => σ.txAdvisoryLock p id
  | .txNextSeq id => some (.ok (σ.maxSeq p id + 1, σ))
  | .txInsertEvent seq input =>
    let row := input.row (o.uuid 0) seq σ.clock
    (σ.txInsertEvents p [row]).map fun r => r.map fun x => (row, x.2)
  | .txNumberExpiryEvents ids =>
    some (.ok (ids.zipIdx.map fun x => expiryEvent σ p (o.uuid x.2) x.1, σ))
  | .txInsertExpiryEvents events => σ.txInsertEvents p events
  | .txDeleteEvents ids => σ.txDeleteEvents p ids
  | .txCommit => some (.ok ((), σ.commit p))

/-- The effect and the reply of a call of program `p`; `none` while the call waits. -/
def perform (p : ℕ) (o : Oracle) (σ : Backend) (c : Await) : Option (Reply c × Backend) :=
  match if c.isRemote then o.fault else .none with
  | .none =>
    match exec p o σ c with
    | none => none
    | some (.error e) => some (.error e, σ.rollback p)
    | some (.ok (v, σ')) => some (.ok v, σ')
  | .failed => some (.error .unavailable, σ.rollback p)
  | .lostReply =>
    match exec p o σ c with
    | none => none
    | some (.error e) => some (.error e, σ.rollback p)
    | some (.ok (_, σ')) => some (.error .unavailable, σ'.rollback p)

/-- **Everything that a call can do.** It throws and aborts the open transaction of its program,
or it takes effect and its reply arrives or gets lost. -/
theorem perform_cases {p : ℕ} {o : Oracle} {σ σ' : Backend} {c : Await} {r : Reply c}
    (h : perform p o σ c = some (r, σ')) :
    (∃ e, r = .error e ∧ σ' = σ.rollback p ∧
      (o.fault = .failed ∨ exec p o σ c = some (.error e))) ∨
    (∃ v, r = .ok v ∧ exec p o σ c = some (.ok (v, σ')) ∧
      (c.isRemote = true → o.fault ≠ .failed)) ∨
    (∃ v σ₁, r = .error .unavailable ∧ exec p o σ c = some (.ok (v, σ₁)) ∧
      o.fault = .lostReply ∧ σ' = σ₁.rollback p) := by
  unfold perform at h
  split at h
  · next hf =>
    split at h
    · cases h
    · next hx => cases h; exact .inl ⟨_, rfl, rfl, .inr hx⟩
    · next hx => cases h; exact .inr (.inl ⟨_, rfl, hx, fun hc => by simp [hc] at hf; simp [hf]⟩)
  · next hf =>
    have hfailed : o.fault = .failed := by
      by_contra hne
      cases hc : c.isRemote <;> simp [hc, hne] at hf
    cases h
    exact .inl ⟨_, rfl, rfl, .inl hfailed⟩
  · next hf =>
    have hlost : o.fault = .lostReply := by
      by_contra hne
      cases hc : c.isRemote <;> simp [hc, hne] at hf
    split at h
    · cases h
    · next hx => cases h; exact .inl ⟨_, rfl, rfl, .inr hx⟩
    · next hx => cases h; exact .inr (.inr ⟨_, _, rfl, hx, hlost, rfl⟩)

/-- A value that arrives is the one that the server has returned. -/
theorem exec_of_perform_ok {p : ℕ} {o : Oracle} {σ σ' : Backend} {c : Await} {v : c.Val}
    (h : perform p o σ c = some (.ok v, σ')) : exec p o σ c = some (.ok (v, σ')) := by
  obtain ⟨_, hr, -⟩ | ⟨v', hr, hx, -⟩ | ⟨_, _, hr, -⟩ := perform_cases h
  · cases hr
  · cases hr
    exact hx
  · cases hr

/-- An error other than that of a lost server is one of the statement. -/
theorem exec_of_perform_error {p : ℕ} {o : Oracle} {σ σ' : Backend} {c : Await} {err : JsError}
    (h : perform p o σ c = some (.error err, σ')) (herr : err ≠ .unavailable) :
    exec p o σ c = some (.error err) := by
  unfold perform at h
  split at h
  · split at h
    · cases h
    · next hx =>
      cases h
      exact hx
    · cases h
  · cases h
    exact absurd rfl herr
  · split at h
    · cases h
    · next hx =>
      cases h
      exact hx
    · cases h
      exact absurd rfl herr

/-- Postgres can refuse the call. -/
def Await.isRefusable : Await → Bool
  | insertTask .. | updateTask .. | txCancelTask .. | txExpireTasks .. | txInsertEvent ..
  | txInsertExpiryEvents _ => true
  | _ => false

theorem isRefusable_of_exec_error {p : ℕ} {o : Oracle} {σ : Backend} {c : Await} {err : JsError}
    (h : exec p o σ c = some (.error err)) : c.isRefusable = true := by
  cases c with
  | deleteTask id =>
    simp only [exec, Backend.deleteTask] at h
    split at h <;> cases h
  | selectOldTasks cutoff limit =>
    simp only [exec, Backend.selectOldTasks] at h
    split at h <;> cases h
  | txDeleteTasks ids =>
    simp only [exec, Backend.txDeleteTasks] at h
    split at h <;> cases h
  | txAdvisoryLock id =>
    simp only [exec, Backend.txAdvisoryLock] at h
    split at h <;> cases h
  | txDeleteEvents ids =>
    simp only [exec, Backend.txDeleteEvents] at h
    split at h <;> cases h
  | _ => first | rfl | cases h

theorem exec_txInsertEvent_error {p : ℕ} {o : Oracle} {σ : Backend} {seq : ℤ}
    {input : InsertEventInput} {err : JsError}
    (h : exec p o σ (.txInsertEvent seq input) = some (.error err)) :
    err = .uniqueViolation eventsIndex ∧ ∃ e ∈ σ.committedEvents (σ.tx p),
      e.taskId = input.taskId ∧ e.seq = seq := by
  simp only [exec, Option.map_eq_some_iff] at h
  obtain ⟨r, hr, hmap⟩ := h
  cases r with
  | error err =>
    cases hmap
    obtain ⟨rfl, e, he, htaken⟩ := Backend.txInsertEvents_error hr
    obtain rfl := List.mem_singleton.mp he
    exact ⟨rfl, htaken⟩
  | ok y => cases hmap

/-- **Every error of a statement.** A row breaks a CHECK constraint, or one of the two unique
indexes refuses it. -/
theorem exec_error_cases {p : ℕ} {o : Oracle} {σ : Backend} {c : Await} {err : JsError}
    (h : exec p o σ c = some (.error err)) :
    err = .checkViolation "tasks_valid_state_data" ∨
    err = .uniqueViolation "tasks_idempotency_key_idx" ∨
    err = .uniqueViolation eventsIndex ∧
      ∃ y ∈ c.inserts, ∃ e ∈ σ.committedEvents (σ.tx p), e.taskId = y.1 ∧ e.seq = y.2 := by
  have hrefusable := isRefusable_of_exec_error h
  cases c with
  | insertTask dto now token =>
    simp only [exec, Backend.insertTask] at h
    split at h
    · split at h
      · split at h
        · cases h
        · cases h
          exact .inr (.inl rfl)
      · cases h
    · cases h
  | txInsertEvent seq input =>
    obtain ⟨rfl, htaken⟩ := exec_txInsertEvent_error h
    exact .inr (.inr ⟨rfl, (input.taskId, seq), List.mem_singleton_self _, htaken⟩)
  | txInsertExpiryEvents events =>
    obtain ⟨rfl, e, he, htaken⟩ := Backend.txInsertEvents_error h
    exact .inr (.inr ⟨rfl, _, List.mem_map_of_mem he, htaken⟩)
  | updateTask id write =>
    simp only [exec, Backend.updateTask] at h
    split at h
    · cases h
    · split at h
      · cases h
      · split at h <;> cases h
        exact .inl rfl
  | txCancelTask id now =>
    simp only [exec, Backend.txCancelTask] at h
    split at h
    · cases h
    · split at h
      · cases h
      · split at h <;> cases h
        exact .inl rfl
  | txExpireTasks now limit =>
    simp only [exec, Backend.txExpireTasks] at h
    split at h
    · split at h <;> cases h
      exact .inl rfl
    · cases h
  | _ => cases hrefusable

theorem exec_txInsertEvent_ok {p : ℕ} {o : Oracle} {σ σ' : Backend} {seq : ℤ}
    {input : InsertEventInput} {e : TaskEventSelect}
    (h : exec p o σ (.txInsertEvent seq input) = some (.ok (e, σ'))) :
    e = input.row (o.uuid 0) seq σ.clock ∧ σ.txInsertEvents p [e] = some (.ok ([e], σ')) := by
  simp only [exec] at h
  obtain ⟨r, hr, hmap⟩ := Option.map_eq_some_iff.mp h
  cases r with
  | error err => cases hmap
  | ok x =>
    obtain ⟨es, σ₁⟩ := x
    cases hmap
    obtain ⟨-, rfl, -⟩ := Backend.txInsertEvents_ok hr
    exact ⟨rfl, hr⟩

/-- A call that no fault hits, or that goes to no server. -/
theorem perform_eq_exec {p : ℕ} {o : Oracle} {σ : Backend} {c : Await}
    (h : c.isRemote = true → o.fault = .none) :
    perform p o σ c = (exec p o σ c).map fun
      | .ok (v, σ') => (.ok v, σ')
      | .error e => (.error e, σ.rollback p) := by
  have hfault : (if c.isRemote then o.fault else Fault.none) = .none := by
    split
    · next hc => exact h hc
    · rfl
  unfold perform
  rw [hfault]
  cases exec p o σ c with
  | none => rfl
  | some r => cases r <;> rfl

/-- A call that no fault hits. -/
theorem perform_of_no_fault {p : ℕ} {o : Oracle} {σ : Backend} {c : Await} (h : o.fault = .none) :
    perform p o σ c = (exec p o σ c).map fun
      | .ok (v, σ') => (.ok v, σ')
      | .error e => (.error e, σ.rollback p) :=
  perform_eq_exec fun _ => h

/-- A call that no fault hits throws only what its statement throws. -/
theorem perform_cases_of_no_fault {p : ℕ} {o : Oracle} {σ σ' : Backend} {c : Await} {r : Reply c}
    (hf : o.fault = .none) (h : perform p o σ c = some (r, σ')) :
    (∃ v, r = .ok v ∧ exec p o σ c = some (.ok (v, σ'))) ∨
      ∃ e, r = .error e ∧ exec p o σ c = some (.error e) ∧ σ' = σ.rollback p := by
  rw [perform_of_no_fault hf, Option.map_eq_some_iff] at h
  obtain ⟨⟨e⟩ | ⟨v, σ₁⟩, hx, heq⟩ := h
  · cases heq
    exact .inr ⟨e, rfl, hx, rfl⟩
  · cases heq
    exact .inl ⟨v, rfl, hx⟩

/-- A call that fails at once. -/
theorem perform_of_failed {p : ℕ} {o : Oracle} {σ : Backend} {c : Await} (hc : c.isRemote = true)
    (h : o.fault = .failed) : perform p o σ c = some (.error .unavailable, σ.rollback p) := by
  unfold perform
  rw [hc, h]
  rfl

/-- **Everything that a call can do to the committed rows of `tasks`.** -/
theorem exec_tasks_cases {p : ℕ} {o : Oracle} {σ σ' : Backend} {c : Await} {v : c.Val}
    (h : exec p o σ c = some (.ok (v, σ'))) :
    (σ'.tasks = σ.tasks ∧ σ'.issued = σ.issued) ∨
    (∃ dto now token, c = .insertTask dto now token ∧ o.uuid 0 ∉ σ.issued ∧
      σ'.tasks = σ.tasks ++ [(dto.values now token).row (o.uuid 0) σ.clock] ∧
      σ'.issued = o.uuid 0 :: σ.issued) ∨
    (∃ id, c = .deleteTask id ∧ σ'.tasks = σ.tasks.filter (fun r => r.id != id) ∧
      σ'.issued = σ.issued) ∨
    (∃ id w, c = .updateTask id w ∧
      σ'.tasks = Table.update (w.stmt id).where_ (w.stmt id).set.apply σ.tasks ∧
      σ'.issued = σ.issued) ∨
    (c = .txCommit ∧ σ' = σ.commit p) := by
  cases c with
  | redisOccupy key value ttl =>
    simp only [exec, Backend.occupy] at h
    split at h <;> cases h <;> exact .inl ⟨rfl, rfl⟩
  | insertTask dto now token =>
    obtain ⟨-, hnew, -, -, rfl⟩ := Backend.insertTask_ok h
    exact .inr (.inl ⟨dto, now, token, rfl, hnew, rfl, rfl⟩)
  | deleteTask id =>
    obtain ⟨-, rfl⟩ := Backend.deleteTask_ok h
    exact .inr (.inr (.inl ⟨id, rfl, rfl, rfl⟩))
  | updateTask id w =>
    obtain ⟨-, rfl, -⟩ | ⟨-, -, -, -, -, -, -, rfl⟩ := Backend.updateTask_ok h
    · exact .inl ⟨rfl, rfl⟩
    · exact .inr (.inr (.inr (.inl ⟨id, w, rfl, rfl, rfl⟩)))
  | selectOldTasks cutoff limit =>
    obtain ⟨rfl, -⟩ := Backend.selectOldTasks_ok h
    exact .inl ⟨rfl, rfl⟩
  | txCancelTask id now =>
    obtain ⟨-, rfl⟩ | ⟨-, -, -, -, -, -, -, rfl⟩ := Backend.txCancelTask_ok h
    · exact .inl ⟨rfl, rfl⟩
    · exact .inl ⟨rfl, rfl⟩
  | txExpireTasks now limit =>
    obtain ⟨-, -, -, -, rfl⟩ := Backend.txExpireTasks_ok h
    exact .inl ⟨rfl, rfl⟩
  | txDeleteTasks ids =>
    obtain ⟨-, rfl⟩ := Backend.txDeleteTasks_ok h
    exact .inl ⟨rfl, rfl⟩
  | txAdvisoryLock id =>
    obtain ⟨-, rfl⟩ := Backend.txAdvisoryLock_ok h
    exact .inl ⟨rfl, rfl⟩
  | txInsertEvent seq input =>
    obtain ⟨-, h⟩ := exec_txInsertEvent_ok h
    obtain ⟨-, -, rfl⟩ := Backend.txInsertEvents_ok h
    exact .inl ⟨rfl, rfl⟩
  | txInsertExpiryEvents events =>
    obtain ⟨-, -, rfl⟩ := Backend.txInsertEvents_ok h
    exact .inl ⟨rfl, rfl⟩
  | txDeleteEvents ids =>
    obtain rfl := Backend.txDeleteEvents_ok h
    exact .inl ⟨rfl, rfl⟩
  | txCommit =>
    cases h
    exact .inr (.inr (.inr (.inr ⟨rfl, rfl⟩)))
  | _ =>
    cases h
    exact .inl ⟨rfl, rfl⟩

theorem issued_subset_of_exec {p : ℕ} {o : Oracle} {σ σ' : Backend} {c : Await} {v : c.Val}
    (h : exec p o σ c = some (.ok (v, σ'))) : σ.issued ⊆ σ'.issued := by
  obtain ⟨-, hi⟩ | ⟨_, _, _, -, -, -, hi⟩ | ⟨_, -, -, hi⟩ | ⟨_, _, -, -, hi⟩ | ⟨-, rfl⟩ :=
    exec_tasks_cases h
  · rw [hi]
    exact List.Subset.refl _
  · rw [hi]
    exact List.subset_cons_self _ _
  · rw [hi]
    exact List.Subset.refl _
  · rw [hi]
    exact List.Subset.refl _
  · exact List.Subset.refl _

/-- A call that does not write to Postgres. -/
theorem exec_of_not_writesPostgres {p : ℕ} {o : Oracle} {σ σ' : Backend} {c : Await} {v : c.Val}
    (hc : c.writesPostgres = false) (h : exec p o σ c = some (.ok (v, σ'))) :
    σ'.tasks = σ.tasks ∧ σ'.events = σ.events ∧ σ'.issued = σ.issued ∧ σ'.txs = σ.txs ∧
      σ'.inserted = σ.inserted := by
  cases c with
  | redisOccupy key value ttl =>
    simp only [exec, Backend.occupy] at h
    split at h <;> cases h <;> simp [Backend.setKey]
  | selectOldTasks cutoff limit =>
    obtain ⟨rfl, -⟩ := Backend.selectOldTasks_ok h
    simp
  | _ => first | exact Bool.noConfusion hc | (cases h; exact ⟨rfl, rfl, rfl, rfl, rfl⟩)

/-- A call touches no transaction but that of its own program. -/
theorem exec_tx_of_ne {p q : ℕ} {o : Oracle} {σ σ' : Backend} {c : Await} {v : c.Val}
    (h : exec p o σ c = some (.ok (v, σ'))) (hq : q ≠ p) : σ'.tx q = σ.tx q := by
  cases c with
  | redisOccupy key value ttl =>
    simp only [exec, Backend.occupy] at h
    split at h <;> cases h <;> rfl
  | insertTask dto now token =>
    obtain ⟨-, -, -, -, rfl⟩ := Backend.insertTask_ok h
    rfl
  | deleteTask id =>
    obtain ⟨-, rfl⟩ := Backend.deleteTask_ok h
    rfl
  | updateTask id w =>
    obtain ⟨-, rfl, -⟩ | ⟨-, -, -, -, -, -, -, rfl⟩ := Backend.updateTask_ok h
    · rfl
    · rfl
  | selectOldTasks cutoff limit =>
    obtain ⟨rfl, -⟩ := Backend.selectOldTasks_ok h
    rfl
  | txCancelTask id now =>
    obtain ⟨-, rfl⟩ | ⟨-, -, -, -, -, -, -, rfl⟩ := Backend.txCancelTask_ok h
    · rfl
    · exact Backend.tx_setTx_of_ne hq _
  | txExpireTasks now limit =>
    obtain ⟨-, -, -, -, rfl⟩ := Backend.txExpireTasks_ok h
    exact Backend.tx_setTx_of_ne hq _
  | txDeleteTasks ids =>
    obtain ⟨-, rfl⟩ := Backend.txDeleteTasks_ok h
    exact Backend.tx_setTx_of_ne hq _
  | txAdvisoryLock id =>
    obtain ⟨-, rfl⟩ := Backend.txAdvisoryLock_ok h
    exact Backend.tx_setTx_of_ne hq _
  | txInsertEvent seq input =>
    obtain ⟨-, h⟩ := exec_txInsertEvent_ok h
    obtain ⟨-, -, rfl⟩ := Backend.txInsertEvents_ok h
    exact Backend.tx_setTx_of_ne hq _
  | txInsertExpiryEvents events =>
    obtain ⟨-, -, rfl⟩ := Backend.txInsertEvents_ok h
    exact Backend.tx_setTx_of_ne hq _
  | txDeleteEvents ids =>
    obtain rfl := Backend.txDeleteEvents_ok h
    exact Backend.tx_setTx_of_ne hq _
  | txCommit =>
    cases h
    exact Backend.tx_commit_of_ne hq
  | _ =>
    cases h
    rfl

/-- Only a publication touches the messages, only an enqueue the queues, and no call the clock. -/
theorem exec_outbox_cases {p : ℕ} {o : Oracle} {σ σ' : Backend} {c : Await} {v : c.Val}
    (h : exec p o σ c = some (.ok (v, σ'))) :
    (σ'.published = σ.published ∧ σ'.queue = σ.queue ∧ σ'.clock = σ.clock) ∨
    (∃ channel event, c = .publish channel event ∧
      σ' = { σ with published := σ.published ++ [(channel, event)] }) ∨
    ∃ job, c = .enqueue job ∧ σ' = { σ with queue := σ.queue ++ [job] } := by
  cases c with
  | redisOccupy key value ttl =>
    simp only [exec, Backend.occupy] at h
    split at h <;> cases h <;> exact .inl ⟨rfl, rfl, rfl⟩
  | publish channel event =>
    cases h
    exact .inr (.inl ⟨channel, event, rfl, rfl⟩)
  | enqueue job =>
    cases h
    exact .inr (.inr ⟨job, rfl, rfl⟩)
  | insertTask dto now token =>
    obtain ⟨-, -, -, -, rfl⟩ := Backend.insertTask_ok h
    exact .inl ⟨rfl, rfl, rfl⟩
  | deleteTask id =>
    obtain ⟨-, rfl⟩ := Backend.deleteTask_ok h
    exact .inl ⟨rfl, rfl, rfl⟩
  | updateTask id w =>
    obtain ⟨-, rfl, -⟩ | ⟨-, -, -, -, -, -, -, rfl⟩ := Backend.updateTask_ok h
    · exact .inl ⟨rfl, rfl, rfl⟩
    · exact .inl ⟨rfl, rfl, rfl⟩
  | selectOldTasks cutoff limit =>
    obtain ⟨rfl, -⟩ := Backend.selectOldTasks_ok h
    exact .inl ⟨rfl, rfl, rfl⟩
  | txCancelTask id now =>
    obtain ⟨-, rfl⟩ | ⟨-, -, -, -, -, -, -, rfl⟩ := Backend.txCancelTask_ok h
    · exact .inl ⟨rfl, rfl, rfl⟩
    · exact .inl ⟨rfl, rfl, rfl⟩
  | txExpireTasks now limit =>
    obtain ⟨-, -, -, -, rfl⟩ := Backend.txExpireTasks_ok h
    exact .inl ⟨rfl, rfl, rfl⟩
  | txDeleteTasks ids =>
    obtain ⟨-, rfl⟩ := Backend.txDeleteTasks_ok h
    exact .inl ⟨rfl, rfl, rfl⟩
  | txAdvisoryLock id =>
    obtain ⟨-, rfl⟩ := Backend.txAdvisoryLock_ok h
    exact .inl ⟨rfl, rfl, rfl⟩
  | txInsertEvent seq input =>
    obtain ⟨-, h⟩ := exec_txInsertEvent_ok h
    obtain ⟨-, -, rfl⟩ := Backend.txInsertEvents_ok h
    exact .inl ⟨rfl, rfl, rfl⟩
  | txInsertExpiryEvents events =>
    obtain ⟨-, -, rfl⟩ := Backend.txInsertEvents_ok h
    exact .inl ⟨rfl, rfl, rfl⟩
  | txDeleteEvents ids =>
    obtain rfl := Backend.txDeleteEvents_ok h
    exact .inl ⟨rfl, rfl, rfl⟩
  | _ =>
    cases h
    exact .inl ⟨rfl, rfl, rfl⟩

theorem exec_published_cases {p : ℕ} {o : Oracle} {σ σ' : Backend} {c : Await} {v : c.Val}
    (h : exec p o σ c = some (.ok (v, σ'))) :
    σ'.published = σ.published ∨ ∃ channel event, c = .publish channel event ∧
      σ' = { σ with published := σ.published ++ [(channel, event)] } := by
  obtain ⟨hp, -⟩ | hp | ⟨job, -, rfl⟩ := exec_outbox_cases h
  · exact .inl hp
  · exact .inr hp
  · exact .inl rfl

theorem exec_queue_cases {p : ℕ} {o : Oracle} {σ σ' : Backend} {c : Await} {v : c.Val}
    (h : exec p o σ c = some (.ok (v, σ'))) :
    σ'.queue = σ.queue ∨ ∃ job, c = .enqueue job ∧ σ'.queue = σ.queue ++ [job] := by
  obtain ⟨-, hq, -⟩ | ⟨channel, event, -, rfl⟩ | ⟨job, hc, rfl⟩ := exec_outbox_cases h
  · exact .inl hq
  · exact .inl rfl
  · exact .inr ⟨job, hc, rfl⟩

theorem exec_clock {p : ℕ} {o : Oracle} {σ σ' : Backend} {c : Await} {v : c.Val}
    (h : exec p o σ c = some (.ok (v, σ'))) : σ'.clock = σ.clock := by
  obtain ⟨-, -, hclock⟩ | ⟨channel, event, -, rfl⟩ | ⟨job, -, rfl⟩ := exec_outbox_cases h
  · exact hclock
  · rfl
  · rfl

/-- Only a commit touches the committed events. -/
theorem exec_events_cases {p : ℕ} {o : Oracle} {σ σ' : Backend} {c : Await} {v : c.Val}
    (h : exec p o σ c = some (.ok (v, σ'))) :
    σ'.events = σ.events ∨ c = .txCommit ∧ σ' = σ.commit p := by
  cases c with
  | redisOccupy key value ttl =>
    simp only [exec, Backend.occupy] at h
    split at h <;> cases h <;> exact .inl rfl
  | insertTask dto now token =>
    obtain ⟨-, -, -, -, rfl⟩ := Backend.insertTask_ok h
    exact .inl rfl
  | deleteTask id =>
    obtain ⟨-, rfl⟩ := Backend.deleteTask_ok h
    exact .inl rfl
  | updateTask id w =>
    obtain ⟨-, rfl, -⟩ | ⟨-, -, -, -, -, -, -, rfl⟩ := Backend.updateTask_ok h
    · exact .inl rfl
    · exact .inl rfl
  | selectOldTasks cutoff limit =>
    obtain ⟨rfl, -⟩ := Backend.selectOldTasks_ok h
    exact .inl rfl
  | txCancelTask id now =>
    obtain ⟨-, rfl⟩ | ⟨-, -, -, -, -, -, -, rfl⟩ := Backend.txCancelTask_ok h
    · exact .inl rfl
    · exact .inl rfl
  | txExpireTasks now limit =>
    obtain ⟨-, -, -, -, rfl⟩ := Backend.txExpireTasks_ok h
    exact .inl rfl
  | txDeleteTasks ids =>
    obtain ⟨-, rfl⟩ := Backend.txDeleteTasks_ok h
    exact .inl rfl
  | txAdvisoryLock id =>
    obtain ⟨-, rfl⟩ := Backend.txAdvisoryLock_ok h
    exact .inl rfl
  | txInsertEvent seq input =>
    obtain ⟨-, h⟩ := exec_txInsertEvent_ok h
    obtain ⟨-, -, rfl⟩ := Backend.txInsertEvents_ok h
    exact .inl rfl
  | txInsertExpiryEvents events =>
    obtain ⟨-, -, rfl⟩ := Backend.txInsertEvents_ok h
    exact .inl rfl
  | txDeleteEvents ids =>
    obtain rfl := Backend.txDeleteEvents_ok h
    exact .inl rfl
  | txCommit =>
    cases h
    exact .inr ⟨rfl, rfl⟩
  | _ =>
    cases h
    exact .inl rfl

end LongRequestProxy
