import LongRequestProxy.Async.Discipline
import LongRequestProxy.System

/-!
# What a function of the program has done

The functions of the program are summarised by what their calls and the replies tell them: the
rows that they have read, inserted, claimed and updated, what their open transaction has written,
which events they still have to insert, and which they have committed and not yet published. The
discipline of the program says in which situation each call may be awaited.

## Main definitions

* `OpenTx`, `Summary`, `Summary.next`: the summary of a function, and how replies move it on.
* `Await.Possible`: what the servers can reply.
* `Summary.Awaits`, `Summary.Returns`: the calls and the answers of the functions.
* `discipline`: all of it as a discipline of the system.

## Main results

* `possible_of_perform`: the servers reply nothing else.
-/

namespace LongRequestProxy

open Async

/-! ### The summary -/

/-- What the open transaction of a function has done. -/
structure OpenTx where
  /-- The tasks whose rows it has updated. -/
  rows : List String := []
  /-- The tasks whose advisory lock it holds. -/
  locks : List String := []
  /-- The numbers that it has read for its next events, with their tasks. -/
  numbers : List (String × ℤ) := []
  /-- The events that it has inserted. -/
  events : List TaskEventSelect := []
  /-- The tasks whose events it has deleted. -/
  cleared : List String := []
  /-- The tasks that it has deleted. -/
  deleted : List String := []

/-- A write that a callback has made, and what it has returned. -/
structure CallbackWrite where
  taskId : String
  write : TaskWrite
  row : Option TaskSelect

/-- What a function of the program has done so far. -/
structure Summary where
  /-- The row that it has found last. -/
  found : Option TaskSelect := none
  /-- The row that it has inserted. -/
  inserted : Option TaskSelect := none
  /-- The row as its claim has left it. -/
  claimed : Option TaskSelect := none
  /-- The write that it has made for a callback. -/
  updated : Option CallbackWrite := none
  /-- The tasks that it has selected for deletion. -/
  old : List String := []
  tx : OpenTx := {}
  /-- The events that it has to insert: their tasks and their types. -/
  due : List (String × TaskEventType) := []
  /-- The events that it has committed and not yet published. -/
  owed : List TaskEventSelect := []
  /-- The jobs that it has enqueued. -/
  enqueued : List Job := []

namespace TaskWrite

/-- The type of the event that belongs to a write of a callback, once the write has returned. -/
def eventType? : TaskWrite → Option TaskSelect → Option TaskEventType
  | submitCompleted .., some _ => some .completed
  | submitFailed .., some _ => some .failed
  | progress _, _ => some .progress
  | _, _ => none

end TaskWrite

namespace Summary

/-- The summary after a write outside transactions has returned. -/
def afterWrite (id : String) (write : TaskWrite) (row : Option TaskSelect) (w : Summary) :
    Summary :=
  match write with
  | .dispatchClaim .. => { w with claimed := row }
  | .dispatchFailure .. | .dispatchRevert => { w with claimed := none }
  | .submitCompleted .. | .submitFailed .. | .progress _ =>
    { w with
      updated := some ⟨id, write, row⟩
      due := ((write.eventType? row).map fun type => (id, type)).toList }
  | .cancel _ | .expire _ => w

/-- The summary after a call has returned a value. -/
def afterValue (w : Summary) : (c : Await) → c.Val → Summary
  | .findTask _, row => { w with found := row }
  | .insertTask .., row => { w with inserted := some row }
  | .deleteTask _, _ => { w with inserted := none }
  | .updateTask id write, row => w.afterWrite id write row
  | .selectOldTasks .., ids => { w with old := ids }
  | .enqueue job, _ => { w with enqueued := job :: w.enqueued }
  | .publish .., _ => { w with owed := w.owed.tail }
  | .txCancelTask _ _, none => w
  | .txCancelTask id _, some _ =>
    { w with tx := { w.tx with rows := [id] }, due := [(id, .cancelled)] }
  | .txExpireTasks .., ids =>
    { w with tx := { w.tx with rows := ids }, due := ids.map fun id => (id, .failed) }
  | .txAdvisoryLock id, _ => { w with tx := { w.tx with locks := [id] } }
  | .txNextSeq id, seq => { w with tx := { w.tx with numbers := [(id, seq)] } }
  | .txInsertEvent .., event =>
    { w with tx := { w.tx with numbers := [], events := [event] }, due := [] }
  | .txNumberExpiryEvents _, events =>
    { w with tx := { w.tx with numbers := events.map fun e => (e.taskId, e.seq) } }
  | .txInsertExpiryEvents _, events =>
    { w with tx := { w.tx with numbers := [], events := events }, due := [] }
  | .txDeleteEvents ids, _ => { w with tx := { w.tx with cleared := ids } }
  | .txDeleteTasks ids, _ => { w with tx := { w.tx with deleted := ids } }
  | .txCommit, _ => { w with tx := {}, owed := w.owed ++ w.tx.events }
  | _, _ => w

/-- The summary after a call has thrown: the open transaction is gone, and nothing is known of what
the call was about. -/
def afterError (w : Summary) (c : Await) : Summary where
  found := match c with
    | .findTask _ => none
    | _ => w.found
  inserted := match c with
    | .insertTask .. | .deleteTask _ => none
    | _ => w.inserted
  claimed := match c with
    | .updateTask .. => none
    | _ => w.claimed
  updated := match c with
    | .updateTask .. => none
    | _ => w.updated
  old := match c with
    | .selectOldTasks .. => []
    | _ => w.old
  owed := match c with
    | .publish .. => w.owed.tail
    | _ => w.owed
  enqueued := w.enqueued

/-- The summary after a call and its reply. -/
def next (w : Summary) (c : Await) : Reply c → Summary
  | .ok v => w.afterValue c v
  | .error _ => w.afterError c

/-! ### The calls -/

/-- No transaction is open, and no event has to be inserted. -/
structure Settled (w : Summary) : Prop where
  tx : w.tx = {}
  due : w.due = []

/-- The function has passed `CallbackAuthGuard` for the task. -/
def Passed (w : Summary) (id : String) (authorization : Option String) : Prop :=
  ∃ t token stored, w.found = some t ∧ t.id = id ∧ t.status = .processing ∧
    extractBearerToken authorization = some token ∧ t.callbackToken = some stored ∧ stored ≠ "" ∧
    tokensMatch token stored = true

/-- The function of the request may make the write. -/
def AwaitsWrite (req : Request) (w : Summary) (id : String) : TaskWrite → Prop
  | .dispatchClaim _ timeoutSeconds => req = .dispatch id timeoutSeconds ∧ w.claimed = none
  | .dispatchFailure .. | .dispatchRevert =>
    ∃ timeoutSeconds t, req = .dispatch id timeoutSeconds ∧ w.claimed = some t ∧ t.id = id
  | .submitCompleted _ result => w.updated = none ∧
    ∃ authorization, req = .result id authorization (.completed result) ∧ w.Passed id authorization
  | .submitFailed _ error => w.updated = none ∧
    ∃ authorization, req = .result id authorization (.failed error) ∧ w.Passed id authorization
  | .progress progress => w.updated = none ∧
    ∃ authorization dto, req = .progress id authorization dto ∧ dto.progress = progress ∧
      w.Passed id authorization
  | .cancel _ | .expire _ => False

/-- The function of the request may enqueue the job. -/
def AwaitsEnqueue (req : Request) (w : Summary) : Job → Prop
  | .dispatch id timeoutSeconds =>
    ∃ t, w.inserted = some t ∧ t.id = id ∧ t.timeoutSeconds = timeoutSeconds
  | .webhook id => w.enqueued = [] ∧ ∃ authorization dto t now u,
    req = .result id authorization dto ∧ w.found = some t ∧ truthy t.webhookUrl = true ∧
      w.updated = some ⟨id, dto.write now, some u⟩
  | .cancel id => req = .cancel id ∧ w.enqueued = []

/-- A result request reads its task once. -/
def Unasked (req : Request) (w : Summary) : Prop :=
  ∀ id authorization dto, req = .result id authorization dto → w.found = none

/-- A progress request has made its write. -/
def Progressed (req : Request) (w : Summary) : Prop :=
  ∀ id authorization dto, req = .progress id authorization dto → w.updated ≠ none

/-- The function has to insert one event, and its transaction has done nothing but the given. -/
def Writing (w : Summary) (id : String) (type : TaskEventType) (tx : OpenTx) : Prop :=
  w.due = [(id, type)] ∧ (tx.rows = [] ∨ tx.rows = [id]) ∧ w.tx = tx

/-- The function of the request, with this summary, may await the call. -/
def Awaits (req : Request) (w : Summary) : Await → Prop
  | .httpRequest .. | .jitter | .sleep _ => w.Settled ∧
    ((∃ id timeoutSeconds t, req = .dispatch id timeoutSeconds ∧ w.claimed = some t ∧ t.id = id) ∨
      ∃ id, req = .notifyCancel id ∨ req = .notifyWebhook id)
  | .findTask _ => w.Settled ∧ w.Unasked req
  | .insertTask dto _ _ => w.Settled ∧ w.inserted = none ∧ ∃ baseUrl, req = .create dto baseUrl
  | .deleteTask id => w.Settled ∧ ∃ t, w.inserted = some t ∧ t.id = id
  | .updateTask id write => w.Settled ∧ w.AwaitsWrite req id write
  | .enqueue job => w.Settled ∧ w.AwaitsEnqueue req job
  | .publish channel event => w.Settled ∧ channel = taskChannel event.taskId ∧
    w.owed.head? = some event ∧ w.Progressed req
  | .txCancelTask id _ => w.Settled ∧ req = .cancel id
  | .txExpireTasks .. => w.Settled ∧ ∃ batches, req = .sweep batches
  | .txAdvisoryLock id => ∃ type, w.Writing id type { rows := w.tx.rows }
  | .txNextSeq id => ∃ type, w.Writing id type { rows := w.tx.rows, locks := [id] }
  | .txInsertEvent seq input => w.Writing input.taskId input.eventType
    { rows := w.tx.rows, locks := [input.taskId], numbers := [(input.taskId, seq)] }
  | .txNumberExpiryEvents ids => ids ≠ [] ∧ w.tx = { rows := ids } ∧
    w.due = ids.map fun id => (id, .failed)
  | .txInsertExpiryEvents events =>
    w.tx = { rows := events.map (·.taskId), numbers := events.map fun e => (e.taskId, e.seq) } ∧
      w.due = events.map (fun e => (e.taskId, e.eventType)) ∧ ∀ e ∈ events, e.eventType = .failed
  | .txDeleteEvents ids => w.Settled ∧ w.old = ids
  | .txDeleteTasks ids => w.old = ids ∧ w.tx = { cleared := ids } ∧ w.due = []
  | .txCommit => w.due = [] ∧ w.tx.numbers = [] ∧ w.tx.deleted = w.tx.cleared ∧
    ∀ id ∈ w.tx.rows, id ∈ w.tx.events.map (·.taskId)
  | _ => w.Settled

/-- The function of the request, with this summary, may return the answer. -/
def Returns (req : Request) (answer : Except JsError Response) (w : Summary) : Prop :=
  w.Settled ∧ match req, answer with
    | .result id _ dto, .ok _ => ∃ t now row, w.found = some t ∧
      w.updated = some ⟨id, dto.write now, row⟩ ∧
      (row ≠ none → truthy t.webhookUrl = true → .webhook id ∈ w.enqueued)
    | .result .., .error (.conflict _) => ∃ t, w.found = some t ∧ t.status ≠ .processing
    | _, _ => True

/-- The requests whose functions write outside transactions. -/
theorem AwaitsWrite.request_cases {req : Request} {w : Summary} {id : String} {write : TaskWrite}
    (h : w.AwaitsWrite req id write) :
    (∃ timeoutSeconds, req = .dispatch id timeoutSeconds) ∨
      (∃ authorization dto, req = .result id authorization dto) ∨
      ∃ authorization dto, req = .progress id authorization dto := by
  cases write with
  | dispatchClaim now timeoutSeconds => exact .inl ⟨timeoutSeconds, h.1⟩
  | dispatchFailure now error =>
    obtain ⟨timeoutSeconds, _, hreq, -⟩ := h
    exact .inl ⟨timeoutSeconds, hreq⟩
  | dispatchRevert =>
    obtain ⟨timeoutSeconds, _, hreq, -⟩ := h
    exact .inl ⟨timeoutSeconds, hreq⟩
  | submitCompleted now result =>
    obtain ⟨-, authorization, hreq, -⟩ := h
    exact .inr (.inl ⟨authorization, _, hreq⟩)
  | submitFailed now error =>
    obtain ⟨-, authorization, hreq, -⟩ := h
    exact .inr (.inl ⟨authorization, _, hreq⟩)
  | progress n =>
    obtain ⟨-, authorization, dto, hreq, -⟩ := h
    exact .inr (.inr ⟨authorization, dto, hreq⟩)
  | cancel now => cases h
  | expire now => cases h

end Summary

/-! ### The replies -/

/-- The errors that come from a server, or from the way to it. -/
def JsError.IsServerError : JsError → Prop
  | uniqueViolation _ | checkViolation _ | unavailable => True
  | _ => False

/-- The values that the servers can return. -/
def Await.PossibleValue : (c : Await) → c.Val → Prop
  | .findTask id, row => ∀ t, row = some t → t.id = id
  | .insertTask dto time token, t => ∃ id createdAt, t = (dto.values time token).row id createdAt
  | .updateTask id write, row => ∀ t, row = some t →
    ∃ r, r.id = id ∧ write.Matches r = true ∧ t = write.apply r
  | .txCancelTask id time, row => ∀ t, row = some t →
    ∃ r, r.id = id ∧ (TaskWrite.cancel time).Matches r = true ∧ t = (TaskWrite.cancel time).apply r
  | .txInsertEvent seq input, e => ∃ id createdAt, e = input.row id seq createdAt
  | .txNumberExpiryEvents ids, events =>
    events.map (fun e => (e.taskId, e.eventType)) = ids.map fun id => (id, .failed)
  | .txInsertExpiryEvents events, inserted => inserted = events
  | _, _ => True

/-- The replies that the servers can give. -/
def Await.Possible (c : Await) : Reply c → Prop
  | .ok v => c.PossibleValue v
  | .error e => e.IsServerError

theorem isServerError_of_exec {p : ℕ} {o : Oracle} {σ : Backend} {c : Await} {e : JsError}
    (h : exec p o σ c = some (.error e)) : e.IsServerError := by
  obtain rfl | rfl | ⟨rfl, -⟩ := exec_error_cases h <;> trivial

theorem possibleValue_of_exec {p : ℕ} {o : Oracle} {σ σ' : Backend} {c : Await} {v : c.Val}
    (h : exec p o σ c = some (.ok (v, σ'))) : c.PossibleValue v := by
  cases c with
  | findTask id =>
    cases h
    intro t ht
    simpa using List.find?_some ht
  | insertTask dto now token =>
    obtain ⟨-, -, -, rfl, -⟩ := Backend.insertTask_ok h
    exact ⟨_, _, rfl⟩
  | updateTask id write =>
    rintro t rfl
    obtain ⟨hnone, -⟩ | ⟨r, -, rfl, hm, -, -, ht, -⟩ := Backend.updateTask_ok h
    · cases hnone
    · exact ⟨r, rfl, hm, Option.some.inj ht⟩
  | txCancelTask id now =>
    rintro t rfl
    obtain ⟨hnone, -⟩ | ⟨r, -, rfl, hm, -, -, ht, -⟩ := Backend.txCancelTask_ok h
    · cases hnone
    · exact ⟨r, rfl, hm, Option.some.inj ht⟩
  | txInsertEvent seq input =>
    obtain ⟨rfl, -⟩ := exec_txInsertEvent_ok h
    exact ⟨_, _, rfl⟩
  | txNumberExpiryEvents ids =>
    cases h
    change (List.map _ (List.map _ _) = _)
    rw [List.map_map, show (fun e : TaskEventSelect => (e.taskId, e.eventType)) ∘
      (fun x : String × ℕ => expiryEvent σ p (o.uuid x.2) x.1) =
        (fun id => (id, TaskEventType.failed)) ∘ Prod.fst from rfl, ← List.map_map,
      List.zipIdx_map_fst]
  | txInsertExpiryEvents events =>
    obtain ⟨-, hv, -⟩ := Backend.txInsertEvents_ok h
    exact hv
  | _ => trivial

/-- The servers reply nothing else. -/
theorem possible_of_perform {p : ℕ} {o : Oracle} {σ σ' : Backend} {c : Await} {r : Reply c}
    (h : perform p o σ c = some (r, σ')) : c.Possible r := by
  obtain ⟨e, rfl, -, hx⟩ | ⟨v, rfl, hx, -⟩ | ⟨v, σ₁, rfl, -⟩ := perform_cases h
  · obtain hfail | hx := hx
    · unfold perform at h
      rw [hfail] at h
      split at h
      · next hf =>
        split at h
        · cases h
        · next hx =>
          cases h
          exact isServerError_of_exec hx
        · cases h
      · cases h
        trivial
      · next hf =>
        split at hf <;> cases hf
    · exact isServerError_of_exec hx
  · exact possibleValue_of_exec hx
  · trivial

/-- The discipline of the program. -/
abbrev discipline (http : HttpClient) : Discipline (proxy http) where
  Local := Summary
  start := {}
  next := Summary.next
  awaits req w c := w.Awaits req c
  returns := Summary.Returns
  possible := Await.Possible

end LongRequestProxy
