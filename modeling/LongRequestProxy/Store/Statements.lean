import LongRequestProxy.Store.Backend
import LongRequestProxy.Tasks.RowHistory

/-!
# The SQL statements of the program

Each statement is a function of the shared state. It gives `none` while it waits for a lock of
another transaction, an error when Postgres refuses it, and otherwise its result and the new
state. Statements whose names start with `tx` belong to the open transaction of a program, the
others commit at once. Where Postgres is free to choose (the rows of a `LIMIT`, a generated
`uuid`), the choice is an argument.

Postgres runs at READ COMMITTED: a statement sees the committed rows and what its own transaction
wrote, and an UPDATE evaluates its WHERE clause on the committed row once no other transaction
locks it.

## Main definitions

* `JsError`: the errors that the functions of the program throw or let through.
* `Outcome`: what a statement gives.
* `Backend.insertTask`, `Backend.updateTask`, `Backend.deleteTask`, `Backend.selectOldTasks`: the
  statements on `tasks` outside transactions.
* `Backend.txCancelTask`, `Backend.txExpireTasks`, `Backend.txDeleteTasks`: the statements on
  `tasks` inside transactions.
* `Backend.txAdvisoryLock`, `Backend.maxSeq`, `Backend.txInsertEvents`,
  `Backend.txDeleteEvents`: the statements on `task_events`.
-/

namespace LongRequestProxy

/-- The errors that reach the callers of the program's functions. -/
inductive JsError : Type
  | conflict (message : String)
  | notFound (message : String)
  | unauthorized (message : String)
  /-- `NonRetryableError`. -/
  | nonRetryable (message : String) (statusCode : ℕ)
  /-- `DispatchFailedError`. -/
  | dispatchFailed (message : String) (attempts : ℕ) (lastStatusCode : Option ℕ)
  /-- A statement breaks a unique index. -/
  | uniqueViolation (index : String)
  /-- A statement breaks a CHECK constraint. -/
  | checkViolation (constraint : String)
  /-- A server could not be reached, or its reply got lost. -/
  | unavailable
  /-- Any other error. -/
  | other (message : String)
  deriving DecidableEq, Repr

/-- The result of a statement: `none` while it waits. -/
abbrev Outcome (α : Type) : Type := Option (Except JsError (α × Backend))

/-- The unique index of `task_events`. -/
def eventsIndex : String := "task_events_task_id_seq_unique_idx"

/-- A version-4 UUID in its text form. -/
def isUuid (s : String) : Bool :=
  s.toList.length == 36 && s.toList.zipIdx.all fun x =>
    if [8, 13, 18, 23].contains x.2 then x.1 == '-'
    else x.1.isDigit || ['a', 'b', 'c', 'd', 'e', 'f'].contains x.1

theorem ne_of_isUuid {s t : String} (hs : isUuid s = true) (ht : isUuid t = false) : s ≠ t := by
  rintro rfl
  rw [hs] at ht
  cases ht

namespace Backend

variable (σ : Backend) (p : ℕ)

/-- Another open transaction locks the row `id` of `tasks`. -/
def lockedByOther (id : String) : Bool := σ.otherTx p fun t => t.locksTask id

/-! ### Statements on `tasks` -/

/-- `INSERT INTO tasks … RETURNING *`, with the generated `id`. -/
def insertTask (v : TaskInsert) (id : String) : Outcome TaskSelect :=
  if isUuid id && !σ.issued.contains id then
    match σ.tasks.find? fun r =>
      r.idempotencyKey.isSome && r.idempotencyKey == v.idempotencyKey with
    | some r =>
      if σ.lockedByOther p r.id then none
      else some (.error (.uniqueViolation "tasks_idempotency_key_idx"))
    | none =>
      let row := v.row id σ.clock
      some (.ok (row, { σ with
        tasks := σ.tasks ++ [row]
        issued := id :: σ.issued
        inserted := (p, id) :: σ.inserted }))
  else none

/-- `SELECT * FROM tasks WHERE id = $1 LIMIT 1`. -/
def findTask (id : String) : Option TaskSelect := σ.tasks.find? fun r => r.id == id

/-- `DELETE FROM tasks WHERE id = $1`. -/
def deleteTask (id : String) : Outcome Unit :=
  if (σ.findTask id).isSome && σ.lockedByOther p id then none
  else some (.ok ((), { σ with tasks := σ.tasks.filter fun r => r.id != id }))

/-- An UPDATE of one task outside any transaction, `RETURNING *`. -/
def updateTask (id : String) (w : TaskWrite) : Outcome (Option TaskSelect) :=
  match σ.tasks.find? (w.stmt id).where_ with
  | none => some (.ok (none, σ))
  | some r =>
    let row := (w.stmt id).set.apply r
    if σ.lockedByOther p id then none
    else if σ.tasks.all fun r => !(w.stmt id).where_ r || SatisfiesChecks ((w.stmt id).set.apply r)
    then
      some (.ok (some row,
        { σ with tasks := Table.update (w.stmt id).where_ (w.stmt id).set.apply σ.tasks }))
    else some (.error (.checkViolation "tasks_valid_state_data"))

/-- `picks` are ids of rows of `T`, without repetition, as many as the limit lets through. -/
def isLimited (limit : ℕ) (picks : List String) (T : List TaskSelect) : Bool :=
  decide picks.Nodup && picks.all (fun id => T.any fun r => r.id == id) &&
    picks.length == min limit T.length

/-- The SELECT of `MaintenanceRepository.deleteOldData`. -/
def selectOldTasks (cutoff : Timestamp) (limit : ℕ) (picks : List String) :
    Outcome (List String) :=
  let old := σ.tasks.filter fun r => r.status.isTerminal && decide (r.createdAt < cutoff)
  if isLimited limit picks old then some (.ok (picks, σ)) else none

/-- The UPDATE of `TasksRepository.cancelTask`, the first statement of its transaction. -/
def txCancelTask (id : String) (now : Timestamp) : Outcome (Option TaskSelect) :=
  match σ.tasks.find? (cancelTask id now).where_ with
  | none => some (.ok (none, σ))
  | some r =>
    let row := (cancelTask id now).set.apply r
    if σ.lockedByOther p id then none
    else if SatisfiesChecks row then
      some (.ok (some row, σ.setTx p { σ.tx p with tasks := (σ.tx p).tasks ++ [row] }))
    else some (.error (.checkViolation "tasks_valid_state_data"))

/-- The rows that `SELECT … FOR UPDATE SKIP LOCKED` can return to the sweeper. -/
def expirable (now : Timestamp) : List TaskSelect :=
  σ.tasks.filter fun r => isOverdue now r && !σ.lockedByOther p r.id

/-- The UPDATE of `MaintenanceRepository.expireTimedOutTasksBatch`, the first statement of its
transaction, `RETURNING id`. -/
def txExpireTasks (now : Timestamp) (limit : ℕ) (picks : List String) : Outcome (List String) :=
  let candidates := σ.expirable p now
  if isLimited limit picks candidates then
    let selected := candidates.filter fun r => picks.contains r.id
    match sweepUpdate now selected with
    | none => some (.error (.checkViolation "tasks_valid_state_data"))
    | some rows =>
      some (.ok (rows.map (·.id), σ.setTx p { σ.tx p with tasks := (σ.tx p).tasks ++ rows }))
  else none

/-- `DELETE FROM tasks WHERE id IN (…) RETURNING id`: the number of deleted rows. -/
def txDeleteTasks (ids : List String) : Outcome ℕ :=
  let found := σ.tasks.filter fun r => ids.contains r.id
  if found.any fun r => σ.lockedByOther p r.id then none
  else some (.ok (found.length,
    σ.setTx p { σ.tx p with deletedTasks := (σ.tx p).deletedTasks ++ ids }))

variable {σ p} {σ' : Backend} {id : String}

/-- A row that is not locked by another transaction is neither updated nor deleted by one. -/
theorem not_held_of_lockedByOther {q : ℕ} (h : σ.lockedByOther p id = false) (hq : q ≠ p) :
    (∀ t ∈ (σ.tx q).tasks, t.id ≠ id) ∧ id ∉ (σ.tx q).deletedTasks := by
  have := otherTx_eq_false h rfl hq
  simpa [Tx.locksTask] using this

theorem insertTask_ok {v : TaskInsert} {t : TaskSelect}
    (h : σ.insertTask p v id = some (.ok (t, σ'))) :
    isUuid id = true ∧ id ∉ σ.issued ∧
      (∀ r ∈ σ.tasks, r.idempotencyKey ≠ none → r.idempotencyKey ≠ v.idempotencyKey) ∧
      t = v.row id σ.clock ∧
      σ' = { σ with
        tasks := σ.tasks ++ [v.row id σ.clock]
        issued := id :: σ.issued
        inserted := (p, id) :: σ.inserted } := by
  unfold insertTask at h
  split at h
  · next hid =>
    split at h
    · split at h <;> cases h
    · next hnone =>
      cases h
      simp only [Bool.and_eq_true, Bool.not_eq_true', List.contains_eq_mem,
        decide_eq_false_iff_not] at hid
      refine ⟨hid.1, hid.2, fun r hr hk => ?_, rfl, rfl⟩
      have := List.find?_eq_none.mp hnone r hr
      simpa [Option.isSome_iff_ne_none, hk] using this
  · cases h

theorem deleteTask_ok {u : Unit} (h : σ.deleteTask p id = some (.ok (u, σ'))) :
    (∀ r ∈ σ.tasks, r.id = id → σ.lockedByOther p id = false) ∧
      σ' = { σ with tasks := σ.tasks.filter fun r => r.id != id } := by
  unfold deleteTask at h
  split at h
  · cases h
  · next hlock =>
    cases h
    refine ⟨fun r hr hid => ?_, rfl⟩
    have hfind : (σ.findTask id).isSome = true :=
      List.find?_isSome.mpr ⟨r, hr, by simpa using hid⟩
    simpa [hfind] using hlock

/-- An UPDATE matches no row, or it replaces one that nobody else locks. -/
theorem updateTask_ok {w : TaskWrite} {t : Option TaskSelect}
    (h : σ.updateTask p id w = some (.ok (t, σ'))) :
    (t = none ∧ σ' = σ ∧ ∀ r ∈ σ.tasks, (w.stmt id).where_ r = false) ∨
    ∃ r ∈ σ.tasks, r.id = id ∧ w.Matches r = true ∧ σ.lockedByOther p id = false ∧
      (∀ r' ∈ σ.tasks, r'.id = id → w.Matches r' = true → SatisfiesChecks (w.apply r') = true) ∧
      t = some (w.apply r) ∧
      σ' = { σ with tasks := Table.update (w.stmt id).where_ (w.stmt id).set.apply σ.tasks } := by
  unfold updateTask at h
  split at h
  · next hnone =>
    cases h
    exact .inl ⟨rfl, rfl, fun r hr => by simpa using List.find?_eq_none.mp hnone r hr⟩
  · next r hsome =>
    have hwhere := List.find?_some hsome
    obtain rfl : r.id = id := TaskWrite.id_of_where hwhere
    dsimp only at h
    split at h
    · cases h
    · next hlock =>
      split at h
      · next hc =>
        cases h
        refine .inr ⟨r, List.mem_of_find?_eq_some hsome, rfl, hwhere, by simpa using hlock,
          fun r' hr' hid hm => ?_, rfl, rfl⟩
        have := List.all_eq_true.mp hc r' hr'
        rw [← hid, show (w.stmt r'.id).where_ r' = true from hm, Bool.not_true,
          Bool.false_or] at this
        exact this
      · cases h

/-- An UPDATE that returns a row. -/
theorem updateTask_some {w : TaskWrite} {t : TaskSelect}
    (h : σ.updateTask p id w = some (.ok (some t, σ'))) :
    ∃ r ∈ σ.tasks, r.id = id ∧ w.Matches r = true ∧ t = w.apply r ∧
      σ' = { σ with tasks := Table.update (w.stmt id).where_ (w.stmt id).set.apply σ.tasks } := by
  obtain ⟨hnone, -⟩ | ⟨r, hr, hid, hm, -, -, ht, hσ⟩ := updateTask_ok h
  · cases hnone
  · exact ⟨r, hr, hid, hm, Option.some.inj ht, hσ⟩

/-- An UPDATE that Postgres refuses would break a constraint. -/
theorem updateTask_error {w : TaskWrite} {e : JsError}
    (h : σ.updateTask p id w = some (.error e)) :
    ∃ r ∈ σ.tasks, r.id = id ∧ w.Matches r = true ∧ SatisfiesChecks (w.apply r) = false := by
  unfold updateTask at h
  split at h
  · cases h
  · dsimp only at h
    split at h
    · cases h
    · split at h
      · cases h
      · next hc =>
        obtain ⟨r, hr, hrow⟩ := List.all_eq_false.mp (eq_false_of_ne_true hc)
        simp only [Bool.or_eq_true, Bool.not_eq_true', not_or, Bool.not_eq_false,
          Bool.not_eq_true] at hrow
        obtain rfl := TaskWrite.id_of_where hrow.1
        exact ⟨r, hr, rfl, hrow.1, hrow.2⟩

theorem isLimited_mem {limit : ℕ} {picks : List String} {T : List TaskSelect}
    (h : isLimited limit picks T = true) (hid : id ∈ picks) : ∃ r ∈ T, r.id = id := by
  simp only [isLimited, Bool.and_eq_true, List.all_eq_true, List.any_eq_true, beq_iff_eq] at h
  exact h.1.2 id hid

theorem isLimited_length {limit : ℕ} {picks : List String} {T : List TaskSelect}
    (h : isLimited limit picks T = true) : picks.length = min limit T.length := by
  simp only [isLimited, Bool.and_eq_true, beq_iff_eq] at h
  exact h.2

theorem selectOldTasks_ok {cutoff : Timestamp} {limit : ℕ} {picks v : List String}
    (h : σ.selectOldTasks cutoff limit picks = some (.ok (v, σ'))) :
    σ' = σ ∧ ∀ id ∈ v, ∃ r ∈ σ.tasks, r.id = id ∧ r.status.isTerminal = true ∧
      r.createdAt < cutoff := by
  unfold selectOldTasks at h
  dsimp only at h
  split at h
  · next hl =>
    cases h
    refine ⟨rfl, fun id hid => ?_⟩
    obtain ⟨r, hr, hrid⟩ := isLimited_mem hl hid
    simp only [List.mem_filter, Bool.and_eq_true, decide_eq_true_eq] at hr
    exact ⟨r, hr.1, hrid, hr.2.1, hr.2.2⟩
  · cases h

theorem txCancelTask_ok {now : Timestamp} {t : Option TaskSelect}
    (h : σ.txCancelTask p id now = some (.ok (t, σ'))) :
    (t = none ∧ σ' = σ) ∨
    ∃ r ∈ σ.tasks, r.id = id ∧ (TaskWrite.cancel now).Matches r = true ∧
      σ.lockedByOther p id = false ∧ SatisfiesChecks ((TaskWrite.cancel now).apply r) = true ∧
      t = some ((TaskWrite.cancel now).apply r) ∧
      σ' = σ.setTx p
        { σ.tx p with tasks := (σ.tx p).tasks ++ [(TaskWrite.cancel now).apply r] } := by
  unfold txCancelTask at h
  split at h
  · cases h
    exact .inl ⟨rfl, rfl⟩
  · next r hsome =>
    have hwhere := List.find?_some hsome
    obtain rfl : r.id = id := TaskWrite.id_of_where (w := .cancel now) hwhere
    dsimp only at h
    split at h
    · cases h
    · next hlock =>
      split at h
      · next hc =>
        cases h
        exact .inr ⟨r, List.mem_of_find?_eq_some hsome, rfl, hwhere, by simpa using hlock, hc,
          rfl, rfl⟩
      · cases h

/-- A sweep batch that Postgres accepts: the expired versions of some overdue rows that nobody
else locks. -/
theorem txExpireTasks_ok {now : Timestamp} {limit : ℕ} {picks v : List String}
    (h : σ.txExpireTasks p now limit picks = some (.ok (v, σ'))) :
    ∃ selected : List TaskSelect, selected.Sublist σ.tasks ∧
      (∀ r ∈ selected, isOverdue now r = true ∧ σ.lockedByOther p r.id = false ∧
        SatisfiesChecks ((TaskWrite.expire now).apply r) = true) ∧
      v = selected.map (·.id) ∧
      σ' = σ.setTx p { σ.tx p with
        tasks := (σ.tx p).tasks ++ selected.map (TaskWrite.expire now).apply } := by
  unfold txExpireTasks at h
  dsimp only at h
  split at h
  · split at h
    · cases h
    · next rows hrows =>
      obtain ⟨hall, rfl⟩ := sweepUpdate_eq_some hrows
      cases h
      refine ⟨_, List.filter_sublist.trans List.filter_sublist, fun r hr => ?_, ?_, rfl⟩
      · have hc := hall r hr
        have hcand := List.mem_filter.mp (List.mem_filter.mp hr).1
        simp only [Bool.and_eq_true, Bool.not_eq_true'] at hcand
        exact ⟨hcand.2.1, hcand.2.2, hc⟩
      · rw [List.map_map]
        exact List.map_congr_left fun _ _ => rfl
  · cases h

theorem txDeleteTasks_ok {ids : List String} {n : ℕ}
    (h : σ.txDeleteTasks p ids = some (.ok (n, σ'))) :
    (∀ r ∈ σ.tasks, r.id ∈ ids → σ.lockedByOther p r.id = false) ∧
      σ' = σ.setTx p { σ.tx p with deletedTasks := (σ.tx p).deletedTasks ++ ids } := by
  unfold txDeleteTasks at h
  dsimp only at h
  split at h
  · cases h
  · next hlock =>
    cases h
    refine ⟨fun r hr hid => ?_, rfl⟩
    have := List.any_eq_false.mp (eq_false_of_ne_true hlock) r
      (List.mem_filter.mpr ⟨hr, by simpa using hid⟩)
    simpa using this

variable (σ p)

/-! ### Statements on `task_events` -/

/-- `SELECT pg_advisory_xact_lock(…)` for a task. -/
def txAdvisoryLock (taskId : String) : Outcome Unit :=
  if σ.otherTx p fun t => t.locks.contains taskId then none
  else some (.ok ((), σ.setTx p { σ.tx p with locks := taskId :: (σ.tx p).locks }))

/-- `COALESCE(MAX(seq), 0)` over the events of a task that the transaction sees. -/
def maxSeq (taskId : String) : ℤ :=
  (((σ.committedEvents (σ.tx p)).filter fun e => e.taskId == taskId).map (·.seq)).max?.getD 0

/-- `INSERT INTO task_events … RETURNING *`: it waits for another transaction that has inserted
the same number of the same task. -/
def txInsertEvents (es : List TaskEventSelect) : Outcome (List TaskEventSelect) :=
  let taken (e : TaskEventSelect) (T : List TaskEventSelect) :=
    T.any fun e' => e'.taskId == e.taskId && e'.seq == e.seq
  if es.any fun e => σ.otherTx p fun t => taken e t.events then none
  else if es.any fun e => taken e (σ.committedEvents (σ.tx p)) then
    some (.error (.uniqueViolation eventsIndex))
  else some (.ok (es, σ.setTx p { σ.tx p with events := (σ.tx p).events ++ es }))

/-- `DELETE FROM task_events WHERE task_id IN (…) RETURNING id`: the number of deleted rows. -/
def txDeleteEvents (ids : List String) : Outcome ℕ :=
  let found := σ.events.filter fun e => ids.contains e.taskId
  if found.any fun e => σ.otherTx p fun t => t.deletesEvent e then none
  else some (.ok (found.length, σ.setTx p
    { σ.tx p with
      deletedEvents := (σ.tx p).deletedEvents ++ found.map fun e => (e.taskId, e.seq) }))

variable {σ p}

theorem txAdvisoryLock_ok {taskId : String} {u : Unit}
    (h : σ.txAdvisoryLock p taskId = some (.ok (u, σ'))) :
    (∀ q, q ≠ p → taskId ∉ (σ.tx q).locks) ∧
      σ' = σ.setTx p { σ.tx p with locks := taskId :: (σ.tx p).locks } := by
  unfold txAdvisoryLock at h
  split at h
  · cases h
  · next hlock =>
    cases h
    refine ⟨fun q hq => ?_, rfl⟩
    have := otherTx_eq_false (P := fun t => t.locks.contains taskId)
      (eq_false_of_ne_true hlock) rfl hq
    simpa using this

theorem txInsertEvents_ok {es v : List TaskEventSelect}
    (h : σ.txInsertEvents p es = some (.ok (v, σ'))) :
    (∀ e ∈ es, ∀ e' ∈ σ.committedEvents (σ.tx p), e'.taskId = e.taskId → e'.seq ≠ e.seq) ∧
      v = es ∧ σ' = σ.setTx p { σ.tx p with events := (σ.tx p).events ++ es } := by
  unfold txInsertEvents at h
  dsimp only at h
  split at h
  · cases h
  · split at h
    · cases h
    · next hfree =>
      cases h
      refine ⟨fun e he e' he' ht hs => hfree ?_, rfl, rfl⟩
      simp only [List.any_eq_true, Bool.and_eq_true, beq_iff_eq]
      exact ⟨e, he, e', he', ht, hs⟩

/-- An INSERT into `task_events` that Postgres refuses: a number is taken. -/
theorem txInsertEvents_error {es : List TaskEventSelect} {err : JsError}
    (h : σ.txInsertEvents p es = some (.error err)) :
    err = .uniqueViolation eventsIndex ∧ ∃ e ∈ es, ∃ e' ∈ σ.committedEvents (σ.tx p),
      e'.taskId = e.taskId ∧ e'.seq = e.seq := by
  unfold txInsertEvents at h
  dsimp only at h
  split at h
  · cases h
  · split at h
    · next ht =>
      cases h
      simp only [List.any_eq_true, Bool.and_eq_true, beq_iff_eq] at ht
      exact ⟨rfl, ht⟩
    · cases h

/-- An INSERT into `task_events` that does not wait: no other open transaction has inserted the
same number of the same task. -/
theorem txInsertEvents_apart {es : List TaskEventSelect} {r : Except JsError _}
    (h : σ.txInsertEvents p es = some r) {e e' : TaskEventSelect} {q : ℕ} (he : e ∈ es)
    (hq : q ≠ p) (he' : e' ∈ (σ.tx q).events) (ht : e'.taskId = e.taskId) : e'.seq ≠ e.seq := by
  unfold txInsertEvents at h
  dsimp only at h
  split at h
  · cases h
  · next hfree =>
    have hfalse := List.any_eq_false.mp (eq_false_of_ne_true hfree) e he
    have hother := List.any_eq_false.mp
      (otherTx_eq_false (eq_false_of_ne_true hfalse) rfl hq) e' he'
    simpa [ht] using hother

theorem txDeleteEvents_ok {ids : List String} {n : ℕ}
    (h : σ.txDeleteEvents p ids = some (.ok (n, σ'))) :
    σ' = σ.setTx p { σ.tx p with
      deletedEvents := (σ.tx p).deletedEvents ++
        (σ.events.filter fun e => ids.contains e.taskId).map fun e => (e.taskId, e.seq) } := by
  unfold txDeleteEvents at h
  dsimp only at h
  split at h
  · cases h
  · cases h
    rfl

end Backend

end LongRequestProxy
