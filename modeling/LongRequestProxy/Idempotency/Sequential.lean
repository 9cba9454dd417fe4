import LongRequestProxy.Idempotency.SlotLedger

/-!
# Creations that run alone

What a creation does when nothing is interleaved with it, as a function of the state in which it
starts and of the calls that fail. A call that fails has no effect.

## Main definitions

* `CreateFaults`, `answer`: the calls of a creation that fail, and how the servers answer it.
* `Backend.Fresh`: an id that nobody has used.

## Main results

* `create_runAlone_of_taken`, `create_runAlone_of_free`, `create_of_no_key`: the slot.
* `createTask_runAlone_of_inserted`, `createTask_runAlone_of_refused`: the rest of the creation.
-/

namespace LongRequestProxy

open Async Function

/-- The calls of a creation that fail. -/
structure CreateFaults where
  insert : Bool := false
  enqueue : Bool := false
  deleteById : Bool := false
  releaseSlot : Bool := false
  commitResult : Bool := false

/-- The call is one of those that fail. -/
def CreateFaults.hits (f : CreateFaults) : Await → Bool
  | .insertTask .. => f.insert
  | .enqueue _ => f.enqueue
  | .deleteTask _ => f.deleteById
  | .redisDel _ => f.releaseSlot
  | .redisSetKeepTtl .. => f.commitResult
  | _ => false

/-- How the servers answer a call of program `p`. -/
def answer (p : ℕ) (o : Await → Oracle) (f : CreateFaults) (σ : Backend) (c : Await) :
    Option (Reply c × Backend) :=
  perform p { o c with fault := if f.hits c then .failed else .none } σ c

/-- A generated id that nobody has used. -/
structure Backend.Fresh (σ : Backend) (p : ℕ) (id : String) : Prop where
  isUuid : isUuid id = true
  issued : id ∉ σ.issued
  locked : σ.lockedByOther p id = false

variable {p : ℕ} {o : Await → Oracle} {f : CreateFaults} {σ σ' : Backend} {c : Await}
  {dto : CreateTaskDto} {baseUrl key id : String} {okey : Option String} {t : TaskSelect}

theorem answer_of_hits (hc : c.isRemote = true) (h : f.hits c = true) :
    answer p o f σ c = some (.error .unavailable, σ.rollback p) :=
  perform_of_failed hc (by simp [h])

theorem answer_of_not_hits (h : f.hits c = false) :
    answer p o f σ c = (exec p { o c with fault := .none } σ c).map fun
      | .ok (v, σ') => (.ok v, σ')
      | .error e => (.error e, σ.rollback p) := by
  unfold answer
  rw [h, if_neg Bool.false_ne_true]
  exact perform_of_no_fault rfl

/-! ### Statements -/

theorem Backend.Fresh.insertTask {v : TaskInsert} (h : σ.Fresh p id)
    (hkey : ∀ r ∈ σ.tasks, r.idempotencyKey ≠ none → r.idempotencyKey ≠ v.idempotencyKey) :
    σ.insertTask p v id = some (.ok (v.row id σ.clock, { σ with
      tasks := σ.tasks ++ [v.row id σ.clock]
      issued := id :: σ.issued
      inserted := (p, id) :: σ.inserted })) := by
  have hfind : (σ.tasks.find? fun r =>
      r.idempotencyKey.isSome && r.idempotencyKey == v.idempotencyKey) = none := by
    refine List.find?_eq_none.mpr fun r hr => ?_
    have := hkey r hr
    simpa [Option.isSome_iff_ne_none] using this
  unfold Backend.insertTask
  rw [hfind, if_pos (by simp [h.isUuid, h.issued])]

theorem Backend.Fresh.insertTask_of_exists {v : TaskInsert} (h : σ.Fresh p id)
    (hv : v.idempotencyKey = some key) (hrow : ∃ r ∈ σ.tasks, r.idempotencyKey = some key)
    (hlock : ∀ r ∈ σ.tasks, r.idempotencyKey = some key → σ.lockedByOther p r.id = false) :
    σ.insertTask p v id = some (.error (.uniqueViolation "tasks_idempotency_key_idx")) := by
  obtain ⟨r, hr, hkey⟩ := hrow
  unfold Backend.insertTask
  rw [if_pos (by simp [h.isUuid, h.issued])]
  cases hfind : σ.tasks.find? fun r =>
      r.idempotencyKey.isSome && r.idempotencyKey == v.idempotencyKey with
  | none =>
    have := List.find?_eq_none.mp hfind r hr
    simp [hkey, hv] at this
  | some r' =>
    have hmem := List.mem_of_find?_eq_some hfind
    have hkey' := List.find?_some hfind
    simp only [hv, Bool.and_eq_true, beq_iff_eq] at hkey'
    simp [hlock r' hmem hkey'.2]

theorem Backend.lockedByOther_rollback : (σ.rollback p).lockedByOther p id =
    σ.lockedByOther p id := by
  have hany : ∀ l : List (Sigma fun _ : ℕ => Tx),
      (l.kerase p).any (fun x => x.1 != p && x.2.locksTask id) =
        l.any fun x => x.1 != p && x.2.locksTask id := by
    intro l
    induction l with
    | nil => rfl
    | cons x l ih =>
      by_cases hx : p = x.1
      · rw [List.kerase_cons_eq hx]
        simp [hx]
      · rw [List.kerase_cons_ne hx, List.any_cons, List.any_cons, ih]
  exact hany σ.txs.entries

/-! ### The parts of a creation -/

/-- The state after `releaseQuietly`. -/
def released (p : ℕ) (f : CreateFaults) (okey : Option String) (σ : Backend) : Backend :=
  match okey with
  | none => σ
  | some key => if f.releaseSlot then σ.rollback p else σ.setKey (redisKey key) none

/-- The state after `commitQuietly`. -/
def committed (p : ℕ) (f : CreateFaults) (okey : Option String) (id : String) (σ : Backend) :
    Backend :=
  match okey with
  | none => σ
  | some key =>
    if f.commitResult then σ.rollback p
    else σ.setKey (redisKey key) (some ⟨id, (σ.lookup (redisKey key)).bind (·.expireAt), p⟩)

theorem releaseSlot_runAlone :
    (IdempotencyService.releaseSlot key).run.runAlone (answer p o f) σ =
      if f.releaseSlot then some (.error .unavailable, σ.rollback p)
      else some (.ok (), σ.setKey (redisKey key) none) := by
  refine (call_runAlone (answer p o f) (.redisDel (redisKey key)) σ).trans ?_
  split
  · next hf => exact answer_of_hits rfl hf
  · next hf => exact answer_of_not_hits (eq_false_of_ne_true hf)

theorem commitResult_runAlone :
    (IdempotencyService.commitResult key id).run.runAlone (answer p o f) σ =
      if f.commitResult then some (.error .unavailable, σ.rollback p)
      else some (.ok (), σ.setKey (redisKey key)
        (some ⟨id, (σ.lookup (redisKey key)).bind (·.expireAt), p⟩)) := by
  refine (call_runAlone (answer p o f) (.redisSetKeepTtl (redisKey key) id) σ).trans ?_
  split
  · next hf => exact answer_of_hits rfl hf
  · next hf => exact answer_of_not_hits (eq_false_of_ne_true hf)

theorem releaseQuietly_runAlone :
    (TasksService.releaseQuietly okey).run.runAlone (answer p o f) σ =
      some (.ok (), released p f okey σ) := by
  cases okey with
  | none => rfl
  | some key =>
    simp only [TasksService.releaseQuietly, Prog.runAlone_tryCatch, releaseSlot_runAlone, released]
    split <;> rfl

theorem commitQuietly_runAlone :
    (TasksService.commitQuietly okey id).run.runAlone (answer p o f) σ =
      some (.ok (), committed p f okey id σ) := by
  cases okey with
  | none => rfl
  | some key =>
    simp only [TasksService.commitQuietly, Prog.runAlone_tryCatch, commitResult_runAlone, committed]
    split <;> rfl

/-- The INSERT of a creation. -/
def insertCall (o : Await → Oracle) (dto : CreateTaskDto) : Await :=
  .insertTask dto (o .now).time ((o .randomUUID).uuid 0)

/-- The id that the INSERT generates. -/
def insertedId (o : Await → Oracle) (dto : CreateTaskDto) : String := (o (insertCall o dto)).uuid 0

theorem insertOrRelease_runAlone :
    (TasksService.insertOrRelease dto okey).run.runAlone (answer p o f) σ =
      (answer p o f σ (insertCall o dto)).bind fun x => match x.1 with
        | .ok t => some (.ok t, x.2)
        | .error e => some (.error e, released p f okey x.2) := by
  unfold TasksService.insertOrRelease
  rw [Prog.runAlone_tryCatch]
  have hinsert : (do
      let now ← call .now
      let callbackToken ← call .randomUUID
      call (.insertTask dto now callbackToken) : Async TaskSelect).run.runAlone (answer p o f) σ =
      answer p o f σ (insertCall o dto) := by
    rw [Prog.runAlone_bindExcept, call_runAlone]
    change ((call .randomUUID >>= _ : Async TaskSelect)).run.runAlone (answer p o f) σ = _
    rw [Prog.runAlone_bindExcept, call_runAlone]
    exact call_runAlone (answer p o f) (insertCall o dto) σ
  rw [hinsert]
  refine congrArg _ (funext fun x => ?_)
  cases x.1 with
  | ok t => rfl
  | error e =>
    dsimp only
    rw [Prog.runAlone_bindExcept, releaseQuietly_runAlone]
    rfl

/-- The state after the rollback of an enqueue that has failed: the row is deleted, if the
deletion does not fail. -/
def rolledBack (p : ℕ) (f : CreateFaults) (okey : Option String) (id : String) (σ : Backend) :
    Backend :=
  released p f okey (if f.deleteById then (σ.rollback p).rollback p
    else { σ.rollback p with tasks := σ.tasks.filter fun r => r.id != id })

theorem deleteQuietly_runAlone (hlock : σ.lockedByOther p id = false) :
    (tryCatch (call (.deleteTask id)) fun _ => pure () : Async Unit).run.runAlone (answer p o f) σ =
      some (.ok (), if f.deleteById then σ.rollback p
        else { σ with tasks := σ.tasks.filter fun r => r.id != id }) := by
  rw [Prog.runAlone_tryCatch]
  have hdelete : (call (.deleteTask id) : Async Unit).run.runAlone (answer p o f) σ =
      if f.deleteById then some (.error .unavailable, σ.rollback p)
      else some (.ok (), { σ with tasks := σ.tasks.filter fun r => r.id != id }) := by
    refine (call_runAlone (answer p o f) (.deleteTask id) σ).trans ?_
    split
    · next hf => exact answer_of_hits rfl hf
    · next hf =>
      have hmiss : f.hits (.deleteTask id) = false := eq_false_of_ne_true hf
      refine (answer_of_not_hits hmiss).trans ?_
      simp [exec, Backend.deleteTask, hlock]
  rw [hdelete]
  split <;> rfl

/-- The state after the dispatch job of a task was enqueued. -/
def Backend.withDispatch (σ : Backend) (t : TaskSelect) : Backend :=
  { σ with queue := σ.queue ++ [.dispatch t.id t.timeoutSeconds] }

theorem enqueueOrRollback_runAlone (hlock : σ.lockedByOther p t.id = false) :
    (TasksService.enqueueOrRollback t okey).run.runAlone (answer p o f) σ =
      if f.enqueue then some (.error .unavailable, rolledBack p f okey t.id σ)
      else some (.ok (), σ.withDispatch t) := by
  unfold TasksService.enqueueOrRollback
  rw [Prog.runAlone_tryCatch]
  have henqueue : (call (.enqueue (.dispatch t.id t.timeoutSeconds)) : Async Unit).run.runAlone
      (answer p o f) σ = if f.enqueue then some (.error .unavailable, σ.rollback p)
        else some (.ok (), σ.withDispatch t) := by
    refine (call_runAlone (answer p o f) (.enqueue (.dispatch t.id t.timeoutSeconds)) σ).trans ?_
    split
    · next hf => exact answer_of_hits rfl hf
    · next hf => exact answer_of_not_hits (eq_false_of_ne_true hf)
  rw [henqueue]
  split
  · rw [Option.bind_some]
    dsimp only
    rw [Prog.runAlone_bindExcept,
      deleteQuietly_runAlone (σ := σ.rollback p) (Backend.lockedByOther_rollback.trans hlock),
      Option.bind_some]
    dsimp only
    rw [Prog.runAlone_bindExcept, releaseQuietly_runAlone]
    rfl
  · rfl

/-- A creation whose INSERT is refused or fails. -/
theorem createTask_runAlone_of_refused {e : JsError}
    (h : answer p o f σ (insertCall o dto) = some (.error e, σ')) :
    (TasksService.createTask dto baseUrl okey).run.runAlone (answer p o f) σ =
      some (.error e, released p f okey σ') := by
  unfold TasksService.createTask
  rw [Prog.runAlone_bindExcept, insertOrRelease_runAlone, h]
  rfl

/-- A creation whose INSERT succeeds. -/
theorem createTask_runAlone_of_inserted (baseUrl : String) (okey : Option String)
    (h : answer p o f σ (insertCall o dto) = some (.ok t, σ'))
    (hlock : σ'.lockedByOther p t.id = false) :
    (TasksService.createTask dto baseUrl okey).run.runAlone (answer p o f) σ =
      if f.enqueue then some (.error .unavailable, rolledBack p f okey t.id σ')
      else some (.ok (TasksService.buildResponse t.id baseUrl), committed p f okey t.id
        (σ'.withDispatch t)) := by
  unfold TasksService.createTask
  rw [Prog.runAlone_bindExcept, insertOrRelease_runAlone, h, Option.bind_some, Option.bind_some]
  dsimp only
  rw [Prog.runAlone_bindExcept, enqueueOrRollback_runAlone hlock]
  split
  · rfl
  · rw [Option.bind_some]
    dsimp only
    rw [Prog.runAlone_bindExcept, commitQuietly_runAlone]
    rfl

/-! ### The slot -/

theorem occupySlot_runAlone :
    (IdempotencyService.occupySlot key TasksService.idempotencyTtlSeconds).run.runAlone
      (answer p o f) σ = match σ.lookup (redisKey key) with
        | some e => some (.ok (.ofReply (false, some e.value)), σ)
        | none => some (.ok .acquired, σ.occupied p (redisKey key)) := by
  unfold IdempotencyService.occupySlot
  rw [Prog.runAlone_bindExcept, call_runAlone, answer_of_not_hits rfl]
  simp only [exec, Backend.occupy_eq]
  cases σ.lookup (redisKey key) <;> rfl

/-- A creation without a key, or with an empty one, takes no slot. -/
theorem create_of_no_key (h : dto.idempotencyKey.filter (· ≠ "") = none) :
    TasksService.create dto baseUrl = TasksService.createTask dto baseUrl none := by
  unfold TasksService.create
  rw [h]

theorem create_runAlone_of_free (h : dto.idempotencyKey.filter (· ≠ "") = some key)
    (hfree : σ.lookup (redisKey key) = none) :
    (TasksService.create dto baseUrl).run.runAlone (answer p o f) σ =
      (TasksService.createTask dto baseUrl (some key)).run.runAlone (answer p o f)
        (σ.occupied p (redisKey key)) := by
  unfold TasksService.create
  rw [h]
  dsimp only
  rw [Prog.runAlone_bindExcept, occupySlot_runAlone, hfree]
  rfl

/-- A creation that finds the id of a task returns it. -/
theorem create_runAlone_of_taken {e : RedisEntry}
    (h : dto.idempotencyKey.filter (· ≠ "") = some key) (he : σ.lookup (redisKey key) = some e)
    (hid : isUuid e.value = true) :
    (TasksService.create dto baseUrl).run.runAlone (answer p o f) σ =
      some (.ok (TasksService.buildResponse e.value baseUrl), σ) := by
  have hreply : OccupySlotResult.ofReply (false, some e.value) = .duplicate e.value := by
    have h₁ := ne_of_isUuid hid (t := "") (by decide)
    have h₂ := ne_of_isUuid hid (t := pendingSentinel) (by decide)
    simp [OccupySlotResult.ofReply, h₁, h₂]
  unfold TasksService.create
  rw [h]
  dsimp only
  rw [Prog.runAlone_bindExcept, occupySlot_runAlone, he]
  dsimp only [Option.bind_some]
  rw [hreply]
  rfl

end LongRequestProxy
