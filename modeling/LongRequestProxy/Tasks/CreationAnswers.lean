import LongRequestProxy.Delivery.WebhookPayload
import LongRequestProxy.Idempotency.Creations
import LongRequestProxy.Maintenance.Deletions

/-!
# What the answers to creation requests promise

A creation answers with the id of a task that it has inserted and whose dispatch job it has
enqueued, or with an id that it has found in the slot of its key. Slots can expire under creations
at work, calls can fail with or without an effect, and failed creations delete their rows. Whatever
id is answered, though, its dispatch job is stored, its row is the one that was asked for, and it is
there until the task has ended.

## Main definitions

* `Requested`: the columns that a creation request fixes.
* `Made`: the history of a function that has inserted a row and enqueued its job.
* `CreatePoint`: what holds at every point of a creation.
* `Accepted`: the promise.

## Main results

* `promises_of_runs`: the ids in the slots, and the ids that creations know, are of such tasks.
* `creation_answered`: so are the answered ids.
-/

namespace LongRequestProxy

open Async Service Discipline Function

variable {http : HttpClient} {clock : Timestamp}

/-! ### The columns of a request -/

/-- The columns that a creation request fixes. -/
structure Requested where
  idempotencyKey : Option String
  type : String
  payload : Json
  executorUrl : String
  cancelUrl : Option String
  webhookUrl : Option String
  timeoutSeconds : ℤ

def TaskSelect.requested (t : TaskSelect) : Requested where
  idempotencyKey := t.idempotencyKey
  type := t.type
  payload := t.payload
  executorUrl := t.executorUrl
  cancelUrl := t.cancelUrl
  webhookUrl := t.webhookUrl
  timeoutSeconds := t.timeoutSeconds

def CreateTaskDto.requested (dto : CreateTaskDto) : Requested where
  idempotencyKey := dto.idempotencyKey
  type := dto.type
  payload := dto.payload.getD (.obj [])
  executorUrl := dto.executorUrl
  cancelUrl := dto.cancelUrl
  webhookUrl := dto.webhookUrl
  timeoutSeconds := dto.timeoutSeconds

@[simp] theorem TaskWrite.requested_apply (w : TaskWrite) (t : TaskSelect) :
    (w.apply t).requested = t.requested := by
  cases w <;> rfl

@[simp] theorem CreateTaskDto.requested_row (dto : CreateTaskDto) (now : Timestamp)
    (token id : String) (createdAt : Timestamp) :
    ((dto.values now token).row id createdAt).requested = dto.requested := rfl

/-- The key whose slot a creation takes; an empty key is none. -/
def CreateTaskDto.key (dto : CreateTaskDto) : Option String := dto.idempotencyKey.filter (· ≠ "")

/-- The reply of the script names the id that it has found. -/
theorem OccupySlotResult.ofReply_eq_duplicate {reply : Bool × Option String} {taskId : String}
    (h : OccupySlotResult.ofReply reply = .duplicate taskId) :
    reply = (false, some taskId) ∧ taskId ≠ "" ∧ taskId ≠ pendingSentinel := by
  unfold OccupySlotResult.ofReply at h
  split at h
  · cases h
  · cases h
  · next existing =>
    split at h
    · cases h
    · next hne =>
      cases h
      exact ⟨rfl, not_or.mp hne⟩

/-! ### The points of a creation -/

/-- The function has inserted the row of the task, and then enqueued its job. -/
def Made (dto : CreateTaskDto) (id : String) (log : History) : Prop :=
  ∃ before now token t, t.id = id ∧ before ++ [⟨.insertTask dto now token, .ok t⟩,
    ⟨.enqueue (.dispatch id dto.timeoutSeconds), .ok ()⟩] <+: log

theorem Made.snoc {dto : CreateTaskDto} {id : String} {log : History} (h : Made dto id log)
    (e : (x : Await) × Reply x) : Made dto id (log ++ [e]) := by
  obtain ⟨before, now, token, t, hid, hlog⟩ := h
  exact ⟨before, now, token, t, hid, hlog.trans (List.prefix_append _ _)⟩

/-- The function has found the id in the slot of the key. -/
def IsTold (key id : String) (log : History) : Prop :=
  ⟨.redisOccupy (redisKey key) pendingSentinel TasksService.idempotencyTtlSeconds,
    .ok (false, some id)⟩ ∈ log ∧ id ≠ "" ∧ id ≠ pendingSentinel

/-- What holds at a point of a creation. -/
structure CreatePoint (dto : CreateTaskDto) (baseUrl : String) (log : History)
    (P : Prog Await Reply (Except JsError Response)) : Prop where
  enqueue : ∀ job k, P = .call (.enqueue job) k → ∃ before now token t,
    job = .dispatch t.id dto.timeoutSeconds ∧ log = before ++ [⟨.insertTask dto now token, .ok t⟩]
  rollback : ∀ i k, P = .call (.deleteTask i) k →
    ∀ n, ⟨.enqueue (.dispatch i n), .ok ()⟩ ∉ log
  occupy : ∀ k value ttl K, P = .call (.redisOccupy k value ttl) K → value = pendingSentinel
  commit : ∀ k id K, P = .call (.redisSetKeepTtl k id) K →
    ∃ key, dto.key = some key ∧ k = redisKey key ∧ Made dto id log
  returns : ∀ r, P = .ret (.ok r) → ∃ id, r = .created (TasksService.buildResponse id baseUrl) ∧
    (Made dto id log ∨ ∃ key, dto.key = some key ∧ IsTold key id log)

namespace CreatePoint

variable {dto : CreateTaskDto} {baseUrl : String} {log : History}

/-- The call is one of those that matter here. -/
def isStep : Await → Bool
  | .enqueue _ | .deleteTask _ | .redisOccupy .. | .redisSetKeepTtl .. => true
  | _ => false

theorem call {x : Await} {k : Reply x → Prog Await Reply (Except JsError Response)}
    (hx : isStep x = false) : CreatePoint dto baseUrl log (.call x k) := by
  refine ⟨fun _ _ h => ?_, fun _ _ h => ?_, fun _ _ _ _ h => ?_, fun _ _ _ h => ?_,
    fun _ h => (by cases h)⟩ <;> (cases h; cases hx)

theorem error (e : JsError) : CreatePoint dto baseUrl log (.ret (.error e)) :=
  ⟨fun _ _ h => (by cases h), fun _ _ h => (by cases h), fun _ _ _ _ h => (by cases h),
    fun _ _ _ h => (by cases h), fun _ h => (by cases h)⟩

theorem ret {id : String} (h : Made dto id log ∨ ∃ key, dto.key = some key ∧ IsTold key id log) :
    CreatePoint dto baseUrl log
      (.ret (.ok (.created (TasksService.buildResponse id baseUrl)))) :=
  ⟨fun _ _ h => (by cases h), fun _ _ h => (by cases h), fun _ _ _ _ h => (by cases h),
    fun _ _ _ h => (by cases h), fun _ hret => ⟨id, by cases hret; rfl, h⟩⟩

theorem occupySlot {k : String} {ttl : ℤ}
    {K : Reply (.redisOccupy k pendingSentinel ttl) →
      Prog Await Reply (Except JsError Response)} :
    CreatePoint dto baseUrl log (.call (.redisOccupy k pendingSentinel ttl) K) :=
  ⟨fun _ _ h => (by cases h), fun _ _ h => (by cases h), fun _ _ _ _ h => (by cases h; rfl),
    fun _ _ _ h => (by cases h), fun _ h => (by cases h)⟩

theorem enqueueJob {id : String} {now : Timestamp} {token : String} (t : TaskSelect)
    (hid : t.id = id)
    {k : Reply (.enqueue (.dispatch id dto.timeoutSeconds)) →
      Prog Await Reply (Except JsError Response)} :
    CreatePoint dto baseUrl (log ++ [⟨.insertTask dto now token, .ok t⟩])
      (.call (.enqueue (.dispatch id dto.timeoutSeconds)) k) := by
  refine ⟨fun _ _ h => ?_, fun _ _ h => (by cases h), fun _ _ _ _ h => (by cases h),
    fun _ _ _ h => (by cases h), fun _ h => (by cases h)⟩
  cases h
  exact ⟨log, now, token, t, by rw [hid], rfl⟩

theorem deleteRow {i : String}
    {k : Reply (.deleteTask i) → Prog Await Reply (Except JsError Response)}
    (h : ∀ n, ⟨.enqueue (.dispatch i n), .ok ()⟩ ∉ log) :
    CreatePoint dto baseUrl log (.call (.deleteTask i) k) :=
  ⟨fun _ _ h => (by cases h), fun _ _ hcall => (by cases hcall; exact h),
    fun _ _ _ _ h => (by cases h), fun _ _ _ h => (by cases h), fun _ h => (by cases h)⟩

theorem commitSlot {key id : String} (hkey : dto.key = some key) (hmade : Made dto id log)
    {k : Reply (.redisSetKeepTtl (redisKey key) id) → Prog Await Reply (Except JsError Response)} :
    CreatePoint dto baseUrl log (.call (.redisSetKeepTtl (redisKey key) id) k) :=
  ⟨fun _ _ h => (by cases h), fun _ _ h => (by cases h), fun _ _ _ _ h => (by cases h),
    fun _ _ _ h => (by cases h; exact ⟨key, hkey, rfl, hmade⟩), fun _ h => (by cases h)⟩

end CreatePoint

/-- A failed creation may release its slot before it ends. -/
theorem release_createPoints {dto : CreateTaskDto} {baseUrl : String} {log : History} {e : JsError}
    {k : String} {K : Reply (.redisDel k) → Prog Await Reply (Except JsError Response)}
    (hK : ∀ r, K r = .ret (.error e)) :
    (Prog.call (.redisDel k) K).Always Await.Possible (CreatePoint dto baseUrl) log :=
  ⟨.call rfl, fun r _ => hK r ▸ .error e⟩

/-- A creation that has taken its slot, or has no key, has such points only. -/
theorem createTask_createPoints {dto : CreateTaskDto} (baseUrl : String) (log : History)
    {key : Option String} (hkey : dto.key = key) (hlog : ∀ job r, ⟨.enqueue job, r⟩ ∉ log) :
    (TasksService.createTask dto baseUrl key >>= fun response =>
      (pure (.created response) : Async Response)).run.Always Await.Possible
        (CreatePoint dto baseUrl) log := by
  refine ⟨.call rfl, fun r _ => ?_⟩
  obtain e | now := r
  · cases key with
    | none => exact .error e
    | some k => exact release_createPoints fun r => by cases r <;> rfl
  refine ⟨.call rfl, fun r _ => ?_⟩
  obtain e | token := r
  · cases key with
    | none => exact .error e
    | some k => exact release_createPoints fun r => by cases r <;> rfl
  refine ⟨.call rfl, fun r hr => ?_⟩
  obtain e | t := r
  · cases key with
    | none => exact .error e
    | some k => exact release_createPoints fun r => by cases r <;> rfl
  obtain ⟨id, createdAt, rfl⟩ := hr
  refine ⟨.enqueueJob _ rfl, fun r _ => ?_⟩
  obtain e | _ := r
  · -- the job may be stored, but its storage was not confirmed
    refine ⟨.deleteRow fun n => ?_, fun r _ => ?_⟩
    · simp [hlog]
    · cases key with
      | none => cases r <;> exact .error e
      | some k => cases r <;> exact release_createPoints fun r => by cases r <;> rfl
  · have hmade : Made dto id (log ++ [⟨.now, .ok now⟩] ++ [⟨.randomUUID, .ok token⟩] ++
        [⟨.insertTask dto now token, .ok ((dto.values now token).row id createdAt)⟩] ++
        [⟨.enqueue (.dispatch id dto.timeoutSeconds), .ok ()⟩]) :=
      ⟨_, now, token, _, rfl, by rw [List.append_assoc _ [_] [_]]; exact List.prefix_rfl⟩
    cases key with
    | none => exact .ret (.inl hmade)
    | some k =>
      refine ⟨.commitSlot hkey hmade, fun r _ => ?_⟩
      cases r <;> exact .ret (.inl (hmade.snoc _))

/-- A creation request has such points only. -/
theorem create_createPoints (http : HttpClient) (dto : CreateTaskDto) (baseUrl : String) :
    ((Request.create dto baseUrl).run http).run.Always Await.Possible (CreatePoint dto baseUrl)
      [] := by
  change ((TasksService.create dto baseUrl >>= fun response =>
    (pure (.created response) : Async Response)).run).Always _ _ []
  unfold TasksService.create
  split
  · next hkey => exact createTask_createPoints baseUrl [] hkey (by simp)
  · next key hkey =>
    refine ⟨.occupySlot, fun r _ => ?_⟩
    obtain e | reply := r
    · exact .error e
    · dsimp only
      change Prog.Always _ _
        (((Prog.ret (Except.ok (OccupySlotResult.ofReply reply))).bind _).bind _) _
      cases hslot : OccupySlotResult.ofReply reply with
      | pending => exact .error _
      | acquired => exact createTask_createPoints baseUrl _ hkey (by simp)
      | duplicate taskId =>
        obtain ⟨rfl, hne⟩ := OccupySlotResult.ofReply_eq_duplicate hslot
        exact .ret (.inr ⟨key, hkey, List.mem_singleton_self _, hne⟩)

/-! ### The promise -/

/-- The row of the task is there, or was there until the task had ended. -/
def Stays (clock : Timestamp) (c : (proxy http).Config) (id : String) : Prop :=
  c.store.HasRow id ∨ ∃ d, Reaches (fun _ _ => True) (initial http clock) d ∧ HasEnded d id ∧
    Reaches (fun _ _ => True) d c

/-- The row of the task is the one that was asked for. -/
structure Stored (clock : Timestamp) (c : (proxy http).Config) (dto : CreateTaskDto)
    (id : String) : Prop where
  issued : id ∈ c.store.issued
  row : ∀ t ∈ c.store.tasks, t.id = id → t.requested = dto.requested
  stays : Stays clock c id

/-- Its dispatch job is stored too, and no creation will delete the row. -/
structure Accepted (clock : Timestamp) (c : (proxy http).Config) (dto : CreateTaskDto)
    (id : String) : Prop extends Stored clock c dto id where
  queued : Job.dispatch id dto.timeoutSeconds ∈ c.store.queue
  kept : ∀ p, isRollingBack c p id = false

/-- Such a task was asked for by a request with the key. -/
def AcceptedWith (clock : Timestamp) (c : (proxy http).Config) (key id : String) : Prop :=
  ∃ dto baseUrl, Request.create dto baseUrl ∈ c.requests ∧ dto.key = some key ∧
    Accepted clock c dto id

section Moves

variable {s s' : (history (proxy http)).Observed} {m : (proxy http).Move} {dto : CreateTaskDto}
  {key id : String}

theorem Stays.of_move (h : Runs (fun _ _ => True) (recorded http clock) s)
    (hm : s.move m = some s') (hkept : ∀ p, isRollingBack s.config p id = false)
    (hs : Stays clock s.config id) : Stays clock s'.config id := by
  have hstep : Reaches (fun _ _ => True) s.config s'.config :=
    .single ⟨m, trivial, Observed.config_move hm⟩
  obtain ⟨t, ht, hid⟩ | ⟨d, hd, hended, hrest⟩ := hs
  · by_cases hlost : s'.config.store.HasRow id
    · exact .inl hlost
    · obtain hover | ⟨p, hrolling⟩ := lost_row_cases h hm ⟨t, ht, hid⟩ hlost
      · exact .inr ⟨s.config, h.reaches, ⟨t, ht, hid, hover.2 t ht hid⟩, hstep⟩
      · rw [hkept p] at hrolling
        cases hrolling
  · exact .inr ⟨d, hd, hended, hrest.trans hstep⟩

theorem Stored.of_move (h : Runs (fun _ _ => True) (recorded http clock) s)
    (hm : s.move m = some s') (hkept : ∀ p, isRollingBack s.config p id = false)
    (hs : Stored clock s.config dto id) : Stored clock s'.config dto id where
  issued := issued_subset_of_move (Observed.config_move hm) hs.issued
  row t ht hid := by
    obtain ⟨t₀, ht₀, hid₀, hsame⟩ := column_of_move TaskSelect.requested
      TaskWrite.requested_apply h.reaches (Observed.config_move hm) ht (hid ▸ hs.issued)
    rw [hsame]
    exact hs.row t₀ ht₀ (hid₀.trans hid)
  stays := hs.stays.of_move h hm hkept

theorem Accepted.of_move (h : Runs (fun _ _ => True) (recorded http clock) s)
    (hm : s.move m = some s') (ha : Accepted clock s.config dto id) :
    Accepted clock s'.config dto id where
  toStored := ha.toStored.of_move h hm ha.kept
  queued := queue_subset_of_move (Observed.config_move hm) ha.queued
  kept := (kept_of_move h hm ⟨⟨_, ha.queued⟩, ha.kept⟩).kept

theorem AcceptedWith.of_move (h : Runs (fun _ _ => True) (recorded http clock) s)
    (hm : s.move m = some s') (ha : AcceptedWith clock s.config key id) :
    AcceptedWith clock s'.config key id := by
  obtain ⟨dto, baseUrl, hreq, hkey, ha⟩ := ha
  exact ⟨dto, baseUrl, Config.requests_of_move (Observed.config_move hm) hreq, hkey,
    ha.of_move h hm⟩

end Moves

/-! ### Who inserts, and who deletes -/

section Runs

variable {allow : (proxy http).Config → (proxy http).Move → Prop}
  {s s' : (history (proxy http)).Observed} {m : (proxy http).Move} {p : ℕ} {req : Request}
  {dto : CreateTaskDto} {baseUrl key id : String}

theorem createPoint_of_runs (h : Runs allow (recorded http clock) s)
    {P : Prog Await Reply (Except JsError Response)}
    (hp : s.config.procs[p]? = some (.running (.create dto baseUrl) P)) :
    CreatePoint dto baseUrl (s.locals p) P :=
  point_of_runs (S := proxy http) (fun _ _ _ _ _ _ hx => possible_of_perform hx)
    (create_createPoints http dto baseUrl) h hp

/-- Slots are managed by creations. -/
theorem create_of_managesSlots {c : (proxy http).Config} (h : Reaches allow (initial http clock) c)
    {x : Await} {k : Reply x → Prog Await Reply (Except JsError Response)}
    (hp : c.procs[p]? = some (.running req (.call x k))) (hx : x.managesSlots = true) :
    ∃ dto baseUrl, req = .create dto baseUrl := by
  by_contra hreq
  have huses : (Prog.call x k).Uses fun x : Await => x.managesSlots = false := by
    refine Reaches.program_invariant (S := proxy http)
      (I := fun (req : Request) (P : Prog Await Reply (Except JsError Response)) =>
        (∀ dto baseUrl, req ≠ .create dto baseUrl) → P.Uses fun x : Await =>
          x.managesSlots = false)
      (fun req hreq => leavesSlots_run hreq) (fun req x k r hk hreq => (hk hreq).2 r) h hp
      fun dto baseUrl heq => hreq ⟨dto, baseUrl, heq⟩
  rw [huses.1] at hx
  cases hx

/-- A dispatch job is enqueued by a creation that has just inserted the row of the task. -/
theorem insertion_of_enqueue (h : Runs allow (recorded http clock) s) {n : ℤ}
    {k : Reply (.enqueue (.dispatch id n)) → Prog Await Reply (Except JsError Response)}
    (hp : s.config.procs[p]? = some (.running req (.call (.enqueue (.dispatch id n)) k))) :
    ∃ dto baseUrl before now token t, req = .create dto baseUrl ∧ t.id = id ∧
      n = dto.timeoutSeconds ∧ s.locals p = before ++ [⟨.insertTask dto now token, .ok t⟩] := by
  have hobserved := observed_of_recorded h
  have hawaits : Summary.AwaitsEnqueue req ((discipline http).summary (s.locals p))
    (.dispatch id n) := ((obeys_of_runs hobserved).awaits hp).2
  obtain ⟨t, ht, -⟩ := hawaits
  obtain ⟨dto, baseUrl, rfl⟩ := create_of_inserted hobserved hp ht
  obtain ⟨before, now, token, t', hjob, hlog⟩ := (createPoint_of_runs h hp).enqueue _ k rfl
  cases hjob
  exact ⟨dto, baseUrl, before, now, token, t', rfl, rfl, rfl, hlog⟩

/-- Only the function that has inserted a row can be about to roll it back. -/
theorem not_isRollingBack_of_inserted (h : Runs allow (recorded http clock) s)
    (hinserted : Inserted (s.locals p) id)
    (hkeep : ∀ req k, s.config.procs[p]? ≠ some (.running req (.call (.deleteTask id) k)))
    (q : ℕ) : isRollingBack s.config q id = false := by
  by_contra hrolling
  obtain ⟨req, k, hq⟩ := isRollingBack_iff.mp (Bool.eq_true_of_not_eq_false hrolling)
  have hawaits : Summary.Awaits req ((discipline http).summary (s.locals q)) (.deleteTask id) :=
    (obeys_of_runs (observed_of_recorded h)).awaits hq
  obtain ⟨-, t, ht, rfl⟩ := hawaits
  obtain rfl := (inserters_of_runs h).once t.id p q hinserted (inserted_of_summary ht)
  exact hkeep req k hq

/-- A creation that is about to enqueue its job will not delete the row before. -/
theorem not_isRollingBack_of_enqueue (h : Runs allow (recorded http clock) s) {n : ℤ}
    {k : Reply (.enqueue (.dispatch id n)) → Prog Await Reply (Except JsError Response)}
    (hp : s.config.procs[p]? = some (.running req (.call (.enqueue (.dispatch id n)) k))) (q : ℕ) :
    isRollingBack s.config q id = false := by
  refine not_isRollingBack_of_inserted h (inserted_of_enqueue h hp).1 (fun req' k' hp' => ?_) q
  rw [hp] at hp'
  cases hp'

/-- The slot that a move leaves: it was there before, or a call has written it. -/
theorem redis_cases_of_move {c c' : (proxy http).Config} (hm : c.move m = some c') {k : String}
    {e : RedisEntry} (he : c'.store.redis k = some e) :
    c.store.redis k = some e ∨ ∃ (p : ℕ) (req : Request) (x : Await)
      (K : Reply x → Prog Await Reply (Except JsError Response)),
      c.procs[p]? = some (.running req (.call x K)) ∧
        ((∃ ttl, x = .redisOccupy k e.value ttl) ∨ x = .redisSetKeepTtl k e.value) := by
  obtain ⟨time, hσ⟩ | ⟨p, hσ⟩ | ⟨p, o, req, x, K, v, σ, -, hp, -, hx, hσ⟩ := store_cases_of_move hm
  · rw [hσ] at he
    exact .inl he
  · rw [hσ] at he
    exact .inl he
  · have he : σ.redis k = some e := by
      obtain hσ | hσ := hσ <;> rw [hσ] at he <;> exact he
    cases x with
    | redisOccupy k' value ttl =>
      simp only [exec, Option.some.injEq, Except.ok.injEq, Backend.occupy] at hx
      split at hx
      · cases hx
        exact .inl he
      · cases hx
        by_cases hk : k = k'
        · subst hk
          rw [Backend.redis_setKey_self] at he
          cases he
          exact .inr ⟨p, req, _, K, hp, .inl ⟨ttl, rfl⟩⟩
        · exact .inl (Backend.redis_setKey_of_ne hk _ ▸ he)
    | redisSetKeepTtl k' value =>
      cases hx
      by_cases hk : k = k'
      · subst hk
        rw [Backend.redis_setKey_self] at he
        cases he
        exact .inr ⟨p, req, _, K, hp, .inr rfl⟩
      · exact .inl (Backend.redis_setKey_of_ne hk _ ▸ he)
    | redisDel k' =>
      cases hx
      by_cases hk : k = k'
      · subst hk
        rw [Backend.redis_setKey_self] at he
        cases he
      · exact .inl (Backend.redis_setKey_of_ne hk _ ▸ he)
    | insertTask dto now token =>
      obtain ⟨-, -, -, -, rfl⟩ := Backend.insertTask_ok hx
      exact .inl he
    | deleteTask i =>
      obtain ⟨-, rfl⟩ := Backend.deleteTask_ok hx
      exact .inl he
    | _ => exact .inl ((exec_of_not_managesSlots rfl hx).1 ▸ he)

/-! ### The invariant -/

/-- The ids that creations know, and the ids in the slots, are of such tasks. -/
structure Promises (clock : Timestamp) (s : (history (proxy http)).Observed) : Prop where
  waiting : ∀ (p : ℕ) (dto : CreateTaskDto) (baseUrl id : String) (n : ℤ)
    (k : Reply (.enqueue (.dispatch id n)) → Prog Await Reply (Except JsError Response)),
    s.config.procs[p]? =
      some (.running (.create dto baseUrl) (.call (.enqueue (.dispatch id n)) k)) →
    Stored clock s.config dto id
  made : ∀ p dto id, Made dto id (s.locals p) → Accepted clock s.config dto id
  slots : ∀ key e, s.config.store.redis (redisKey key) = some e → e.value ≠ "" →
    e.value ≠ pendingSentinel → AcceptedWith clock s.config key e.value
  told : ∀ p key id, IsTold key id (s.locals p) → AcceptedWith clock s.config key id

/-- A creation that is about to enqueue its job has inserted the row before, or with the move. -/
theorem stored_of_waiting (h : Runs (fun _ _ => True) (recorded http clock) s)
    (hm : s.move m = some s') (hs : Promises clock s) {n : ℤ}
    {k : Reply (.enqueue (.dispatch id n)) → Prog Await Reply (Except JsError Response)}
    (hp : s'.config.procs[p]? =
      some (.running (.create dto baseUrl) (.call (.enqueue (.dispatch id n)) k))) :
    Stored clock s'.config dto id := by
  have hruns' := h.tail ⟨m, trivial, hm⟩
  obtain ⟨before, now, token, t, hjob, hlog⟩ := (createPoint_of_runs hruns' hp).enqueue _ k rfl
  cases hjob
  obtain ⟨hold, -⟩ | ⟨o, x, k', r, rfl, hold, hx, -, heq⟩ | ⟨-, -, heq⟩ :=
    Observed.running_cases (history_obeys h) hm hp
  · exact (hs.waiting _ _ _ _ _ _ hold).of_move h hm (not_isRollingBack_of_enqueue h hold)
  · obtain ⟨-, hlast⟩ := List.append_inj' (heq.symm.trans hlog) rfl
    cases List.singleton_inj.mp hlast
    obtain ⟨-, -, -, rfl, hσ⟩ := Backend.insertTask_ok (exec_of_perform_ok hx)
    have hids : s'.config.store.RowIds := (tracked_of_runs (observed_of_recorded hruns')).rowIds
    have hmem : (dto.values now token).row (o.uuid 0) s.config.store.clock ∈
        s'.config.store.tasks := by
      rw [hσ]
      exact List.mem_append_right _ (List.mem_singleton_self _)
    refine ⟨?_, fun t ht hid => ?_, .inl ⟨_, hmem, rfl⟩⟩
    · rw [hσ]
      exact List.mem_cons_self
    · rw [Table.eq_of_key_eq hids.nodup ht hmem hid]
      rfl
  · rw [heq] at hlog
    exact absurd hlog (by simp)

/-- A creation has enqueued its job before, or it does so with the move. -/
theorem accepted_of_made (h : Runs (fun _ _ => True) (recorded http clock) s)
    (hm : s.move m = some s') (hs : Promises clock s) (hmade : Made dto id (s'.locals p)) :
    Accepted clock s'.config dto id := by
  have hruns' := h.tail ⟨m, trivial, hm⟩
  obtain ⟨before, now, token, t, hid, hlog⟩ := hmade
  obtain ⟨heq, -⟩ | ⟨o, req, x, k, r, rfl, hp, hx, heq⟩ | ⟨-, heq⟩ := Observed.locals_cases hm p
  · rw [heq] at hlog
    exact (hs.made p dto id ⟨before, now, token, t, hid, hlog⟩).of_move h hm
  · rw [heq] at hlog
    obtain hlast | hold := List.prefix_concat_iff.mp hlog
    · -- the call confirms that the job is stored
      rw [List.append_cons] at hlast
      obtain ⟨hbefore, hlast⟩ := List.append_inj' hlast rfl
      cases List.singleton_inj.mp hlast
      obtain ⟨dto', baseUrl, before', now', token', t', rfl, -, -, hlog'⟩ :=
        insertion_of_enqueue h hp
      obtain ⟨-, hsame⟩ := List.append_inj' (hbefore.trans hlog') rfl
      cases List.singleton_inj.mp hsame
      have hinserted : Inserted (s'.locals p) id := by
        refine ⟨dto, now, token, t, ?_, hid⟩
        simp [heq, ← hbefore]
      refine ⟨(hs.waiting _ _ _ _ _ _ hp).of_move h hm (not_isRollingBack_of_enqueue h hp), ?_,
        not_isRollingBack_of_inserted hruns' hinserted fun req k' hp' => ?_⟩
      · have hstore := exec_of_perform_ok hx
        simp only [exec, Option.some.injEq, Except.ok.injEq, Prod.mk.injEq, true_and] at hstore
        rw [← hstore]
        exact List.mem_append_right _ (List.mem_singleton_self _)
      · obtain ⟨req', x', k'', r', hp'', -, hafter, -⟩ := Observed.call_cases hm
        rw [hp] at hp''
        cases hp''
        obtain ⟨rfl, -⟩ := Proc.running.inj (Option.some.inj (hp'.symm.trans hafter))
        refine (createPoint_of_runs hruns' hp').rollback id k' rfl dto.timeoutSeconds ?_
        simp [heq]
    · exact (hs.made p dto id ⟨before, now, token, t, hid, hold⟩).of_move h hm
  · rw [heq] at hlog
    exact absurd hlog (by simp)

/-- A slot was written before, or a creation commits it with the move. -/
theorem acceptedWith_of_slot (h : Runs (fun _ _ => True) (recorded http clock) s)
    (hm : s.move m = some s') (hs : Promises clock s) {e : RedisEntry}
    (he : s'.config.store.redis (redisKey key) = some e) (hempty : e.value ≠ "")
    (hpending : e.value ≠ pendingSentinel) : AcceptedWith clock s'.config key e.value := by
  refine AcceptedWith.of_move h hm ?_
  obtain hold | ⟨p, req, x, K, hp, hx⟩ := redis_cases_of_move (Observed.config_move hm) he
  · exact hs.slots key e hold hempty hpending
  · obtain ⟨dto, baseUrl, rfl⟩ := create_of_managesSlots h.reaches hp
      (by obtain ⟨ttl, rfl⟩ | rfl := hx <;> rfl)
    have hpoint := createPoint_of_runs h hp
    obtain ⟨ttl, rfl⟩ | rfl := hx
    · exact absurd (hpoint.occupy _ _ _ K rfl) hpending
    · obtain ⟨key', hkey, hslot, hmade⟩ := hpoint.commit _ _ K rfl
      obtain rfl := redisKey_inj.mp hslot
      exact ⟨dto, baseUrl, Config.request_mem_requests hp, hkey, hs.made p dto _ hmade⟩

/-- What a creation finds in a slot is what the slot holds. -/
theorem acceptedWith_of_told (h : Runs (fun _ _ => True) (recorded http clock) s)
    (hm : s.move m = some s') (hs : Promises clock s) (htold : IsTold key id (s'.locals p)) :
    AcceptedWith clock s'.config key id := by
  refine AcceptedWith.of_move h hm ?_
  obtain ⟨hlog, hempty, hpending⟩ := htold
  obtain ⟨heq, -⟩ | ⟨o, req, x, k, r, rfl, hp, hx, heq⟩ | ⟨-, heq⟩ := Observed.locals_cases hm p
  · rw [heq] at hlog
    exact hs.told p key id ⟨hlog, hempty, hpending⟩
  · rw [heq] at hlog
    rcases List.mem_append.mp hlog with hold | hnew
    · exact hs.told p key id ⟨hold, hempty, hpending⟩
    · cases List.mem_singleton.mp hnew
      have hoccupy := exec_of_perform_ok hx
      simp only [exec, Option.some.injEq, Except.ok.injEq, Backend.occupy] at hoccupy
      split at hoccupy
      · next e he =>
        obtain rfl : e.value = id := by simpa using congrArg Prod.fst hoccupy
        exact hs.slots key e (Backend.lookup_eq_some_iff.mp he).1 hempty hpending
      · simp at hoccupy
  · rw [heq] at hlog
    cases hlog

/-- **The promises are kept**, whatever fails and however long it takes. -/
theorem promises_of_runs (h : Runs (fun _ _ => True) (recorded http clock) s) :
    Promises clock s := by
  refine h.invariant (I := Promises clock) (fun t m t' ht _ hm hs => ?_) ⟨?_, ?_, ?_, ?_⟩
  · exact ⟨fun _ _ _ _ _ _ => stored_of_waiting ht hm hs, fun _ _ _ => accepted_of_made ht hm hs,
      fun _ _ => acceptedWith_of_slot ht hm hs, fun _ _ _ => acceptedWith_of_told ht hm hs⟩
  · intro p dto baseUrl id n k hp
    cases hp
  · rintro p dto id ⟨before, now, token, t, -, hlog⟩
    exact absurd (List.prefix_nil.mp hlog) (by simp)
  · intro key e he
    cases he
  · rintro p key id ⟨hlog, -⟩
    cases hlog

end Runs

/-- **Answers to creation requests.** When a creation has answered with the id of a task, then this
request, or for an answer from the slot of its key some request with the same key, has asked for the
task: its dispatch job is stored, with the timeout of the request, whatever row it has shows the
columns of the request, and the row is there until the task has ended. This holds from then on,
whatever fails and whenever slots expire. -/
theorem creation_answered (http : HttpClient) (clock : Timestamp) (c : (proxy http).Config)
    (h : Reaches (fun _ _ => True) (initial http clock) c) (p : ℕ) (dto : CreateTaskDto)
    (baseUrl : String) (response : Response)
    (hp : c.Returned p (.create dto baseUrl) (.ok response)) :
    ∃ id dto' baseUrl', response = .created (TasksService.buildResponse id baseUrl) ∧
      Request.create dto' baseUrl' ∈ c.requests ∧ dto'.key = dto.key ∧
      (dto.key = none → dto' = dto) ∧
      Job.dispatch id dto'.timeoutSeconds ∈ c.store.queue ∧
      (∀ t ∈ c.store.tasks, t.id = id → t.requested = dto'.requested) ∧
      (c.store.HasRow id ∨ ∃ d, Reaches (fun _ _ => True) (initial http clock) d ∧
        HasEnded d id ∧ Reaches (fun _ _ => True) d c) := by
  obtain ⟨γ, hγ⟩ := exists_recorded h
  have hpromises := promises_of_runs hγ
  obtain ⟨id, rfl, hmade | ⟨key, hkey, htold⟩⟩ := (createPoint_of_runs hγ hp).returns response rfl
  · have ha : Accepted clock c dto id := hpromises.made p dto id hmade
    exact ⟨id, dto, baseUrl, rfl, Config.request_mem_requests hp, rfl, fun _ => rfl, ha.queued,
      ha.row, ha.stays⟩
  · obtain ⟨dto', baseUrl', hreq, hkey', ha⟩ := hpromises.told p key id htold
    refine ⟨id, dto', baseUrl', rfl, hreq, hkey'.trans hkey.symm, fun hnone => ?_, ha.queued,
      ha.row, ha.stays⟩
    rw [hnone] at hkey
    cases hkey

/-- The first creation has lost the reply to its commit, and the second has found the slot. -/
theorem repeated_creation_answered : ∃ c dto baseUrl response id n,
    Reaches (fun _ _ => True) (initial httpRetryService 0) c ∧
      dto.idempotencyKey = some "k" ∧ c.Returned 1 (.create dto baseUrl) (.ok response) ∧
      response = .created (TasksService.buildResponse id baseUrl) ∧
      Job.dispatch id n ∈ c.store.queue := by
  obtain ⟨c, hc, hcheck⟩ : ∃ c, Reaches (fun _ _ => True) (initial httpRetryService 0) c ∧
      (createdId c 1 "k").isSome = true :=
    exists_reaches_of_replay (fun _ _ => true) (untilCommit ++ [.call 0 { fault := .lostReply },
      .spawn (.create keyedDto "http://proxy"), .call 1 {}]) _ (fun _ _ _ => trivial) (by decide)
  obtain ⟨id, hid⟩ := Option.isSome_iff_exists.mp hcheck
  obtain ⟨dto, baseUrl, response, hdto, -, hp⟩ := createdId_eq_some hid
  obtain ⟨id, dto', -, hresponse, -, -, -, hjob, -⟩ :=
    creation_answered httpRetryService 0 c hc 1 dto baseUrl _ hp
  exact ⟨c, dto, baseUrl, _, id, _, hc, hdto, hp, hresponse, hjob⟩

end LongRequestProxy
