import LongRequestProxy.Async.Relational
import LongRequestProxy.Data.JsText
import LongRequestProxy.Store.Calls

/-!
# Other callback tokens

Callback tokens are texts that the program stores, sends to executors and compares, and does
nothing else with. Here two shared states correspond when they differ in the tokens only, by a
renaming of the tokens, and it is shown that the servers treat them alike.

## Main definitions

* `Renaming`: a renaming of tokens.
* `TaskSelect.rename`, `Tx.rename`: a row with another token.
* `Twins π σ σ'`: the states correspond.
* `TokenLinks π`: the calls and the replies that correspond.

## Main results

* `Twins.exec`, `Twins.perform`: calls that correspond have effects and replies that correspond.
-/

namespace LongRequestProxy

open Async

/-- A renaming of callback tokens: it tells tokens apart as before, and takes texts that `trim`
leaves alone to such texts. -/
structure Renaming where
  map : String → String
  injective : Function.Injective map
  map_empty : map "" = ""
  tight : ∀ {s : String}, IsTight s.toList → IsTight (map s).toList

/-- Two tokens change their places. -/
def Renaming.swap (a b : String) (ha : a ≠ "" ∧ IsTight a.toList)
    (hb : b ≠ "" ∧ IsTight b.toList) : Renaming where
  map := Equiv.swap a b
  injective := (Equiv.swap a b).injective
  map_empty := Equiv.swap_apply_of_ne_of_ne ha.1.symm hb.1.symm
  tight {s} hs := by
    rw [Equiv.swap_apply_def]
    split
    · exact hb.2
    · split
      · exact ha.2
      · exact hs

theorem Renaming.map_ne_empty (π : Renaming) {s : String} : π.map s ≠ "" ↔ s ≠ "" := by
  refine not_congr ⟨fun h => π.injective (h.trans π.map_empty.symm), ?_⟩
  rintro rfl
  exact π.map_empty

variable (π : Renaming)

/-- The row with another token. -/
def TaskSelect.rename (t : TaskSelect) : TaskSelect :=
  { t with callbackToken := t.callbackToken.map π.map }

/-- The transaction with other tokens in its rows. -/
def Tx.rename (t : Tx) : Tx := { t with tasks := t.tasks.map (TaskSelect.rename π) }

/-- What is neither a row of `tasks` nor an open transaction. -/
structure Surroundings where
  events : List TaskEventSelect
  redis : String → Option RedisEntry
  queue : List Job
  published : List (String × TaskEventSelect)
  clock : Timestamp
  issued : List String
  acquired : List (ℕ × String × Timestamp)
  inserted : List (ℕ × String)

/-- What is neither a row of `tasks` nor an open transaction. -/
def Backend.surroundings (σ : Backend) : Surroundings where
  events := σ.events
  redis := σ.redis
  queue := σ.queue
  published := σ.published
  clock := σ.clock
  issued := σ.issued
  acquired := σ.acquired
  inserted := σ.inserted

/-- The states are the same but for the tokens, which are renamed. -/
structure Twins (σ σ' : Backend) : Prop where
  tasks : σ'.tasks = σ.tasks.map (TaskSelect.rename π)
  tx : ∀ p, σ'.tx p = (σ.tx p).rename π
  surroundings : σ'.surroundings = σ.surroundings

/-- Two results of a statement: both wait, both fail with the same error, or both succeed with
values that `V` relates. -/
inductive TwinOutcomes {α β : Type} (V : α → β → Prop) : Outcome α → Outcome β → Prop
  | waits : TwinOutcomes V none none
  | error (e : JsError) : TwinOutcomes V (some (.error e)) (some (.error e))
  | ok {a : α} {b : β} {σ σ' : Backend} (h : V a b) (hσ : Twins π σ σ') :
      TwinOutcomes V (some (.ok (a, σ))) (some (.ok (b, σ')))

variable {π}

theorem TwinOutcomes.mono {α β : Type} {V W : α → β → Prop} {x : Outcome α} {y : Outcome β}
    (h : TwinOutcomes π V x y) (hVW : ∀ a b, V a b → W a b) : TwinOutcomes π W x y := by
  cases h with
  | waits => exact .waits
  | error e => exact .error e
  | ok hv hσ => exact .ok (hVW _ _ hv) hσ

/-- Results that are replaced by the same result. -/
theorem TwinOutcomes.map_const {α β γ : Type} {V : α → β → Prop} {x : Outcome α} {y : Outcome β}
    (h : TwinOutcomes π V x y) (v : γ) :
    TwinOutcomes π Eq (x.map fun r => r.map fun a => (v, a.2))
      (y.map fun r => r.map fun b => (v, b.2)) := by
  cases h with
  | waits => exact .waits
  | error e => exact .error e
  | ok _ hσ => exact .ok rfl hσ

@[simp] theorem TaskSelect.rename_id (t : TaskSelect) : (t.rename π).id = t.id := rfl

@[simp] theorem Tx.rename_empty : ({} : Tx).rename π = {} := rfl

@[simp] theorem Tx.locksTask_rename (t : Tx) (id : String) :
    (t.rename π).locksTask id = t.locksTask id := by
  simp [Tx.locksTask, Tx.rename, List.any_map, Function.comp_def]

theorem Tx.newest_rename (t : Tx) (r : TaskSelect) :
    (t.rename π).newest (r.rename π) = (t.newest r).rename π := by
  simp only [Tx.newest, Tx.rename, List.find?_map, Function.comp_def, TaskSelect.rename_id]
  cases t.tasks.find? fun r' => r'.id == r.id <;> rfl

/-- A write leaves the token alone, whatever it is. -/
theorem TaskPatch.apply_rename (u : TaskPatch) (t : TaskSelect) :
    u.apply (t.rename π) = (u.apply t).rename π := rfl

theorem satisfiesChecks_rename (t : TaskSelect) :
    SatisfiesChecks (t.rename π) = SatisfiesChecks t := rfl

namespace Twins

variable {σ σ' : Backend} {p : ℕ}

theorem events (h : Twins π σ σ') : σ'.events = σ.events :=
  congrArg Surroundings.events h.surroundings

theorem clock (h : Twins π σ σ') : σ'.clock = σ.clock :=
  congrArg Surroundings.clock h.surroundings

theorem issued (h : Twins π σ σ') : σ'.issued = σ.issued :=
  congrArg Surroundings.issued h.surroundings

theorem queue (h : Twins π σ σ') : σ'.queue = σ.queue :=
  congrArg Surroundings.queue h.surroundings

theorem published (h : Twins π σ σ') : σ'.published = σ.published :=
  congrArg Surroundings.published h.surroundings

theorem lookup (h : Twins π σ σ') (key : String) : σ'.lookup key = σ.lookup key := by
  have hredis : σ'.redis = σ.redis := congrArg Surroundings.redis h.surroundings
  rw [Backend.lookup, Backend.lookup, hredis, h.clock]

/-- What other transactions hold, as far as it does not depend on tokens. -/
theorem otherTx (h : Twins π σ σ') {P : Tx → Bool} (h0 : P {} = false)
    (hP : ∀ t : Tx, P (t.rename π) = P t) : σ'.otherTx p P = σ.otherTx p P := by
  refine Bool.eq_iff_iff.mpr ⟨fun htrue => ?_, fun htrue => ?_⟩
  · obtain ⟨q, hq, hheld⟩ := Backend.exists_of_otherTx htrue
    rw [h.tx, hP] at hheld
    by_contra hfalse
    rw [Backend.otherTx_eq_false (eq_false_of_ne_true hfalse) h0 hq] at hheld
    cases hheld
  · obtain ⟨q, hq, hheld⟩ := Backend.exists_of_otherTx htrue
    by_contra hfalse
    have hnot := Backend.otherTx_eq_false (eq_false_of_ne_true hfalse) h0 hq
    rw [h.tx, hP, hheld] at hnot
    cases hnot

theorem lockedByOther (h : Twins π σ σ') (id : String) :
    σ'.lockedByOther p id = σ.lockedByOther p id :=
  h.otherTx rfl fun t => t.locksTask_rename id

theorem committedEvents (h : Twins π σ σ') (t : Tx) :
    σ'.committedEvents (t.rename π) = σ.committedEvents t := by
  rw [Backend.committedEvents, Backend.committedEvents, h.events]
  rfl

theorem maxSeq (h : Twins π σ σ') (taskId : String) : σ'.maxSeq p taskId = σ.maxSeq p taskId := by
  rw [Backend.maxSeq, Backend.maxSeq, h.tx, h.committedEvents]

/-- The same change of the surroundings. -/
theorem of_surroundings (h : Twins π σ σ') (g : Surroundings → Surroundings) {τ τ' : Backend}
    (ht : τ.tasks = σ.tasks) (ht' : τ'.tasks = σ'.tasks) (hx : τ.txs = σ.txs)
    (hx' : τ'.txs = σ'.txs) (hs : τ.surroundings = g σ.surroundings)
    (hs' : τ'.surroundings = g σ'.surroundings) : Twins π τ τ' where
  tasks := by rw [ht, ht', h.tasks]
  tx q := by rw [Backend.tx, Backend.tx, hx, hx']; exact h.tx q
  surroundings := by rw [hs, hs', h.surroundings]

/-- Rows that are replaced by rows that correspond. -/
theorem setTasks (h : Twins π σ σ') (T : List TaskSelect) :
    Twins π { σ with tasks := T } { σ' with tasks := T.map (TaskSelect.rename π) } where
  tasks := rfl
  tx := h.tx
  surroundings := h.surroundings

theorem setTx (h : Twins π σ σ') (p : ℕ) (t : Tx) :
    Twins π (σ.setTx p t) (σ'.setTx p (t.rename π)) where
  tasks := h.tasks
  tx q := by
    by_cases hq : q = p
    · subst hq
      rw [Backend.tx_setTx_self, Backend.tx_setTx_self]
    · rw [Backend.tx_setTx_of_ne hq, Backend.tx_setTx_of_ne hq, h.tx]
  surroundings := h.surroundings

theorem rollback (h : Twins π σ σ') (p : ℕ) : Twins π (σ.rollback p) (σ'.rollback p) where
  tasks := h.tasks
  tx q := by
    by_cases hq : q = p
    · subst hq
      rw [Backend.tx_rollback_self, Backend.tx_rollback_self]
      rfl
    · rw [Backend.tx_rollback_of_ne hq, Backend.tx_rollback_of_ne hq, h.tx]
  surroundings := h.surroundings

theorem commit (h : Twins π σ σ') (p : ℕ) : Twins π (σ.commit p) (σ'.commit p) where
  tasks := by
    simp only [Backend.commit, Backend.committedTasks, h.tasks, h.tx, List.filter_map,
      List.map_map]
    exact List.map_congr_left fun r _ => Tx.newest_rename _ r
  tx q := by
    by_cases hq : q = p
    · subst hq
      rw [Backend.tx_commit_self, Backend.tx_commit_self]
      rfl
    · rw [Backend.tx_commit_of_ne hq, Backend.tx_commit_of_ne hq, h.tx]
  surroundings := by
    have hevents : σ'.committedEvents (σ'.tx p) = σ.committedEvents (σ.tx p) := by
      rw [h.tx, h.committedEvents]
    change { σ'.surroundings with events := σ'.committedEvents (σ'.tx p) } =
      { σ.surroundings with events := σ.committedEvents (σ.tx p) }
    rw [hevents, h.surroundings]

/-- Rows that are found by what is no token. -/
theorem find (h : Twins π σ σ') {P : TaskSelect → Bool} (hP : ∀ t, P (t.rename π) = P t) :
    σ'.tasks.find? P = (σ.tasks.find? P).map (TaskSelect.rename π) := by
  rw [h.tasks, List.find?_map, show P ∘ TaskSelect.rename π = P from funext hP]

theorem filter (h : Twins π σ σ') {P : TaskSelect → Bool} (hP : ∀ t, P (t.rename π) = P t) :
    σ'.tasks.filter P = (σ.tasks.filter P).map (TaskSelect.rename π) := by
  rw [h.tasks, List.filter_map, show P ∘ TaskSelect.rename π = P from funext hP]

end Twins

/-! ### Calls that correspond -/

/-- The call draws a token, or mentions one, or its reply shows one. -/
def Await.showsToken : Await → Bool
  | randomUUID | insertTask .. | findTask _ | updateTask .. | txCancelTask .. => true
  | _ => false

variable (π) in
/-- The headers carry tokens that correspond. -/
def HeaderTwins (authorization authorization' : String) : Prop :=
  ∃ token, authorization = "Bearer " ++ token ∧ authorization' = "Bearer " ++ π.map token

variable (π) in
/-- The calls that correspond, and their replies. -/
inductive TokenLinks : Prog.Links Await Reply
  | same {x : Await} (hx : x.showsToken = false) : TokenLinks x x Eq
  | randomUUID : TokenLinks .randomUUID .randomUUID (Prog.Agree fun a b => b = π.map a)
  | insertTask (dto : CreateTaskDto) (now : Timestamp) (token : String) :
    TokenLinks (.insertTask dto now token) (.insertTask dto now (π.map token))
      (Prog.Agree fun t t' => t' = t.rename π)
  | findTask (id : String) : TokenLinks (.findTask id) (.findTask id)
      (Prog.Agree fun t t' => t' = t.map (TaskSelect.rename π))
  | updateTask (id : String) (w : TaskWrite) : TokenLinks (.updateTask id w) (.updateTask id w)
      (Prog.Agree fun t t' => t' = t.map (TaskSelect.rename π))
  | txCancelTask (id : String) (now : Timestamp) :
    TokenLinks (.txCancelTask id now) (.txCancelTask id now)
      (Prog.Agree fun t t' => t' = t.map (TaskSelect.rename π))
  | httpRequest {authorization authorization' : String} (url : String) (body : Json)
      (timeoutMs : ℕ) (h : HeaderTwins π authorization authorization') :
    TokenLinks (.httpRequest url body authorization timeoutMs)
      (.httpRequest url body authorization' timeoutMs) Eq

variable (π) in
/-- The outside world draws corresponding tokens, and does everything else alike. -/
def Oracle.rename (x : Await) (o : Oracle) : Oracle :=
  match x with
  | .randomUUID => { o with uuid := fun i => π.map (o.uuid i) }
  | _ => o

namespace Twins

variable {σ σ' : Backend} {p : ℕ} {o : Oracle}

/-- A statement that changes the transaction of its program as it does in the twin. -/
theorem okTx {α : Type} (h : Twins π σ σ') (v : α) {t' : Tx} (t : Tx) (ht : t' = t.rename π) :
    TwinOutcomes π Eq (some (.ok (v, σ.setTx p t))) (some (.ok (v, σ'.setTx p t'))) := by
  rw [ht]
  exact .ok rfl (h.setTx p t)

theorem isLimited_rename (limit : ℕ) (picks : List String) (T : List TaskSelect) :
    Backend.isLimited limit picks (T.map (TaskSelect.rename π)) =
      Backend.isLimited limit picks T := by
  simp [Backend.isLimited, List.any_map, Function.comp_def]

theorem sweepUpdate_rename (now : Timestamp) (T : List TaskSelect) :
    sweepUpdate now (T.map (TaskSelect.rename π)) =
      (sweepUpdate now T).map (List.map (TaskSelect.rename π)) := by
  have hrows : (T.map (TaskSelect.rename π)).map (TaskWrite.expire now).apply =
      (T.map (TaskWrite.expire now).apply).map (TaskSelect.rename π) := by
    rw [List.map_map, List.map_map]
    rfl
  have hall : ((T.map (TaskWrite.expire now).apply).map (TaskSelect.rename π)).all SatisfiesChecks =
      (T.map (TaskWrite.expire now).apply).all SatisfiesChecks := by
    rw [List.all_map]
    rfl
  simp only [sweepUpdate, hrows, hall]
  split <;> rfl

theorem txExpireTasks (h : Twins π σ σ') (now : Timestamp) (limit : ℕ) (picks : List String) :
    TwinOutcomes π Eq (σ.txExpireTasks p now limit picks) (σ'.txExpireTasks p now limit picks) := by
  have hcandidates : σ'.expirable p now = (σ.expirable p now).map (TaskSelect.rename π) := by
    simp only [Backend.expirable, h.lockedByOther]
    exact h.filter fun _ => rfl
  have hselected : ((σ.expirable p now).map (TaskSelect.rename π)).filter
      (fun r => picks.contains r.id) =
        ((σ.expirable p now).filter fun r => picks.contains r.id).map (TaskSelect.rename π) := by
    rw [List.filter_map]
    rfl
  simp only [Backend.txExpireTasks, hcandidates, isLimited_rename, hselected, sweepUpdate_rename]
  split
  · cases sweepUpdate now ((σ.expirable p now).filter fun r => picks.contains r.id) with
    | none => exact .error _
    | some rows =>
      have hids : (rows.map (TaskSelect.rename π)).map (·.id) = rows.map (·.id) := by
        rw [List.map_map]
        rfl
      simp only [Option.map_some, hids]
      exact h.okTx _ _ (by simp [h.tx, Tx.rename])
  · exact .waits

theorem txInsertEvents (h : Twins π σ σ') (es : List TaskEventSelect) :
    TwinOutcomes π Eq (σ.txInsertEvents p es) (σ'.txInsertEvents p es) := by
  have hother : ∀ e : TaskEventSelect, (σ'.otherTx p fun t =>
      t.events.any fun e' => e'.taskId == e.taskId && e'.seq == e.seq) =
        σ.otherTx p fun t => t.events.any fun e' => e'.taskId == e.taskId && e'.seq == e.seq :=
    fun e => h.otherTx rfl fun _ => rfl
  simp only [Backend.txInsertEvents, hother, h.tx, h.committedEvents]
  split
  · exact .waits
  · split
    · exact .error _
    · exact h.okTx _ _ rfl

/-- A call that shows no token has the same effect and the same value. -/
theorem exec_same (h : Twins π σ σ') {x : Await} (hx : x.showsToken = false) :
    TwinOutcomes π Eq (exec p o σ x) (exec p o σ' x) := by
  cases x with
  | now | jitter | sleep ms | httpRequest url body authorization ms => exact .ok rfl h
  | redisOccupy key value ttl =>
    simp only [LongRequestProxy.exec, Backend.occupy, h.lookup key, h.clock]
    cases σ.lookup key with
    | some e => exact .ok rfl h
    | none =>
      let until_ := σ.clock.addSeconds ttl
      exact .ok rfl (h.of_surroundings (fun s => { s with
        redis := Function.update s.redis key (some ⟨value, some until_, p⟩)
        acquired := (p, key, until_) :: s.acquired }) rfl rfl rfl rfl rfl rfl)
  | redisSetKeepTtl key value =>
    simp only [LongRequestProxy.exec, h.lookup key]
    exact .ok rfl (h.of_surroundings (fun s => { s with
      redis := Function.update s.redis key
        (some ⟨value, (σ.lookup key).bind (·.expireAt), p⟩) }) rfl rfl rfl rfl rfl rfl)
  | redisDel key =>
    exact .ok rfl (h.of_surroundings (fun s => { s with
      redis := Function.update s.redis key none }) rfl rfl rfl rfl rfl rfl)
  | publish channel event =>
    exact .ok rfl (h.of_surroundings (fun s => { s with
      published := s.published ++ [(channel, event)] }) rfl rfl rfl rfl rfl rfl)
  | enqueue job =>
    exact .ok rfl (h.of_surroundings (fun s => { s with queue := s.queue ++ [job] })
      rfl rfl rfl rfl rfl rfl)
  | deleteTask id =>
    have hfind : (σ'.findTask id).isSome = (σ.findTask id).isSome := by
      rw [Backend.findTask, h.find fun _ => rfl, Option.isSome_map]
      rfl
    simp only [LongRequestProxy.exec, Backend.deleteTask, hfind, h.lockedByOther,
      h.filter (P := fun r => r.id != id) fun _ => rfl]
    split
    · exact .waits
    · exact .ok rfl (h.setTasks _)
  | selectOldTasks cutoff limit =>
    simp only [LongRequestProxy.exec, Backend.selectOldTasks,
      h.filter (P := fun r => r.status.isTerminal && decide (r.createdAt < cutoff)) fun _ => rfl,
      isLimited_rename]
    split
    · exact .ok rfl h
    · exact .waits
  | txExpireTasks now limit => exact h.txExpireTasks now limit o.picks
  | txDeleteTasks ids =>
    have hrows := h.filter (P := fun r => ids.contains r.id) fun _ => rfl
    have hlocked : ((σ.tasks.filter fun r => ids.contains r.id).map (TaskSelect.rename π)).any
        (fun r => σ.lockedByOther p r.id) =
          (σ.tasks.filter fun r => ids.contains r.id).any fun r => σ.lockedByOther p r.id := by
      rw [List.any_map]
      rfl
    simp only [LongRequestProxy.exec, Backend.txDeleteTasks, h.lockedByOther, hrows, hlocked,
      List.length_map]
    split
    · exact .waits
    · exact h.okTx _ { σ.tx p with deletedTasks := (σ.tx p).deletedTasks ++ ids }
        (by rw [h.tx]; rfl)
  | txAdvisoryLock id =>
    have hother : (σ'.otherTx p fun t => t.locks.contains id) =
        σ.otherTx p fun t => t.locks.contains id := h.otherTx rfl fun _ => rfl
    simp only [LongRequestProxy.exec, Backend.txAdvisoryLock, hother]
    split
    · exact .waits
    · exact h.okTx _ { σ.tx p with locks := id :: (σ.tx p).locks } (by rw [h.tx]; rfl)
  | txNextSeq id =>
    simp only [LongRequestProxy.exec, h.maxSeq]
    exact .ok rfl h
  | txInsertEvent seq input =>
    simp only [LongRequestProxy.exec, h.clock]
    exact (h.txInsertEvents [input.row (o.uuid 0) seq σ.clock]).map_const _
  | txNumberExpiryEvents ids =>
    have hevent : ∀ eventId i, expiryEvent σ' p eventId i = expiryEvent σ p eventId i :=
      fun eventId i => by rw [expiryEvent, expiryEvent, h.maxSeq, h.clock]
    simp only [LongRequestProxy.exec, hevent]
    exact .ok rfl h
  | txInsertExpiryEvents events => exact h.txInsertEvents events
  | txDeleteEvents ids =>
    have hother : ∀ e, (σ'.otherTx p fun t => t.deletesEvent e) =
        σ.otherTx p fun t => t.deletesEvent e := fun e => h.otherTx rfl fun _ => rfl
    simp only [LongRequestProxy.exec, Backend.txDeleteEvents, hother, h.events]
    split
    · exact .waits
    · let found := σ.events.filter fun e => ids.contains e.taskId
      exact h.okTx _ { σ.tx p with
        deletedEvents := (σ.tx p).deletedEvents ++ found.map fun e => (e.taskId, e.seq) }
          (by rw [h.tx]; rfl)
  | txCommit => exact .ok rfl (h.commit p)
  | _ => cases hx

theorem findTask (h : Twins π σ σ') (id : String) :
    σ'.findTask id = (σ.findTask id).map (TaskSelect.rename π) :=
  h.find fun _ => rfl

theorem insertTask (h : Twins π σ σ') (dto : CreateTaskDto) (now : Timestamp) (token id : String) :
    TwinOutcomes π (fun t t' => t' = t.rename π) (σ.insertTask p (dto.values now token) id)
      (σ'.insertTask p (dto.values now (π.map token)) id) := by
  have hkey : (σ'.tasks.find? fun r => r.idempotencyKey.isSome &&
      r.idempotencyKey == (dto.values now (π.map token)).idempotencyKey) =
        (σ.tasks.find? fun r => r.idempotencyKey.isSome &&
          r.idempotencyKey == (dto.values now token).idempotencyKey).map (TaskSelect.rename π) :=
    h.find fun _ => rfl
  simp only [Backend.insertTask, h.issued, hkey]
  split
  · cases σ.tasks.find? fun r => r.idempotencyKey.isSome &&
        r.idempotencyKey == (dto.values now token).idempotencyKey with
    | none =>
      refine .ok (by rw [h.clock]; rfl) ?_
      have hrows : σ'.tasks ++ [(dto.values now (π.map token)).row id σ'.clock] =
          (σ.tasks ++ [(dto.values now token).row id σ.clock]).map (TaskSelect.rename π) := by
        rw [h.tasks, h.clock, List.map_append]
        rfl
      rw [hrows]
      exact (h.setTasks _).of_surroundings (fun s => { s with
        issued := id :: σ.issued, inserted := (p, id) :: s.inserted }) rfl rfl rfl rfl rfl rfl
    | some r =>
      simp only [Option.map_some, TaskSelect.rename_id, h.lockedByOther]
      split
      · exact .waits
      · exact .error _
  · exact .waits

theorem updateTask (h : Twins π σ σ') (id : String) (w : TaskWrite) :
    TwinOutcomes π (fun t t' => t' = t.map (TaskSelect.rename π)) (σ.updateTask p id w)
      (σ'.updateTask p id w) := by
  have hwhere : ∀ t : TaskSelect, (w.stmt id).where_ (t.rename π) = (w.stmt id).where_ t :=
    fun t => by cases w <;> rfl
  have hall : ((σ.tasks.map (TaskSelect.rename π)).all fun r =>
      !(w.stmt id).where_ r || SatisfiesChecks ((w.stmt id).set.apply r)) =
        σ.tasks.all fun r =>
          !(w.stmt id).where_ r || SatisfiesChecks ((w.stmt id).set.apply r) := by
    simp only [List.all_map, Function.comp_def, hwhere, TaskPatch.apply_rename,
      satisfiesChecks_rename]
  have hupdate : Table.update (w.stmt id).where_ (w.stmt id).set.apply
      (σ.tasks.map (TaskSelect.rename π)) =
        (Table.update (w.stmt id).where_ (w.stmt id).set.apply σ.tasks).map
          (TaskSelect.rename π) := by
    simp only [Table.update, List.map_map, Function.comp_def, hwhere, TaskPatch.apply_rename]
    exact List.map_congr_left fun r _ => by split <;> rfl
  simp only [Backend.updateTask, h.find hwhere, h.lockedByOther]
  cases σ.tasks.find? (w.stmt id).where_ with
  | none => exact .ok rfl h
  | some r =>
    simp only [Option.map_some, h.tasks, hall, hupdate]
    split
    · exact .waits
    · split
      · exact .ok rfl (h.setTasks _)
      · exact .error _

theorem txCancelTask (h : Twins π σ σ') (id : String) (now : Timestamp) :
    TwinOutcomes π (fun t t' => t' = t.map (TaskSelect.rename π)) (σ.txCancelTask p id now)
      (σ'.txCancelTask p id now) := by
  simp only [Backend.txCancelTask, h.find (P := (cancelTask id now).where_) fun _ => rfl,
    h.lockedByOther]
  cases σ.tasks.find? (cancelTask id now).where_ with
  | none => exact .ok rfl h
  | some r =>
    have hchecks : SatisfiesChecks ((cancelTask id now).set.apply (r.rename π)) =
        SatisfiesChecks ((cancelTask id now).set.apply r) := rfl
    have hnew : ({ σ'.tx p with
        tasks := (σ'.tx p).tasks ++ [(cancelTask id now).set.apply (r.rename π)] } : Tx) =
          Tx.rename π { σ.tx p with
            tasks := (σ.tx p).tasks ++ [(cancelTask id now).set.apply r] } := by
      rw [h.tx]
      simp only [Tx.rename, List.map_append]
      rfl
    simp only [Option.map_some]
    split
    · exact .waits
    · by_cases hsat : SatisfiesChecks ((cancelTask id now).set.apply r) = true
      · rw [if_pos hsat, if_pos (hchecks.trans hsat)]
        refine .ok rfl ?_
        rw [hnew]
        exact h.setTx p _
      · rw [if_neg hsat, if_neg fun hsat' => hsat (hchecks.symm.trans hsat')]
        exact .error _

/-- **Calls that correspond have effects and values that correspond.** -/
theorem exec (h : Twins π σ σ') {x y : Await} {V : Reply x → Reply y → Prop}
    (hlink : TokenLinks π x y V) : (∀ e, V (.error e) (.error e)) ∧
      TwinOutcomes π (fun a b => V (.ok a) (.ok b)) (exec p o σ x)
        (exec p (o.rename π x) σ' y) := by
  cases hlink with
  | same hx =>
    have hsame : o.rename π x = o := by
      cases x with
      | randomUUID => cases hx
      | _ => rfl
    rw [hsame]
    exact ⟨fun _ => rfl, (h.exec_same hx).mono fun _ _ => congrArg _⟩
  | randomUUID => exact ⟨.error, .ok (.ok rfl) h⟩
  | insertTask dto now token =>
    exact ⟨.error, (h.insertTask dto now token (o.uuid 0)).mono fun _ _ heq => .ok heq⟩
  | findTask id => exact ⟨.error, .ok (.ok (h.findTask id)) h⟩
  | updateTask id w => exact ⟨.error, (h.updateTask id w).mono fun _ _ heq => .ok heq⟩
  | txCancelTask id now => exact ⟨.error, (h.txCancelTask id now).mono fun _ _ heq => .ok heq⟩
  | httpRequest url body ms hheader => exact ⟨fun _ => rfl, .ok rfl h⟩

/-- **What a call can do, a call that corresponds can do as well.** -/
theorem perform (h : Twins π σ σ') {x y : Await} {V : Reply x → Reply y → Prop}
    (hlink : TokenLinks π x y V) {r : Reply x} {τ : Backend}
    (hstep : perform p o σ x = some (r, τ)) :
    ∃ r' τ', LongRequestProxy.perform p (o.rename π x) σ' y = some (r', τ') ∧ V r r' ∧
      Twins π τ τ' := by
  have hremote : y.isRemote = x.isRemote := by cases hlink <;> rfl
  have hfault : (o.rename π x).fault = o.fault := by cases x <;> rfl
  obtain ⟨herror, hexec⟩ := h.exec (p := p) (o := o) hlink
  unfold LongRequestProxy.perform at hstep ⊢
  rw [hremote, hfault]
  generalize LongRequestProxy.exec p o σ x = a at hexec hstep
  generalize LongRequestProxy.exec p (o.rename π x) σ' y = b at hexec
  generalize (if x.isRemote = true then o.fault else .none) = fault at hstep ⊢
  cases fault with
  | failed =>
    cases hstep
    exact ⟨_, _, rfl, herror _, h.rollback p⟩
  | none =>
    cases hexec with
    | waits => cases hstep
    | error e =>
      cases hstep
      exact ⟨_, _, rfl, herror _, h.rollback p⟩
    | ok hv hσ =>
      cases hstep
      exact ⟨_, _, rfl, hv, hσ⟩
  | lostReply =>
    cases hexec with
    | waits => cases hstep
    | error e =>
      cases hstep
      exact ⟨_, _, rfl, herror _, h.rollback p⟩
    | ok hv hσ =>
      cases hstep
      exact ⟨_, _, rfl, herror _, hσ.rollback p⟩

end Twins

end LongRequestProxy
