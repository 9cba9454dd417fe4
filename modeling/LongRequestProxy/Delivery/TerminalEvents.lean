import LongRequestProxy.Delivery.EventLedger
import LongRequestProxy.Store.PlainCalls

/-!
# The programs keep the ledger

Every function of the program is verified against the ledger of terminal events. The two
instances of the ledger differ in what they presuppose: the plain one holds in all runs; the
strict one, in which every ended task has its event or is owed it, presupposes that no call
throws and that no dispatch failure is recorded.

## Main definitions

* `ledgerProtocol strict`: the ghost protocol.

## Main results

* `keepsLedger_run`: every function of the program owes nothing when it ends.
-/

namespace LongRequestProxy

open Async Service Function

variable {http : HttpClient} {strict : Bool} {α β : Type}

/-- The protocol of the ledger. The strict one reckons with calls that do not throw and with
dispatch failures that find no task. -/
def ledgerProtocol (http : HttpClient) (strict : Bool) : Protocol (proxy http) where
  Ghost := Duty
  idle := {}
  dead := {}
  inv := Ledger strict
  allows p σ c o := strict = true →
    (∀ e σ', perform p o σ c ≠ some (.error e, σ')) ∧
    ∀ id w, c = .updateTask id w → w.isDispatchFailure = true → ∀ t ∈ σ.tasks, t.id = id →
      w.Matches t = false
  safe _ _ _ _ := True

theorem ledger_drops : Drops (ledgerProtocol http strict) fun _ => {} := by
  intro p o σ c e σ₀ γ ha hp hinv
  cases strict with
  | false => exact Ledger.rollback hinv p
  | true => exact absurd hp ((ha rfl).1 e _)

/-- A function that starts and ends without a duty. -/
def KeepsLedger (http : HttpClient) (strict : Bool) (P : Async α) : Prop :=
  ∀ s, (ledgerProtocol http strict).wpx P (fun _ d _ => d = {}) (fun _ d _ => d = {}) {} s

namespace KeepsLedger

theorem pure (a : α) : KeepsLedger http strict (pure a : Async α) := fun _ => rfl

theorem throw (e : JsError) : KeepsLedger http strict (throw e : Async α) := fun _ => rfl

theorem bind {P : Async α} {f : α → Async β} (hP : KeepsLedger http strict P)
    (hf : ∀ a, KeepsLedger http strict (f a)) : KeepsLedger http strict (P >>= f) := by
  intro s
  refine Protocol.wpx_seq (hP s) fun a d s hd => ?_
  rw [hd]
  exact hf a s

theorem tryCatch {P : Async α} {f : JsError → Async α} (hP : KeepsLedger http strict P)
    (hf : ∀ e, KeepsLedger http strict (f e)) : KeepsLedger http strict (tryCatch P f) := by
  intro s
  refine Protocol.wpx_tryCatch (Protocol.wpx_mono (hP s) (fun _ _ _ h => h) fun e d s hd => ?_)
  rw [hd]
  exact hf e s

/-- A call that does not write to Postgres. -/
theorem frame {c : Await} (hc : c.writesPostgres = false) : KeepsLedger http strict (call c) := by
  refine fun s => wpx_frame ledger_drops (fun _ _ _ => trivial)
    (fun p o σ γ v σ' hinv hx => ?_) (fun _ _ => rfl) fun _ _ => rfl
  obtain ⟨ht, he, hi, hxs, -⟩ := exec_of_not_writesPostgres hc hx
  exact Ledger.of_frame hinv ht he hi hxs

/-- A function each of whose calls starts and ends without a duty. -/
theorem of_uses {p : Await → Prop} {P : Async α} (hP : P.run.Uses p)
    (hcall : ∀ c, p c → KeepsLedger http strict (call c)) : KeepsLedger http strict P := by
  refine fun s => Keeps.of_uses (Φ := ledgerProtocol http strict) (I := fun d : Duty => d = {}) hP
    (fun c hc d s hd => ?_) {} s rfl
  rw [hd]
  exact hcall c hc s

end KeepsLedger

/-! ### Transactions -/

section Transactions

variable {d : Duty} {s : Backend}

/-- The program may add a terminal event of this kind to its transaction. -/
def Duty.MayEnd (d : Duty) (taskId : String) (status : Option TaskStatus) : Prop :=
  ∀ st, status = some st →
    (∃ t ∈ d.tx.tasks, t.id = taskId ∧ t.status = st) ∨ d.owed = some (taskId, st)

/-- `insertEventInTx` adds one event to a transaction that has none and deletes nothing. -/
theorem wpx_insertEventInTx {input : InsertEventInput}
    (hmay : d.MayEnd input.taskId input.eventType.ends) (hev : d.tx.events = [])
    (hdel : d.tx.deletedTasks = []) :
    (ledgerProtocol http strict).wpx (EventsRepository.insertEventInTx input)
      (fun e d' _ => d'.owed = d.owed ∧ d'.tx.tasks = d.tx.tasks ∧ d'.tx.events = [e] ∧
        d'.tx.deletedEvents = d.tx.deletedEvents ∧ e.taskId = input.taskId ∧
        e.ends = input.eventType.ends)
      (fun _ d' _ => d' = {}) d s := by
  unfold EventsRepository.insertEventInTx
  -- the lock changes nothing that the ledger looks at
  refine Protocol.wpx_seq (M := fun _ (d' : Duty) _ => d'.owed = d.owed ∧ d'.tx.tasks = d.tx.tasks ∧
    d'.tx.events = [] ∧ d'.tx.deletedTasks = [] ∧ d'.tx.deletedEvents = d.tx.deletedEvents)
    (wpx_call_of_drops ledger_drops (fun _ _ _ => trivial) ?_ fun _ _ => rfl) ?_
  · rintro p o σ γ v σ' hinv rfl - hx
    obtain ⟨-, rfl⟩ := Backend.txAdvisoryLock_ok hx
    have hinv : Ledger strict σ γ := hinv
    rw [hinv.tx p]
    exact ⟨_, hinv.setTx rfl (by simp [hdel]) (hinv.valid p).added (hinv.valid p).added_once,
      ⟨rfl, rfl, hev, hdel, rfl⟩, fun _ => rfl⟩
  rintro - d₁ s₁ ⟨howed₁, htasks₁, hev₁, hdel₁, hdelev₁⟩
  refine Protocol.wpx_seq (M := fun _ (d' : Duty) _ => d' = d₁)
    (wpx_frame ledger_drops (fun _ _ _ => trivial)
      (fun _ _ _ _ _ _ hinv hx => by cases hx; exact hinv) (fun _ _ => rfl) fun _ _ => rfl) ?_
  rintro seq d₂ s₂ rfl
  refine wpx_call_of_drops ledger_drops (fun _ _ _ => trivial) ?_ fun _ _ => rfl
  rintro p o σ γ e σ' hinv rfl - hx
  obtain ⟨he, hx⟩ := exec_txInsertEvent_ok hx
  obtain ⟨-, -, rfl⟩ := Backend.txInsertEvents_ok hx
  have hinv : Ledger strict σ γ := hinv
  have hends : e.taskId = input.taskId ∧ e.ends = input.eventType.ends := by
    rw [he]
    exact ⟨rfl, rfl⟩
  rw [hinv.tx p, hev₁]
  refine ⟨_, hinv.setTx rfl (by simp [hdel₁]) ?_ (List.pairwise_singleton _ _),
    ⟨howed₁, htasks₁, rfl, hdelev₁, hends⟩, fun _ => rfl⟩
  intro e' he' st hst
  obtain rfl := List.mem_singleton.mp he'
  rw [htasks₁, howed₁, hends.1]
  exact hmay st (hends.2 ▸ hst)

/-- A settled transaction commits. -/
theorem wpx_commit (hset : d.Settled) :
    (ledgerProtocol http strict).wpx (call .txCommit) (fun _ d' _ => d' = {})
      (fun _ d' _ => d' = {}) d s := by
  refine wpx_call_of_drops ledger_drops (fun _ _ _ => trivial) ?_ fun _ _ => rfl
  rintro p o σ γ v σ' hinv rfl - hx
  cases hx
  exact ⟨{}, Ledger.commit hinv hset, rfl, fun _ => rfl⟩

theorem Duty.settled_idle : Duty.Settled {} := ⟨by simp, by simp, by simp⟩

/-- `insertEvent` pays what the program owes. -/
theorem wpx_insertEvent {input : InsertEventInput} {taskId : String}
    {status : Option TaskStatus} (hid : input.taskId = taskId)
    (hstatus : input.eventType.ends = status) :
    (ledgerProtocol http strict).wpx (EventsRepository.insertEvent input)
      (fun _ d' _ => d' = {}) (fun _ d' _ => d' = {})
      { owed := status.map fun st => (taskId, st) } s := by
  subst hid
  unfold EventsRepository.insertEvent
  refine Protocol.wpx_seq (wpx_insertEventInTx (fun st hst => .inr ?_) rfl rfl) ?_
  · rw [← hstatus, hst]
    rfl
  rintro e d s ⟨howed, htasks, hev, hdelev, hid, hends⟩
  refine Protocol.wpx_seq (wpx_commit ⟨by simp [htasks], fun i st ho => ?_, by simp [hdelev]⟩)
    fun _ _ _ h => h
  rw [howed, Option.map_eq_some_iff] at ho
  obtain ⟨st', hst', heq⟩ := ho
  cases heq
  exact ⟨e, by simp [hev], hid, by rw [hends, hstatus, hst']⟩

/-- `cancelTask` ends the task and inserts its event together. -/
theorem keepsLedger_cancelTask (id : String) :
    KeepsLedger http strict (TasksRepository.cancelTask id) := by
  refine KeepsLedger.bind (KeepsLedger.frame rfl) fun now s => ?_
  refine Protocol.wpx_seq (M := fun v (d : Duty) _ => (v = none ∧ d = {}) ∨
    ∃ t, v = some t ∧ t.id = id ∧ t.status = .cancelled ∧ d = { tx := { tasks := [t] } })
    (wpx_call_of_drops ledger_drops (fun _ _ _ => trivial) ?_ fun _ _ => rfl) ?_
  · rintro p o σ γ v σ' hinv hd - hx
    obtain ⟨rfl, rfl⟩ | ⟨r, hr, rfl, hm, hlock, -, rfl, rfl⟩ := Backend.txCancelTask_ok hx
    · exact ⟨{}, by rwa [← hd, update_eq_self], .inl ⟨rfl, rfl⟩, fun _ => rfl⟩
    · have hinv : Ledger strict σ γ := hinv
      rw [hinv.tx p, hd]
      refine ⟨_, hinv.setTx_tasks hd (List.nodup_singleton _) fun t ht => ?_,
        .inr ⟨_, rfl, rfl, rfl, rfl⟩, fun _ => rfl⟩
      obtain rfl := List.mem_singleton.mp ht
      exact ⟨rfl, hlock, r, hr, rfl, TaskWrite.not_isTerminal_of_ending rfl hm⟩
  rintro v d s (⟨rfl, rfl⟩ | ⟨t, rfl, rfl, hst, rfl⟩)
  · exact Protocol.wpx_seq (wpx_commit Duty.settled_idle) fun _ _ _ h => h
  · refine Protocol.wpx_seq (wpx_insertEventInTx (fun st hst' => .inl ?_) rfl rfl) ?_
    · cases hst'
      exact ⟨t, List.mem_singleton_self t, rfl, hst⟩
    rintro e d s ⟨howed, htasks, hev, hdelev, hid, hends⟩
    refine Protocol.wpx_seq (wpx_commit ⟨fun t' ht' => ?_, by simp [howed], by simp [hdelev]⟩)
      fun _ _ _ h => h
    rw [htasks, List.mem_singleton] at ht'
    exact ⟨e, by simp [hev], ht' ▸ hid, by rw [hends, ht', hst]; rfl⟩

/-- A sweep batch ends its tasks and inserts their events together. -/
theorem keepsLedger_expireTimedOutTasksBatch (batchSize : ℕ) :
    KeepsLedger http strict (MaintenanceRepository.expireTimedOutTasksBatch batchSize) := by
  refine KeepsLedger.bind (KeepsLedger.frame rfl) fun now s => ?_
  refine Protocol.wpx_seq (M := fun v (d : Duty) _ => ∃ rows : List TaskSelect,
    v = rows.map (·.id) ∧ (∀ t ∈ rows, t.status = .failed) ∧ d = { tx := { tasks := rows } })
    (wpx_call_of_drops ledger_drops (fun _ _ _ => trivial) ?_ fun _ _ => rfl) ?_
  · rintro p o σ γ v σ' hinv hd - hx
    obtain ⟨sel, hsub, hsel, rfl, rfl⟩ := Backend.txExpireTasks_ok hx
    have hinv : Ledger strict σ γ := hinv
    rw [hinv.tx p, hd]
    refine ⟨_, hinv.setTx_tasks hd ?_ fun t ht => ?_, ⟨sel.map (TaskWrite.expire now).apply,
      by simp [Function.comp_def], fun t ht => ?_, rfl⟩, fun _ => rfl⟩
    · rw [List.nil_append, List.map_map]
      exact hinv.ids.sublist (hsub.map _)
    · obtain ⟨r, hr, rfl⟩ := List.mem_map.mp ht
      exact ⟨rfl, (hsel r hr).2.1, r, hsub.subset hr, rfl,
        TaskWrite.not_isTerminal_of_ending (w := .expire now) rfl
          ((TaskWrite.matches_iff _ r).mpr (hsel r hr).1)⟩
    · obtain ⟨r, -, rfl⟩ := List.mem_map.mp ht
      rfl
  rintro v d s ⟨rows, rfl, hfailed, rfl⟩
  split
  · next hnil =>
    obtain rfl : rows = [] := List.map_eq_nil_iff.mp hnil
    exact Protocol.wpx_seq (wpx_commit Duty.settled_idle) fun _ _ _ h => h
  · -- the SELECT part of the statement numbers an event for each task and changes nothing
    refine Protocol.wpx_seq (M := fun es (d : Duty) _ => d = { tx := { tasks := rows } } ∧
      es.map (·.taskId) = rows.map (·.id) ∧ ∀ e ∈ es, e.ends = some .failed)
      (wpx_call_of_drops ledger_drops (fun _ _ _ => trivial) ?_ fun _ _ => rfl) ?_
    · rintro p o σ γ es σ' hinv hd - hx
      cases hx
      refine ⟨_, by rwa [← hd, update_eq_self], ⟨rfl, ?_, fun e he => ?_⟩, fun _ => rfl⟩
      · rw [List.map_map, show (fun e : TaskEventSelect => e.taskId) ∘
          (fun x : String × ℕ => expiryEvent σ p (o.uuid x.2) x.1) = Prod.fst from rfl]
        exact List.zipIdx_map_fst _ _
      · obtain ⟨x, -, rfl⟩ := List.mem_map.mp he
        rfl
    rintro es d s ⟨rfl, hids, hends⟩
    refine Protocol.wpx_seq (M := fun _ (d : Duty) _ => d.owed = none ∧ d.tx.tasks = rows ∧
      d.tx.deletedEvents = [] ∧ d.tx.events = es)
      (wpx_call_of_drops ledger_drops (fun _ _ _ => trivial) ?_ fun _ _ => rfl) ?_
    · rintro p o σ γ v σ' hinv hd - hx
      obtain ⟨-, -, rfl⟩ := Backend.txInsertEvents_ok hx
      have hinv : Ledger strict σ γ := hinv
      have hnodup := (hinv.valid p).written_ids
      rw [hd, ← hids] at hnodup
      rw [hinv.tx p, hd]
      refine ⟨_, hinv.setTx (by rw [hd]) (by simp) (fun e he st hst => .inl ?_) ?_,
        ⟨by rw [hd], rfl, rfl, rfl⟩, fun _ => rfl⟩
      · have hmem : e.taskId ∈ rows.map (·.id) := hids ▸ List.mem_map_of_mem he
        obtain ⟨t, ht, hid⟩ := List.mem_map.mp hmem
        have hst' := hends e he
        rw [hst] at hst'
        cases hst'
        exact ⟨t, by rwa [hd], hid, hfailed t ht⟩
      · exact (List.pairwise_map.mp hnodup).imp fun hne _ _ => hne
    rintro - d s ⟨howed, htasks, hdelev, hev⟩
    refine Protocol.wpx_seq (wpx_commit ⟨fun t ht => ?_, by simp [howed], by simp [hdelev]⟩)
      fun _ _ _ h => h
    rw [htasks] at ht
    have hmem : t.id ∈ es.map (·.taskId) := hids ▸ List.mem_map_of_mem ht
    obtain ⟨e, he, hid⟩ := List.mem_map.mp hmem
    exact ⟨e, hev ▸ he, hid, by rw [hends e he, hfailed t ht]⟩

/-- A retention batch deletes the events of the tasks that it deletes. -/
theorem keepsLedger_deleteBatch (ids : List String) :
    KeepsLedger http strict (MaintenanceRepository.deleteBatch ids) := by
  intro s
  refine Protocol.wpx_seq (M := fun _ (d : Duty) _ => d.owed = none ∧ d.tx.tasks = [] ∧
    d.tx.events = [] ∧ d.tx.deletedTasks = [] ∧ ∀ x ∈ d.tx.deletedEvents, x.1 ∈ ids)
    (wpx_call_of_drops ledger_drops (fun _ _ _ => trivial) ?_ fun _ _ => rfl) ?_
  · rintro p o σ γ v σ' hinv hd - hx
    obtain rfl := Backend.txDeleteEvents_ok hx
    have hinv : Ledger strict σ γ := hinv
    rw [hinv.tx p, hd]
    refine ⟨_, hinv.setTx (by rw [hd]) (by simp) (by simp) .nil,
      ⟨by rw [hd], rfl, rfl, rfl, fun x hmem => ?_⟩, fun _ => rfl⟩
    obtain ⟨e, he, rfl⟩ := List.mem_map.mp hmem
    simpa using (List.mem_filter.mp he).2
  rintro n d s ⟨howed, htasks, hev, hdel, hdelev⟩
  refine Protocol.wpx_seq (M := fun _ (d' : Duty) _ => d'.Settled)
    (wpx_call_of_drops ledger_drops (fun _ _ _ => trivial) ?_ fun _ _ => rfl) fun m d' s hset =>
      Protocol.wpx_seq (wpx_commit hset) fun _ _ _ h => h
  rintro p o σ γ v σ' hinv rfl - hx
  obtain ⟨hlock, rfl⟩ := Backend.txDeleteTasks_ok hx
  have hinv : Ledger strict σ γ := hinv
  rw [hinv.tx p, hdel]
  refine ⟨_, hinv.setTx rfl ?_ (by simp [hev]) (by simp [hev]),
    ⟨by simp [htasks], by simp [howed], hdelev⟩, fun _ => rfl⟩
  intro q hq t ht hmem
  obtain ⟨-, r, hr, hid, -⟩ := (hinv.valid q).written t ht
  have hfree := Backend.not_held_of_lockedByOther (hlock r hr (by rwa [hid])) hq
  rw [hinv.tx q, hid] at hfree
  exact hfree.1 t ht rfl

end Transactions

/-! ### The functions of the program -/

/-- A write outside transactions leaves the program with the event of the task that it ends. -/
theorem wpx_updateTask (id : String) (w : TaskWrite) (s : Backend) :
    (ledgerProtocol http strict).wpx (call (.updateTask id w))
      (fun v (d : Duty) _ => (v = none ∧ d = {}) ∨
        (v ≠ none ∧ d = { owed := w.ending.map fun st => (id, st) }))
      (fun _ d _ => d = {}) {} s := by
  refine wpx_call_of_drops ledger_drops (fun _ _ _ => trivial) ?_ fun _ _ => rfl
  intro p o σ γ v σ' hinv hd _ hx
  obtain ⟨rfl, rfl⟩ | ⟨-, hv, hinv'⟩ := Ledger.updateTask hinv hd hx
  · exact ⟨{}, by rwa [← hd, update_eq_self], .inl ⟨rfl, rfl⟩, fun _ => rfl⟩
  · exact ⟨_, hinv', .inr ⟨hv, rfl⟩, fun _ => rfl⟩

/-- A write that ends no task, or records a dispatch failure, leaves nothing to do. The strict
ledger reckons only with dispatch failures that find no task. -/
theorem keepsLedger_updateTask {id : String} {w : TaskWrite}
    (hw : w.ending = none ∨ w.isDispatchFailure = true) :
    KeepsLedger http strict (call (.updateTask id w)) := by
  refine fun s => wpx_call_of_drops ledger_drops (fun _ _ _ => trivial) ?_ fun _ _ => rfl
  intro p o σ γ v σ' hinv hd ha hx
  refine ⟨{}, ?_, rfl, fun _ => rfl⟩
  obtain ⟨rfl, rfl⟩ | ⟨⟨r, hr, hid, hm⟩, -, hinv'⟩ := Ledger.updateTask hinv hd hx
  · rwa [← hd, update_eq_self]
  · obtain hnone | hfail := hw
    · rwa [hnone] at hinv'
    · cases strict with
      | true =>
        have hno := (ha rfl).2 id w rfl hfail r hr hid
        rw [hno] at hm
        cases hm
      | false => exact Ledger.forget hinv'

/-- A function without transactions has no duties. -/
theorem keepsLedger_of_isPlain {P : Async α} (hP : P.run.Uses Await.IsPlain) :
    KeepsLedger http strict P := by
  refine .of_uses hP fun c hc => ?_
  have hframe : c.writesPostgres = false → KeepsLedger http strict (call c) := .frame
  cases c with
  | insertTask dto now token =>
    refine fun s => wpx_frame ledger_drops (fun _ _ _ => trivial) (fun p o σ γ v σ' hinv hx => ?_)
      (fun _ _ => rfl) fun _ _ => rfl
    exact Ledger.insertTask hinv hx
  | deleteTask id =>
    refine fun s => wpx_call_of_drops ledger_drops (fun _ _ _ => trivial)
      (fun p o σ γ v σ' hinv hd _ hx => ⟨{}, ?_, rfl, fun _ => rfl⟩) fun _ _ => rfl
    rw [← hd, update_eq_self]
    exact Ledger.deleteTask hinv hd hx
  | updateTask id w =>
    obtain hcreation | hwrite | hnotification := hc
    · cases hcreation
    · exact keepsLedger_updateTask hwrite
    · cases hnotification
  | _ => first | exact hframe rfl | exact absurd hc (by simp [Await.IsPlain, Await.IsCreation,
      Await.IsDispatch, Await.IsNotification, Await.IsHttp])

theorem keepsLedger_submitResult (task : TaskSelect) (dto : SubmitResultDto) :
    KeepsLedger http strict (ExecutorService.submitResult task dto) := by
  refine KeepsLedger.bind (KeepsLedger.frame rfl) fun now s => ?_
  refine Protocol.wpx_seq (wpx_updateTask task.id (dto.write now) s) ?_
  rintro v d s (⟨rfl, rfl⟩ | ⟨hv, rfl⟩)
  · rfl
  · obtain ⟨t, rfl⟩ := Option.ne_none_iff_exists'.mp hv
    have hends : (dto.event task.id).eventType.ends = (dto.write now).ending := by
      cases dto <;> rfl
    have hid : (dto.event task.id).taskId = task.id := by
      cases dto <;> rfl
    refine Protocol.wpx_seq (wpx_insertEvent hid hends) fun event d s hd => ?_
    rw [hd]
    refine KeepsLedger.bind (KeepsLedger.frame rfl)
      (fun _ => ?_) s
    split
    · exact KeepsLedger.frame rfl
    · exact KeepsLedger.pure ()

/-- A progress event is not terminal: nobody has to owe it. -/
theorem keepsLedger_updateProgress (task : TaskSelect) (dto : UpdateProgressDto) :
    KeepsLedger http strict (ExecutorService.updateProgress task dto) := by
  refine KeepsLedger.bind (keepsLedger_updateTask (.inl rfl)) fun _ => ?_
  refine KeepsLedger.bind (fun s => ?_) fun event =>
    KeepsLedger.frame rfl
  exact wpx_insertEvent rfl rfl

theorem keepsLedger_cancel (id : String) : KeepsLedger http strict (TasksService.cancel id) := by
  refine .bind (keepsLedger_cancelTask id) fun result => ?_
  match result with
  | none =>
    refine .bind (.frame rfl) fun task => ?_
    cases task with
    | none => exact .throw _
    | some task => exact .throw _
  | some (task, event) =>
    refine .bind (.frame rfl) fun _ => ?_
    split
    · exact .frame rfl
    · exact .pure ()

theorem keepsLedger_sweep (batches : ℕ) :
    KeepsLedger http strict (TimeoutSweeperProcessor.process batches) := by
  have hpublish : ∀ events,
      KeepsLedger http strict (TimeoutSweeperProcessor.publishAll events) := by
    intro events
    induction events with
    | nil => exact .pure ()
    | cons event events ih => exact .bind (.tryCatch (.frame rfl) fun _ => .pure ()) fun _ => ih
  induction batches with
  | zero => exact .pure ()
  | succ n ih =>
    refine .bind (keepsLedger_expireTimedOutTasksBatch _) fun batch => ?_
    split
    · exact .pure ()
    · exact .bind (hpublish _) fun _ => ih

theorem keepsLedger_retain (retentionDays : ℤ) (batches : ℕ) :
    KeepsLedger http strict (MaintenanceRepository.deleteOldData retentionDays batches) := by
  have hloop : ∀ cutoff totals,
      KeepsLedger http strict (MaintenanceRepository.deleteBatches cutoff batches totals) := by
    intro cutoff
    induction batches with
    | zero => exact fun _ => .pure _
    | succ n ih =>
      intro totals
      refine .bind (.frame rfl) fun batch => ?_
      split
      · exact .pure _
      · refine .bind (keepsLedger_deleteBatch batch) fun deleted => ?_
        dsimp only
        split
        · exact ih _
        · exact .pure _
  exact .bind (.frame rfl) fun now => hloop _ _

/-- Every function of the program keeps the ledger. -/
theorem keepsLedger_run (req : Request) : KeepsLedger http strict (req.run http) := by
  have hnotify : ∀ {β : Type} {P : Async β}, P.run.Uses Await.IsNotification →
      KeepsLedger http strict P := fun hP =>
    keepsLedger_of_isPlain (hP.mono fun _ hc => .inr (.inr hc))
  cases req with
  | create dto baseUrl =>
    exact .bind (keepsLedger_of_isPlain ((create_uses ..).mono fun _ => .inl)) fun _ => .pure _
  | cancel id => exact .bind (keepsLedger_cancel id) fun _ => .pure _
  | result id authorization dto =>
    exact .bind (hnotify (canActivate_uses ..)) fun _ =>
      .bind (keepsLedger_submitResult _ _) fun _ => .pure _
  | progress id authorization dto =>
    exact .bind (hnotify (canActivate_uses ..)) fun _ =>
      .bind (keepsLedger_updateProgress _ _) fun _ => .pure _
  | dispatch taskId timeoutSeconds =>
    exact .bind (keepsLedger_of_isPlain ((dispatch_uses ..).mono fun _ hc => .inr (.inl hc)))
      fun _ => .pure _
  | notifyCancel taskId => exact .bind (hnotify (notifyCancel_uses ..)) fun _ => .pure _
  | notifyWebhook taskId => exact .bind (hnotify (notifyWebhook_uses ..)) fun _ => .pure _
  | sweep batches => exact .bind (keepsLedger_sweep _) fun _ => .pure _
  | retain days batches => exact .bind (keepsLedger_retain _ _) fun _ => .pure _

end LongRequestProxy
