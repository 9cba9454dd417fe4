import LongRequestProxy.Delivery.Publications
import LongRequestProxy.Delivery.TaskEndings

/-!
# Terminal events tell the truth

A task that has ended can be read in two ways: its row shows status, result and error, and its
terminal event shows a type and a payload. They are written by different statements, for callbacks
even in different transactions, while other functions write to the same tables. They always say
the same.

## Main definitions

* `Verdict`: the type and the payload of a terminal event.
* `TaskSelect.verdict?`: the verdict that the columns of a row amount to.
* `Backend.Confirms`: the row of the task, if it still has one, amounts to the verdict.
* `verdicts`: a function inserts a terminal event only with a verdict that it has itself written.

## Main results

* `terminal_event_tells`: what a terminal event says is what the row says, at any later time.
-/

namespace LongRequestProxy

open Async Discipline Service Function

/-! ### Verdicts -/

/-- What a terminal event says of the task. -/
structure Verdict where
  taskId : String
  eventType : TaskEventType
  payload : Json

/-- What the event says. -/
def TaskEventSelect.verdict (e : TaskEventSelect) : Verdict := ⟨e.taskId, e.eventType, e.payload⟩

/-- What the event that is to be inserted says. -/
def InsertEventInput.verdict (input : InsertEventInput) : Verdict :=
  ⟨input.taskId, input.eventType, input.payloadFields⟩

/-- What the row says, as the event of its status would put it. -/
def TaskSelect.verdict? (t : TaskSelect) : Option Verdict :=
  match t.status with
  | .completed => t.result.map fun result => ⟨t.id, .completed, .obj [("data", result)]⟩
  | .failed => t.error.map fun error => ⟨t.id, .failed, .obj [("error", error.json)]⟩
  | .cancelled => some ⟨t.id, .cancelled, .obj []⟩
  | .pending | .processing => none

/-- What the sweeper says of a task that it has failed. -/
def timeoutVerdict (taskId : String) : Verdict :=
  (InsertEventInput.failed taskId timeoutError).verdict

/-- The verdicts of the events that a call inserts. -/
def Await.reports : Await → List Verdict
  | txInsertEvent _ input => [input.verdict]
  | txInsertExpiryEvents events => events.map (·.verdict)
  | _ => []

theorem TaskSelect.taskId_of_verdict {t : TaskSelect} {v : Verdict} (h : t.verdict? = some v) :
    v.taskId = t.id := by
  unfold verdict? at h
  split at h
  · obtain ⟨-, -, rfl⟩ := Option.map_eq_some_iff.mp h
    rfl
  · obtain ⟨-, -, rfl⟩ := Option.map_eq_some_iff.mp h
    rfl
  · cases h
    rfl
  · cases h
  · cases h

/-- Only a task that has ended has a verdict. -/
theorem TaskSelect.isTerminal_of_verdict {t : TaskSelect} {v : Verdict}
    (h : t.verdict? = some v) : t.status.isTerminal = true := by
  unfold verdict? at h
  split at h
  · next hs => rw [hs]; rfl
  · next hs => rw [hs]; rfl
  · next hs => rw [hs]; rfl
  · cases h
  · cases h

theorem SameOutcome.verdict {t t' : TaskSelect} (h : SameOutcome t t') (hid : t'.id = t.id) :
    t'.verdict? = t.verdict? := by
  unfold TaskSelect.verdict?
  rw [h.status, h.result, h.error, hid]

/-- The write of a submission says what the event of the submission says. -/
theorem SubmitResultDto.verdict_apply (dto : SubmitResultDto) (now : Timestamp) (t : TaskSelect) :
    ((dto.write now).apply t).verdict? = some (dto.event t.id).verdict := by
  cases dto <;> rfl

theorem TaskWrite.verdict_cancel (now : Timestamp) (t : TaskSelect) :
    ((TaskWrite.cancel now).apply t).verdict? =
      some (InsertEventInput.cancelled t.id).verdict := rfl

theorem TaskWrite.verdict_expire (now : Timestamp) (t : TaskSelect) :
    ((TaskWrite.expire now).apply t).verdict? = some (timeoutVerdict t.id) := rfl

/-! ### The functions of the program -/

namespace Verdict

/-- The verdicts that a function has written, and not yet lost. -/
def next (w : List Verdict) : (x : Await) → Reply x → List Verdict
  | .updateTask .., .ok (some t) => t.verdict?.toList
  | .txCancelTask .., .ok (some t) => t.verdict?.toList
  | .txExpireTasks .., .ok ids => ids.map timeoutVerdict
  | _, .error _ => []
  | _, _ => w

/-- The events of a sweep batch report timeouts. -/
def Numbers : (x : Await) → Reply x → Prop
  | .txNumberExpiryEvents ids, .ok events => events.map (·.verdict) = ids.map timeoutVerdict
  | _, _ => True

theorem numbers_of_perform {p : ℕ} {o : Oracle} {σ σ' : Backend} {x : Await} {r : Reply x}
    (h : perform p o σ x = some (r, σ')) : Numbers x r := by
  cases r with
  | error e => cases x <;> trivial
  | ok v =>
    cases x with
    | txNumberExpiryEvents ids =>
      cases exec_of_perform_ok h
      change (List.map _ (List.map _ _) = _)
      rw [List.map_map, show TaskEventSelect.verdict ∘
        (fun x : String × ℕ => expiryEvent σ p (o.uuid x.2) x.1) = timeoutVerdict ∘ Prod.fst from
          rfl, ← List.map_map, List.zipIdx_map_fst]
    | _ => trivial

end Verdict

/-- A terminal event is inserted only with a verdict that the function has written. -/
abbrev verdicts (http : HttpClient) : Discipline (proxy http) where
  Local := List Verdict
  start := []
  next w x r := Verdict.next w x r
  awaits _ w x := ∀ v ∈ x.reports, v.eventType.isTerminal = true → v ∈ w
  returns _ _ _ := True
  possible x r := x.Possible r ∧ Verdict.Numbers x r

section

variable {http : HttpClient} {req : Request} {α : Type} {w : List Verdict}

/-- The function inserts only what it may, whatever it returns. -/
abbrev TellsTruth (http : HttpClient) (req : Request) (P : Async α) (w : List Verdict) : Prop :=
  (verdicts http).followsExcept req (fun _ _ => True) (fun _ _ => True) P w

/-- A call that inserts no event. -/
theorem verdicts_call {x : Await} {Q : x.Val → List Verdict → Prop} (hx : x.reports = [])
    (hQ : ∀ v, x.PossibleValue v → Verdict.Numbers x (.ok v) → Q v (Verdict.next w x (.ok v))) :
    (verdicts http).followsExcept req Q (fun _ _ => True) (call x) w := by
  refine ⟨fun v hv => ?_, fun r hr => ?_⟩
  · rw [hx] at hv
    cases hv
  · cases r with
    | ok v => exact hQ v hr.1 hr.2
    | error e => trivial

/-- A function that inserts no events. -/
theorem tellsTruth_of_uses {P : Async α} {p : Await → Prop} (hP : P.run.Uses p)
    (hp : ∀ x, p x → x.reports = []) : TellsTruth http req P w := by
  refine Discipline.follows_of_uses (I := fun _ => True) hP (fun x w hx _ => ⟨fun v hv => ?_,
    fun _ _ => trivial⟩) trivial fun r _ _ => ?_
  · rw [hp x hx] at hv
    cases hv
  · cases r <;> trivial

theorem tellsTruth_insertEventInTx {input : InsertEventInput}
    (h : input.eventType.isTerminal = true → input.verdict ∈ w) :
    TellsTruth http req (EventsRepository.insertEventInTx input) w := by
  refine followsExcept_bind (verdicts_call rfl fun _ _ _ => ?_)
  refine followsExcept_bind (verdicts_call rfl fun nextSeq _ _ => ⟨fun v hv => ?_, fun r _ => ?_⟩)
  · obtain rfl := List.mem_singleton.mp hv
    exact h
  · cases r <;> trivial

theorem tellsTruth_insertEvent {input : InsertEventInput}
    (h : input.eventType.isTerminal = true → input.verdict ∈ w) :
    TellsTruth http req (EventsRepository.insertEvent input) w :=
  followsExcept_bind (followsExcept_mono (tellsTruth_insertEventInTx h)
    (fun _ _ _ => followsExcept_bind (verdicts_call rfl fun _ _ _ => trivial)) fun _ _ h => h)

/-- A result is reported as it was written. -/
theorem tellsTruth_submitResult (task : TaskSelect) (dto : SubmitResultDto) :
    TellsTruth http req (ExecutorService.submitResult task dto) w := by
  refine followsExcept_bind (verdicts_call rfl fun now _ _ => ?_)
  refine followsExcept_bind (verdicts_call rfl fun row hrow _ => ?_)
  cases row with
  | none => trivial
  | some t =>
    obtain ⟨r, hid, -, rfl⟩ := hrow t rfl
    have hverdict : (dto.event task.id).verdict ∈
        Verdict.next w (.updateTask task.id (dto.write now))
          (.ok (some ((dto.write now).apply r))) := by
      rw [← hid]
      exact Option.mem_toList.mpr (dto.verdict_apply now r)
    refine followsExcept_bind (followsExcept_mono (tellsTruth_insertEvent fun _ => hverdict)
      (fun event _ _ => ?_) fun _ _ h => h)
    refine followsExcept_bind (verdicts_call rfl fun _ _ _ => ?_)
    split
    · exact verdicts_call rfl fun _ _ _ => trivial
    · trivial

theorem tellsTruth_updateProgress (task : TaskSelect) (dto : UpdateProgressDto) :
    TellsTruth http req (ExecutorService.updateProgress task dto) w := by
  refine followsExcept_bind (verdicts_call rfl fun row _ _ => ?_)
  refine followsExcept_bind (followsExcept_mono (tellsTruth_insertEvent fun h => by cases h)
    (fun event _ _ => ?_) fun _ _ h => h)
  exact verdicts_call rfl fun _ _ _ => trivial

/-- A cancellation is reported in the transaction that writes it. -/
theorem tellsTruth_cancelTask (id : String) :
    TellsTruth http req (TasksRepository.cancelTask id) w := by
  refine followsExcept_bind (verdicts_call rfl fun now _ _ => ?_)
  refine followsExcept_bind (verdicts_call rfl fun row hrow _ => ?_)
  cases row with
  | none => exact followsExcept_bind (verdicts_call rfl fun _ _ _ => trivial)
  | some t =>
    obtain ⟨r, rfl, -, rfl⟩ := hrow t rfl
    refine followsExcept_bind (followsExcept_mono (tellsTruth_insertEventInTx fun _ =>
      Option.mem_toList.mpr (TaskWrite.verdict_cancel now r)) (fun event _ _ => ?_)
        fun _ _ h => h)
    exact followsExcept_bind (verdicts_call rfl fun _ _ _ => trivial)

theorem tellsTruth_cancel (id : String) : TellsTruth http req (TasksService.cancel id) w := by
  refine followsExcept_bind (followsExcept_mono (tellsTruth_cancelTask id) (fun found _ _ => ?_)
    fun _ _ h => h)
  cases found with
  | none =>
    refine followsExcept_bind (verdicts_call rfl fun row _ _ => ?_)
    cases row <;> trivial
  | some x =>
    refine followsExcept_bind (verdicts_call rfl fun _ _ _ => ?_)
    dsimp only
    split
    · exact verdicts_call rfl fun _ _ _ => trivial
    · trivial

/-- A sweep batch reports a timeout of every task that it has failed. -/
theorem tellsTruth_expireTimedOutTasksBatch (batchSize : ℕ) :
    TellsTruth http req (MaintenanceRepository.expireTimedOutTasksBatch batchSize) w := by
  refine followsExcept_bind (verdicts_call rfl fun now _ _ => ?_)
  refine followsExcept_bind (verdicts_call rfl fun ids _ _ => ?_)
  split
  · exact followsExcept_bind (verdicts_call rfl fun _ _ _ => trivial)
  · refine followsExcept_bind (verdicts_call rfl fun events _ hevents => ?_)
    refine followsExcept_bind ⟨fun v hv _ => ?_, fun r _ => ?_⟩
    · have hnumbers : events.map (·.verdict) = ids.map timeoutVerdict := hevents
      have hv : v ∈ events.map (·.verdict) := hv
      rwa [hnumbers] at hv
    · cases r with
      | error e => trivial
      | ok inserted => exact followsExcept_bind (verdicts_call rfl fun _ _ _ => trivial)

theorem tellsTruth_publishAll (events : List TaskEventSelect) :
    TellsTruth http req (TimeoutSweeperProcessor.publishAll events) w := by
  induction events generalizing w with
  | nil => trivial
  | cons event events ih =>
    refine followsExcept_bind (followsExcept_tryCatch (followsExcept_mono
      (verdicts_call (Q := fun _ _ => True) rfl fun _ _ _ => trivial) (fun _ _ _ => ih)
        fun _ _ _ => ih))

theorem tellsTruth_sweep (batches : ℕ) :
    TellsTruth http req (TimeoutSweeperProcessor.process batches) w := by
  induction batches generalizing w with
  | zero => trivial
  | succ n ih =>
    refine followsExcept_bind (followsExcept_mono (tellsTruth_expireTimedOutTasksBatch _)
      (fun batch _ _ => ?_) fun _ _ h => h)
    split
    · trivial
    · exact followsExcept_bind (followsExcept_mono (tellsTruth_publishAll _) (fun _ _ _ => ih)
        fun _ _ h => h)

theorem tellsTruth_deleteBatches (cutoff : Timestamp) (batches : ℕ) (totals : ℕ × ℕ) :
    TellsTruth http req (MaintenanceRepository.deleteBatches cutoff batches totals) w := by
  induction batches generalizing totals w with
  | zero => trivial
  | succ n ih =>
    refine followsExcept_bind (verdicts_call rfl fun batch _ _ => ?_)
    split
    · trivial
    · have hbatch : ∀ w, (verdicts http).followsExcept req (fun _ _ => True) (fun _ _ => True)
          (MaintenanceRepository.deleteBatch batch) w := fun w =>
        followsExcept_bind (verdicts_call rfl fun _ _ _ => followsExcept_bind
          (verdicts_call rfl fun _ _ _ => followsExcept_bind (verdicts_call rfl fun _ _ _ =>
            trivial)))
      refine followsExcept_bind (followsExcept_mono (hbatch _) (fun deleted _ _ => ?_)
        fun _ _ h => h)
      dsimp only
      split
      · exact ih _
      · trivial

/-- Every function inserts only what it may. -/
theorem tellsTruth_run : ∀ req' : Request, TellsTruth http req (req'.run http) w := by
  have hguard : ∀ {β : Type} (id : String) (authorization : Option String)
      (f : TaskSelect → Async β), (∀ task w, TellsTruth http req (f task) w) →
        TellsTruth http req (CallbackAuthGuard.canActivate id authorization >>= f) w :=
    fun id authorization f hf => followsExcept_bind (followsExcept_mono
      (tellsTruth_of_uses (canActivate_uses id authorization) fun x hx => by
        cases x <;> first | rfl | cases hx) (fun task w _ => hf task w) fun _ _ h => h)
  have hdone : ∀ {β : Type} {P : Async β} {f : β → Async Response},
      TellsTruth http req P w → (∀ a w, TellsTruth http req (f a) w) →
        TellsTruth http req (P >>= f) w :=
    fun hP hf => followsExcept_bind (followsExcept_mono hP (fun a w _ => hf a w) fun _ _ h => h)
  intro req'
  cases req' with
  | create dto baseUrl =>
    exact hdone (tellsTruth_of_uses (create_uses dto baseUrl) fun x hx => by
      cases x <;> first | rfl | cases hx) fun _ _ => trivial
  | cancel id => exact hdone (tellsTruth_cancel id) fun _ _ => trivial
  | result id authorization dto =>
    exact hguard _ _ _ fun task w => followsExcept_bind (followsExcept_mono
      (tellsTruth_submitResult task dto) (fun _ _ _ => trivial) fun _ _ h => h)
  | progress id authorization dto =>
    exact hguard _ _ _ fun task w => followsExcept_bind (followsExcept_mono
      (tellsTruth_updateProgress task dto) (fun _ _ _ => trivial) fun _ _ h => h)
  | dispatch taskId timeoutSeconds =>
    exact hdone (tellsTruth_of_uses (dispatch_uses http taskId timeoutSeconds) fun x hx => by
      cases x <;> first | rfl | cases hx) fun _ _ => trivial
  | notifyCancel taskId =>
    exact hdone (tellsTruth_of_uses (notifyCancel_uses http taskId) fun x hx => by
      cases x <;> first | rfl | cases hx) fun _ _ => trivial
  | notifyWebhook taskId =>
    exact hdone (tellsTruth_of_uses (notifyWebhook_uses http taskId) fun x hx => by
      cases x <;> first | rfl | cases hx) fun _ _ => trivial
  | sweep batches => exact hdone (tellsTruth_sweep batches) fun _ _ => trivial
  | retain retentionDays batches =>
    exact hdone (followsExcept_bind (verdicts_call rfl fun now _ _ =>
      tellsTruth_deleteBatches _ _ _)) fun _ _ => trivial

end

theorem verdicts_sound (http : HttpClient) : (verdicts http).Sound where
  body req := follows_mono (tellsTruth_run req) fun _ _ _ => trivial
  reply _ _ _ _ _ _ h := ⟨possible_of_perform h, Verdict.numbers_of_perform h⟩

/-! ### What the rows confirm -/

section Store

variable {σ σ' : Backend} {δ : ℕ → Duty} {p q : ℕ} {o : Oracle} {x : Await} {y : x.Val}
  {v : Verdict} {w : List Verdict} {γ : ℕ → List Verdict}

/-- The row of the task amounts to the verdict, as long as the task keeps it. -/
def Backend.Confirms (σ : Backend) (v : Verdict) : Prop :=
  v.taskId ∈ σ.issued ∧ ∀ t ∈ σ.tasks, t.id = v.taskId → t.verdict? = some v

/-- The verdict is confirmed, or will be when the transaction of the program commits. -/
def Backend.Backs (σ : Backend) (p : ℕ) (v : Verdict) : Prop :=
  σ.Confirms v ∨ ∃ t ∈ (σ.tx p).tasks, t.verdict? = some v

/-- A verdict stays confirmed. -/
theorem Backend.Confirms.exec (h : σ.Confirms v) (hσ : Ledger false σ δ)
    (hx : exec p o σ x = some (.ok (y, σ'))) : σ'.Confirms v := by
  refine ⟨issued_subset_of_exec hx h.1, fun t' ht' hid => ?_⟩
  obtain hold | ⟨hnew, -⟩ | ⟨write, -, t, ht, htid, hm, rfl⟩ | ⟨-, t, ht, htid, hopen⟩ :=
    row_cases_of_exec hσ hx ht'
  · exact h.2 t' hold hid
  · exact absurd (hid ▸ h.1) hnew
  · have hverdict := h.2 t ht (htid.trans hid)
    have hout := TaskWrite.sameOutcome_of_isTerminal hm (TaskSelect.isTerminal_of_verdict hverdict)
    rw [hout.verdict (write.apply_id t), hverdict]
  · rw [TaskSelect.isTerminal_of_verdict (h.2 t ht (htid.trans hid))] at hopen
    cases hopen

/-- A row with the verdict confirms it. -/
theorem Backend.confirms_of_mem (hσ : σ.RowIds) {t : TaskSelect} (ht : t ∈ σ.tasks)
    (hv : t.verdict? = some v) : σ.Confirms v := by
  have hid := TaskSelect.taskId_of_verdict hv
  refine ⟨hid ▸ hσ.issued t ht, fun t' ht' hid' => ?_⟩
  rw [Table.eq_of_key_eq hσ.nodup ht' ht (hid'.trans hid), hv]

/-- A commit confirms what its transaction has written. -/
theorem Backend.Backs.commit (h : σ.Backs p v) (hσ : Ledger false σ δ) :
    (σ.commit p).Confirms v := by
  obtain hconf | ⟨u, hu, hv⟩ := h
  · exact hconf.exec (x := .txCommit) (o := {}) hσ rfl
  · have hid := TaskSelect.taskId_of_verdict hv
    rw [hσ.tx p] at hu
    obtain ⟨-, r, hr, hrid, -⟩ := (hσ.valid p).written u hu
    refine ⟨by rw [hid, ← hrid]; exact hσ.issued r hr, fun t ht htid => ?_⟩
    obtain ⟨-, -, -, -, ⟨-, hnone⟩ | ⟨hmem, -⟩⟩ := hσ.commit_row ht
    · exact absurd (hid.symm.trans htid.symm) (hnone u hu)
    · rw [Table.eq_of_key_eq (hσ.valid p).written_ids hmem hu (htid.trans hid), hv]

/-- What a call adds to the transaction of its program: a call that does not commit it takes no
rows away, and the events that it adds are those that it inserts. -/
theorem exec_tx_cases (hx : exec p o σ x = some (.ok (y, σ'))) :
    x = .txCommit ∨ (σ.tx p).tasks ⊆ (σ'.tx p).tasks ∧
      ∀ e ∈ (σ'.tx p).events, e ∈ (σ.tx p).events ∨ e.verdict ∈ x.reports := by
  have hsame : ∀ {τ : Backend}, (σ.tx p).tasks ⊆ (τ.tx p).tasks →
      (τ.tx p).events = (σ.tx p).events → (σ.tx p).tasks ⊆ (τ.tx p).tasks ∧
        ∀ e ∈ (τ.tx p).events, e ∈ (σ.tx p).events ∨ e.verdict ∈ x.reports :=
    fun htasks hevents => ⟨htasks, fun e he => .inl (hevents ▸ he)⟩
  by_cases hwrites : x.writesPostgres = false
  · obtain ⟨-, -, -, htxs, -⟩ := exec_of_not_writesPostgres hwrites hx
    have htx : σ'.tx p = σ.tx p := by rw [Backend.tx, htxs, Backend.tx]
    exact .inr (hsame (by simp [htx]) (by rw [htx]))
  cases x with
  | insertTask dto now token =>
    obtain ⟨-, -, -, -, rfl⟩ := Backend.insertTask_ok hx
    exact .inr (hsame (List.Subset.refl _) rfl)
  | deleteTask id =>
    obtain ⟨-, rfl⟩ := Backend.deleteTask_ok hx
    exact .inr (hsame (List.Subset.refl _) rfl)
  | updateTask id write =>
    obtain ⟨-, rfl, -⟩ | ⟨-, -, -, -, -, -, -, rfl⟩ := Backend.updateTask_ok hx
    · exact .inr (hsame (List.Subset.refl _) rfl)
    · exact .inr (hsame (List.Subset.refl _) rfl)
  | txCancelTask id now =>
    obtain ⟨-, rfl⟩ | ⟨-, -, -, -, -, -, -, rfl⟩ := Backend.txCancelTask_ok hx
    · exact .inr (hsame (List.Subset.refl _) rfl)
    · exact .inr (hsame (by simp) (by simp))
  | txExpireTasks now limit =>
    obtain ⟨-, -, -, -, rfl⟩ := Backend.txExpireTasks_ok hx
    exact .inr (hsame (by simp) (by simp))
  | txDeleteTasks ids =>
    obtain ⟨-, rfl⟩ := Backend.txDeleteTasks_ok hx
    exact .inr (hsame (by simp) (by simp))
  | txAdvisoryLock id =>
    obtain ⟨-, rfl⟩ := Backend.txAdvisoryLock_ok hx
    exact .inr (hsame (by simp) (by simp))
  | txInsertEvent seq input =>
    obtain ⟨rfl, hx⟩ := exec_txInsertEvent_ok hx
    obtain ⟨-, -, rfl⟩ := Backend.txInsertEvents_ok hx
    refine .inr ⟨by simp, fun e he => ?_⟩
    rw [Backend.tx_setTx_self] at he
    refine (List.mem_append.mp he).imp_right fun he => ?_
    rw [List.mem_singleton.mp he]
    exact List.mem_singleton_self _
  | txInsertExpiryEvents events =>
    obtain ⟨-, -, rfl⟩ := Backend.txInsertEvents_ok hx
    refine .inr ⟨by simp, fun e he => ?_⟩
    rw [Backend.tx_setTx_self] at he
    exact (List.mem_append.mp he).imp_right fun he => List.mem_map_of_mem he
  | txDeleteEvents ids =>
    obtain rfl := Backend.txDeleteEvents_ok hx
    exact .inr (hsame (by simp) (by simp))
  | txCommit => exact .inl rfl
  | _ => exact absurd rfl hwrites

/-- A call of any program leaves the verdicts of a program backed. -/
theorem Backend.Backs.exec (h : σ.Backs q v) (hσ : Ledger false σ δ)
    (hx : exec p o σ x = some (.ok (y, σ'))) : σ'.Backs q v := by
  by_cases hq : q = p
  · subst hq
    obtain rfl | ⟨hrows, -⟩ := exec_tx_cases hx
    · cases hx
      exact .inl (h.commit hσ)
    · exact h.imp (fun hconf => hconf.exec hσ hx) fun ⟨t, ht, hv⟩ => ⟨t, hrows ht, hv⟩
  · rw [Backend.Backs, exec_tx_of_ne hx hq]
    exact h.imp_left fun hconf => hconf.exec hσ hx

/-- The verdicts that a function has written are backed. -/
theorem Verdict.backs_next (hσ : Ledger false σ δ) (hx : exec p o σ x = some (.ok (y, σ')))
    (hw : ∀ v ∈ w, σ.Backs p v) (hv : v ∈ Verdict.next w x (.ok y)) : σ'.Backs p v := by
  have hrows : σ'.RowIds := (exec_rowIds hx ⟨hσ.ids, hσ.issued⟩).1
  cases x with
  | updateTask id write =>
    cases y with
    | none => exact (hw v hv).exec hσ hx
    | some t =>
      have hverdict : t.verdict? = some v := Option.mem_toList.mp hv
      obtain ⟨r, hr, rfl, hm, rfl, rfl⟩ := Backend.updateTask_some hx
      exact .inl (Backend.confirms_of_mem hrows
        (Table.mem_update.mpr ⟨r, hr, .inl ⟨hm, rfl⟩⟩) hverdict)
  | txCancelTask id now =>
    cases y with
    | none => exact (hw v hv).exec hσ hx
    | some t =>
      have hverdict : t.verdict? = some v := Option.mem_toList.mp hv
      obtain ⟨hnone, -⟩ | ⟨r, -, -, -, -, -, ht, rfl⟩ := Backend.txCancelTask_ok hx
      · cases hnone
      · cases ht
        exact .inr ⟨_, by simp, hverdict⟩
  | txExpireTasks now limit =>
    obtain ⟨selected, -, -, rfl, rfl⟩ := Backend.txExpireTasks_ok hx
    obtain ⟨i, hi, rfl⟩ := List.mem_map.mp hv
    obtain ⟨r, hr, rfl⟩ := List.mem_map.mp hi
    refine .inr ⟨(TaskWrite.expire now).apply r, ?_, TaskWrite.verdict_expire now r⟩
    rw [Backend.tx_setTx_self]
    exact List.mem_append_right _ (List.mem_map_of_mem hr)
  | _ => exact (hw v hv).exec hσ hx

/-- Terminal events say what the rows say, and functions know what they have written. -/
structure Truthful (σ : Backend) (γ : ℕ → List Verdict) : Prop where
  events : ∀ e ∈ σ.events, e.eventType.isTerminal = true → σ.Confirms e.verdict
  added : ∀ p, ∀ e ∈ (σ.tx p).events, e.eventType.isTerminal = true → σ.Backs p e.verdict
  known : ∀ p, ∀ v ∈ γ p, σ.Backs p v

namespace Truthful

theorem rollback (h : Truthful σ γ) (p : ℕ) : Truthful (σ.rollback p) (update γ p []) := by
  have hbacks : ∀ q, q ≠ p → ∀ v, σ.Backs q v → (σ.rollback p).Backs q v := by
    intro q hq v hv
    rwa [Backend.Backs, Backend.tx_rollback_of_ne hq]
  refine ⟨h.events, fun q e he hterm => ?_, ?_⟩
  · by_cases hq : q = p
    · subst hq
      rw [Backend.tx_rollback_self] at he
      cases he
    · rw [Backend.tx_rollback_of_ne hq] at he
      exact hbacks q hq _ (h.added q e he hterm)
  · exact (forall_update_iff γ fun q w => ∀ v ∈ w, (σ.rollback p).Backs q v).mpr
      ⟨fun v hv => (by cases hv), fun q hq v hv => hbacks q hq v (h.known q v hv)⟩

/-- Every call keeps the terminal events truthful. -/
theorem exec (h : Truthful σ γ) (hσ : Ledger false σ δ)
    (hawaits : ∀ v ∈ x.reports, v.eventType.isTerminal = true → v ∈ γ p)
    (hx : exec p o σ x = some (.ok (y, σ'))) :
    Truthful σ' (update γ p (Verdict.next (γ p) x (.ok y))) := by
  refine ⟨fun e he hterm => ?_, fun q e he hterm => ?_, ?_⟩
  · obtain hev | ⟨rfl, rfl⟩ := exec_events_cases hx
    · exact (h.events e (hev ▸ he) hterm).exec hσ hx
    · obtain ⟨hold, -⟩ | hnew := Backend.mem_commit_events.mp he
      · exact (h.events e hold hterm).exec hσ hx
      · exact (h.added p e hnew hterm).commit hσ
  · by_cases hq : q = p
    · subst hq
      obtain rfl | ⟨-, hevents⟩ := exec_tx_cases hx
      · cases hx
        rw [Backend.tx_commit_self] at he
        cases he
      · obtain hold | hnew := hevents e he
        · exact (h.added q e hold hterm).exec hσ hx
        · exact (h.known q _ (hawaits _ hnew hterm)).exec hσ hx
    · rw [exec_tx_of_ne hx hq] at he
      exact (h.added q e he hterm).exec hσ hx
  · exact (forall_update_iff γ fun q w => ∀ v ∈ w, σ'.Backs q v).mpr
      ⟨fun v hv => Verdict.backs_next hσ hx (h.known p) hv,
        fun q _ v hv => (h.known q v hv).exec hσ hx⟩

theorem tick (h : Truthful σ γ) {time : Timestamp} : Truthful { σ with clock := time } γ :=
  ⟨h.events, h.added, h.known⟩

end Truthful

end Store

/-! ### Runs -/

section Runs

variable {http : HttpClient} {clock : Timestamp} {c c' : (proxy http).Config}
  {allow : (proxy http).Config → (proxy http).Move → Prop}

theorem truthful_of_move {s s' : (verdicts http).Observed} {m : (proxy http).Move}
    {δ : ℕ → Duty} (hσ : Ledger false s.config.store δ) (hs : s.Obeys) (hm : s.move m = some s')
    (h : Truthful s.config.store s.locals) : Truthful s'.config.store s'.locals := by
  obtain ⟨req, -, -, rfl⟩ | ⟨p, o, req, x, k, r, σ, -, hp, hx, rfl⟩ |
    ⟨p, req, x, k, -, -, rfl⟩ | ⟨time, σ, -, htick, rfl⟩ := Observed.move_cases hm
  · exact h
  · have hawaits := hs.awaits hp
    have hlost : ∀ e, Verdict.next (s.locals p) x (.error e) = [] := fun e => by cases x <;> rfl
    obtain ⟨e, rfl, rfl, -⟩ | ⟨v, rfl, hexec, -⟩ | ⟨v, σ₁, rfl, hexec, -, rfl⟩ := perform_cases hx
    · change Truthful _ (update s.locals p (Verdict.next (s.locals p) x (.error e)))
      rw [hlost]
      exact h.rollback p
    · exact h.exec hσ hawaits hexec
    · change Truthful _ (update s.locals p (Verdict.next (s.locals p) x (.error .unavailable)))
      have hrolled := (h.exec hσ hawaits hexec).rollback p
      rwa [update_idem, ← hlost .unavailable] at hrolled
  · exact h.rollback p
  · simp only [Backend.tick] at htick
    split at htick
    · cases htick
      exact h.tick
    · cases htick

/-- Terminal events are truthful in every state reached. -/
theorem exists_truthful (h : Reaches (fun _ _ => True) (initial http clock) c) :
    ∃ γ, Truthful c.store γ := by
  let start : (verdicts http).Observed := ⟨initial http clock, fun _ => []⟩
  obtain ⟨γ, hγ⟩ := exists_runs start h
  refine ⟨γ, hγ.invariant (I := fun s => Truthful s.config.store s.locals)
    (fun s m s' hrun _ hm hs => ?_) ⟨?_, ?_, ?_⟩⟩
  · obtain ⟨δ, hδ⟩ := ledger_of_reaches (c := s.config) hrun.reaches
    exact truthful_of_move hδ ((verdicts_sound http).obeys hrun Observed.obeys_of_no_procs) hm hs
  all_goals simp [start, initial, Backend.tx]

/-- What the rows confirm they confirm for good. -/
theorem confirms_of_reaches (hc : Reaches (fun _ _ => True) (initial http clock) c)
    (h : Reaches (fun _ _ => True) c c') {v : Verdict} (hv : c.store.Confirms v) :
    c'.store.Confirms v := by
  induction h with
  | refl => exact hv
  | tail hreach hstep ih =>
    obtain ⟨m, -, hm⟩ := hstep
    obtain ⟨δ, hδ⟩ := ledger_of_reaches (hc.trans hreach)
    obtain ⟨hissued, hrows⟩ := rowStep_of_move hδ hm
    refine ⟨hissued ih.1, fun t' ht' hid => ?_⟩
    obtain ⟨t, ht, htid, hout⟩ | ⟨hnew, -⟩ := hrows t' ht'
    · have hverdict := ih.2 t ht (htid.trans hid)
      rw [(hout (TaskSelect.isTerminal_of_verdict hverdict)).verdict htid.symm, hverdict]
    · exact absurd (hid ▸ ih.1) hnew

/-- A message says what the row says. -/
theorem confirms_of_published (h : Reaches (fun _ _ => True) (initial http clock) c)
    {channel : String} {e : TaskEventSelect} (he : (channel, e) ∈ c.store.published)
    (hterm : e.eventType.isTerminal = true) : c.store.Confirms e.verdict := by
  obtain ⟨γ, hγ, -⟩ := exists_observed h
  obtain ⟨ε, hε⟩ := exists_truthful h
  have hpublished := (logged_of_runs hγ).published
  by_cases hrow : c.store.HasRow e.taskId
  · exact hε.events e (hpublished.committed _ he hrow) hterm
  · exact ⟨(hpublished.addressed _ he).2, fun t ht hid => absurd ⟨t, ht, hid⟩ hrow⟩

/-- **Terminal events tell the truth.** Whatever terminal event is in the log or was published,
in any run, the row of its task shows, at that time and at any later one, as long as it exists,
the status that the event names, and the result or the error that it carries. -/
theorem terminal_event_tells (http : HttpClient) (clock : Timestamp)
    (c c' : (proxy http).Config) (hc : Reaches (fun _ _ => True) (initial http clock) c)
    (h : Reaches (fun _ _ => True) c c') (e : TaskEventSelect)
    (he : e ∈ c.store.events ∨ ∃ channel, (channel, e) ∈ c.store.published)
    (hterm : e.eventType.isTerminal = true) (t : TaskSelect) (ht : t ∈ c'.store.tasks)
    (hid : t.id = e.taskId) : t.verdict? = some e.verdict := by
  have hconfirms : c.store.Confirms e.verdict := by
    obtain hlogged | ⟨channel, hpublished⟩ := he
    · obtain ⟨γ, hγ⟩ := exists_truthful hc
      exact hγ.events e hlogged hterm
    · exact confirms_of_published hc hpublished hterm
  exact (confirms_of_reaches hc h hconfirms).2 t ht hid

/-- The completed task shows the result that its event carries, after its progress as before. -/
theorem completedRun_tells : ∃ c c' e t, Reaches (fun _ _ => True) (initial httpRetryService 0) c ∧
    Reaches (fun _ _ => True) c c' ∧ e ∈ c.store.events ∧ e.eventType = .completed ∧
      t ∈ c'.store.tasks ∧ t.progress = 50 ∧ t.verdict? = some e.verdict := by
  obtain ⟨c, hc, hcheck⟩ : ∃ c, Reaches (fun _ _ => True) (initial httpRetryService 0) c ∧
      ((c.store.events.any fun e => e.taskId == sampleId && decide (e.eventType = .completed)) &&
        (c.replay (fun _ _ => true) lateProgress).any fun c' =>
          c'.store.tasks.any fun t => t.id == sampleId && t.progress == 50) = true :=
    exists_reaches_of_replay (fun _ _ => true) completedRun _ (fun _ _ _ => trivial) (by decide)
  simp only [Bool.and_eq_true, List.any_eq_true, beq_iff_eq, decide_eq_true_eq] at hcheck
  obtain ⟨⟨e, he, heid, htype⟩, hlate⟩ := hcheck
  obtain ⟨c', hc', hcheck'⟩ := exists_reaches_of_replay (fun _ _ => true) lateProgress _
    (fun _ _ _ => trivial) hlate
  simp only [List.any_eq_true, Bool.and_eq_true, beq_iff_eq] at hcheck'
  obtain ⟨t, ht, hid, hprogress⟩ := hcheck'
  exact ⟨c, c', e, t, hc, hc', he, htype, ht, hprogress,
    terminal_event_tells httpRetryService 0 c c' hc hc' e (.inl he) (by rw [htype]; rfl) t ht
      (hid.trans heid.symm)⟩

end Runs

end LongRequestProxy
