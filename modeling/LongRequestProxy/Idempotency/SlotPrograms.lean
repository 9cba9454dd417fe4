import LongRequestProxy.Idempotency.SlotProtocol
import LongRequestProxy.Store.PlainCalls

/-!
# The programs keep the slots

Every function of the program is verified against the ledger of slots. Only creations take slots
and insert or delete single rows; the other functions leave the ledger alone.

## Main definitions

* `Created`: what a creation has when it returns.
* `LeavesSlots`: the functions that manage no slots.

## Main results

* `wpx_create`: a creation that returns is done with its slot, and the row that it names is the
  only one with its key.
* `keepsSlots_run`: every function of the program keeps the slots.
-/

namespace LongRequestProxy

open Async Service Function

variable {http : HttpClient} {rows : Bool} {key : String} {slot : Option (String × Timestamp)}
  {row : Option String}

/-! ### Creation -/

section Creation

variable {s : Backend} {okey : Option String}

/-- The slot that a creation has taken is the one of its key. -/
def SlotOf (slot : Option (String × Timestamp)) (okey : Option String) : Prop :=
  slot.map Prod.fst = okey.map redisKey

theorem holdsNone_of_slotOf_none (h : SlotOf slot none) (row : Option String) :
    (Stage.working slot row).HoldsNone := by
  rintro ku row' heq
  cases heq
  cases h

theorem wpx_releaseQuietly (h : SlotOf slot okey) :
    (slotProtocol http rows).wpx (TasksService.releaseQuietly okey) noSlot noSlot
      (.working slot row) s := by
  match okey, slot, h with
  | none, slot, h => exact holdsNone_of_slotOf_none h row
  | some key, some (k, u), h =>
    obtain rfl : k = redisKey key := Option.some.inj h
    refine Protocol.wpx_tryCatch ?_
    exact Protocol.wpx_mono (wpx_releaseSlot key) (fun _ _ _ hg => hg) fun _ _ _ hg => hg

theorem wpx_insertOrRelease {dto : CreateTaskDto}
    (hokey : okey = dto.idempotencyKey.filter (· ≠ "")) (h : SlotOf slot okey) :
    (slotProtocol http rows).wpx (TasksService.insertOrRelease dto okey)
      (fun t g _ => g = .working slot (some t.id)) noSlot (.working slot none) s := by
  have hkey : ∀ k u, slot = some (k, u) → dto.idempotencyKey.map redisKey = some k := by
    rintro k u rfl
    subst hokey
    have hk : (dto.idempotencyKey.filter (· ≠ "")).map redisKey = some k := h.symm
    obtain ⟨key, hfilter, rfl⟩ := Option.map_eq_some_iff.mp hk
    rw [(Option.filter_eq_some_iff.mp hfilter).1, Option.map_some]
  refine Protocol.wpx_tryCatch (Protocol.wpx_mono
    (E := fun _ (g : Stage) _ => g = .working slot none) ?_ (fun _ _ _ hg => hg) ?_)
  · refine Protocol.wpx_seq (wpx_other rfl) fun now g s hg => ?_
    refine Protocol.wpx_seq (M := fun _ (g : Stage) _ => g = .working slot none) ?_
      fun token g s hg => ?_
    · rw [hg]
      exact wpx_other rfl
    · rw [hg]
      exact wpx_insertTask hkey
  · rintro e g s rfl
    exact Protocol.wpx_seq (wpx_releaseQuietly h) fun _ g s hg => hg

theorem wpx_enqueueOrRollback {t : TaskSelect} (h : SlotOf slot okey) :
    (slotProtocol http rows).wpx (TasksService.enqueueOrRollback t okey)
      (fun _ g _ => g = .working slot (some t.id)) noSlot (.working slot (some t.id)) s := by
  refine Protocol.wpx_tryCatch (Protocol.wpx_mono (wpx_other rfl) (fun _ _ _ hg => hg) ?_)
  rintro e g s rfl
  refine Protocol.wpx_seq (M := fun _ (g : Stage) _ => g = .working slot none) ?_ ?_
  · refine Protocol.wpx_tryCatch (Protocol.wpx_mono (wpx_deleteTask t.id) (fun _ _ _ hg => hg) ?_)
    exact fun _ _ _ hg => hg
  · rintro - g s rfl
    exact Protocol.wpx_seq (wpx_releaseQuietly h) fun _ g s hg => hg

/-- What a creation with the given key has when it returns the id. -/
def Created (rows : Bool) (okey : Option String) (id : String) (g : Stage) (σ : Backend) : Prop :=
  g.HoldsNone ∧ ∀ key, okey = some key → Committed rows key id g σ

theorem created_of_committed {id : String} {g : Stage} (h : Committed rows key id g s) :
    Created rows (some key) id g s := by
  refine ⟨?_, fun k hk => ?_⟩
  · rw [h.1]
    simp [Stage.HoldsNone]
  · cases hk
    exact h

theorem wpx_commitQuietly {id : String} (h : SlotOf slot okey) :
    (slotProtocol http rows).wpx (TasksService.commitQuietly okey id)
      (fun _ => Created rows okey id) noSlot (.working slot (some id)) s := by
  match okey, slot, h with
  | none, slot, h => exact ⟨holdsNone_of_slotOf_none h _, by simp⟩
  | some key, some (k, u), h =>
    obtain rfl : k = redisKey key := Option.some.inj h
    refine Protocol.wpx_tryCatch ?_
    exact Protocol.wpx_mono (wpx_commitResult key id) (fun _ _ _ => created_of_committed)
      fun _ _ _ => created_of_committed

theorem wpx_createTask {dto : CreateTaskDto} {baseUrl : String}
    (hokey : okey = dto.idempotencyKey.filter (· ≠ "")) (h : SlotOf slot okey) :
    (slotProtocol http rows).wpx (TasksService.createTask dto baseUrl okey)
      (fun response => Created rows okey response.taskId) noSlot (.working slot none) s := by
  refine Protocol.wpx_seq (wpx_insertOrRelease hokey h) ?_
  rintro t g s rfl
  refine Protocol.wpx_seq (wpx_enqueueOrRollback h) ?_
  rintro - g s rfl
  exact Protocol.wpx_seq (wpx_commitQuietly h) fun _ _ _ hg => hg

/-- **Creation.** A creation that returns is done with its slot; when it has a key, the row that
it names is the only one with the key. -/
theorem wpx_create (dto : CreateTaskDto) (baseUrl : String) :
    (slotProtocol http rows).wpx (TasksService.create dto baseUrl)
      (fun response => Created rows (dto.idempotencyKey.filter (· ≠ "")) response.taskId) noSlot
      (.working none none) s := by
  unfold TasksService.create
  cases hkey : dto.idempotencyKey.filter (· ≠ "") with
  | none => exact wpx_createTask hkey.symm rfl
  | some key =>
    refine Protocol.wpx_seq (wpx_occupySlot key) fun slot g s hslot => ?_
    cases slot with
    | pending => exact hslot
    | duplicate id => exact created_of_committed hslot
    | acquired =>
      obtain ⟨u, rfl⟩ := hslot
      exact wpx_createTask hkey.symm rfl

end Creation

/-! ### The other functions -/

/-- The function makes no call that manages slots. -/
def LeavesSlots {α : Type} (P : Async α) : Prop := P.run.Uses fun c => c.managesSlots = false

namespace LeavesSlots

variable {α β : Type}

theorem pure (a : α) : LeavesSlots (pure a : Async α) := trivial

theorem throw (e : JsError) : LeavesSlots (throw e : Async α) := trivial

theorem call {c : Await} (hc : c.managesSlots = false) : LeavesSlots (call c) := Uses.call hc

theorem bind {P : Async α} {f : α → Async β} (hP : LeavesSlots P) (hf : ∀ a, LeavesSlots (f a)) :
    LeavesSlots (P >>= f) :=
  Prog.Uses.bindExcept hP hf

theorem tryCatch {P : Async α} {f : JsError → Async α} (hP : LeavesSlots P)
    (hf : ∀ e, LeavesSlots (f e)) : LeavesSlots (tryCatch P f) :=
  Prog.Uses.tryCatch hP hf

theorem of_isNotification {P : Async α} (hP : P.run.Uses Await.IsNotification) : LeavesSlots P :=
  hP.mono fun c hc => by cases c <;> first | rfl | exact absurd hc id

theorem of_isDispatch {P : Async α} (hP : P.run.Uses Await.IsDispatch) : LeavesSlots P :=
  hP.mono fun c hc => by cases c <;> first | rfl | exact absurd hc id

end LeavesSlots

theorem leavesSlots_insertEventInTx (input : InsertEventInput) :
    LeavesSlots (EventsRepository.insertEventInTx input) :=
  .bind (.call rfl) fun _ => .bind (.call rfl) fun _ => .call rfl

theorem leavesSlots_insertEvent (input : InsertEventInput) :
    LeavesSlots (EventsRepository.insertEvent input) :=
  .bind (leavesSlots_insertEventInTx input) fun _ => .bind (.call rfl) fun _ => .pure _

theorem leavesSlots_cancel (id : String) : LeavesSlots (TasksService.cancel id) := by
  have hcancel : LeavesSlots (TasksRepository.cancelTask id) := by
    refine .bind (.call rfl) fun now => .bind (.call rfl) fun task => ?_
    cases task with
    | none => exact .bind (.call rfl) fun _ => .pure _
    | some task =>
      exact .bind (leavesSlots_insertEventInTx _) fun _ => .bind (.call rfl) fun _ => .pure _
  refine .bind hcancel fun result => ?_
  match result with
  | none =>
    refine .bind (.call rfl) fun task => ?_
    cases task with
    | none => exact .throw _
    | some task => exact .throw _
  | some (task, event) =>
    refine .bind (.call rfl) fun _ => ?_
    split
    · exact .call rfl
    · exact .pure ()

theorem leavesSlots_submitResult (task : TaskSelect) (dto : SubmitResultDto) :
    LeavesSlots (ExecutorService.submitResult task dto) := by
  refine .bind (.call rfl) fun now => .bind (.call rfl) fun updated => ?_
  cases updated with
  | none => exact .pure ()
  | some _ =>
    refine .bind (leavesSlots_insertEvent _) fun event => .bind (.call rfl) fun _ => ?_
    split
    · exact .call rfl
    · exact .pure ()

theorem leavesSlots_updateProgress (task : TaskSelect) (dto : UpdateProgressDto) :
    LeavesSlots (ExecutorService.updateProgress task dto) :=
  .bind (.call rfl) fun _ => .bind (leavesSlots_insertEvent _) fun _ => .call rfl

theorem leavesSlots_sweep (batches : ℕ) :
    LeavesSlots (TimeoutSweeperProcessor.process batches) := by
  have hpublish : ∀ events, LeavesSlots (TimeoutSweeperProcessor.publishAll events) := by
    intro events
    induction events with
    | nil => exact .pure ()
    | cons event events ih => exact .bind (.tryCatch (.call rfl) fun _ => .pure ()) fun _ => ih
  induction batches with
  | zero => exact .pure ()
  | succ n ih =>
    refine .bind (.bind (.call rfl) fun now => .bind (.call rfl) fun ids => ?_) fun batch => ?_
    · split
      · exact .bind (.call rfl) fun _ => .pure _
      · exact .bind (.call rfl) fun _ => .bind (.call rfl) fun _ => .bind (.call rfl) fun _ =>
          .pure _
    · split
      · exact .pure ()
      · exact .bind (hpublish _) fun _ => ih

theorem leavesSlots_retain (retentionDays : ℤ) (batches : ℕ) :
    LeavesSlots (MaintenanceRepository.deleteOldData retentionDays batches) := by
  have hloop : ∀ cutoff totals,
      LeavesSlots (MaintenanceRepository.deleteBatches cutoff batches totals) := by
    intro cutoff
    induction batches with
    | zero => exact fun _ => .pure _
    | succ n ih =>
      intro totals
      refine .bind (.call rfl) fun batch => ?_
      split
      · exact .pure _
      · refine .bind (.bind (.call rfl) fun _ => .bind (.call rfl) fun _ => .bind (.call rfl)
          fun _ => .pure _) fun deleted => ?_
        dsimp only
        split
        · exact ih _
        · exact .pure _
  exact .bind (.call rfl) fun now => hloop _ _

/-! ### All functions -/

/-- Only creations manage slots. -/
theorem leavesSlots_run {req : Request} (hreq : ∀ dto baseUrl, req ≠ .create dto baseUrl) :
    LeavesSlots (req.run http) := by
  cases req with
  | create dto baseUrl => exact absurd rfl (hreq dto baseUrl)
  | cancel id => exact .bind (leavesSlots_cancel id) fun _ => .pure _
  | result id authorization dto =>
    exact .bind (.of_isNotification (canActivate_uses ..)) fun _ =>
      .bind (leavesSlots_submitResult _ _) fun _ => .pure _
  | progress id authorization dto =>
    exact .bind (.of_isNotification (canActivate_uses ..)) fun _ =>
      .bind (leavesSlots_updateProgress _ _) fun _ => .pure _
  | dispatch taskId timeoutSeconds =>
    exact .bind (.of_isDispatch (dispatch_uses ..)) fun _ => .pure _
  | notifyCancel taskId =>
    exact .bind (.of_isNotification (notifyCancel_uses ..)) fun _ => .pure _
  | notifyWebhook taskId =>
    exact .bind (.of_isNotification (notifyWebhook_uses ..)) fun _ => .pure _
  | sweep batches => exact .bind (leavesSlots_sweep _) fun _ => .pure _
  | retain retentionDays batches => exact .bind (leavesSlots_retain _ _) fun _ => .pure _

/-- A program that returns holds no slot, and a creation with a key has returned the id of the
only row with the key. -/
def slotPost (rows : Bool) (req : Request) (a : Except JsError Response) (g : Stage)
    (σ : Backend) : Prop :=
  g.HoldsNone ∧ ∀ dto baseUrl response, req = .create dto baseUrl → a = .ok (.created response) →
    Created rows (dto.idempotencyKey.filter (· ≠ "")) response.taskId g σ

theorem wp_of_leavesSlots {req : Request} {P : Async Response} (hP : LeavesSlots P)
    (hreq : ∀ dto baseUrl, req ≠ .create dto baseUrl) (s : Backend) :
    (slotProtocol http rows).wp P.run (slotPost rows req) (.working none none) s := by
  refine Protocol.wp_of_uses hP ?_ ?_
  · intro q o σ γ c r σ' hc hinv hg ha hp
    refine ⟨writesOwn_of_not_managesSlots hc, ?_⟩
    rw [← hg, update_eq_self]
    obtain ⟨e, -, rfl, -⟩ | ⟨v, -, hx, hf⟩ | ⟨v, σ₁, -, hx, hf, rfl⟩ := perform_cases hp
    · exact Slots.rollback hinv q
    · exact Slots.exec hinv hc (fun hr hcommit => ha.1 hr hcommit (hf (hcommit ▸ rfl))) hx
    · exact (Slots.exec hinv hc (fun hr hcommit => ha.1 hr hcommit (by simp [hf])) hx).rollback q
  · intro a s
    exact ⟨by simp [Stage.HoldsNone], fun dto baseUrl _ h => absurd h (hreq dto baseUrl)⟩

/-- Every function of the program keeps the slots. -/
theorem keepsSlots_run (req : Request) (s : Backend) :
    (slotProtocol http rows).wp (req.run http).run (slotPost rows req) (.working none none) s := by
  cases req with
  | create dto baseUrl =>
    have hrun : (slotProtocol http rows).wpx (Request.run http (.create dto baseUrl))
        (fun r g s => ∃ created, r = .created created ∧
          Created rows (dto.idempotencyKey.filter (· ≠ "")) created.taskId g s) noSlot
        (.working none none) s :=
      Protocol.wpx_seq (wpx_create dto baseUrl) fun created g s hg => ⟨created, rfl, hg⟩
    refine Protocol.wp_mono hrun fun r g s hr => ?_
    cases r with
    | error e => exact ⟨hr, by simp⟩
    | ok response =>
      obtain ⟨created, rfl, hcreated⟩ := hr
      refine ⟨hcreated.1, fun dto' baseUrl' created' hreq ha => ?_⟩
      cases hreq
      cases ha
      exact hcreated
  | _ => exact wp_of_leavesSlots (leavesSlots_run (by simp)) (by simp) s

end LongRequestProxy
