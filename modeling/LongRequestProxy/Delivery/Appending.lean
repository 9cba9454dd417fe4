import LongRequestProxy.Async.Alone
import LongRequestProxy.Delivery.EventNumbers

/-!
# Appending an event alone

With no other transaction open, `EventsRepository.insertEventInTx` neither waits nor fails: it
takes the lock, reads the highest number of the task, and inserts the event behind it.

## Main definitions

* `Backend.Closed`: no transaction is open.
* `InTx σ p t`: within the only open transaction, which has done `t` since `σ`.
* `appendedEvent`: the event that is appended.

## Main results

* `updateTask_eq_some`: a guarded update alone.
* `InTx.insertEventInTx_ends`, `insertEvent_ends`: the event is appended.
-/

namespace LongRequestProxy

open Async Service

/-- No transaction is open. -/
def Backend.Closed (σ : Backend) : Prop := ∀ q, σ.tx q = {}

namespace Backend

variable {σ : Backend} {p : ℕ}

/-- Transactions other than that of `p` hold nothing. -/
theorem otherTx_eq_false_of_closed (h : ∀ q, q ≠ p → σ.tx q = {}) {P : Tx → Bool}
    (h0 : P {} = false) : σ.otherTx p P = false := by
  refine eq_false_of_ne_true fun htrue => ?_
  obtain ⟨q, hq, ht⟩ := exists_of_otherTx htrue
  rw [h q hq, h0] at ht
  cases ht

theorem closed_commit (h : ∀ q, q ≠ p → σ.tx q = {}) : (σ.commit p).Closed := by
  intro q
  by_cases hq : q = p
  · rw [hq, tx_commit_self]
  · rw [tx_commit_of_ne hq, h q hq]

end Backend

/-- The state within a transaction of `p` that started in `σ`: it is `t`, and nothing is
committed. -/
structure InTx (σ : Backend) (p : ℕ) (t : Tx) (σ₁ : Backend) : Prop where
  tx : σ₁.tx p = t
  other : ∀ q, q ≠ p → σ₁.tx q = {}
  tasks : σ₁.tasks = σ.tasks
  events : σ₁.events = σ.events
  clock : σ₁.clock = σ.clock
  published : σ₁.published = σ.published
  queue : σ₁.queue = σ.queue
  issued : σ₁.issued = σ.issued

section Alone

variable {p : ℕ} {o : Oracle} {σ σ₁ σ' : Backend} {x : Await} {v : x.Val} {t : Tx}

theorem InTx.start (h : σ.Closed) : InTx σ p {} σ :=
  ⟨h p, fun q _ => h q, rfl, rfl, rfl, rfl, rfl, rfl⟩

theorem InTx.setTx (h : InTx σ p t σ₁) (t' : Tx) : InTx σ p t' (σ₁.setTx p t') :=
  ⟨Backend.tx_setTx_self .., fun q hq => (Backend.tx_setTx_of_ne hq t').trans (h.other q hq),
    h.tasks, h.events, h.clock, h.published, h.queue, h.issued⟩

/-- A call that no fault hits and that returns. -/
theorem ends_exec (ho : o.fault = .none) {Q : x.Val → Backend → Prop}
    {E : JsError → Backend → Prop} (hx : exec p o σ x = some (.ok (v, σ'))) (hQ : Q v σ') :
    Prog.Ends (perform p o) (call x) Q E σ := by
  refine .inl ⟨v, σ', ?_, hQ⟩
  rw [call_runAlone, perform_of_no_fault ho, hx]
  rfl

/-- An UPDATE of a task finds its row. -/
theorem TaskWrite.find_where (hids : σ.RowIds) {r : TaskSelect} (hr : r ∈ σ.tasks) {w : TaskWrite}
    (hm : w.Matches r = true) : σ.tasks.find? (w.stmt r.id).where_ = some r := by
  cases hfind : σ.tasks.find? (w.stmt r.id).where_ with
  | none => exact absurd hm (List.find?_eq_none.mp hfind r hr)
  | some u =>
    have hid : u.id = r.id := TaskWrite.id_of_where (List.find?_some hfind)
    rw [Table.eq_of_key_eq hids.nodup (List.mem_of_find?_eq_some hfind) hr hid]

/-- An UPDATE outside transactions, with no other transaction open. -/
theorem updateTask_eq_some (hσ : σ.Closed) (hids : σ.RowIds) {r : TaskSelect} (hr : r ∈ σ.tasks)
    {w : TaskWrite} (hm : w.Matches r = true) (hchecks : SatisfiesChecks (w.apply r) = true) :
    exec p o σ (.updateTask r.id w) = some (.ok (some (w.apply r),
      { σ with tasks := Table.update (fun u => u.id == r.id) w.apply σ.tasks })) := by
  have hfree : σ.lockedByOther p r.id = false :=
    Backend.otherTx_eq_false_of_closed (fun q _ => hσ q) rfl
  have hself : ∀ u ∈ σ.tasks, (w.stmt r.id).where_ u = true → u = r := fun u hu hwhere =>
    Table.eq_of_key_eq hids.nodup hu hr (TaskWrite.id_of_where hwhere)
  have hall : (σ.tasks.all fun u =>
      !(w.stmt r.id).where_ u || SatisfiesChecks ((w.stmt r.id).set.apply u)) = true := by
    refine List.all_eq_true.mpr fun u hu => ?_
    cases hwhere : (w.stmt r.id).where_ u with
    | false => rfl
    | true =>
      rw [hself u hu hwhere]
      exact hchecks
  have hrows : Table.update (w.stmt r.id).where_ (w.stmt r.id).set.apply σ.tasks =
      Table.update (fun u => u.id == r.id) w.apply σ.tasks := by
    refine List.map_congr_left fun u hu => ?_
    by_cases hid : u.id = r.id
    · obtain rfl := Table.eq_of_key_eq hids.nodup hu hr hid
      have hwhere : (w.stmt u.id).where_ u = true := hm
      rw [if_pos hwhere, if_pos (beq_self_eq_true _)]
      rfl
    · rw [if_neg fun hwhere => hid (TaskWrite.id_of_where hwhere),
        if_neg fun heq => hid (beq_iff_eq.mp heq)]
  simp only [exec, Backend.updateTask, TaskWrite.find_where hids hr hm, hfree, hall, hrows, if_true,
    Bool.false_eq_true, if_false]
  rfl

/-- The event that is appended for an input: it is numbered behind the events of its task. -/
def appendedEvent (σ : Backend) (o : Oracle) (input : InsertEventInput) : TaskEventSelect :=
  input.row (o.uuid 0) ((σ.seqs input.taskId).max?.getD 0 + 1) σ.clock

/-- The number that is read for the next event of a task. -/
theorem InTx.maxSeq (h : InTx σ p t σ₁) (hev : t.events = []) (hdel : t.deletedEvents = [])
    (id : String) : σ₁.maxSeq p id = (σ.seqs id).max?.getD 0 := by
  have hsees : σ₁.committedEvents (σ₁.tx p) = σ.events := by
    simp [Backend.committedEvents, h.tx, hev, Tx.deletesEvent, hdel, h.events]
  rw [Backend.maxSeq, hsees]
  rfl

/-- An event that is numbered behind the others is inserted. -/
theorem InTx.txInsertEvent (h : InTx σ p t σ₁) (hev : t.events = []) (hdel : t.deletedEvents = [])
    (input : InsertEventInput) :
    exec p o σ₁ (.txInsertEvent ((σ.seqs input.taskId).max?.getD 0 + 1) input) =
      some (.ok (appendedEvent σ o input,
        σ₁.setTx p { t with events := [appendedEvent σ o input] })) := by
  have hrow : input.row (o.uuid 0) ((σ.seqs input.taskId).max?.getD 0 + 1) σ₁.clock =
      appendedEvent σ o input := by rw [h.clock]; rfl
  have hinsert : σ₁.txInsertEvents p [appendedEvent σ o input] =
      some (.ok ([appendedEvent σ o input],
        σ₁.setTx p { t with events := [appendedEvent σ o input] })) := by
    unfold Backend.txInsertEvents
    dsimp only
    rw [if_neg, if_neg, h.tx, hev]
    · rfl
    · simp only [List.any_eq_true, Bool.and_eq_true, beq_iff_eq, not_exists, not_and,
        List.mem_singleton]
      rintro e rfl e' he' hid hseq
      have hle := Backend.le_maxSeq he' hid
      have hmax := h.maxSeq hev hdel (appendedEvent σ o input).taskId
      have hnew : (appendedEvent σ o input).seq =
          (σ.seqs (appendedEvent σ o input).taskId).max?.getD 0 + 1 := rfl
      omega
    · simp only [List.any_eq_true, List.mem_singleton, not_exists, not_and]
      rintro e rfl
      rw [Backend.otherTx_eq_false_of_closed h.other rfl]
      exact Bool.false_ne_true
  simp only [exec, hrow, hinsert]
  rfl

/-- The event is appended in the transaction. -/
theorem InTx.insertEventInTx_ends (ho : o.fault = .none) (h : InTx σ p t σ₁) (hev : t.events = [])
    (hdel : t.deletedEvents = []) (input : InsertEventInput) :
    Prog.Ends (perform p o) (EventsRepository.insertEventInTx input)
      (fun e σ' => e = appendedEvent σ o input ∧
        InTx σ p { t with locks := input.taskId :: t.locks, events := [e] } σ')
      (fun _ _ => False) σ₁ := by
  let t' : Tx := { t with locks := input.taskId :: t.locks }
  have hlock : exec p o σ₁ (.txAdvisoryLock input.taskId) = some (.ok ((), σ₁.setTx p t')) := by
    have hfree : (σ₁.otherTx p fun t => t.locks.contains input.taskId) = false :=
      Backend.otherTx_eq_false_of_closed h.other rfl
    simp only [exec, Backend.txAdvisoryLock, hfree, h.tx, Bool.false_eq_true, if_false]
    rfl
  have h₂ := h.setTx t'
  have hnext : exec p o (σ₁.setTx p t') (.txNextSeq input.taskId) =
      some (.ok ((σ.seqs input.taskId).max?.getD 0 + 1, σ₁.setTx p t')) := by
    simp only [exec, h₂.maxSeq hev hdel]
  refine .bind (ends_exec ho hlock (.bind (ends_exec ho hnext ?_)))
  refine ends_exec ho (h₂.txInsertEvent hev hdel input) ⟨rfl, ?_⟩
  exact h₂.setTx _

/-- The rows and events after the commit of a transaction that has only inserted events. -/
theorem InTx.commit_events (h : InTx σ p t σ₁) (hdel : t.deletedEvents = []) :
    (σ₁.commit p).events = σ.events ++ t.events := by
  simp [Backend.commit, Backend.committedEvents, Tx.deletesEvent, h.tx, h.events, hdel]

/-- The event is appended in a transaction of its own. -/
theorem insertEvent_ends (ho : o.fault = .none) (hσ : σ.Closed) (input : InsertEventInput) :
    Prog.Ends (perform p o) (EventsRepository.insertEvent input)
      (fun e σ' => e = appendedEvent σ o input ∧ σ'.Closed ∧ σ'.tasks = σ.tasks ∧
        σ'.events = σ.events ++ [e] ∧ σ'.published = σ.published ∧ σ'.queue = σ.queue)
      (fun _ _ => False) σ := by
  refine .bind (((InTx.start hσ).insertEventInTx_ends ho rfl rfl input).mono ?_ fun _ _ h => h)
  rintro _ σ₁ ⟨rfl, h₁⟩
  have hcommit : exec p o σ₁ .txCommit = some (.ok ((), σ₁.commit p)) := rfl
  refine .bind (ends_exec ho hcommit (.pure ⟨rfl, Backend.closed_commit h₁.other, ?_,
    h₁.commit_events rfl, h₁.published, h₁.queue⟩))
  have hnewest : (σ₁.tx p).newest = id := by
    funext r
    rw [h₁.tx]
    rfl
  simp only [Backend.commit, Backend.committedTasks, hnewest, List.map_id, h₁.tasks]
  simp [h₁.tx]

end Alone

end LongRequestProxy
