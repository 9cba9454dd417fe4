import LongRequestProxy.Conduct.Draining
import LongRequestProxy.Delivery.Appending

/-!
# A cancellation that runs alone

With no transaction open, `TasksService.cancel` ends a task that has not ended: it cancels the
row, appends one event behind the highest number of the task, publishes it and enqueues the
notification of the executor. As the system can be drained from every state, every task can still
be ended there, whatever was lost or died before.

## Main results

* `cancel_ends`: the effect of a cancellation.
* `every_task_can_end`: from every state reached all tasks can be ended.
-/

namespace LongRequestProxy

open Async Service

section Alone

variable {p : ℕ} {o : Oracle} {σ σ₁ : Backend} {t : Tx}

/-- An UPDATE of a task that has not ended, with no other transaction open. -/
theorem InTx.txCancelTask (h : InTx σ p {} σ₁) (hids : σ.RowIds) {r : TaskSelect}
    (hr : r ∈ σ.tasks) (hopen : r.status.isTerminal = false) (now : Timestamp) :
    σ₁.txCancelTask p r.id now = some (.ok (some ((TaskWrite.cancel now).apply r),
      σ₁.setTx p { tasks := [(TaskWrite.cancel now).apply r] })) := by
  have hmatch : (TaskWrite.cancel now).Matches r = true :=
    (TaskWrite.matches_iff _ r).mpr (TaskStatus.isTerminal_eq_false_iff.mp hopen)
  have hfind : σ₁.tasks.find? (cancelTask r.id now).where_ = some r := by
    rw [h.tasks]
    exact TaskWrite.find_where hids hr hmatch
  have hfree : σ₁.lockedByOther p r.id = false :=
    Backend.otherTx_eq_false_of_closed h.other rfl
  have hchecks : SatisfiesChecks ((cancelTask r.id now).set.apply r) = true := by
    rw [satisfiesChecks_iff]
    simp [cancelTask, TaskPatch.apply]
  unfold Backend.txCancelTask
  rw [hfind]
  dsimp only
  rw [hfree, if_neg Bool.false_ne_true, if_pos hchecks, h.tx]
  rfl

/-- The rows after the commit of a transaction that has written one of them. -/
theorem committedTasks_single (hids : σ.RowIds) {r : TaskSelect} (hr : r ∈ σ.tasks)
    (w : TaskWrite) (ht : t.tasks = [w.apply r]) (hdel : t.deletedTasks = []) :
    σ.committedTasks t = Table.update (fun u => u.id == r.id) w.apply σ.tasks := by
  have hkeep : σ.tasks.filter (fun u => !t.deletedTasks.contains u.id) = σ.tasks := by simp [hdel]
  rw [Backend.committedTasks, hkeep, Table.update]
  refine List.map_congr_left fun u hu => ?_
  by_cases hid : u.id = r.id
  · obtain rfl := Table.eq_of_key_eq hids.nodup hu hr hid
    simp [Tx.newest, ht]
  · simp [Tx.newest, ht, hid, Ne.symm hid]

/-- The transaction of a cancellation: it commits the row and its event. -/
theorem cancelTask_ends (ho : o.fault = .none) (hσ : σ.Closed) (hids : σ.RowIds) {r : TaskSelect}
    (hr : r ∈ σ.tasks) (hopen : r.status.isTerminal = false) :
    Prog.Ends (perform p o) (TasksRepository.cancelTask r.id)
      (fun v σ' =>
        v = some ((TaskWrite.cancel o.time).apply r, appendedEvent σ o (.cancelled r.id)) ∧
        σ'.Closed ∧ σ'.issued = σ.issued ∧ σ'.clock = σ.clock ∧
        σ'.tasks = Table.update (fun u => u.id == r.id) (TaskWrite.cancel o.time).apply σ.tasks ∧
        σ'.events = σ.events ++ [appendedEvent σ o (.cancelled r.id)] ∧
        σ'.published = σ.published ∧ σ'.queue = σ.queue)
      (fun _ _ => False) σ := by
  have h₀ : InTx σ p {} σ := .start hσ
  have hnow : exec p o σ .now = some (.ok (o.time, σ)) := rfl
  refine .bind (ends_exec ho hnow (.bind
    (ends_exec ho (h₀.txCancelTask hids hr hopen o.time) (.bind ?_))))
  have h₁ := h₀.setTx { tasks := [(TaskWrite.cancel o.time).apply r] }
  refine (h₁.insertEventInTx_ends ho rfl rfl (.cancelled r.id)).mono ?_ fun _ _ h => h
  rintro _ σ₂ ⟨rfl, h₂⟩
  have hcommit : exec p o σ₂ .txCommit = some (.ok ((), σ₂.commit p)) := rfl
  refine .bind (ends_exec ho hcommit (.pure ⟨rfl, Backend.closed_commit h₂.other, h₂.issued,
    h₂.clock, ?_, ?_, h₂.published, h₂.queue⟩))
  · have hrows : (σ₂.commit p).tasks =
        σ.committedTasks { tasks := [(TaskWrite.cancel o.time).apply r] } := by
      simp only [Backend.commit, Backend.committedTasks, h₂.tx, h₂.tasks]
      rfl
    rw [hrows, committedTasks_single hids hr _ rfl rfl]
  · simp [Backend.commit, Backend.committedEvents, Tx.deletesEvent, h₂.tx, h₂.events]

/-- **A cancellation alone.** It ends: the task is cancelled, one event is appended to its log and
published, the executor's notification is enqueued if there is anybody to notify, and nothing else
has changed. -/
theorem cancel_ends (ho : o.fault = .none) (hσ : σ.Closed) (hids : σ.RowIds) {r : TaskSelect}
    (hr : r ∈ σ.tasks) (hopen : r.status.isTerminal = false) :
    Prog.Ends (perform p o) (TasksService.cancel r.id)
      (fun _ σ' => σ'.Closed ∧ σ'.issued = σ.issued ∧ σ'.clock = σ.clock ∧
        σ'.tasks = Table.update (fun u => u.id == r.id) (TaskWrite.cancel o.time).apply σ.tasks ∧
        σ'.events = σ.events ++ [appendedEvent σ o (.cancelled r.id)] ∧
        σ'.published = σ.published ++ [(taskChannel r.id, appendedEvent σ o (.cancelled r.id))] ∧
        σ'.queue = σ.queue ++ if truthy r.cancelUrl then [.cancel r.id] else [])
      (fun _ _ => False) σ := by
  refine .bind ((cancelTask_ends ho hσ hids hr hopen).mono ?_ fun _ _ h => h)
  rintro _ σ₁ ⟨rfl, hclosed, hissued, hclock, htasks, hevents, hpublished, hqueue⟩
  let e := appendedEvent σ o (.cancelled r.id)
  have hpublish : exec p o σ₁ (.publish (taskChannel r.id) e) =
      some (.ok ((), { σ₁ with published := σ₁.published ++ [(taskChannel r.id, e)] })) := rfl
  refine .bind (ends_exec ho hpublish ?_)
  change Prog.Ends _ (if truthy r.cancelUrl then _ else _) _ _ _
  split
  · exact ends_exec ho rfl ⟨hclosed, hissued, hclock, htasks, hevents, by rw [hpublished],
      by rw [hqueue]⟩
  · exact .pure ⟨hclosed, hissued, hclock, htasks, hevents, by rw [hpublished],
      by rw [hqueue, List.append_nil]⟩

end Alone

/-! ### Ending every task -/

/-- A row once its task has ended: cancelled, if it had not. -/
def TaskSelect.ended (now : Timestamp) (r : TaskSelect) : TaskSelect :=
  if r.status.isTerminal then r else (TaskWrite.cancel now).apply r

theorem TaskSelect.isTerminal_ended (now : Timestamp) (r : TaskSelect) :
    (r.ended now).status.isTerminal = true := by
  unfold ended
  split
  · assumption
  · rfl

/-- Ending one task leaves the others to be ended. -/
theorem TaskSelect.map_ended_update {T : List TaskSelect} (hids : (T.map (·.id)).Nodup)
    {r : TaskSelect} (hr : r ∈ T) (hopen : r.status.isTerminal = false) (now : Timestamp) :
    (Table.update (fun u => u.id == r.id) (TaskWrite.cancel now).apply T).map (·.ended now) =
      T.map (·.ended now) := by
  rw [Table.update, List.map_map]
  refine List.map_congr_left fun u hu => ?_
  by_cases hid : u.id = r.id
  · obtain rfl := Table.eq_of_key_eq hids hu hr hid
    have hcancelled : ((TaskWrite.cancel now).apply u).status.isTerminal = true := rfl
    simp [ended, hopen, hcancelled]
  · simp [hid]

section Runs

variable {http : HttpClient} {clock : Timestamp} {c : (proxy http).Config}
  {allow : (proxy http).Config → (proxy http).Move → Prop}

/-- The move requests a cancellation, or it is a call that no fault hits. -/
def Ending (_ : (proxy http).Config) (m : (proxy http).Move) : Prop :=
  (∃ id, m = .spawn (.cancel id)) ∨ ∃ p o, m = .call p o ∧ o.fault = .none

/-- A cancellation with nothing in flight. -/
theorem exists_cancelled (h : Reaches allow (initial http clock) c) (hc : c.Quiescent)
    {r : TaskSelect} (hr : r ∈ c.store.tasks) (hopen : r.status.isTerminal = false)
    (now : Timestamp) : ∃ c', Reaches Ending c c' ∧ c'.Quiescent ∧ c'.store.tasks =
      Table.update (fun u => u.id == r.id) (TaskWrite.cancel now).apply c.store.tasks := by
  obtain ⟨γ, hγ, -⟩ := exists_observed h
  have hids : c.store.RowIds := (tracked_of_runs hγ).rowIds
  let o : Oracle := { time := now }
  have hbody : Prog.Ends (perform c.procs.length o) ((Request.cancel r.id).run http)
      (fun v σ' => v = .done ∧ σ'.tasks =
        Table.update (fun u => u.id == r.id) (TaskWrite.cancel now).apply c.store.tasks)
      (fun _ _ => False) c.store :=
    .bind ((cancel_ends rfl (tx_eq_empty_of_quiescent h hc) hids hr hopen).mono
      (fun _ σ' ⟨_, _, _, htasks, _⟩ => .pure ⟨rfl, htasks⟩) fun _ _ h => h)
  obtain ⟨_, σ', hrun, rfl, htasks⟩ | ⟨_, _, _, hfalse⟩ := hbody
  · obtain ⟨c', hreach, hquiet, rfl, -⟩ : ∃ c', Reaches Ending c c' ∧ c'.Quiescent ∧
        c'.store = σ' ∧ c'.Returned c.procs.length (.cancel r.id) (.ok .done) :=
      exists_alone hc rfl (.inl ⟨_, rfl⟩) (fun _ => .inr ⟨_, o, rfl, rfl⟩) hrun
    exact ⟨c', hreach, hquiet, htasks⟩
  · exact hfalse.elim

/-- With nothing in flight, cancellations end all tasks that have not ended. -/
theorem exists_all_ended (h : Reaches (fun _ _ => True) (initial http clock) c) (hc : c.Quiescent)
    (now : Timestamp) : ∃ c', Reaches Ending c c' ∧ c'.Quiescent ∧
      c'.store.tasks = c.store.tasks.map (·.ended now) := by
  -- by induction on how many are left to be ended
  generalize hn : c.store.tasks.countP (fun r => !r.status.isTerminal) = n
  induction n using Nat.strong_induction_on generalizing c with
  | _ n ih =>
    by_cases hall : ∀ r ∈ c.store.tasks, r.status.isTerminal = true
    · refine ⟨c, .refl, hc, (List.map_id _).symm.trans (List.map_congr_left fun r hr => ?_)⟩
      simp [TaskSelect.ended, hall r hr]
    · push Not at hall
      obtain ⟨r, hr, hopen⟩ := hall
      have hopen := Bool.eq_false_iff.mpr hopen
      obtain ⟨d, hd, hquiet, htasks⟩ := exists_cancelled h hc hr hopen now
      obtain ⟨γ, hγ, -⟩ := exists_observed h
      have hless : d.store.tasks.countP (fun r => !r.status.isTerminal) < n := by
        rw [htasks, ← hn]
        exact Table.countP_update_lt (fun _ hfalse => by cases hfalse) hr (beq_self_eq_true _)
          (by simp [hopen]) rfl
      obtain ⟨c', hc', hquiet', hended⟩ :=
        ih _ hless (h.trans (hd.mono fun _ _ _ => trivial)) hquiet rfl
      refine ⟨c', hd.trans hc', hquiet', ?_⟩
      rw [hended, htasks, TaskSelect.map_ended_update (tracked_of_runs hγ).rowIds.nodup hr hopen]

/-- **Every task can be ended.** From every state reached, whatever was lost or died on the way,
the functions in flight can be brought to their end, and then cancellations alone end every task
that is left. -/
theorem every_task_can_end (h : Reaches allow (initial http clock) c)
    (world : (proxy http).Config → ℕ → Oracle) (fresh : List String) (hnodup : fresh.Nodup)
    (hfresh : ∀ id ∈ fresh, isUuid id = true ∧ id ∉ c.store.issued)
    (hlen : c.procs.length < fresh.length) (now : Timestamp) :
    ∃ d c', Reaches (CallsOnly (AnsweredBy world)) c d ∧ d.Quiescent ∧ Reaches Ending d c' ∧
      c'.Quiescent ∧ c'.store.tasks = d.store.tasks.map (·.ended now) ∧
      ∀ r ∈ c'.store.tasks, r.status.isTerminal = true := by
  obtain ⟨d, hd, hquiet, -⟩ := (drainable_of_length h hnodup hfresh hlen).drained world
  have hreach : Reaches (fun _ _ => True) (initial http clock) d :=
    (h.mono fun _ _ _ => trivial).trans (hd.mono fun _ _ _ => trivial)
  obtain ⟨c', hc', hquiet', htasks⟩ := exists_all_ended hreach hquiet now
  refine ⟨d, c', hd, hquiet, hc', hquiet', htasks, fun r hr => ?_⟩
  rw [htasks, List.mem_map] at hr
  obtain ⟨u, -, rfl⟩ := hr
  exact u.isTerminal_ended now

/-- The process of a creation dies once the row is inserted. -/
def orphanedCreation : List (proxy httpRetryService).Move :=
  [.spawn (.create sampleDto "http://proxy"), .call 0 {}, .call 0 {},
    .call 0 { uuid := fun _ => sampleId }, .crash 0]

/-- The task that nobody will ever dispatch is cancelled. -/
theorem orphanedCreation_ended : ∃ c d c' : (proxy httpRetryService).Config,
    Reaches (fun _ _ => True) (initial httpRetryService 0) c ∧
    c.store.tasks.map (·.status) = [.pending] ∧
    Reaches (CallsOnly (AnsweredBy fun _ _ => {})) c d ∧ Reaches Ending d c' ∧ c'.Quiescent ∧
    ∀ r ∈ c'.store.tasks, r.status.isTerminal = true := by
  let fresh := [otherId, "33333333-3333-4333-8333-333333333333"]
  obtain ⟨c, hc, hcheck⟩ : ∃ c, Reaches (fun _ _ => True) (initial httpRetryService 0) c ∧
      (decide (c.store.tasks.map (·.status) = [.pending]) &&
        decide (c.procs.length < fresh.length) &&
        fresh.all fun id => isUuid id && !c.store.issued.contains id) = true :=
    exists_reaches_of_replay (fun _ _ => true) orphanedCreation _ (fun _ _ _ => trivial) (by decide)
  simp only [Bool.and_eq_true, decide_eq_true_eq, List.all_eq_true, Bool.not_eq_true',
    List.contains_eq_mem, decide_eq_false_iff_not] at hcheck
  obtain ⟨⟨hpending, hlen⟩, hfresh⟩ := hcheck
  obtain ⟨d, c', hd, -, hc', hquiet, -, hended⟩ :=
    every_task_can_end hc (fun _ _ => {}) fresh (by decide) hfresh hlen 0
  exact ⟨c, d, c', hc, hpending, hd, hc', hquiet, hended⟩

end Runs

end LongRequestProxy
