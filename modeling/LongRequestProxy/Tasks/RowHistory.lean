import LongRequestProxy.Tasks.Writes
import Mathlib.Data.List.Sublists

/-!
# The CHECK constraints along the life of a row

`RowHistory t` says that the row `t` comes from `TasksService.create` by writes of the program
that Postgres accepted, in any order and with any clock values. Along such a history both CHECK
constraints hold of the row; this file determines the writes that Postgres refuses.

## Main definitions

* `RowHistory`: the rows that the program can make.
* `TaskSelect.Consistent`: the outcome that a row holds is that of its status.

## Main results

* `RowHistory.consistent`: the rows of histories are consistent.
* `TaskWrite.satisfiesChecks_apply_iff`: the one kind of write that breaks a constraint is the
  expiry of a `PENDING` row.
* `rowHistory_accepts_iff`: the same along row histories, for single writes and for the batches
  of the timeout sweeper.
* `pending_row_blocks_sweep`: an overdue `PENDING` row whose batch Postgres refuses.
-/

namespace LongRequestProxy

/-- The rows that the program's accepted writes can make of a created row. -/
inductive RowHistory : TaskSelect → Prop
  | created (dto : CreateTaskDto) (now : Timestamp) (callbackToken id : String)
      (createdAt : Timestamp) : RowHistory ((dto.values now callbackToken).row id createdAt)
  | write {t : TaskSelect} (w : TaskWrite) (h : RowHistory t) (hm : w.Matches t = true)
      (hc : SatisfiesChecks (w.apply t) = true) : RowHistory (w.apply t)

/-- Both CHECK constraints hold of every row of a history. -/
theorem RowHistory.satisfiesChecks {t : TaskSelect} (h : RowHistory t) :
    SatisfiesChecks t = true := by
  cases h with
  | created dto now token id createdAt => exact satisfiesChecks_row _ _ _
  | write w h hm hc => exact hc

/-- The row has a result, an error and an end exactly when its status says so. -/
structure TaskSelect.Consistent (t : TaskSelect) : Prop where
  result : t.result ≠ none ↔ t.status = .completed
  error : t.error ≠ none ↔ t.status = .failed
  completedAt : t.completedAt ≠ none ↔ t.status.isTerminal = true

theorem TaskSelect.Consistent.of_not_isTerminal {t : TaskSelect} (h : t.Consistent)
    (hs : t.status.isTerminal = false) :
    t.result = none ∧ t.error = none ∧ t.completedAt = none := by
  refine ⟨?_, ?_, ?_⟩
  · by_contra hne
    rw [h.result.mp hne] at hs
    cases hs
  · by_contra hne
    rw [h.error.mp hne] at hs
    cases hs
  · by_contra hne
    rw [h.completedAt.mp hne] at hs
    cases hs

/-- Every row of a history is consistent, however often it was reverted. -/
theorem RowHistory.consistent {t : TaskSelect} (h : RowHistory t) : t.Consistent := by
  induction h with
  | created dto now token id createdAt =>
    constructor <;> simp [TaskInsert.row, TaskStatus.isTerminal]
  | @write t w h hm hc ih =>
    rw [TaskWrite.matches_iff] at hm
    cases w with
    | progress n => exact ⟨ih.result, ih.error, ih.completedAt⟩
    | cancel now =>
      obtain ⟨hresult, herror, -⟩ :=
        ih.of_not_isTerminal (TaskStatus.isTerminal_eq_false_iff.mpr hm)
      constructor <;> simp [TaskWrite.apply, TaskWrite.stmt, cancelTask, TaskPatch.apply, hresult,
        herror, TaskStatus.isTerminal]
    | expire now =>
      obtain ⟨hs, -⟩ := (TaskWrite.isOverdue_iff now t).mp hm
      obtain ⟨hresult, -, -⟩ := ih.of_not_isTerminal (TaskStatus.isTerminal_eq_false_iff.mpr hs)
      constructor <;> simp [TaskWrite.apply, TaskWrite.stmt, expireTimedOutTasks, TaskPatch.apply,
        hresult, TaskStatus.isTerminal]
    | _ =>
      have hs : t.status = _ := hm
      obtain ⟨hresult, herror, hend⟩ := ih.of_not_isTerminal (by rw [hs]; rfl)
      constructor <;> simp [TaskWrite.apply, TaskWrite.stmt, updateStatus, TaskPatch.apply, hresult,
        herror, hend, TaskStatus.isTerminal]

/-- The write is the sweeper's. -/
def TaskWrite.IsExpiry : TaskWrite → Prop
  | .expire _ => True
  | _ => False

/-- **The refused writes.** A write that matches a row with both constraints keeps them, unless
it is the sweeper's and the row is `PENDING`: then the new row is `FAILED` without a start. -/
theorem TaskWrite.satisfiesChecks_apply_iff {w : TaskWrite} {t : TaskSelect}
    (ht : SatisfiesChecks t = true) (hm : w.Matches t = true) :
    SatisfiesChecks (w.apply t) = true ↔ ¬ (w.IsExpiry ∧ t.status = .pending) := by
  rw [TaskWrite.matches_iff] at hm
  rw [satisfiesChecks_iff] at ht ⊢
  cases w with
  | expire now =>
    obtain ⟨hs | hs, -⟩ := (TaskWrite.isOverdue_iff now t).mp hm
    · rw [hs] at ht
      -- the sweeper does not set `processing_started_at`, which is NULL in a PENDING row
      simp [TaskWrite.IsExpiry, TaskWrite.apply, TaskWrite.stmt, expireTimedOutTasks,
        TaskPatch.apply, hs, ht.1]
    · rw [hs] at ht
      simp [TaskWrite.IsExpiry, TaskWrite.apply, TaskWrite.stmt, expireTimedOutTasks,
        TaskPatch.apply, hs, ht.1]
  | progress n =>
    simpa [TaskWrite.IsExpiry, TaskWrite.apply, TaskWrite.stmt, updateProgress,
      TaskPatch.apply] using ht
  | cancel now =>
    simp [TaskWrite.IsExpiry, TaskWrite.apply, TaskWrite.stmt, cancelTask, TaskPatch.apply]
  | _ =>
    have hs : t.status = _ := hm
    rw [hs] at ht
    simp [TaskWrite.IsExpiry, TaskWrite.apply, TaskWrite.stmt, updateStatus, TaskPatch.apply,
      ht.1, ht.2]

/-- The UPDATE of a sweep batch on the rows that its subquery selected: Postgres stores all new
rows, or aborts the transaction when one of them breaks a constraint. -/
def sweepUpdate (now : Timestamp) (selected : List TaskSelect) : Option (List TaskSelect) :=
  let rows := selected.map (TaskWrite.expire now).apply
  if rows.all SatisfiesChecks then some rows else none

theorem sweepUpdate_eq_some {now : Timestamp} {selected rows : List TaskSelect}
    (h : sweepUpdate now selected = some rows) :
    (∀ t ∈ selected, SatisfiesChecks ((TaskWrite.expire now).apply t) = true) ∧
      rows = selected.map (TaskWrite.expire now).apply := by
  unfold sweepUpdate at h
  dsimp only at h
  split at h
  · next hall =>
    cases h
    exact ⟨by simpa using hall, rfl⟩
  · cases h

/-- A batch of overdue rows is stored exactly when none of them is `PENDING`. -/
theorem sweepUpdate_isSome_iff {now : Timestamp} {selected : List TaskSelect}
    (hsel : ∀ t ∈ selected, SatisfiesChecks t = true ∧ isOverdue now t = true) :
    (sweepUpdate now selected).isSome = true ↔ ∀ t ∈ selected, t.status ≠ .pending := by
  have hrow : ∀ t ∈ selected,
      (SatisfiesChecks ((TaskWrite.expire now).apply t) = true ↔ t.status ≠ .pending) := by
    intro t ht
    have hm : (TaskWrite.expire now).Matches t = true :=
      (TaskWrite.matches_iff _ t).mpr (hsel t ht).2
    rw [TaskWrite.satisfiesChecks_apply_iff (hsel t ht).1 hm]
    simp [TaskWrite.IsExpiry]
  have hall : (sweepUpdate now selected).isSome = true ↔
      ∀ t ∈ selected, SatisfiesChecks ((TaskWrite.expire now).apply t) = true := by
    unfold sweepUpdate
    simp only [List.all_map, List.all_eq_true, Function.comp_apply]
    split_ifs with h
    · exact iff_of_true rfl h
    · exact iff_of_false Bool.false_ne_true h
  rw [hall]
  exact forall₂_congr hrow

/-- **When Postgres accepts a lifecycle write.** In a table whose rows have histories, every
matching write of a row is accepted exactly when it is not the expiry of a `PENDING` row; and a
sweep batch, whichever overdue rows of the table its subquery selects, is accepted exactly when
none is `PENDING`. -/
theorem rowHistory_accepts_iff (table : List TaskSelect) (htable : ∀ t ∈ table, RowHistory t) :
    (∀ t ∈ table, ∀ w : TaskWrite, w.Matches t = true →
      ((tasksStatusCheck (w.apply t) = true ∧ tasksValidStateData (w.apply t) = true) ↔
        ¬ (w.IsExpiry ∧ t.status = .pending))) ∧
    ∀ (selected : List TaskSelect) (now : Timestamp),
      selected.Sublist (table.filter (isOverdue now)) →
      ((sweepUpdate now selected).isSome = true ↔ ∀ t ∈ selected, t.status ≠ .pending) := by
  refine ⟨fun t ht w hm => ?_, fun selected now hsub => ?_⟩
  · rw [← Bool.and_eq_true]
    exact TaskWrite.satisfiesChecks_apply_iff (htable t ht).satisfiesChecks hm
  · refine sweepUpdate_isSome_iff fun t ht => ?_
    obtain ⟨hmem, hover⟩ := List.mem_filter.mp (hsub.subset ht)
    exact ⟨(htable t hmem).satisfiesChecks, hover⟩

/-- A row created at instant 0 with a budget of one second. -/
def overdueRow : TaskSelect :=
  let dto : CreateTaskDto :=
    { type := "pdf", executorUrl := "http://executor", timeoutSeconds := 1 }
  (dto.values 0 "token").row "id" 0

theorem overdueRow_history : RowHistory overdueRow := .created _ 0 "token" "id" 0

/-- Postgres accepts the claim of the row and refuses its expiry, alone and in a batch. -/
theorem overdueRow_writes :
    (tasksStatusCheck ((TaskWrite.dispatchClaim 5 1).apply overdueRow) = true ∧
      tasksValidStateData ((TaskWrite.dispatchClaim 5 1).apply overdueRow) = true) ∧
    ¬ (tasksStatusCheck ((TaskWrite.expire 1001).apply overdueRow) = true ∧
      tasksValidStateData ((TaskWrite.expire 1001).apply overdueRow) = true) ∧
    ¬ (sweepUpdate 1001 [overdueRow]).isSome = true := by
  have hself : overdueRow ∈ [overdueRow] := List.mem_singleton_self _
  obtain ⟨hrow, hbatch⟩ := rowHistory_accepts_iff [overdueRow] fun t ht => by
    rw [List.mem_singleton.mp ht]
    exact overdueRow_history
  refine ⟨(hrow _ hself (.dispatchClaim 5 1) (by decide)).mpr fun h => h.1,
    fun h => (hrow _ hself (.expire 1001) (by decide)).mp h ⟨trivial, rfl⟩, fun h => ?_⟩
  exact (hbatch [overdueRow] 1001 (List.Sublist.refl _)).mp h overdueRow hself rfl

/-- The row was never dispatched: the sweep at instant 1001 selects it, and Postgres refuses the
batch. -/
theorem pending_row_blocks_sweep :
    ¬ ∀ t, RowHistory t → ∀ w : TaskWrite, w.Matches t = true →
      tasksStatusCheck (w.apply t) = true ∧ tasksValidStateData (w.apply t) = true := by
  intro h
  have hrow := h overdueRow overdueRow_history (.expire 1001) (by decide)
  exact absurd hrow.2 (by decide)

end LongRequestProxy
