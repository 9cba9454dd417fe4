import LongRequestProxy.Tasks.Rows

/-!
# The deadlines of tasks that have not ended

The sweeper finds a task by its deadline `expires_at`, which the creation sets and the dispatch
claim overwrites. One write clears it: the revert of a dispatch whose post rejected with an error
that is neither a `DispatchFailedError` nor a `NonRetryableError`. The dispatch job is started
once only, so nothing sets the deadline again.

## Main results

* `deadline_of_no_revert`: without such a revert every task that has not ended has a deadline, and
  every such revert takes it from a task.
* `revert_clears_deadline`: a run that ends with a `PENDING` task without a deadline.
-/

namespace LongRequestProxy

open Async Service

/-- Both CHECK constraints hold, and a row that has not ended has a deadline. -/
structure HasDeadline (t : TaskSelect) : Prop where
  checks : SatisfiesChecks t = true
  expiresAt : t.status = .pending ∨ t.status = .processing → t.expiresAt ≠ none

/-- Every write but the revert of a dispatch keeps the deadline or ends the task. -/
theorem HasDeadline.write {w : TaskWrite} {t : TaskSelect} (ht : HasDeadline t)
    (hw : w ≠ .dispatchRevert) (hc : SatisfiesChecks (w.apply t) = true) :
    HasDeadline (w.apply t) := by
  refine ⟨hc, ?_⟩
  cases w with
  | dispatchRevert => exact absurd rfl hw
  | progress n => exact ht.expiresAt
  | _ => simp [TaskWrite.apply, TaskWrite.stmt, updateStatus, cancelTask, expireTimedOutTasks,
      TaskPatch.apply]

variable {http : HttpClient} {clock : Timestamp}

/-- The move is the revert of a dispatch that takes effect, and its task is `PROCESSING`. -/
def revertsDispatch (c : (proxy http).Config) (m : (proxy http).Move) : Bool :=
  makesWrite TaskWrite.isDispatchRevert c m

/-- A run without such a revert keeps the deadlines. -/
theorem reaches_hasDeadline {c : (proxy http).Config}
    (h : Reaches (fun d m => revertsDispatch d m = false) (initial http clock) c) :
    c.store.EveryRow HasDeadline := by
  refine reaches_everyRow (fun dto now token id createdAt => ⟨satisfiesChecks_row .., ?_⟩) ?_ ?_ h
  · simp [TaskInsert.row, CreateTaskDto.values]
  · intro d m p o id w ha hx hf t ht hid hP hm hc
    refine hP.write ?_ hc
    rintro rfl
    obtain rfl := hid
    have hrev : revertsDispatch d m = true :=
      makesWrite_iff.mpr ⟨p, o, _, t, ht, hx, rfl, hf, hm⟩
    exact Bool.false_ne_true (ha.symm.trans hrev)
  · rintro w ⟨now, rfl | rfl⟩ t hP - hc
    · exact hP.write (by simp) hc
    · exact hP.write (by simp) hc

/-- A revert that finds its task `PROCESSING` leaves it `PENDING` without a deadline. -/
theorem clears_deadline_of_revertsDispatch {c c' : (proxy http).Config} {m : (proxy http).Move}
    (h : revertsDispatch c m = true) (hm : c.move m = some c')
    (hc : c.store.EveryRow RowHistory) :
    ∃ t ∈ c'.store.tasks, t.status = .pending ∧ t.expiresAt = none := by
  obtain ⟨p, o, w, t, ht, hx, hk, hf, hmatch⟩ := makesWrite_iff.mp h
  obtain rfl : w = .dispatchRevert := by
    cases w <;> simp [TaskWrite.isDispatchRevert] at hk ⊢
  obtain ⟨r, hperf⟩ := Config.perform_of_callOf hx hm
  exact ⟨_, apply_mem_of_updateTask (w := .dispatchRevert) hc (fun h => h) ht hmatch hf hperf,
    rfl, rfl⟩

/-- **The deadlines.** In a run in which no dispatch revert finds its task `PROCESSING`, every
task that has not ended has a deadline in every state reached; and in any run a revert that does
takes the deadline from a task, which it leaves `PENDING`. -/
theorem deadline_of_no_revert (http : HttpClient) (clock : Timestamp) :
    (∀ c, Reaches (fun d m => revertsDispatch d m = false) (initial http clock) c →
      ∀ t ∈ c.store.tasks, t.status = .pending ∨ t.status = .processing → t.expiresAt ≠ none) ∧
    ∀ c m c', Reaches (fun _ _ => True) (initial http clock) c → revertsDispatch c m = true →
      c.move m = some c' → ∃ t ∈ c'.store.tasks, t.status = .pending ∧ t.expiresAt = none :=
  ⟨fun _ h t ht => ((reaches_hasDeadline h).committed t ht).expiresAt,
    fun _ _ _ h hr hm => clears_deadline_of_revertsDispatch hr hm (reaches_rowHistory h)⟩

/-- A task is created and claimed, and its post rejects: the revert is the next call of the
dispatch. -/
def claimRun (http : HttpClient) : List (proxy http).Move :=
  [.spawn (.create sampleDto "http://proxy"), .call 0 {}, .call 0 {},
    .call 0 { uuid := fun _ => sampleId }, .call 0 {},
    .spawn (.dispatch sampleId 300), .call 1 { time := 1000 }, .call 1 {}]

/-- An error that is neither a `DispatchFailedError` nor a `NonRetryableError`. -/
def otherError : JsError := .other "Converting circular structure to JSON"

/-- Before the revert of the run the claimed task has a deadline, after it the task is `PENDING`
and has none. -/
theorem claimRun_deadlines :
    ∃ c,
      Reaches (fun d m => revertsDispatch d m = false)
        (initial (rejectingClient otherError) 0) c ∧
      (∃ t ∈ c.store.tasks, t.status = .processing ∧ t.expiresAt ≠ none) ∧
      ∃ c', c.move (.call 1 {}) = some c' ∧
        ∃ t ∈ c'.store.tasks, t.status = .pending ∧ t.expiresAt = none := by
  obtain ⟨c, hc, hcheck⟩ : ∃ c, Reaches (fun d m => revertsDispatch d m = false)
      (initial (rejectingClient otherError) 0) c ∧
      ((c.store.tasks.any fun t => t.status == .processing) &&
        revertsDispatch c (.call 1 {}) && (c.move (.call 1 {})).isSome) = true :=
    exists_reaches_of_replay (fun d m => !revertsDispatch d m) (claimRun _) _ (by simp) (by decide)
  simp only [Bool.and_eq_true, List.any_eq_true, beq_iff_eq] at hcheck
  obtain ⟨⟨⟨t, ht, hs⟩, hrev⟩, hmove⟩ := hcheck
  obtain ⟨c', hc'⟩ := Option.isSome_iff_exists.mp hmove
  obtain ⟨hkeep, hclear⟩ := deadline_of_no_revert (rejectingClient otherError) 0
  exact ⟨c, hc, ⟨t, ht, hs, hkeep c hc t ht (.inr hs)⟩, c', hc',
    hclear c _ c' (hc.mono fun _ _ _ => trivial) hrev hc'⟩

/-- The run, continued by the revert, ends with a `PENDING` task that no sweep ever selects. -/
theorem revert_clears_deadline :
    ¬ ∀ (http : HttpClient) (clock : Timestamp) (c : (proxy http).Config),
      Reaches (fun _ _ => True) (initial http clock) c → ∀ t ∈ c.store.tasks,
        t.status = .pending ∨ t.status = .processing → t.expiresAt ≠ none := by
  intro h
  let http := rejectingClient otherError
  obtain ⟨c, hc, hcheck⟩ : ∃ c, Reaches (fun _ _ => True) (initial http 0) c ∧
      (c.store.tasks.any fun t => t.status == .pending && t.expiresAt.isNone) = true :=
    exists_reaches_of_replay (fun _ _ => true) (claimRun http ++ [.call 1 {}]) _
      (fun _ _ _ => trivial) (by decide)
  obtain ⟨t, ht, hrow⟩ := List.any_eq_true.mp hcheck
  simp only [Bool.and_eq_true, beq_iff_eq, Option.isNone_iff_eq_none] at hrow
  exact h http 0 c hc t ht (.inl hrow.1) hrow.2

end LongRequestProxy
