import LongRequestProxy.Conduct.Readings
import LongRequestProxy.Executor.Notifications
import LongRequestProxy.Tasks.Rollbacks

/-!
# The time budget of a task

The deadline of a task is computed by the creation, from the request, and again by every dispatch
claim, from the payload of the job; a revert clears it, and the sweeper compares it with its clock.
The job of a task carries the budget that the row has, which no write changes. So the deadline of a
`PROCESSING` task is its last claim plus its own budget, and a sweep that fails it has read a later
instant.

## Main definitions

* `claimedAt`, `lastClaim`: the claims of a task in a trace.
* `isSweeping`: the programs that are sweeps.

## Main results

* `timeout_of_job`: the budget in a dispatch job is that of the row.
* `mem_written_of_exec`: the row versions that a transaction writes.
* `processing_deadline`: the deadlines of `PROCESSING` tasks.
-/

namespace LongRequestProxy

open Async Service Discipline

variable {http : HttpClient} {clock : Timestamp} {c c' : (proxy http).Config}
  {m : (proxy http).Move} {l : List (proxy http).Transition} {i : String}

/-! ### The budget in the jobs -/

/-- The budget of a task is a function of its id, in its row, in what its creation knows and in the
dispatch jobs. -/
def BudgetKnown (s : (discipline http).Observed) : Prop :=
  ∃ f, s.config.store.Fixed (·.timeoutSeconds) f ∧
    (∀ p t, (s.locals p).inserted = some t →
      t.id ∈ s.config.store.issued ∧ t.timeoutSeconds = f t.id) ∧
    ∀ i n, .dispatch i n ∈ s.config.store.queue → i ∈ s.config.store.issued ∧ n = f i

theorem budgetKnown_of_move {s s' : (discipline http).Observed} (hobeys : s.Obeys)
    (hm : s.move m = some s') (hs : BudgetKnown s) : BudgetKnown s' := by
  obtain ⟨f, hf, hinserted, hqueue⟩ := hs
  obtain ⟨hissued, f', hf', hsame⟩ := fixed_of_move (fun _ _ => rfl) (Observed.config_move hm) hf
  have hold : ∀ p t, (s.locals p).inserted = some t →
      t.id ∈ s'.config.store.issued ∧ t.timeoutSeconds = f' t.id := fun p t ht =>
    ⟨hissued (hinserted p t ht).1, (hinserted p t ht).2.trans (hsame _ (hinserted p t ht).1).symm⟩
  refine ⟨f', hf', fun p t ht => ?_, fun i n hjob => ?_⟩
  · obtain ⟨heq, -⟩ | ⟨o, req, x, k, r, -, -, hx, heq⟩ | ⟨-, heq⟩ := Observed.locals_cases hm p
    · exact hold p t (heq ▸ ht)
    · rw [heq] at ht
      obtain hknown | ⟨dto, now, token, rfl, hr⟩ := Summary.inserted_of_next ht
      · exact hold p t hknown
      · -- the row is inserted with this move
        obtain rfl := eq_of_heq hr
        obtain ⟨-, -, -, rfl, hσ⟩ := Backend.insertTask_ok (exec_of_perform_ok hx)
        refine hf'.committed _ ?_
        rw [hσ]
        exact List.mem_append_right _ (List.mem_singleton_self _)
    · rw [heq] at ht
      cases ht
  · obtain hknown | ⟨p, o, req, k, rfl, hp⟩ := queue_of_move (Observed.config_move hm) hjob
    · exact ⟨hissued (hqueue i n hknown).1,
        (hqueue i n hknown).2.trans (hsame i (hqueue i n hknown).1).symm⟩
    · obtain ⟨t, ht, rfl, rfl⟩ : Summary.AwaitsEnqueue req (s.locals p) (.dispatch i n) :=
        (hobeys.awaits hp).2
      exact hold p t ht

/-- The budget that belongs to an id. -/
theorem exists_budget (h : Reaches (fun _ _ => True) (initial http clock) c) :
    ∃ f, c.store.Fixed (·.timeoutSeconds) f ∧ ∀ i n, .dispatch i n ∈ c.store.queue → n = f i := by
  obtain ⟨γ, hγ, -⟩ := exists_observed h
  obtain ⟨f, hf, -, hqueue⟩ : BudgetKnown ⟨c, γ⟩ := by
    refine hγ.invariant (I := BudgetKnown)
      (fun _ _ _ hrun _ hm hs => budgetKnown_of_move (obeys_of_runs hrun) hm hs) ?_
    refine ⟨fun _ => 0, ⟨by simp [observed, initial], by simp [observed, initial, Backend.tx]⟩,
      ?_, ?_⟩
    · intro p t ht
      cases ht
    · intro i n hjob
      cases hjob
  exact ⟨f, hf, fun i n hjob => (hqueue i n hjob).2⟩

/-- **The budget in a job.** -/
theorem timeout_of_job (h : Reaches (fun _ _ => True) (initial http clock) c) {n : ℤ}
    (hjob : .dispatch i n ∈ c.store.queue) {t : TaskSelect} (ht : t ∈ c.store.tasks)
    (hid : t.id = i) : n = t.timeoutSeconds := by
  obtain ⟨f, hf, hqueue⟩ := exists_budget h
  have hrow : t.timeoutSeconds = f t.id := (hf.committed t ht).2
  rw [hqueue i n hjob, hrow, hid]

/-! ### Claims -/

/-- The instant that a dispatch claim writes when the transition is one that claims the task. -/
def claimedAt (i : String) (x : (proxy http).Transition) : Option Timestamp :=
  match x.before.callOf x.move with
  | some (_, o, .updateTask id (.dispatchClaim time _)) =>
    if id = i ∧ o.fault ≠ .failed ∧
        (x.before.store.tasks.any fun t => t.id == i && t.status == .pending) = true then
      some time
    else none
  | _ => none

/-- The instant of the last claim of the task in a trace. -/
def lastClaim (i : String) (l : List (proxy http).Transition) : Option Timestamp :=
  (l.filterMap (claimedAt i)).getLast?

theorem claimedAt_eq_some {x : (proxy http).Transition} {time : Timestamp} :
    claimedAt i x = some time ↔ ∃ p o n,
      x.before.callOf x.move = some (p, o, .updateTask i (.dispatchClaim time n)) ∧
        o.fault ≠ .failed ∧ ∃ t ∈ x.before.store.tasks, t.id = i ∧ t.status = .pending := by
  unfold claimedAt
  split
  · next p o id time' n heq =>
    simp only [heq, List.any_eq_true, Bool.and_eq_true, beq_iff_eq, Option.ite_none_right_eq_some,
      Option.some.injEq, Prod.mk.injEq, Await.updateTask.injEq, TaskWrite.dispatchClaim.injEq]
    constructor
    · rintro ⟨⟨rfl, hf, hrow⟩, rfl⟩
      exact ⟨p, o, n, ⟨rfl, rfl, rfl, rfl, rfl⟩, hf, hrow⟩
    · rintro ⟨_, _, _, ⟨rfl, rfl, rfl, rfl, rfl⟩, hf, hrow⟩
      exact ⟨⟨rfl, hf, hrow⟩, rfl⟩
  · next hne => exact iff_of_false (by simp) fun ⟨p, o, n, h, _⟩ => hne p o i time n h

theorem lastClaim_of_claimedAt {x : (proxy http).Transition} {time : Timestamp}
    (h : claimedAt i x = some time) : lastClaim i (l ++ [x]) = some time := by
  simp [lastClaim, h]

theorem lastClaim_of_claimedAt_eq_none {x : (proxy http).Transition} (h : claimedAt i x = none) :
    lastClaim i (l ++ [x]) = lastClaim i l := by
  simp [lastClaim, h]

/-! ### Transactions that end tasks -/

/-- The row versions that the transaction of a program gets: the cancellation of a row, or the
expiry of one that is `PROCESSING`. -/
theorem mem_written_of_exec {p : ℕ} {o : Oracle} {σ σ' : Backend} {x : Await} {v : x.Val}
    (hx : exec p o σ x = some (.ok (v, σ'))) {r : TaskSelect} (hr : r ∈ (σ'.tx p).tasks) :
    r ∈ (σ.tx p).tasks ∨ ∃ t ∈ σ.tasks,
      (∃ time, x = .txCancelTask t.id time ∧ r = (TaskWrite.cancel time).apply t) ∨
      ∃ time limit, x = .txExpireTasks time limit ∧ isOverdue time t = true ∧
        SatisfiesChecks ((TaskWrite.expire time).apply t) = true ∧
        r = (TaskWrite.expire time).apply t := by
  have hself {t : Tx} {r' : TaskSelect} (h : r' ∈ ((σ.setTx p t).tx p).tasks) : r' ∈ t.tasks := by
    rwa [Backend.tx_setTx_self] at h
  cases x with
  | redisOccupy key value ttl =>
    simp only [exec, Backend.occupy] at hx
    split at hx <;> cases hx <;> exact .inl hr
  | insertTask dto now token =>
    obtain ⟨-, -, -, -, rfl⟩ := Backend.insertTask_ok hx
    exact .inl hr
  | deleteTask id =>
    obtain ⟨-, rfl⟩ := Backend.deleteTask_ok hx
    exact .inl hr
  | updateTask id w =>
    obtain ⟨-, rfl, -⟩ | ⟨-, -, -, -, -, -, -, rfl⟩ := Backend.updateTask_ok hx
    · exact .inl hr
    · exact .inl hr
  | selectOldTasks cutoff limit =>
    obtain ⟨rfl, -⟩ := Backend.selectOldTasks_ok hx
    exact .inl hr
  | txCancelTask id now =>
    obtain ⟨-, rfl⟩ | ⟨t, ht, rfl, -, -, -, -, rfl⟩ := Backend.txCancelTask_ok hx
    · exact .inl hr
    · rcases List.mem_append.mp (hself hr) with hr | hr
      · exact .inl hr
      · exact .inr ⟨t, ht, .inl ⟨now, rfl, List.mem_singleton.mp hr⟩⟩
  | txExpireTasks now limit =>
    obtain ⟨selected, hsub, hsel, -, rfl⟩ := Backend.txExpireTasks_ok hx
    rcases List.mem_append.mp (hself hr) with hr | hr
    · exact .inl hr
    · obtain ⟨t, ht, rfl⟩ := List.mem_map.mp hr
      obtain ⟨hover, -, hchecks⟩ := hsel t ht
      exact .inr ⟨t, hsub.subset ht, .inr ⟨now, limit, rfl, hover, hchecks, rfl⟩⟩
  | txDeleteTasks ids =>
    obtain ⟨-, rfl⟩ := Backend.txDeleteTasks_ok hx
    have hold := hself hr
    exact .inl hold
  | txAdvisoryLock id =>
    obtain ⟨-, rfl⟩ := Backend.txAdvisoryLock_ok hx
    have hold := hself hr
    exact .inl hold
  | txInsertEvent seq input =>
    obtain ⟨-, hx⟩ := exec_txInsertEvent_ok hx
    obtain ⟨-, -, rfl⟩ := Backend.txInsertEvents_ok hx
    have hold := hself hr
    exact .inl hold
  | txInsertExpiryEvents events =>
    obtain ⟨-, -, rfl⟩ := Backend.txInsertEvents_ok hx
    have hold := hself hr
    exact .inl hold
  | txDeleteEvents ids =>
    obtain rfl := Backend.txDeleteEvents_ok hx
    have hold := hself hr
    exact .inl hold
  | txCommit =>
    cases hx
    rw [Backend.tx_commit_self] at hr
    cases hr
  | _ =>
    cases hx
    exact .inl hr

/-- An UPDATE of a row that another transaction locks waits. -/
theorem updateTask_eq_none_of_locked {p : ℕ} {σ : Backend} {w : TaskWrite}
    (hlock : σ.lockedByOther p i = true) {t : TaskSelect} (ht : t ∈ σ.tasks)
    (hwhere : (w.stmt i).where_ t = true) : σ.updateTask p i w = none := by
  unfold Backend.updateTask
  split
  · next hnone =>
    have := List.find?_eq_none.mp hnone t ht
    exact absurd hwhere this
  · next r hsome =>
    dsimp only
    rw [if_pos hlock]

/-- A program that claims a row finds it unlocked. -/
theorem claimedAt_eq_none_of_written {s : (history (proxy http)).Observed}
    {allow : (proxy http).Config → (proxy http).Move → Prop}
    (h : Runs allow (recorded http clock) s) (hm : s.config.move m = some c') {q : ℕ}
    {r : TaskSelect} (hr : r ∈ (s.config.store.tx q).tasks) :
    claimedAt r.id ⟨s.config, m, c'⟩ = none := by
  by_contra hne
  obtain ⟨time, htime⟩ := Option.ne_none_iff_exists'.mp hne
  obtain ⟨p, o, n, hcall, hf, t, ht, hid, hstatus⟩ := claimedAt_eq_some.mp htime
  obtain ⟨rfl, req, k, hp⟩ := Config.callOf_eq_some.mp hcall
  by_cases hqp : q = p
  · -- a function that claims has no open transaction
    subst hqp
    have hobserved := observed_of_recorded h
    have hsettled : Summary.Settled ((discipline http).summary (s.locals q)) :=
      ((obeys_of_runs hobserved).awaits hp).1
    have htracks : Tracks s.config.store (s.config.store.tx q)
      ((discipline http).summary (s.locals q)) := (tracked_of_runs hobserved).tracks q
    rw [htracks.tasks_eq_nil (by rw [hsettled.tx])] at hr
    cases hr
  · have hlock : s.config.store.lockedByOther p r.id = true := by
      by_contra hfree
      exact (Backend.not_held_of_lockedByOther (Bool.eq_false_of_not_eq_true hfree) hqp).1 r hr rfl
    have hwaits : exec p o s.config.store (.updateTask r.id (.dispatchClaim time n)) = none :=
      updateTask_eq_none_of_locked hlock ht (by
        rw [← hid]
        exact (TaskWrite.matches_iff _ t).mpr hstatus)
    obtain ⟨y, hy⟩ := Config.perform_of_callOf hcall hm
    obtain ⟨e, -, -, hfail | hx⟩ | ⟨v, -, hx, -⟩ | ⟨v, σ, -, hx, -⟩ := perform_cases hy
    · exact hf hfail
    · rw [hwaits] at hx
      cases hx
    · rw [hwaits] at hx
      cases hx
    · rw [hwaits] at hx
      cases hx

/-! ### Deadlines -/

/-- The deadline of the row, if it is `PROCESSING`, is its last claim plus its budget. -/
def TaskSelect.IsTimed (t : TaskSelect) (l : List (proxy http).Transition) : Prop :=
  t.status = .processing → ∃ started, lastClaim t.id l = some started ∧
    t.processingStartedAt = some started ∧
    t.expiresAt = some (started.addSeconds t.timeoutSeconds)

/-- The row version that a sweep has written was overdue: its budget was over since its last
claim. -/
def TaskSelect.IsOverspent (t : TaskSelect) (l : List (proxy http).Transition) (log : History) :
    Prop :=
  t.status = .failed → ∃ started time, lastClaim t.id l = some started ∧ Read log time ∧
    t.completedAt = some time ∧ started.addSeconds t.timeoutSeconds < time

/-- What holds of the rows, and of the versions in open transactions, along a trace. -/
structure Timed (l : List (proxy http).Transition) (s : (history (proxy http)).Observed) :
    Prop where
  rows : ∀ t ∈ s.config.store.tasks, t.IsTimed l
  written : ∀ p, ∀ r ∈ (s.config.store.tx p).tasks, r.IsOverspent l (s.locals p)

theorem timed_initial : Timed [] (recorded http clock) where
  rows t ht := by cases ht
  written p r hr := by
    simp [recorded, initial, Backend.tx] at hr

/-- A crash aborts the transaction of the program. -/
theorem tx_of_crash {p : ℕ} (hm : c.move (.crash p) = some c') : c'.store.tx p = {} := by
  rw [(store_of_crash hm).1]
  exact Backend.tx_rollback_self ..

/-- Along every trace the deadlines are those of the last claims. -/
theorem timed_of_move {s s' : (history (proxy http)).Observed}
    (htrace : Trace (initial http clock) l s.config)
    (h : Runs (fun _ _ => True) (recorded http clock) s) (hm : s.move m = some s')
    (hs : Timed l s) : Timed (l ++ [⟨s.config, m, s'.config⟩]) s' := by
  have hmove := Observed.config_move hm
  have hobserved := observed_of_recorded h
  obtain ⟨γ, hγ⟩ := ledger_of_reaches htrace.reaches
  constructor
  · intro t' ht' hstatus
    obtain hold | ⟨-, -, dto, now, token, id, createdAt, rfl⟩ |
      ⟨p, o, w, hcall, hf, t, ht, hid, hmatch, rfl⟩ | ⟨hterm, -⟩ := row_cases_of_move hγ hmove ht'
    · -- only a PENDING row is claimed
      have hnone : claimedAt t'.id ⟨s.config, m, s'.config⟩ = none := by
        by_contra hne
        obtain ⟨time, htime⟩ := Option.ne_none_iff_exists'.mp hne
        obtain ⟨-, -, -, -, -, t, ht, hid, hpending⟩ := claimedAt_eq_some.mp htime
        rw [Table.eq_of_key_eq hγ.ids ht hold hid, hstatus] at hpending
        cases hpending
      rw [lastClaim_of_claimedAt_eq_none hnone]
      exact hs.rows t' hold hstatus
    · cases hstatus
    · obtain ⟨-, req, k, hp⟩ := Config.callOf_eq_some.mp hcall
      have hmatches := (TaskWrite.matches_iff _ t).mp hmatch
      cases w with
      | dispatchClaim time n =>
        have hawaits : Summary.AwaitsWrite req ((discipline http).summary (s.locals p)) t.id
          (.dispatchClaim time n) := ((obeys_of_runs hobserved).awaits hp).2
        obtain ⟨rfl, -⟩ := hawaits
        have hbudget := timeout_of_job htrace.reaches (job_mem_of_running htrace.reaches hp rfl)
          ht rfl
        have hclaim : claimedAt t.id ⟨s.config, m, s'.config⟩ = some time :=
          claimedAt_eq_some.mpr ⟨p, o, n, hcall, hf, t, ht, rfl, hmatches⟩
        refine ⟨time, lastClaim_of_claimedAt hclaim, rfl, ?_⟩
        rw [hbudget]
        rfl
      | progress n =>
        have hnone : claimedAt t.id ⟨s.config, m, s'.config⟩ = none := by
          by_contra hne
          obtain ⟨time, htime⟩ := Option.ne_none_iff_exists'.mp hne
          obtain ⟨_, _, _, hclaim, -⟩ := claimedAt_eq_some.mp htime
          cases hcall.symm.trans hclaim
        have htimed := hs.rows t ht hstatus
        rw [← lastClaim_of_claimedAt_eq_none hnone] at htimed
        exact htimed
      | _ => cases hstatus
    · rw [hstatus] at hterm
      cases hterm
  · intro q r hr hstatus
    -- a version that was there before
    have hkeep : ∀ r ∈ (s.config.store.tx q).tasks, s.locals q ⊆ s'.locals q →
        r.IsOverspent (l ++ [⟨s.config, m, s'.config⟩]) (s'.locals q) := by
      intro r hr hsub hstatus
      obtain ⟨started, time, hlast, hread, hend, hlt⟩ := hs.written q r hr hstatus
      rw [← lastClaim_of_claimedAt_eq_none (claimedAt_eq_none_of_written h hmove hr)] at hlast
      exact ⟨started, time, hlast, hsub hread, hend, hlt⟩
    obtain ⟨heq, hnone⟩ | ⟨o, req, x, k, y, rfl, hp, hx, heq⟩ | ⟨rfl, -⟩ :=
      Observed.locals_cases hm q
    · by_cases hcrash : m = .crash q
      · subst hcrash
        rw [tx_of_crash hmove] at hr
        cases hr
      · have hcall : ∀ o, m ≠ .call q o := by
          rintro o rfl
          obtain ⟨req, x, k, _, hp, -⟩ := Observed.call_cases hm
          exact hnone o x (Config.callOf_eq_some.mpr ⟨rfl, req, k, hp⟩)
        rw [tx_of_move_of_ne hmove hcall hcrash] at hr
        exact hkeep r hr (by rw [heq]; exact List.Subset.refl _) hstatus
    · have hsub : s.locals q ⊆ s'.locals q := by
        rw [heq]
        exact List.subset_append_left _ _
      obtain ⟨_, -, hσ, -⟩ | ⟨v, -, hexec, -⟩ | ⟨_, _, -, -, -, hσ⟩ := perform_cases hx
      · rw [hσ, Backend.tx_rollback_self] at hr
        cases hr
      · obtain hold | ⟨t, ht, ⟨time, -, rfl⟩ | ⟨time, limit, rfl, hover, hchecks, rfl⟩⟩ :=
          mem_written_of_exec hexec hr
        · exact hkeep r hold hsub hstatus
        · cases hstatus
        · -- the sweep has found the row overdue: it is PROCESSING
          have hread : Read (s.locals q) time := dated_of_runs h hp
          have hmatch : (TaskWrite.expire time).Matches t = true :=
            (TaskWrite.matches_iff _ t).mpr hover
          have hrow := ((reaches_rowHistory htrace.reaches).committed t ht).satisfiesChecks
          have hnot := (TaskWrite.satisfiesChecks_apply_iff hrow hmatch).mp hchecks
          obtain ⟨hopen, deadline, hdeadline, hlt⟩ := (TaskWrite.isOverdue_iff time t).mp hover
          have hprocessing : t.status = .processing :=
            hopen.resolve_left fun hpending => hnot ⟨trivial, hpending⟩
          obtain ⟨started, hlast, -, hexpires⟩ := hs.rows t ht hprocessing
          obtain rfl := Option.some.inj (hdeadline.symm.trans hexpires)
          have hnone : claimedAt t.id ⟨s.config, .call q o, s'.config⟩ = none := by
            by_contra hne
            obtain ⟨_, hclaim⟩ := Option.ne_none_iff_exists'.mp hne
            obtain ⟨_, _, _, hclaim, -⟩ := claimedAt_eq_some.mp hclaim
            have hcall : s.config.callOf (.call q o) = some (q, o, .txExpireTasks time limit) :=
              Config.callOf_eq_some.mpr ⟨rfl, req, k, hp⟩
            cases hcall.symm.trans hclaim
          rw [← lastClaim_of_claimedAt_eq_none hnone] at hlast
          exact ⟨started, time, hlast, hsub hread, rfl, hlt⟩
      · rw [hσ, Backend.tx_rollback_self] at hr
        cases hr
    · rw [tx_of_crash hmove] at hr
      cases hr

/-- No task was claimed with an instant that is still to come. -/
theorem lastClaim_le_of_move {s s' : (history (proxy http)).Observed}
    (h : Runs (fun _ _ => True) (recorded http clock) s) (hm : s.move m = some s')
    (hpassed : Passed s)
    (hs : ∀ i started, lastClaim i l = some started → started ≤ s.config.store.clock) (i : String)
    (started : Timestamp)
    (hlast : lastClaim i (l ++ [⟨s.config, m, s'.config⟩]) = some started) :
    started ≤ s'.config.store.clock := by
  have hle := clock_le_of_move (Observed.config_move hm)
  cases hclaim : claimedAt i ⟨s.config, m, s'.config⟩ with
  | none =>
    rw [lastClaim_of_claimedAt_eq_none hclaim] at hlast
    exact (hs i started hlast).trans hle
  | some time =>
    rw [lastClaim_of_claimedAt hclaim] at hlast
    obtain rfl := Option.some.inj hlast
    obtain ⟨p, o, n, hcall, -⟩ := claimedAt_eq_some.mp hclaim
    obtain ⟨-, req, k, hp⟩ := Config.callOf_eq_some.mp hcall
    have hread : Read (s.locals p) time := dated_of_runs h hp time rfl
    exact (hpassed p time hread).trans hle

/-! ### Sweeps -/

/-- Program `p` is a sweep. -/
def isSweeping (c : (proxy http).Config) (p : ℕ) : Bool :=
  match c.procs[p]? with
  | some (.running (.sweep _) _) => true
  | _ => false

theorem isSweeping_iff {p : ℕ} :
    isSweeping c p = true ↔ ∃ batches P, c.procs[p]? = some (.running (.sweep batches) P) := by
  unfold isSweeping
  split
  · next batches P heq => exact iff_of_true rfl ⟨batches, P, heq⟩
  · next hne => exact iff_of_false Bool.false_ne_true fun ⟨batches, P, heq⟩ => hne batches P heq

/-- The row that a commit leaves, if it is not the row from before, is the version that the
transaction has written. -/
theorem mem_written_of_commit {σ : Backend} {p : ℕ} {r : TaskSelect} (hr : r ∈ (σ.commit p).tasks)
    (hnew : r ∉ σ.tasks) : r ∈ (σ.tx p).tasks := by
  obtain ⟨r₀, hr₀, -, rfl⟩ := Backend.mem_commit_tasks.mp hr
  obtain ⟨hmem, -⟩ | ⟨hsame, -⟩ := (σ.tx p).newest_cases r₀
  · exact hmem
  · rw [hsame] at hnew
    exact absurd hr₀ hnew

/-- What a sweep changes in the committed rows it has written in its transaction. -/
theorem mem_written_of_sweep {s : (history (proxy http)).Observed}
    (h : Runs (fun _ _ => True) (recorded http clock) s) {p : ℕ} {o : Oracle} {batches : ℕ}
    {P : Prog Await Reply (Except JsError Response)}
    (hp : s.config.procs[p]? = some (.running (.sweep batches) P))
    (hm : s.config.move (.call p o) = some c') {t' : TaskSelect} (ht' : t' ∈ c'.store.tasks)
    (hnew : t' ∉ s.config.store.tasks) : t' ∈ (s.config.store.tx p).tasks := by
  obtain ⟨time, hσ⟩ | ⟨q, hσ⟩ | ⟨q, o', req, x, k, v, σ, hcall, hq, -, hx, hσ⟩ :=
    store_cases_of_move hm
  · rw [hσ] at ht'
    exact absurd ht' hnew
  · rw [hσ] at ht'
    exact absurd ht' hnew
  cases hcall
  cases hp.symm.trans hq
  have hawaits : Summary.Awaits (.sweep batches) ((discipline http).summary (s.locals p)) x :=
    (obeys_of_runs (observed_of_recorded h)).awaits hp
  have hmem : t' ∈ σ.tasks := by
    obtain hσ | hσ := hσ <;> rw [hσ] at ht' <;> exact ht'
  obtain ⟨ht, -⟩ | ⟨dto, now, token, rfl, -⟩ | ⟨id, -, ht, -⟩ | ⟨id, w, rfl, -⟩ | ⟨-, rfl⟩ :=
    exec_tasks_cases hx
  · exact absurd (ht ▸ hmem) hnew
  · obtain ⟨-, -, _, hreq⟩ := hawaits
    cases hreq
  · rw [ht] at hmem
    exact absurd (List.mem_filter.mp hmem).1 hnew
  · -- a sweep makes no such write
    obtain ⟨_, hreq⟩ | ⟨_, _, hreq⟩ | ⟨_, _, hreq⟩ := Summary.AwaitsWrite.request_cases hawaits.2
    · cases hreq
    · cases hreq
    · cases hreq
  · exact mem_written_of_commit hmem hnew

/-- **The budget of a task.** In every run a task that is `PROCESSING` has the deadline that its
last claim and its own budget give. And a sweep that fails a `PROCESSING` task has read an instant
at which that budget was over since the last claim; it records this instant as the end. When the
clocks show the time of the servers, the instants of the claim and of the sweep have passed. -/
theorem processing_deadline (http : HttpClient) (clock : Timestamp)
    (l : List (proxy http).Transition) (c : (proxy http).Config)
    (h : Trace (initial http clock) l c) :
    (∀ t ∈ c.store.tasks, t.status = .processing → ∃ started, lastClaim t.id l = some started ∧
      t.processingStartedAt = some started ∧
      t.expiresAt = some (started.addSeconds t.timeoutSeconds) ∧
      ((∀ x ∈ l, readsClock x.before x.move = true) → started ≤ c.store.clock)) ∧
    ∀ p o c', isSweeping c p = true → c.move (.call p o) = some c' →
      ∀ t ∈ c.store.tasks, t.status = .processing →
      ∀ t' ∈ c'.store.tasks, t'.id = t.id → t'.status = .failed →
        ∃ started now, lastClaim t.id l = some started ∧ t.processingStartedAt = some started ∧
          t'.completedAt = some now ∧ started.addSeconds t.timeoutSeconds < now ∧
          ((∀ x ∈ l, readsClock x.before x.move = true) → now ≤ c.store.clock) := by
  obtain ⟨γ, hruns, htimed, hclaims⟩ := exists_observed_trace (D := history (proxy http))
    (s := recorded http clock)
    (I := fun l (s : (history (proxy http)).Observed) => Timed l s ∧
      ((∀ x ∈ l, readsClock x.before x.move = true) → Passed s ∧
        ∀ i started, lastClaim i l = some started → started ≤ s.config.store.clock)) h
    ⟨timed_initial, fun _ =>
      ⟨fun _ _ htime => (by cases htime), fun _ _ hlast => (by cases hlast)⟩⟩
    fun l s m s' htrace hruns hm ⟨htimed, hclaims⟩ => by
      refine ⟨timed_of_move htrace hruns hm htimed, fun hclock => ?_⟩
      obtain ⟨hbefore, hlast⟩ := List.forall_mem_append.mp hclock
      obtain ⟨hpassed, hclaimed⟩ := hclaims hbefore
      have hreads : readsClock s.config m = true := hlast _ (List.mem_singleton_self _)
      exact ⟨passed_of_move hm hreads hpassed, lastClaim_le_of_move hruns hm hpassed hclaimed⟩
  refine ⟨fun t ht hstatus => ?_, fun p o c' hp hm t ht hstatus t' ht' hid hfailed => ?_⟩
  · obtain ⟨started, hlast, hstarted, hexpires⟩ := htimed.rows t ht hstatus
    exact ⟨started, hlast, hstarted, hexpires, fun hclock => (hclaims hclock).2 _ _ hlast⟩
  · obtain ⟨batches, P, hp⟩ := isSweeping_iff.mp hp
    obtain ⟨started, hlast, hstarted, -⟩ := htimed.rows t ht hstatus
    have hids := (tracked_of_runs (observed_of_recorded hruns)).rowIds.nodup
    have hnew : t' ∉ c.store.tasks := by
      intro hold
      rw [Table.eq_of_key_eq hids hold ht hid, hstatus] at hfailed
      cases hfailed
    have hwritten := mem_written_of_sweep hruns hp hm ht' hnew
    obtain ⟨started', now, hlast', hread, hend, hlt⟩ := htimed.written p t' hwritten hfailed
    rw [hid] at hlast'
    obtain rfl := Option.some.inj (hlast.symm.trans hlast')
    obtain ⟨f, hf, -⟩ := exists_budget h.reaches
    have hbudget : t'.timeoutSeconds = t.timeoutSeconds :=
      calc t'.timeoutSeconds = f t'.id := (hf.written p t' hwritten).2
        _ = f t.id := by rw [hid]
        _ = t.timeoutSeconds := (hf.committed t ht).2.symm
    exact ⟨started, now, hlast, hstarted, hend, hbudget ▸ hlt,
      fun hclock => (hclaims hclock).1 p now hread⟩

/-- A task with a budget of 300 seconds is claimed at instant 1000, and a sweep selects it 300.001
seconds later. The next call of program 2 commits. -/
def overspentRun : List (proxy httpRetryService).Move :=
  [.spawn (.create sampleDto "http://proxy"), .call 0 {}, .call 0 {},
    .call 0 { uuid := fun _ => sampleId }, .call 0 {},
    .spawn (.dispatch sampleId 300), .ambient 1000, .call 1 { time := 1000 }, .call 1 {},
    .spawn (.sweep 1), .ambient 301001, .call 2 { time := 301001 },
    .call 2 { picks := [sampleId] }, .call 2 {}, .call 2 {}]

/-- The sweep fails the task after its budget. -/
theorem overspent_task_failed :
    ∃ l c, Trace (initial httpRetryService 0) l c ∧
      ∃ t ∈ c.store.tasks, t.status = .processing ∧ t.expiresAt = some 301000 ∧
      ∃ c', c.move (.call 2 {}) = some c' ∧ ∃ t' ∈ c'.store.tasks, t'.status = .failed ∧
        ∃ now, t'.completedAt = some now ∧ 301000 < now ∧ now ≤ c.store.clock := by
  obtain ⟨l, c, h, hcheck⟩ := Config.exists_trace_of_check (S := proxy httpRetryService)
    (c := initial httpRetryService 0) overspentRun
    (fun l c => l.all (fun x => readsClock x.before x.move) && isSweeping c 2 &&
      (c.store.tasks.any fun t => t.status == .processing && lastClaim t.id l == some 1000 &&
        t.timeoutSeconds == 300 && (c.move (.call 2 {})).any fun c' =>
          c'.store.tasks.any fun t' => t'.id == t.id && t'.status == .failed)) (by decide)
  simp only [Bool.and_eq_true, List.any_eq_true, List.all_eq_true, beq_iff_eq,
    Option.any_eq_true] at hcheck
  obtain ⟨⟨hclock, hsweep⟩, t, ht, ⟨⟨hstatus, hlast⟩, hbudget⟩, c', hm, t', ht', hid, hfailed⟩ :=
    hcheck
  obtain ⟨hdeadline, hsweeps⟩ := processing_deadline httpRetryService 0 l c h
  obtain ⟨started, hlast', -, hexpires, -⟩ := hdeadline t ht hstatus
  obtain rfl := Option.some.inj (hlast.symm.trans hlast')
  obtain ⟨started', now, hlast', -, hend, hlt, hpassed⟩ :=
    hsweeps 2 {} c' hsweep hm t ht hstatus t' ht' hid hfailed
  obtain rfl := Option.some.inj (hlast.symm.trans hlast')
  rw [hbudget] at hexpires hlt
  exact ⟨l, c, h, t, ht, hstatus, hexpires, c', hm, t', ht', hfailed, now, hend, hlt,
    hpassed hclock⟩

end LongRequestProxy
