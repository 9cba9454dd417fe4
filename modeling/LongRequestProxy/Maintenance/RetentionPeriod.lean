import LongRequestProxy.Conduct.Readings
import LongRequestProxy.Maintenance.Deletions
import LongRequestProxy.Maintenance.Retention

/-!
# The retention period

The retention job deletes terminal tasks by the instant of their creation. The period for which an
ended task is to be retained begins when it ends: so a task that was created before the cutoff and
has ended after it is deleted too early, however recently it has ended.

## Main definitions

* `PeriodOver`: the retention period of an ended task is over.
* `selectsEarly`: the SELECT of a retention job matches a task whose period is not over.

## Main results

* `selected_of_lost`: what a retention job takes away, it has selected.
* `retention_period_of_no_early_select`: in runs without such SELECTs ended tasks are retained.
* `recently_ended_task_deleted`: a task that is deleted when it has just ended.
-/

namespace LongRequestProxy

open Async Service Discipline

variable {http : HttpClient} {clock : Timestamp} {c c' : (proxy http).Config}
  {m : (proxy http).Move} {i : String} {days : ℤ}

/-! ### The period -/

/-- The task has ended, and the days for which it is retained have passed. -/
def PeriodOver (σ : Backend) (retentionDays : ℤ) (t : TaskSelect) : Prop :=
  ∃ ended, t.completedAt = some ended ∧ ended.addSeconds (retentionDays * 86400) ≤ σ.clock

/-- The call of the move is the SELECT of a retention job, and it matches a task that has ended
after the cutoff. -/
def selectsEarly (c : (proxy http).Config) (m : (proxy http).Move) : Bool :=
  match c.callOf m with
  | some (_, _, .selectOldTasks cutoff _) => c.store.tasks.any fun t =>
      isOld cutoff t && t.completedAt.any fun ended => decide (cutoff < ended)
  | _ => false

/-- The days of the retention job that program `p` is. -/
def retains (c : (proxy http).Config) (p : ℕ) : Option ℤ :=
  match c.procs[p]? with
  | some (.running (.retain retentionDays _) _) => some retentionDays
  | _ => none

theorem retains_eq_some {p : ℕ} :
    retains c p = some days ↔
      ∃ batches P, c.procs[p]? = some (.running (.retain days batches) P) := by
  unfold retains
  split
  · next days' batches P heq =>
    rw [heq]
    constructor
    · rintro ⟨⟩
      exact ⟨batches, P, rfl⟩
    · rintro ⟨batches', P', h⟩
      cases h
      rfl
  · next hne => exact iff_of_false (by simp) fun ⟨batches, P, heq⟩ => hne _ batches P heq

theorem addSeconds_le_of_le_cutoff {ended time now : ℤ}
    (hended : ended ≤ retentionCutoff time days) (hpassed : time ≤ now) :
    Timestamp.addSeconds ended (days * 86400) ≤ now := by
  simp only [retentionCutoff, Timestamp.addSeconds] at hended
  change ended + days * 86400 * 1000 ≤ now
  omega

/-- A task that the SELECT matches, when it does not select early. -/
theorem periodOver_of_select {time : Timestamp} {p : ℕ} {o : Oracle} {limit : ℕ} {t : TaskSelect}
    (hcall : c.callOf m = some (p, o, .selectOldTasks (retentionCutoff time days) limit))
    (hearly : selectsEarly c m = false) (hpassed : time ≤ c.store.clock)
    (hrows : c.store.EveryRow RowHistory) (ht : t ∈ c.store.tasks)
    (hterm : t.status.isTerminal = true) (hold : t.createdAt < retentionCutoff time days) :
    PeriodOver c.store days t := by
  obtain ⟨ended, hended⟩ := Option.ne_none_iff_exists'.mp
    ((hrows.committed t ht).consistent.completedAt.mpr hterm)
  refine ⟨ended, hended, ?_⟩
  simp only [selectsEarly, hcall, List.any_eq_false] at hearly
  have hle : ended ≤ retentionCutoff time days := by
    have := hearly t ht
    simpa [isOld, hterm, hold, hended] using this
  exact addSeconds_le_of_le_cutoff hle hpassed

/-- A period that is over stays over. -/
theorem periodOver_of_move (h : Reaches (fun _ _ => True) (initial http clock) c)
    (hm : c.move m = some c') (hend : IsOver c.store i)
    (hover : ∀ t ∈ c.store.tasks, t.id = i → PeriodOver c.store days t) :
    ∀ t ∈ c'.store.tasks, t.id = i → PeriodOver c'.store days t := by
  intro t' ht' hid
  obtain ⟨γ, hγ⟩ := ledger_of_reaches h
  obtain ⟨t, ht, htid, hsame⟩ | ⟨hnew, -⟩ := (rowStep_of_move hγ hm).2 t' ht'
  · obtain ⟨ended, hended, hle⟩ := hover t ht (htid.trans hid)
    have hout := hsame (hend.2 t ht (htid.trans hid))
    exact ⟨ended, hout.completedAt.trans hended, hle.trans (clock_le_of_move hm)⟩
  · exact absurd (hid ▸ hend.1) hnew

/-! ### What retention jobs do -/

/-- A retention job neither inserts nor updates rows. -/
theorem rows_of_retain {s : (discipline http).Observed}
    (h : Runs allow (observed http clock) s) {p batches : ℕ}
    {P : Prog Await Reply (Except JsError Response)}
    (hp : s.config.procs[p]? = some (.running (.retain days batches) P)) :
    (s.locals p).inserted = none ∧ (s.locals p).tx.rows = [] := by
  refine (discipline_sound http).summary_invariant
    (I := fun req (w : Summary) => req = .retain days batches → w.inserted = none ∧ w.tx.rows = [])
    (fun _ _ => ⟨rfl, rfl⟩) ?_ h observed_obeys rfl hp rfl
  rintro req w x r ha - hw rfl
  obtain ⟨hinserted, hrows⟩ := hw rfl
  cases r with
  | error e =>
    obtain hnone | hsame := (w.remains_afterError x).inserted
    · exact ⟨hnone, congrArg OpenTx.rows (w.remains_afterError x).tx⟩
    · exact ⟨hsame.trans hinserted, congrArg OpenTx.rows (w.remains_afterError x).tx⟩
  | ok v =>
    cases x with
    | insertTask dto time token =>
      obtain ⟨-, -, baseUrl, hreq⟩ := ha
      cases hreq
    | deleteTask id => exact ⟨rfl, hrows⟩
    | updateTask id write => cases write <;> exact ⟨hinserted, hrows⟩
    | txCancelTask id time =>
      obtain ⟨-, hreq⟩ := ha
      cases hreq
    | txExpireTasks time limit =>
      obtain ⟨-, _, hreq⟩ := ha
      cases hreq
    | txCommit => exact ⟨hinserted, rfl⟩
    | _ => exact ⟨hinserted, hrows⟩

variable {s s' : (history (proxy http)).Observed}

/-- What a retention job takes away, it has selected. -/
theorem selected_of_lost (h : Runs allow (recorded http clock) s) {p : ℕ} {o : Oracle}
    (hp : retains s.config p = some days) (hm : s.config.move (.call p o) = some c')
    {t : TaskSelect} (ht : t ∈ s.config.store.tasks)
    (hlost : t ∉ c'.store.tasks ∨
      ∃ e ∈ s.config.store.events, e.taskId = t.id ∧ e ∉ c'.store.events) :
    ((discipline http).summary (s.locals p)).Selected t.id := by
  obtain ⟨batches, P, hp⟩ := retains_eq_some.mp hp
  have hobserved := observed_of_recorded h
  obtain ⟨time, hσ⟩ | ⟨q, hσ⟩ | ⟨q, o', req, x, k, v, σ, hcall, hq, -, hx, hσ⟩ :=
    store_cases_of_move hm
  · rw [hσ] at hlost
    obtain hlost | ⟨e, he, -, hlost⟩ := hlost
    · exact absurd ht hlost
    · exact absurd he hlost
  · rw [hσ] at hlost
    obtain hlost | ⟨e, he, -, hlost⟩ := hlost
    · exact absurd ht hlost
    · exact absurd he hlost
  · cases hcall
    rw [hp] at hq
    cases hq
    have hσ : c'.store.tasks = σ.tasks ∧ c'.store.events = σ.events := by
      obtain hσ | hσ := hσ
      · rw [hσ]
        exact ⟨rfl, rfl⟩
      · rw [hσ]
        exact ⟨rfl, rfl⟩
    rw [hσ.1, hσ.2] at hlost
    have htracks : Tracks s.config.store (s.config.store.tx p)
        ((discipline http).summary (s.locals p)) := (tracked_of_runs hobserved).tracks p
    have hawaits : Summary.Awaits (.retain days batches)
        ((discipline http).summary (s.locals p)) x := (obeys_of_runs hobserved).awaits hp
    obtain ⟨hinserted, hrows⟩ :
        ((discipline http).summary (s.locals p)).inserted = none ∧
          ((discipline http).summary (s.locals p)).tx.rows = [] := rows_of_retain hobserved hp
    obtain hlost | ⟨e, he, hid, hlost⟩ := hlost
    · obtain ⟨hts, -⟩ | ⟨dto, now, token, -, -, hts, -⟩ | ⟨id, rfl, -⟩ | ⟨id, w, rfl, -⟩ |
        ⟨rfl, rfl⟩ := exec_tasks_cases hx
      · exact absurd (hts ▸ ht) hlost
      · exact absurd (by rw [hts]; exact List.mem_append_left _ ht) hlost
      · obtain ⟨-, t', hsome, -⟩ := hawaits
        rw [hinserted] at hsome
        cases hsome
      · obtain ⟨_, hreq⟩ | ⟨_, _, hreq⟩ | ⟨_, _, hreq⟩ :=
          Summary.AwaitsWrite.request_cases hawaits.2
        · cases hreq
        · cases hreq
        · cases hreq
      · by_contra hnot
        refine hlost (Backend.mem_commit_tasks.mpr ⟨t, ht, fun hdel => hnot (.inr ?_), ?_⟩)
        · rwa [← htracks.deleted]
        · simp [Tx.newest, htracks.tasks_eq_nil hrows]
    · obtain hev | ⟨rfl, rfl⟩ := exec_events_cases hx
      · exact absurd (hev ▸ he) hlost
      · by_contra hnot
        refine hlost (Backend.mem_commit_events.mpr (.inl ⟨he, fun hdel => hnot (.inr ?_)⟩))
        obtain ⟨-, -, hdeleted, -⟩ := hawaits
        rw [hdeleted, ← hid]
        exact htracks.cleared _ hdel

/-! ### Runs -/

/-- What a running function has selected for deletion, it deletes as a retention job, and the
retention period of the task is over. -/
def Spared (s : (history (proxy http)).Observed) : Prop :=
  ∀ p req P, s.config.procs[p]? = some (.running req P) →
    ∀ i, ((discipline http).summary (s.locals p)).Selected i →
      ∃ days batches, req = .retain days batches ∧
        ∀ t ∈ s.config.store.tasks, t.id = i → PeriodOver s.config.store days t

theorem spared_of_move (h : Runs allow (recorded http clock) s) (hpassed : Passed s)
    (hm : s.move m = some s') (hearly : selectsEarly s.config m = false) (hs : Spared s) :
    Spared s' := by
  intro p req P hp i hi
  have hreaches : Reaches (fun _ _ => True) (initial http clock) s.config :=
    h.reaches.mono fun _ _ _ => trivial
  -- what was selected before
  have hkeep : ∀ P, s.config.procs[p]? = some (.running req P) →
      ((discipline http).summary (s.locals p)).Selected i → ∃ days batches,
        req = .retain days batches ∧
          ∀ t ∈ s'.config.store.tasks, t.id = i → PeriodOver s'.config.store days t := by
    intro P hp hi
    obtain ⟨days, batches, hreq, hover⟩ := hs p req P hp i hi
    exact ⟨days, batches, hreq, periodOver_of_move hreaches (Observed.config_move hm)
      (isOver_of_selected h hi) hover⟩
  obtain ⟨hold, heq, -⟩ | ⟨o, x, k, r, rfl, hold, hx, -, heq⟩ | ⟨-, -, heq⟩ :=
    Observed.running_cases (history_obeys h) hm hp
  · rw [heq] at hi
    exact hkeep P hold hi
  · rw [heq] at hi
    have hnext : (discipline http).summary (s.locals p ++ [⟨x, r⟩]) =
        Summary.next ((discipline http).summary (s.locals p)) x r := List.foldl_append ..
    have hawaits : Summary.Awaits req ((discipline http).summary (s.locals p)) x :=
      (obeys_of_runs (observed_of_recorded h)).awaits hold
    change ((discipline http).summary (s.locals p ++ [⟨x, r⟩])).Selected i at hi
    rw [hnext] at hi
    obtain hi | ⟨cutoff, limit, ids, rfl, hr, hmem⟩ := Summary.selected_of_next hawaits hi
    · exact hkeep _ hold hi
    · -- the SELECT of a retention job
      obtain rfl := eq_of_heq hr
      obtain ⟨days, batches, time, rfl, hread, rfl⟩ := dated_of_runs h hold
      obtain ⟨hstore, hterm⟩ := Backend.selectOldTasks_ok (exec_of_perform_ok hx)
      obtain ⟨t, ht, rfl, hterm, hlt⟩ := hterm i hmem
      have hids := (tracked_of_runs (observed_of_recorded h)).rowIds.nodup
      rw [hstore]
      refine ⟨days, batches, rfl, fun t' ht' hid => ?_⟩
      rw [Table.eq_of_key_eq hids ht' ht hid]
      exact periodOver_of_select (Config.callOf_eq_some.mpr ⟨rfl, _, k, hold⟩) hearly
        (hpassed p time hread) (reaches_rowHistory hreaches) ht hterm hlt
  · rw [heq] at hi
    obtain hi | hi := hi
    · cases hi
    · cases hi

theorem spared_of_runs
    (h : Runs (fun d m => readsClock d m = true ∧ selectsEarly d m = false)
      (recorded http clock) s) : Spared s :=
  h.invariant (I := Spared)
    (fun _ _ _ hruns hallow hm hs => spared_of_move hruns
      (passed_of_runs (hruns.mono fun _ _ ha => ha.1)) hm hallow.2 hs)
    fun p req P hp => by cases hp

/-- **The retention period.** In every run in which the clocks show the time of the servers and no
SELECT of a retention job matches a task that has ended after its cutoff: when a move of a retention
job takes away the row of a task or one of its events, the task has ended, and the days for which it
is to be retained have passed since. -/
theorem retention_period_of_no_early_select (http : HttpClient) (clock : Timestamp)
    (c : (proxy http).Config)
    (h : Reaches (fun d m => readsClock d m = true ∧ selectsEarly d m = false)
      (initial http clock) c)
    (p : ℕ) (o : Oracle) (days : ℤ) (c' : (proxy http).Config) (hp : retains c p = some days)
    (hm : c.move (.call p o) = some c') :
    ∀ t ∈ c.store.tasks, (t ∉ c'.store.tasks ∨
        ∃ e ∈ c.store.events, e.taskId = t.id ∧ e ∉ c'.store.events) →
      PeriodOver c.store days t := by
  intro t ht hlost
  obtain ⟨γ, hγ⟩ := exists_recorded h
  have hselected := selected_of_lost hγ hp hm ht hlost
  obtain ⟨batches, P, hp⟩ := retains_eq_some.mp hp
  obtain ⟨_, _, hreq, hover⟩ := spared_of_runs hγ p _ P hp t.id hselected
  cases hreq
  exact hover t ht rfl

/-! ### Example runs -/

/-- A task of the first instant is cancelled at the instant `ended`, and a retention job that is
started at the instant `started` selects it. The next call of program 2 commits. -/
def retainedAfter (ended started : Timestamp) : List (proxy httpRetryService).Move :=
  [.spawn (.create sampleDto "http://proxy"), .call 0 {}, .call 0 {},
    .call 0 { uuid := fun _ => sampleId }, .call 0 {}, .ambient ended,
    .spawn (.cancel sampleId), .call 1 { time := ended }, .call 1 {}, .call 1 {}, .call 1 {},
    .call 1 {}, .call 1 {}, .call 1 {}, .ambient started, .spawn (.retain 30 1),
    .call 2 { time := started }, .call 2 { picks := [sampleId] }, .call 2 {}, .call 2 {}]

/-- The next call of program 2, a retention job of thirty days, deletes all rows, and a task that
has ended at the instant `ended`. -/
def deletesEnded (ended : Timestamp) (c : (proxy httpRetryService).Config) : Bool :=
  retains c 2 == some 30 && c.store.tasks.any (fun t => t.completedAt == some ended) &&
    (c.move (.call 2 {})).any fun c' => c'.store.tasks.isEmpty

theorem exists_deletion {ended : Timestamp} {c : (proxy httpRetryService).Config}
    (h : deletesEnded ended c = true) :
    retains c 2 = some 30 ∧ ∃ t ∈ c.store.tasks, t.completedAt = some ended ∧
      ∃ c', c.move (.call 2 {}) = some c' ∧ t ∉ c'.store.tasks := by
  simp only [deletesEnded, Bool.and_eq_true, List.any_eq_true, Option.any_eq_true, beq_iff_eq,
    List.isEmpty_iff] at h
  obtain ⟨⟨hretains, t, ht, hended⟩, c', hm, hempty⟩ := h
  exact ⟨hretains, t, ht, hended, c', hm, by simp [hempty]⟩

/-- A task that has ended in time is deleted after its retention period. -/
theorem ended_task_deleted :
    ∃ c, Reaches (fun d m => readsClock d m = true ∧ selectsEarly d m = false)
        (initial httpRetryService 0) c ∧
      ∃ t ∈ c.store.tasks, (∃ c', c.move (.call 2 {}) = some c' ∧ t ∉ c'.store.tasks) ∧
        PeriodOver c.store 30 t := by
  obtain ⟨c, hc, hcheck⟩ : ∃ c,
      Reaches (fun d m => readsClock d m = true ∧ selectsEarly d m = false)
        (initial httpRetryService 0) c ∧ deletesEnded 5 c = true :=
    exists_reaches_of_replay (fun d m => readsClock d m && !selectsEarly d m)
      (retainedAfter 5 2592000006) _ (by simp) (by decide)
  obtain ⟨hretains, t, ht, -, c', hm, hlost⟩ := exists_deletion hcheck
  exact ⟨c, hc, t, ht, ⟨c', hm, hlost⟩,
    retention_period_of_no_early_select httpRetryService 0 c hc 2 {} 30 c' hretains hm t ht
      (.inl hlost)⟩

/-- A task that was created 31 days ago is deleted a millisecond after its end. -/
theorem recently_ended_task_deleted :
    ¬ ∀ (http : HttpClient) (clock : Timestamp) (c : (proxy http).Config),
      Reaches (fun d m => readsClock d m = true) (initial http clock) c →
      ∀ p o days c', retains c p = some days → c.move (.call p o) = some c' →
        ∀ t ∈ c.store.tasks, (t ∉ c'.store.tasks ∨
            ∃ e ∈ c.store.events, e.taskId = t.id ∧ e ∉ c'.store.events) →
          PeriodOver c.store days t := by
  intro h
  obtain ⟨c, hc, hcheck⟩ : ∃ c,
      Reaches (fun d m => readsClock d m = true) (initial httpRetryService 0) c ∧
      (deletesEnded 2678400000 c && c.store.clock == 2678400001) = true :=
    exists_reaches_of_replay readsClock (retainedAfter 2678400000 2678400001) _
      (fun _ _ h => h) (by decide)
  rw [Bool.and_eq_true, beq_iff_eq] at hcheck
  obtain ⟨hdeletes, hclock⟩ := hcheck
  obtain ⟨hretains, t, ht, hended, c', hm, hlost⟩ := exists_deletion hdeletes
  obtain ⟨ended, hended', hle⟩ := h _ _ c hc 2 {} 30 c' hretains hm t ht (.inl hlost)
  obtain rfl := Option.some.inj (hended.symm.trans hended')
  rw [hclock] at hle
  revert hle
  decide

end LongRequestProxy
