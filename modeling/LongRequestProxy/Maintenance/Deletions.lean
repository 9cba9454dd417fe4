import LongRequestProxy.Executor.Claims
import LongRequestProxy.Executor.Enders
import LongRequestProxy.Maintenance.Orphans
import LongRequestProxy.Tasks.Rollbacks

/-!
# Deletions of tasks in use

Neither of the statements that delete rows of `tasks` looks at the status. The retention job deletes
tasks that it has read before as ended, which they stay. The rollback of a creation deletes a row
that may have been claimed in the meantime, when the dispatch job was stored although its enqueueing
has failed.

## Main definitions

* `claimsDuringRollback`: a claim of a task whose row is about to be deleted.

## Main results

* `isOver_of_selected`: the tasks that a retention job deletes have ended.
* `kept_of_processing`: without such claims a claimed task will not be rolled back.
* `processing_kept`: then its row is not deleted before it has ended.
* `processing_rolled_back`: a claimed task whose row is deleted.
-/

namespace LongRequestProxy

open Async Service Discipline Function

variable {http : HttpClient} {clock : Timestamp}
  {allow : (proxy http).Config → (proxy http).Move → Prop}

/-! ### The retention job -/

namespace Summary

/-- The task was selected for deletion. -/
def Selected (w : Summary) (i : String) : Prop := i ∈ w.old ∨ i ∈ w.tx.deleted

theorem selected_of_next {req : Request} {w : Summary} {x : Await} {r : Reply x} {i : String}
    (ha : w.Awaits req x) (h : (w.next x r).Selected i) :
    w.Selected i ∨ ∃ cutoff limit ids, x = .selectOldTasks cutoff limit ∧
      HEq r (.ok ids : Reply (.selectOldTasks cutoff limit)) ∧ i ∈ ids := by
  cases r with
  | error e =>
    obtain h | h := h
    · cases x <;> first | cases h | exact .inl (.inl h)
    · cases h
  | ok v =>
    cases x with
    | selectOldTasks cutoff limit =>
      obtain h | h := h
      · exact .inr ⟨cutoff, limit, v, rfl, .rfl, h⟩
      · exact .inl (.inr h)
    | txDeleteTasks ids =>
      obtain h | h := h
      · exact .inl (.inl h)
      · obtain ⟨rfl, -⟩ := ha
        exact .inl (.inl h)
    | txCommit =>
      obtain h | h := h
      · exact .inl (.inl h)
      · cases h
    | updateTask id write => cases write <;> exact .inl h
    | txCancelTask id now => cases v <;> exact .inl h
    | _ => exact .inl h

end Summary

/-- **Retention deletes ended tasks.** What was selected for deletion has ended. -/
theorem isOver_of_selected {s : (history (proxy http)).Observed}
    (h : Runs allow (recorded http clock) s) {p : ℕ} {i : String}
    (hi : ((discipline http).summary (s.locals p)).Selected i) : IsOver s.config.store i := by
  refine h.invariant (I := fun s : (history (proxy http)).Observed => ∀ p i,
    ((discipline http).summary (s.locals p)).Selected i → IsOver s.config.store i) ?_ ?_ p i hi
  · intro s m s' hruns _ hm hs p i hi
    have hnil : ¬ Summary.Selected {} i := by rintro (h | h) <;> cases h
    obtain ⟨heq, -⟩ | ⟨o, req, x, k, r, rfl, hp, hx, heq⟩ | ⟨-, heq⟩ := Observed.locals_cases hm p
    · rw [heq] at hi
      exact isOver_of_move hruns hm (hs p i hi)
    · rw [heq] at hi
      have hnext : (discipline http).summary (s.locals p ++ [⟨x, r⟩]) =
          Summary.next ((discipline http).summary (s.locals p)) x r := List.foldl_append ..
      rw [hnext] at hi
      have hawaits := (obeys_of_runs (observed_of_recorded hruns)).awaits hp
      obtain hold | ⟨cutoff, limit, ids, rfl, hr, hmem⟩ := Summary.selected_of_next hawaits hi
      · exact isOver_of_move hruns hm (hs p i hold)
      · obtain rfl := eq_of_heq hr
        obtain ⟨-, hterm⟩ := Backend.selectOldTasks_ok (exec_of_perform_ok hx)
        obtain ⟨t, ht, rfl, hterm, -⟩ := hterm i hmem
        have hids := (tracked_of_runs (observed_of_recorded hruns)).rowIds
        refine isOver_of_move hruns hm ⟨hids.issued t ht, fun t' ht' hid => ?_⟩
        rwa [Table.eq_of_key_eq hids.nodup ht' ht hid]
    · rw [heq] at hi
      exact absurd hi hnil
  · rintro p i (h | h) <;> cases h

/-! ### The rollbacks -/

/-- The task that the call of the move updates. -/
def writtenTask (c : (proxy http).Config) (m : (proxy http).Move) : Option String :=
  match c.callOf m with
  | some (_, _, .updateTask id _) => some id
  | _ => none

/-- With the move a worker claims a task whose row a program is about to delete. -/
def claimsDuringRollback (c : (proxy http).Config) (m : (proxy http).Move) : Bool :=
  makesWrite TaskWrite.isDispatchClaim c m && (writtenTask c m).any fun id =>
    (List.range c.procs.length).any fun q => isRollingBack c q id

theorem isRollingBack_of_claimsDuringRollback {c : (proxy http).Config} {m : (proxy http).Move}
    {p : ℕ} {o : Oracle} {i : String} {now : Timestamp} {n : ℤ} {t : TaskSelect}
    (h : claimsDuringRollback c m = false)
    (hcall : c.callOf m = some (p, o, .updateTask i (.dispatchClaim now n)))
    (hf : o.fault ≠ .failed) (ht : t ∈ c.store.tasks) (hid : t.id = i)
    (hmatch : (TaskWrite.dispatchClaim now n).Matches t = true) (q : ℕ) :
    isRollingBack c q i = false := by
  subst hid
  have hmakes : makesWrite TaskWrite.isDispatchClaim c m = true :=
    makesWrite_iff.mpr ⟨p, o, _, t, ht, hcall, rfl, hf, hmatch⟩
  rw [claimsDuringRollback, hmakes, writtenTask, hcall, Bool.true_and, Option.any_some,
    List.any_eq_false] at h
  by_contra hrolling
  have hrolling := Bool.eq_true_of_not_eq_false hrolling
  obtain ⟨req, k, hq⟩ := isRollingBack_iff.mp hrolling
  exact h q (List.mem_range.mpr (List.getElem?_eq_some_iff.mp hq).1) hrolling

/-- The creations of claimed tasks will not be rolled back. -/
theorem kept_of_processing {s : (history (proxy http)).Observed}
    (h : Runs (fun d m => claimsDuringRollback d m = false) (recorded http clock) s) :
    ∀ t ∈ s.config.store.tasks, t.status = .processing → Kept s.config t.id := by
  refine h.invariant (I := fun s : (history (proxy http)).Observed =>
    ∀ t ∈ s.config.store.tasks, t.status = .processing → Kept s.config t.id) ?_
    (fun t ht => by cases ht)
  intro s m s' hruns hallow hm hs t' ht' hstatus
  refine kept_of_move hruns hm ?_
  obtain ⟨γ, hγ⟩ := ledger_of_reaches (hruns.reaches.mono fun _ _ _ => trivial)
  obtain hold | ⟨-, -, dto, now, token, id, createdAt, rfl⟩ |
    ⟨p, o, w, hcall, hf, t, ht, hid, hmatch, happly⟩ | ⟨hterm, -⟩ :=
    row_cases_of_move hγ (Observed.config_move hm) ht'
  · exact hs t' hold hstatus
  · cases hstatus
  · obtain ⟨-, req, k, hp⟩ := Config.callOf_eq_some.mp hcall
    have hawaits : Summary.AwaitsWrite req ((discipline http).summary (s.locals p)) t'.id w :=
      ((obeys_of_runs (observed_of_recorded hruns)).awaits hp).2
    have hmatches := (TaskWrite.matches_iff _ t).mp hmatch
    rw [happly] at hstatus
    cases w with
    | dispatchClaim now n =>
      obtain ⟨rfl, -⟩ := hawaits
      exact ⟨⟨n, job_mem_of_running hruns.reaches hp rfl⟩,
        isRollingBack_of_claimsDuringRollback hallow hcall hf ht hid hmatch⟩
    | progress n => exact hid ▸ hs t ht hstatus
    | _ => cases hstatus
  · rw [hstatus] at hterm
    cases hterm

/-- How a row is lost: its task has ended, or its creation is rolled back. -/
theorem lost_row_cases {s s' : (history (proxy http)).Observed} {m : (proxy http).Move}
    {i : String} (h : Runs allow (recorded http clock) s) (hm : s.move m = some s')
    (hrow : s.config.store.HasRow i) (hlost : ¬ s'.config.store.HasRow i) :
    IsOver s.config.store i ∨ ∃ p, isRollingBack s.config p i = true := by
  obtain ⟨p, o, x, ids, hcall, hdel, hi, hx⟩ :=
    lost_row_of_move (Observed.config_move hm) hrow hlost
  obtain ⟨-, req, k, hp⟩ := Config.callOf_eq_some.mp hcall
  obtain rfl | ⟨rfl, -⟩ := hx
  · exact .inr ⟨p, isRollingBack_iff.mpr ⟨req, k, hp⟩⟩
  · have hids : (s.config.store.tx p).deletedTasks = ids := by
      simp only [deletion, hcall] at hdel
      split at hdel
      · cases hdel
      · cases hdel
        rfl
    have htracks : Tracks s.config.store (s.config.store.tx p)
        ((discipline http).summary (s.locals p)) :=
      (tracked_of_runs (observed_of_recorded h)).tracks p
    rw [← hids, htracks.deleted] at hi
    exact .inl (isOver_of_selected h (.inr hi))

/-- How a row is lost whose creation will not be rolled back. -/
theorem isOver_of_lost_row {s s' : (history (proxy http)).Observed} {m : (proxy http).Move}
    {i : String} (h : Runs allow (recorded http clock) s) (hm : s.move m = some s')
    (hkept : Kept s.config i) (hrow : s.config.store.HasRow i)
    (hlost : ¬ s'.config.store.HasRow i) :
    IsOver s.config.store i := by
  obtain hover | ⟨p, hrolling⟩ := lost_row_cases h hm hrow hlost
  · exact hover
  · rw [hkept.kept p] at hrolling
    cases hrolling

/-- **Claimed tasks keep their rows.** In every run in which no worker claims a task while the
rollback of its creation is about to delete the row: no move deletes the row of a task that is
`PROCESSING`, and whatever happens afterwards, the row is there until the task has ended. -/
theorem processing_kept (http : HttpClient) (clock : Timestamp) (c : (proxy http).Config)
    (h : Reaches (fun d m => claimsDuringRollback d m = false) (initial http clock) c)
    (t : TaskSelect) (ht : t ∈ c.store.tasks) (hstatus : t.status = .processing) :
    (∀ m c', c.move m = some c' → c'.store.HasRow t.id) ∧
    ∀ c', Reaches (fun _ _ => True) c c' → c'.store.HasRow t.id ∨
      ∃ d, Reaches (fun _ _ => True) c d ∧ HasEnded d t.id ∧ Reaches (fun _ _ => True) d c' := by
  obtain ⟨γ, hγ⟩ := exists_recorded h
  have hkept := kept_of_processing hγ t ht hstatus
  have hruns : Runs (fun _ _ => True) (recorded http clock) ⟨c, γ⟩ := hγ.mono fun _ _ _ => trivial
  constructor
  · intro m c' hm
    obtain ⟨γ', hm'⟩ := Observed.exists_move (s := (⟨c, γ⟩ : (history (proxy http)).Observed)) hm
    by_contra hlost
    have hterm := (isOver_of_lost_row hruns hm' hkept ⟨t, ht, rfl⟩ hlost).2 t ht rfl
    rw [hstatus] at hterm
    cases hterm
  · intro c' hc'
    obtain ⟨γ', hrest⟩ :=
      exists_runs (⟨c, γ⟩ : (history (proxy http)).Observed) hc'
    refine (hrest.invariant (I := fun s : (history (proxy http)).Observed => Kept s.config t.id ∧
      (s.config.store.HasRow t.id ∨ ∃ d, Reaches (fun _ _ => True) c d ∧ HasEnded d t.id ∧
        Reaches (fun _ _ => True) d s.config)) ?_ ⟨hkept, .inl ⟨t, ht, rfl⟩⟩).2
    intro s m s' hs _ hm ⟨hk, hrow⟩
    have hrun := Relation.ReflTransGen.trans hruns hs
    refine ⟨kept_of_move hrun hm hk, ?_⟩
    obtain ⟨r, hr, hid⟩ | ⟨d, hd, hended, hrest⟩ := hrow
    · by_cases hlost : s'.config.store.HasRow t.id
      · exact .inl hlost
      · have hover := isOver_of_lost_row hrun hm hk ⟨r, hr, hid⟩ hlost
        exact .inr ⟨s.config, hs.reaches, ⟨r, hr, hid, hover.2 r hr hid⟩,
          .single ⟨m, trivial, Observed.config_move hm⟩⟩
    · exact .inr ⟨d, hd, hended, hrest.tail ⟨m, trivial, Observed.config_move hm⟩⟩

/-! ### Example runs -/

/-- The worker that has claimed the task posts it. -/
theorem claimedTask_kept :
    ∃ c, Reaches (fun d m => claimsDuringRollback d m = false) (initial httpRetryService 0) c ∧
      ∃ t ∈ c.store.tasks, t.status = .processing ∧
        ∃ c', c.move (.call 1 {}) = some c' ∧ c'.store.HasRow t.id := by
  obtain ⟨c, hc, hcheck⟩ : ∃ c,
      Reaches (fun d m => claimsDuringRollback d m = false) (initial httpRetryService 0) c ∧
      (c.store.tasks.any (fun t => t.status == .processing) &&
        (c.move (.call 1 {})).isSome) = true :=
    exists_reaches_of_replay (fun d m => !claimsDuringRollback d m) claimedTask _ (by simp)
      (by decide)
  simp only [Bool.and_eq_true, List.any_eq_true, beq_iff_eq] at hcheck
  obtain ⟨⟨t, ht, hstatus⟩, hmove⟩ := hcheck
  obtain ⟨c', hm⟩ := Option.isSome_iff_exists.mp hmove
  exact ⟨c, hc, t, ht, hstatus, c', hm,
    (processing_kept httpRetryService 0 c hc t ht hstatus).1 _ c' hm⟩

/-- The reply to the enqueueing of a task gets lost, and a worker claims the task. The next call of
program 0 deletes its row. -/
def claimedRollback : List (proxy httpRetryService).Move :=
  [.spawn (.create sampleDto "http://proxy"), .call 0 {}, .call 0 { uuid := fun _ => "secret" },
    .call 0 { uuid := fun _ => sampleId }, .call 0 { fault := .lostReply },
    .spawn (.dispatch sampleId 300), .call 1 { time := 1000 }, .call 1 {}]

/-- The rollback of a creation deletes a claimed task. -/
theorem processing_rolled_back :
    ¬ ∀ (http : HttpClient) (clock : Timestamp) (c : (proxy http).Config),
      Reaches (fun _ _ => True) (initial http clock) c →
      ∀ t ∈ c.store.tasks, t.status = .processing →
        ∀ m c', c.move m = some c' → c'.store.HasRow t.id := by
  intro h
  obtain ⟨c, hc, hcheck⟩ : ∃ c, Reaches (fun _ _ => True) (initial httpRetryService 0) c ∧
      (c.store.tasks.any (fun t => t.status == .processing) &&
        (c.move (.call 0 {})).any fun c' => c'.store.tasks.isEmpty) = true :=
    exists_reaches_of_replay (fun _ _ => true) claimedRollback _ (fun _ _ _ => trivial) (by decide)
  simp only [Bool.and_eq_true, List.any_eq_true, beq_iff_eq, Option.any_eq_true,
    List.isEmpty_iff] at hcheck
  obtain ⟨⟨t, ht, hstatus⟩, c', hm, hempty⟩ := hcheck
  obtain ⟨r, hr, -⟩ := h _ _ c hc t ht hstatus _ c' hm
  rw [hempty] at hr
  cases hr

end LongRequestProxy
