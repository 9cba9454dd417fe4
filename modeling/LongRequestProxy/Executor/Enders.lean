import LongRequestProxy.Conduct.Histories
import LongRequestProxy.Executor.Webhooks

/-!
# The functions that end tasks

A cancellation and a result request notify a server of the end of their task: the executor of a
cancelled task at its cancel URL, the client at its webhook URL. Both do it last, with a job, after
the end of the task is committed and its event was published. A task is ended by one function, so
the job is enqueued by that function or never.

## Main definitions

* `Notification`, `Request.notification`: what a request notifies whom of.
* `Ended`: the function has ended the task, as its history shows.
* `NotificationPoint`: what holds at every point of a function that ends a task.

## Main results

* `request_points`: the bodies of the two requests have such points only.
* `enders_of_runs`: a task is ended by one function, and its jobs are enqueued by that function.
-/

namespace LongRequestProxy

open Async Service Discipline Function

variable {http : HttpClient} {clock : Timestamp}
  {allow : (proxy http).Config → (proxy http).Move → Prop}

/-! ### The points of the functions -/

/-- The task that a request ends, the column with the URL that it then notifies, and the job that
does. -/
structure Notification where
  taskId : String
  url : TaskSelect → Option String
  job : Job

/-- What a request notifies whom of. -/
def Request.notification : Request → Option Notification
  | .cancel id => some ⟨id, (·.cancelUrl), .cancel id⟩
  | .result id _ _ => some ⟨id, (·.webhookUrl), .webhook id⟩
  | _ => none

/-- The history shows that the function of the request has ended the task: it has committed the
cancellation, or its UPDATE has ended the row. -/
def Ended (req : Request) (log : History) (i : String) : Prop :=
  (req = .cancel i ∧ (∃ now t, ⟨.txCancelTask i now, .ok (some t)⟩ ∈ log) ∧
    ⟨.txCommit, .ok ()⟩ ∈ log) ∨
  ∃ write t, ⟨.updateTask i write, .ok (some t)⟩ ∈ log ∧ write.ending ≠ none

theorem Ended.mono {req : Request} {log log' : History} {i : String} (h : Ended req log i)
    (hsub : log ⊆ log') : Ended req log' i := by
  obtain ⟨rfl, ⟨now, t, hmem⟩, hcommit⟩ | ⟨write, t, hmem, hends⟩ := h
  · exact .inl ⟨rfl, ⟨now, t, hsub hmem⟩, hsub hcommit⟩
  · exact .inr ⟨write, t, hsub hmem, hends⟩

/-- The function was told of a row of the task. -/
def Told (log : History) (i : String) (t : TaskSelect) : Prop :=
  (∃ now, ⟨.txCancelTask i now, .ok (some t)⟩ ∈ log) ∨ ⟨.findTask i, .ok (some t)⟩ ∈ log

/-- What holds of a function that has ended its task, at a point of its body. -/
structure NotificationPoint (req : Request) (n : Notification) (log : History)
    (P : Prog Await Reply (Except JsError Response)) : Prop where
  /-- The UPDATE of a cancellation is in its first transaction. -/
  update : ∀ i now k, P = .call (.txCancelTask i now) k → ⟨.txCommit, .ok ()⟩ ∉ log
  /-- A cancellation commits the row that it has updated. -/
  commit : ∀ k now t, P = .call .txCommit k → req = .cancel n.taskId →
    ⟨.txCancelTask n.taskId now, .ok (some t)⟩ ∈ log →
    log.summary.tx.rows = [n.taskId]
  enqueue : ∀ job k, P = .call (.enqueue job) k → Ended req log n.taskId
  /-- It publishes before it enqueues, and an error of the publication is its answer. -/
  publish : ∀ channel event k, P = .call (.publish channel event) k → Ended req log n.taskId ∧
    (∀ job r, ⟨.enqueue job, r⟩ ∉ log) ∧ (∀ e, k (.error e) = .ret (.error e)) ∧
    ∃ t, Told log n.taskId t ∧ (truthy (n.url t) = true →
      ∃ k', k (.ok ()) = .call (.enqueue n.job) k' ∧ k' (.ok ()) = .ret (.ok .done))

namespace NotificationPoint

variable {req : Request} {n : Notification} {log : History}

theorem ret (a : Except JsError Response) : NotificationPoint req n log (.ret a) where
  update _ _ _ h := by cases h
  commit _ _ _ h := by cases h
  enqueue _ _ h := by cases h
  publish _ _ _ h := by cases h

/-- The call is one of those that matter here. -/
def isStep : Await → Bool
  | .txCancelTask .. | .txCommit | .enqueue _ | .publish .. => true
  | _ => false

theorem call {x : Await} {k : Reply x → Prog Await Reply (Except JsError Response)}
    (hx : isStep x = false) : NotificationPoint req n log (.call x k) where
  update _ _ _ h := by
    cases h
    cases hx
  commit _ _ _ h := by
    cases h
    cases hx
  enqueue _ _ h := by
    cases h
    cases hx
  publish _ _ _ h := by
    cases h
    cases hx

/-- The commit of a transaction that has updated the row of the task. -/
theorem txCommit {k : Reply .txCommit → Prog Await Reply (Except JsError Response)}
    (h : req = .cancel n.taskId → log.summary.tx.rows = [n.taskId]) :
    NotificationPoint req n log (.call .txCommit k) where
  update _ _ _ h := by cases h
  commit _ _ _ _ hreq _ := h hreq
  enqueue _ _ h := by cases h
  publish _ _ _ h := by cases h

theorem enqueueJob {job : Job}
    {k : Reply (.enqueue job) → Prog Await Reply (Except JsError Response)}
    (h : Ended req log n.taskId) : NotificationPoint req n log (.call (.enqueue job) k) where
  update _ _ _ h := by cases h
  commit _ _ _ h := by cases h
  enqueue _ _ _ := h
  publish _ _ _ h := by cases h

theorem publishEvent {channel : String} {event : TaskEventSelect}
    {k : Reply (.publish channel event) → Prog Await Reply (Except JsError Response)}
    (hended : Ended req log n.taskId) (hnone : ∀ job r, ⟨.enqueue job, r⟩ ∉ log)
    (herror : ∀ e, k (.error e) = .ret (.error e))
    (htold : ∃ t, Told log n.taskId t ∧ (truthy (n.url t) = true →
      ∃ k', k (.ok ()) = .call (.enqueue n.job) k' ∧ k' (.ok ()) = .ret (.ok .done))) :
    NotificationPoint req n log (.call (.publish channel event) k) where
  update _ _ _ h := by cases h
  commit _ _ _ h := by cases h
  enqueue _ _ h := by cases h
  publish _ _ _ h := by
    cases h
    exact ⟨hended, hnone, herror, htold⟩

end NotificationPoint

/-- The last step of the two functions. -/
def enqueueIf (b : Bool) (job : Job) : Async Response :=
  (if b then call (.enqueue job) else pure ()) >>= fun _ => pure .done

theorem exists_enqueue {b : Bool} (hb : b = true) (job : Job) :
    ∃ k, (enqueueIf b job).run = .call (.enqueue job) k ∧ k (.ok ()) = .ret (.ok .done) := by
  subst hb
  exact ⟨_, rfl, rfl⟩

theorem enqueueIf_points {req : Request} {n : Notification} {log : History}
    (hended : ∀ log', log ⊆ log' → Ended req log' n.taskId) (b : Bool) (job : Job) :
    (enqueueIf b job).run.Always Await.Possible (NotificationPoint req n) log := by
  cases b with
  | false => exact .ret _
  | true =>
    refine ⟨.enqueueJob (hended log (List.Subset.refl _)), fun r _ => ?_⟩
    cases r <;> exact .ret _

/-- The points of a cancellation. -/
theorem cancel_points (id : String) :
    ((Request.cancel id).run http).run.Always Await.Possible
      (NotificationPoint (.cancel id) ⟨id, (·.cancelUrl), .cancel id⟩) [] := by
  refine ⟨.call rfl, fun r hr => ?_⟩
  obtain e | now := r
  · exact .ret _
  refine ⟨⟨fun _ _ _ _ => by simp, fun _ _ _ h => (by cases h), fun _ _ h => (by cases h),
    fun _ _ _ h => (by cases h)⟩, fun r hr => ?_⟩
  obtain e | row := r
  · exact .ret _
  cases row with
  | none =>
    refine ⟨⟨fun _ _ _ h => (by cases h), fun _ _ _ _ _ hmem => by simp at hmem,
      fun _ _ h => (by cases h), fun _ _ _ h => (by cases h)⟩, fun r hr => ?_⟩
    obtain e | _ := r
    · exact .ret _
    refine ⟨.call rfl, fun r hr => ?_⟩
    obtain e | row := r
    · exact .ret _
    cases row <;> exact .ret _
  | some t =>
    refine ⟨.call rfl, fun r hr => ?_⟩
    obtain e | _ := r
    · exact .ret _
    refine ⟨.call rfl, fun r hr => ?_⟩
    obtain e | seq := r
    · exact .ret _
    refine ⟨.call rfl, fun r hr => ?_⟩
    obtain e | event := r
    · exact .ret _
    refine ⟨.txCommit fun _ => rfl, fun r hr => ?_⟩
    obtain e | _ := r
    · exact .ret _
    have hended : ∀ log : History,
        [⟨.txCancelTask id now, .ok (some t)⟩, ⟨.txCommit, .ok ()⟩] ⊆ log →
        Ended (.cancel id) log id := fun log hsub =>
      .inl ⟨rfl, ⟨now, t, hsub List.mem_cons_self⟩,
        hsub (List.mem_cons_of_mem _ List.mem_cons_self)⟩
    refine ⟨.publishEvent (hended _ (by simp)) (by simp) (fun _ => rfl)
      ⟨t, .inl ⟨now, by simp⟩, fun hurl => exists_enqueue hurl (.cancel id)⟩, fun r hr => ?_⟩
    obtain e | _ := r
    · exact .ret _
    exact enqueueIf_points (fun log' hsub => hended log' (List.Subset.trans (by simp) hsub))
      (truthy t.cancelUrl) (.cancel id)

/-- The points of a result request. -/
theorem result_points (id : String) (authorization : Option String) (dto : SubmitResultDto) :
    ((Request.result id authorization dto).run http).run.Always Await.Possible
      (NotificationPoint (.result id authorization dto) ⟨id, (·.webhookUrl), .webhook id⟩) [] := by
  obtain ⟨e, he⟩ | ⟨token, -, hbody⟩ := result_body http id authorization dto
  · rw [he]
    exact .ret _
  rw [hbody]
  refine ⟨.call rfl, fun r hr => ?_⟩
  obtain e | row := r
  · exact .ret _
  change (afterRead id token dto row).run.Always _ _ _
  unfold afterRead
  obtain ⟨e, he⟩ | ⟨t, -, rfl, -, -, -, -, hpass⟩ := CallbackAuthGuard.judge_cases id token row
  · rw [he]
    exact .ret _
  rw [hpass]
  obtain rfl : t.id = id := hr t rfl
  refine ⟨.call rfl, fun r hr => ?_⟩
  obtain e | now := r
  · exact .ret _
  refine ⟨.call rfl, fun r hr => ?_⟩
  obtain e | row := r
  · exact .ret _
  cases row with
  | none => exact .ret _
  | some u =>
    refine ⟨.call rfl, fun r hr => ?_⟩
    obtain e | _ := r
    · exact .ret _
    refine ⟨.call rfl, fun r hr => ?_⟩
    obtain e | seq := r
    · exact .ret _
    refine ⟨.call rfl, fun r hr => ?_⟩
    obtain e | event := r
    · exact .ret _
    refine ⟨.txCommit fun h => (by cases h), fun r hr => ?_⟩
    obtain e | _ := r
    · exact .ret _
    have hended : ∀ log : History, [⟨.updateTask t.id (dto.write now), .ok (some u)⟩] ⊆ log →
        Ended (.result t.id authorization dto) log t.id := fun log hsub =>
      .inr ⟨_, u, hsub List.mem_cons_self, Summary.ending_write_ne_none dto now⟩
    refine ⟨.publishEvent (hended _ (by simp)) (by simp) (fun _ => rfl)
      ⟨t, .inr (by simp), fun hurl => exists_enqueue hurl (.webhook t.id)⟩, fun r hr => ?_⟩
    obtain e | _ := r
    · exact .ret _
    exact enqueueIf_points (fun log' hsub => hended log' (List.Subset.trans (by simp) hsub))
      (truthy t.webhookUrl) (.webhook t.id)

theorem request_points {req : Request} {n : Notification} (hn : req.notification = some n) :
    (req.run http).run.Always Await.Possible (NotificationPoint req n) [] := by
  cases req with
  | cancel id =>
    cases hn
    exact cancel_points id
  | result id authorization dto =>
    cases hn
    exact result_points id authorization dto
  | _ => cases hn

/-! ### One function ends a task -/

variable {s s' : (history (proxy http)).Observed} {m : (proxy http).Move} {i : String} {p : ℕ}

theorem notificationPoint_of_runs (h : Runs allow (recorded http clock) s) {req : Request}
    {n : Notification} (hn : req.notification = some n)
    {P : Prog Await Reply (Except JsError Response)}
    (hp : s.config.procs[p]? = some (.running req P)) :
    NotificationPoint req n (s.locals p) P :=
  point_of_runs (fun _ _ _ _ _ _ hx => possible_of_perform hx) (request_points hn) h hp

/-- Program `p` runs a function that has ended the task. -/
def Ender (s : (history (proxy http)).Observed) (p : ℕ) (i : String) : Prop :=
  ∃ req P, s.config.procs[p]? = some (.running req P) ∧ Ended req (s.locals p) i

/-- The task was issued, and every row of it has ended. -/
def IsOver (σ : Backend) (i : String) : Prop :=
  i ∈ σ.issued ∧ ∀ t ∈ σ.tasks, t.id = i → t.status.isTerminal = true

/-- The commit of a transaction that has updated the row of a task ends the task. -/
theorem isOver_of_commit (h : Runs allow (recorded http clock) s)
    (hrows : (History.summary (s.locals p)).tx.rows = [i]) :
    ¬ IsOver s.config.store i ∧ IsOver (s.config.store.commit p) i := by
  obtain ⟨δ, hδ⟩ := ledger_of_reaches (h.reaches.mono fun _ _ _ => trivial)
  have htracks := (tracked_of_runs (observed_of_recorded h)).tracks p
  have hmap : (s.config.store.tx p).tasks.map (·.id) = [i] := htracks.rows.trans hrows
  have hi : i ∈ (s.config.store.tx p).tasks.map (·.id) := hmap ▸ List.mem_singleton_self i
  obtain ⟨r, hr, hrid, hopen⟩ := hδ.exists_open_of_written hi
  refine ⟨fun hover => ?_, hrid ▸ hδ.issued r hr, fun t ht htid => ?_⟩
  · rw [hover.2 r hr hrid] at hopen
    cases hopen
  · exact hδ.isTerminal_of_commit ht (htid ▸ hi)

/-- What a move adds to the functions that have ended a task: one that ends it with the move. -/
theorem ender_of_move (h : Runs allow (recorded http clock) s) (hm : s.move m = some s')
    (hp : Ender s' p i) :
    (Ender s p i ∧ s.locals p ⊆ s'.locals p) ∨
      (∃ o, m = .call p o) ∧ ¬ IsOver s.config.store i ∧ IsOver s'.config.store i := by
  obtain ⟨req, P, hP, hended⟩ := hp
  obtain ⟨hold, heq, -⟩ | ⟨o, x, k, r, rfl, hold, hx, -, heq⟩ | ⟨-, -, heq⟩ :=
    Observed.running_cases (history_obeys h) hm hP
  · rw [heq] at hended ⊢
    exact .inl ⟨⟨req, P, hold, hended⟩, List.Subset.refl _⟩
  · rw [heq] at hended ⊢
    have hsub : s.locals p ⊆ s.locals p ++ [⟨x, r⟩] := List.subset_append_left _ _
    obtain ⟨rfl, ⟨now, t, hcancel⟩, hcommit⟩ | ⟨write, t, hmem, hends⟩ := hended
    · have hpoint := notificationPoint_of_runs h rfl hold
      rcases List.mem_append.mp hcancel with hupdate | hupdate
      · rcases List.mem_append.mp hcommit with hcommit | hcommit
        · exact .inl ⟨⟨_, _, hold, .inl ⟨rfl, ⟨now, t, hupdate⟩, hcommit⟩⟩, hsub⟩
        · cases List.mem_singleton.mp hcommit
          have hσ : s.config.store.commit p = s'.config.store := by
            simpa [exec] using exec_of_perform_ok hx
          rw [← hσ]
          exact .inr ⟨⟨o, rfl⟩, isOver_of_commit h (hpoint.commit k now t rfl rfl hupdate)⟩
      · cases List.mem_singleton.mp hupdate
        have hfirst := hpoint.update _ _ _ rfl
        simp [hfirst] at hcommit
    · rcases List.mem_append.mp hmem with hmem | hmem
      · exact .inl ⟨⟨req, _, hold, .inr ⟨write, t, hmem, hends⟩⟩, hsub⟩
      · cases List.mem_singleton.mp hmem
        obtain ⟨⟨u, hu, hid, hopen⟩, hissued, hterm⟩ :=
          ended_of_write (observed_of_recorded h) hends (exec_of_perform_ok hx)
        refine .inr ⟨⟨o, rfl⟩, fun hover => ?_, ?_, hterm⟩
        · rw [hover.2 u hu hid] at hopen
          cases hopen
        · exact issued_subset_of_exec (exec_of_perform_ok hx) hissued
  · rw [heq] at hended
    obtain ⟨-, ⟨_, _, hmem⟩, -⟩ | ⟨_, _, hmem, -⟩ := hended <;> cases hmem

/-- A task that is over stays over. -/
theorem isOver_of_move (h : Runs allow (recorded http clock) s) (hm : s.move m = some s')
    (hover : IsOver s.config.store i) : IsOver s'.config.store i :=
  ended_of_move (observed_of_recorded h) (move_summarised (discipline http) hm) hover.1 hover.2

/-- The function that ends a task enqueues the jobs that notify of it. -/
theorem notification_of_enqueue (h : Runs allow (recorded http clock) s) {req : Request} {job : Job}
    {k : Reply (.enqueue job) → Prog Await Reply (Except JsError Response)}
    (hp : s.config.procs[p]? = some (.running req (.call (.enqueue job) k)))
    (hjob : job = .cancel i ∨ job = .webhook i) : Ender s p i := by
  have hawaits : Summary.AwaitsEnqueue req _ job :=
    ((obeys_of_runs (observed_of_recorded h)).awaits hp).2
  obtain rfl | rfl := hjob
  · obtain ⟨rfl, -⟩ := hawaits
    exact ⟨_, _, hp, (notificationPoint_of_runs h rfl hp).enqueue _ _ rfl⟩
  · obtain ⟨-, authorization, dto, t, now, u, rfl, -⟩ := hawaits
    exact ⟨_, _, hp, (notificationPoint_of_runs h rfl hp).enqueue _ _ rfl⟩

/-- The function that ends a task owns it, with the jobs that notify of the end. -/
abbrev Enders (s : (history (proxy http)).Observed) : Prop :=
  Owners Ender IsOver (fun job i => job = .cancel i ∨ job = .webhook i) s

theorem enders_of_runs (h : Runs allow (recorded http clock) s) : Enders s := by
  refine h.invariant (fun t m t' hrun _ hm ht => ?_) ⟨?_, ?_, ?_⟩
  · exact owners_of_move hm (fun i p => ender_of_move hrun hm) (fun i => isOver_of_move hrun hm)
      (fun i p req job k hjob hp => notification_of_enqueue hrun hp hjob) ht
  · rintro i p q ⟨_, _, hp, -⟩
    cases hp
  · rintro i p ⟨_, _, hp, -⟩
    cases hp
  · intro i job hjob hmem
    cases hmem

end LongRequestProxy
