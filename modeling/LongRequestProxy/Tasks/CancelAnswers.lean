import LongRequestProxy.Executor.Enders
import LongRequestProxy.Tasks.Deadline

/-!
# What the answers to cancel requests say

A cancel request updates the row and inserts the event in one transaction; when the UPDATE matches
no row, a second read, after the transaction, decides between 404 and 409. Other functions run in
between. Every answer is nevertheless backed by a step of the run: an accepted cancel has itself
ended its task, and a refused one has not, but has seen what it reports.

## Main definitions

* `Cancels`: the step that commits a cancellation with its event.
* `ReadsTask`, `FindsNothing`: the steps with which a request sees that it has to refuse.
* `CancelPoint`: what holds at every point of a cancel request.

## Main results

* `cancel_answered`: the steps behind the three answers; one cancel at most is accepted.
-/

namespace LongRequestProxy

open Async Service Discipline Function

variable {http : HttpClient} {clock : Timestamp}

/-! ### The steps of a cancel request -/

/-- With this step program `p` commits the cancellation of the task, together with its event. -/
structure Cancels (p : ℕ) (id : String) (x : (proxy http).Transition) : Prop where
  call : ∃ o, x.before.callOf x.move = some (p, o, .txCommit)
  before : ∃ t ∈ x.before.store.tasks, t.id = id ∧ t.status.isTerminal = false
  after : ∃ t ∈ x.after.store.tasks, t.id = id ∧ t.status = .cancelled
  event : ∃ e ∈ x.after.store.events, e.taskId = id ∧ e.eventType = .cancelled

/-- With this step program `p` reads the task and finds `row`. -/
def ReadsTask (p : ℕ) (id : String) (row : Option TaskSelect) (x : (proxy http).Transition) :
    Prop :=
  Performs (S := proxy http) p ⟨.findTask id, .ok row⟩ x

/-- With this step program `p` tries to cancel the task and finds none that has not ended. -/
def FindsNothing (p : ℕ) (id : String) (x : (proxy http).Transition) : Prop :=
  ∃ now, Performs (S := proxy http) p ⟨.txCancelTask id now, .ok none⟩ x

theorem ReadsTask.findTask {p : ℕ} {id : String} {row : Option TaskSelect}
    {x : (proxy http).Transition} (h : ReadsTask p id row x) :
    x.before.store.findTask id = row := by
  obtain ⟨o, -, hx⟩ := h
  have hx := exec_of_perform_ok hx
  simp only [exec, Option.some.injEq, Except.ok.injEq, Prod.mk.injEq] at hx
  exact hx.1

/-- An UPDATE that matches no row: every row of the task has ended. -/
theorem FindsNothing.ended {p : ℕ} {id : String} {x : (proxy http).Transition}
    (h : FindsNothing p id x) :
    ∀ t ∈ x.before.store.tasks, t.id = id → t.status.isTerminal = true := by
  obtain ⟨now, o, -, hx⟩ := h
  have hx := exec_of_perform_ok hx
  intro t ht hid
  by_contra hopen
  simp only [exec, Backend.txCancelTask] at hx
  split at hx
  · next hnone =>
    have hmiss := List.find?_eq_none.mp hnone t ht
    refine hmiss ?_
    simpa [cancelTask, hid] using TaskStatus.isTerminal_eq_false_iff.mp (by simpa using hopen)
  · split at hx
    · cases hx
    · split at hx <;> cases hx

/-! ### The points of a cancel request -/

/-- The UPDATE of the cancellation has matched the row of the task. -/
def HasUpdated (id : String) (log : History) : Prop :=
  ∃ now t, ⟨.txCancelTask id now, .ok (some t)⟩ ∈ log

/-- The answer is backed by the history. -/
def BackedAnswer (id : String) (log : History) : Except JsError Response → Prop
  | .ok _ => HasUpdated id log ∧ ⟨.txCommit, .ok ()⟩ ∈ log
  | .error (.conflict message) => ¬ HasUpdated id log ∧ ∃ t, ⟨.findTask id, .ok (some t)⟩ ∈ log ∧
    message = "Task " ++ id ++ " cannot be cancelled in its current state (" ++ t.status.text ++
      ")."
  | .error (.notFound message) => ¬ HasUpdated id log ∧ ⟨.findTask id, .ok none⟩ ∈ log ∧
    message = "Task " ++ id ++ " not found"
  | _ => True

/-- What holds at a point of a cancel request. -/
structure CancelPoint (id : String) (log : History)
    (P : Prog Await Reply (Except JsError Response)) : Prop where
  update : ∀ i now k, P = .call (.txCancelTask i now) k → ⟨.txCommit, .ok ()⟩ ∉ log
  /-- It commits the cancellation with its event, or nothing. -/
  commit : ∀ k, P = .call .txCommit k →
    (HasUpdated id log ∧ log.summary.tx.rows = [id] ∧ log.summary.tx.deleted = [] ∧
      ∃ e ∈ log.summary.tx.events, e.taskId = id ∧ e.eventType = .cancelled) ∨
    (¬ HasUpdated id log ∧ log.summary.tx.rows = [])
  read : ∀ i k, P = .call (.findTask i) k → ∃ now, ⟨.txCancelTask id now, .ok none⟩ ∈ log
  returns : ∀ a, P = .ret a → BackedAnswer id log a

namespace CancelPoint

variable {id : String} {log : History}

/-- The call is one of those that matter here. -/
def isStep : Await → Bool
  | .txCancelTask .. | .txCommit | .findTask _ => true
  | _ => false

theorem call {x : Await} {k : Reply x → Prog Await Reply (Except JsError Response)}
    (hx : isStep x = false) : CancelPoint id log (.call x k) := by
  refine ⟨fun _ _ _ h => ?_, fun _ h => ?_, fun _ _ h => ?_, fun _ h => (by cases h)⟩ <;>
    (cases h; cases hx)

theorem ret {a : Except JsError Response} (h : BackedAnswer id log a) :
    CancelPoint id log (.ret a) :=
  ⟨fun _ _ _ h => (by cases h), fun _ h => (by cases h), fun _ _ h => (by cases h),
    fun _ hret => Prog.ret.inj hret ▸ h⟩

/-- An error of a server promises nothing. -/
theorem error {e : JsError} (h : e.IsServerError) : CancelPoint id log (.ret (.error e)) := by
  refine ret ?_
  cases e <;> trivial

theorem txCancelTask {i : String} {now : Timestamp}
    {k : Reply (.txCancelTask i now) → Prog Await Reply (Except JsError Response)}
    (h : ⟨.txCommit, .ok ()⟩ ∉ log) : CancelPoint id log (.call (.txCancelTask i now) k) :=
  ⟨fun _ _ _ _ => h, fun _ h => (by cases h), fun _ _ h => (by cases h), fun _ h => (by cases h)⟩

theorem txCommit {k : Reply .txCommit → Prog Await Reply (Except JsError Response)}
    (h : (HasUpdated id log ∧ log.summary.tx.rows = [id] ∧ log.summary.tx.deleted = [] ∧
        ∃ e ∈ log.summary.tx.events, e.taskId = id ∧ e.eventType = .cancelled) ∨
      (¬ HasUpdated id log ∧ log.summary.tx.rows = [])) :
    CancelPoint id log (.call .txCommit k) :=
  ⟨fun _ _ _ h => (by cases h), fun _ _ => h, fun _ _ h => (by cases h), fun _ h => (by cases h)⟩

theorem findTask {i : String}
    {k : Reply (.findTask i) → Prog Await Reply (Except JsError Response)}
    (h : ∃ now, ⟨.txCancelTask id now, .ok none⟩ ∈ log) :
    CancelPoint id log (.call (.findTask i) k) :=
  ⟨fun _ _ _ h => (by cases h), fun _ h => (by cases h), fun _ _ _ => h, fun _ h => (by cases h)⟩

end CancelPoint

/-- The last step of an accepted cancel. -/
theorem enqueueIf_cancelPoints {id : String} {log : History} (hupdated : HasUpdated id log)
    (hcommit : ⟨.txCommit, .ok ()⟩ ∈ log) (b : Bool) (job : Job) :
    (enqueueIf b job).run.Always Await.Possible (CancelPoint id) log := by
  cases b with
  | false => exact .ret ⟨hupdated, hcommit⟩
  | true =>
    refine ⟨.call rfl, fun r hr => ?_⟩
    cases r with
    | error e => exact .error hr
    | ok v =>
      obtain ⟨now, t, hmem⟩ := hupdated
      exact .ret ⟨⟨now, t, List.mem_append_left _ hmem⟩, List.mem_append_left _ hcommit⟩

/-- A cancel request has such points only. -/
theorem cancel_cancelPoints (http : HttpClient) (id : String) :
    ((Request.cancel id).run http).run.Always Await.Possible (CancelPoint id) [] := by
  refine ⟨.call rfl, fun r hr => ?_⟩
  obtain e | now := r
  · exact .error hr
  refine ⟨.txCancelTask (by simp), fun r hr => ?_⟩
  obtain e | row := r
  · exact .error hr
  cases row with
  | none =>
    refine ⟨.txCommit (.inr ⟨by simp [HasUpdated], rfl⟩), fun r hr => ?_⟩
    obtain e | _ := r
    · exact .error hr
    refine ⟨.findTask ⟨now, by simp⟩, fun r hr => ?_⟩
    obtain e | row := r
    · exact .error hr
    cases row with
    | none => exact .ret ⟨by simp [HasUpdated], by simp, rfl⟩
    | some t => exact .ret ⟨by simp [HasUpdated], t, by simp, rfl⟩
  | some t =>
    refine ⟨.call rfl, fun r hr => ?_⟩
    obtain e | _ := r
    · exact .error hr
    refine ⟨.call rfl, fun r hr => ?_⟩
    obtain e | seq := r
    · exact .error hr
    refine ⟨.call rfl, fun r hr => ?_⟩
    obtain e | event := r
    · exact .error hr
    obtain ⟨eventId, createdAt, rfl⟩ := hr
    refine ⟨.txCommit (.inl ⟨⟨now, t, by simp⟩, rfl, rfl, _, List.mem_singleton_self _, rfl, rfl⟩),
      fun r hr => ?_⟩
    obtain e | _ := r
    · exact .error hr
    refine ⟨.call rfl, fun r hr => ?_⟩
    obtain e | _ := r
    · exact .error hr
    exact enqueueIf_cancelPoints ⟨now, t, by simp⟩ (by simp) (truthy t.cancelUrl) (.cancel id)

/-! ### The steps behind the answers -/

section

variable {l l₁ l₂ : List (proxy http).Transition} {c : (proxy http).Config}
  {x : (proxy http).Transition} {γ : ℕ → History} {p : ℕ} {id : String}

theorem cancelPoint_of_runs (h : Runs (fun _ _ => True) (recorded http clock) ⟨c, γ⟩)
    {P : Prog Await Reply (Except JsError Response)}
    (hp : c.procs[p]? = some (.running (.cancel id) P)) : CancelPoint id (γ p) P :=
  point_of_runs (S := proxy http) (fun _ _ _ _ _ _ hx => possible_of_perform hx)
    (cancel_cancelPoints http id) h hp

/-- The program of a step serves its request to the end. -/
theorem request_of_step (h : Trace (initial http clock) l c) (hx : x ∈ l) {o : Oracle} {y : Await}
    (hcall : x.before.callOf x.move = some (p, o, y)) {req : Request}
    {P : Prog Await Reply (Except JsError Response)}
    (hp : c.procs[p]? = some (.running req P)) :
    ∃ k, x.before.procs[p]? = some (.running req (.call y k)) := by
  obtain ⟨-, req', k, hq⟩ := Config.callOf_eq_some.mp hcall
  obtain ⟨-, hm, hafter⟩ := h.reaches_of_mem hx
  obtain ⟨pr, hpr, hreq⟩ :=
    Config.exists_proc_of_reaches (hafter.head ⟨_, trivial, hm⟩) hq
  rw [hp] at hpr
  cases hpr
  obtain rfl : req = req' := hreq
  exact ⟨k, hq⟩

/-- The commit of a function that has updated the row of the task and inserted its event. -/
theorem cancels_of_commit (h : Runs (fun _ _ => True) (recorded http clock) ⟨x.before, γ⟩)
    (hm : x.before.move x.move = some x.after) {o : Oracle}
    (hcall : x.before.callOf x.move = some (p, o, .txCommit))
    (hσ : x.after.store = x.before.store.commit p) (hrows : (γ p).summary.tx.rows = [id])
    (hdeleted : (γ p).summary.tx.deleted = []) {e : TaskEventSelect}
    (he : e ∈ (γ p).summary.tx.events) (hid : e.taskId = id) (htype : e.eventType = .cancelled) :
    Cancels p id x := by
  have htracks := (tracked_of_runs (observed_of_recorded h)).tracks p
  have hreach : Reaches (fun _ _ => True) (initial http clock) x.before := h.reaches
  obtain ⟨δ, hδ⟩ := ledger_of_reaches hreach
  obtain ⟨δ', hδ'⟩ := ledger_of_reaches (hreach.tail ⟨_, trivial, hm⟩)
  have hwritten : id ∈ (x.before.store.tx p).tasks.map (·.id) := by
    rw [show (x.before.store.tx p).tasks.map (·.id) = [id] from htracks.rows.trans hrows]
    exact List.mem_singleton_self id
  obtain ⟨r, hr, hrid, hopen⟩ := hδ.exists_open_of_written hwritten
  have hevent : e ∈ x.after.store.events := by
    rw [hσ]
    exact Backend.mem_commit_events.mpr (.inr (htracks.events ▸ he))
  have hafter : (x.before.store.tx p).newest r ∈ x.after.store.tasks := by
    rw [hσ]
    refine Backend.mem_commit_tasks.mpr ⟨r, hr, ?_, rfl⟩
    rw [show (x.before.store.tx p).deletedTasks = [] from htracks.deleted.trans hdeleted]
    exact List.not_mem_nil
  have hnewest : ((x.before.store.tx p).newest r).id = id := (Tx.newest_id _ r).trans hrid
  exact ⟨⟨o, hcall⟩, ⟨r, hr, hrid, hopen⟩, ⟨_, hafter, hnewest, hδ'.events_match e hevent .cancelled
    (by rw [TaskEventSelect.ends, htype]; rfl) _ hafter (hnewest.trans hid.symm)⟩,
    ⟨e, hevent, hid, htype⟩⟩

/-- An accepted cancel has a step that cancels its task. -/
theorem exists_cancels (h : Trace (initial http clock) l c) {response : Response}
    (hret : c.Returned p (.cancel id) (.ok response)) : ∃ x ∈ l, Cancels p id x := by
  obtain ⟨γ, hγ, hlists⟩ := exists_history h
  obtain ⟨⟨now, t, hupdate⟩, hcommit⟩ := (cancelPoint_of_runs hγ hret).returns _ rfl
  obtain ⟨x, hx, hperform⟩ := (hlists.mem_iff p _ _ hret _).mp hcommit
  obtain ⟨l₁, l₂, rfl⟩ := List.append_of_mem hx
  obtain ⟨hbefore, hm, hafter⟩ := h.split
  obtain ⟨o, hcall, hσ⟩ := hperform
  obtain ⟨k, hp⟩ := request_of_step h hx hcall hret
  obtain ⟨γ₁, hγ₁, hlists₁⟩ := exists_history hbefore
  have hpoint := cancelPoint_of_runs hγ₁ hp
  obtain ⟨-, hrows, hdeleted, e, he, hid, htype⟩ | ⟨hnot, -⟩ := hpoint.commit k rfl
  · have hσ : x.before.store.commit p = x.after.store := by
      simpa [exec] using exec_of_perform_ok hσ
    exact ⟨x, hx, cancels_of_commit hγ₁ hm hcall hσ.symm hrows hdeleted he hid htype⟩
  · -- the UPDATE comes before the commit
    obtain ⟨y, hy, hperform'⟩ := (hlists.mem_iff p _ _ hret _).mp hupdate
    rcases List.mem_append.mp hy with hy | hy
    · exact absurd ⟨now, t, (hlists₁.mem_iff p _ _ hp _).mpr ⟨y, hy, hperform'⟩⟩ hnot
    rcases List.mem_cons.mp hy with rfl | hy
    · obtain ⟨o', hcall', -⟩ := hperform'
      rw [hcall] at hcall'
      cases hcall'
    · obtain ⟨m₁, m₂, rfl⟩ := List.append_of_mem hy
      have hsplit : l₁ ++ x :: (m₁ ++ y :: m₂) = (l₁ ++ x :: m₁) ++ y :: m₂ := by simp
      rw [hsplit] at h
      obtain ⟨o', hcall', -⟩ := hperform'
      obtain ⟨k', hp'⟩ := request_of_step h (by simp) hcall' hret
      obtain ⟨γ₂, hγ₂, hlists₂⟩ := exists_history h.split.1
      refine absurd ((hlists₂.mem_iff p _ _ hp' ⟨.txCommit, .ok ()⟩).mpr ⟨x, by simp, o, hcall, hσ⟩)
        ((cancelPoint_of_runs hγ₂ hp').update _ _ _ rfl)

/-- A cancel whose UPDATE has matched nothing has not cancelled the task. -/
theorem not_cancels (h : Trace (initial http clock) l c) (hlists : Lists l ⟨c, γ⟩)
    {P : Prog Await Reply (Except JsError Response)}
    (hp : c.procs[p]? = some (.running (.cancel id) P)) (hnot : ¬ HasUpdated id (γ p))
    (hx : x ∈ l) : ¬ Cancels p id x := by
  intro hcancels
  obtain ⟨o, hcall⟩ := hcancels.call
  obtain ⟨k, hp'⟩ := request_of_step h hx hcall hp
  obtain ⟨l₁, l₂, rfl⟩ := List.append_of_mem hx
  obtain ⟨hbefore, hm, -⟩ := h.split
  obtain ⟨γ₁, hγ₁, hlists₁⟩ := exists_history hbefore
  obtain ⟨⟨now, t, hupdate⟩, -⟩ | ⟨-, hrows⟩ := (cancelPoint_of_runs hγ₁ hp').commit k rfl
  · obtain ⟨y, hy, hperform⟩ := (hlists₁.mem_iff p _ _ hp' _).mp hupdate
    exact hnot ⟨now, t, (hlists.mem_iff p _ _ hp _).mpr ⟨y, List.mem_append_left _ hy, hperform⟩⟩
  · -- a transaction without rows changes none
    have htracks := (tracked_of_runs (observed_of_recorded hγ₁)).tracks p
    have hnone : (x.before.store.tx p).tasks = [] :=
      List.map_eq_nil_iff.mp (htracks.rows.trans hrows)
    have hcommit : ∀ t ∈ (x.before.store.commit p).tasks, t ∈ x.before.store.tasks := by
      intro t ht
      obtain ⟨r, hr, -, rfl⟩ := Backend.mem_commit_tasks.mp ht
      obtain ⟨hmem, -⟩ | ⟨heq, -⟩ := (x.before.store.tx p).newest_cases r
      · rw [hnone] at hmem
        cases hmem
      · rwa [heq]
    have hold : ∀ t ∈ x.after.store.tasks, t ∈ x.before.store.tasks := by
      obtain ⟨r, hr⟩ := Config.perform_of_callOf hcall hm
      intro t ht
      obtain ⟨_, -, hσ, -⟩ | ⟨_, -, hexec, -⟩ | ⟨_, σ, -, hexec, -, hσ⟩ := perform_cases hr
      · rw [hσ] at ht
        exact ht
      · have hσ : x.before.store.commit p = x.after.store := by simpa [exec] using hexec
        exact hcommit t (by rwa [hσ])
      · have hσ' : x.before.store.commit p = σ := by simpa [exec] using hexec
        rw [hσ, ← hσ'] at ht
        exact hcommit t ht
    obtain ⟨r, hr, hrid, hopen⟩ := hcancels.before
    obtain ⟨t, ht, hid, hs⟩ := hcancels.after
    obtain ⟨δ, hδ⟩ := ledger_of_reaches hbefore.reaches
    rw [Table.eq_of_key_eq hδ.ids hr (hold t ht) (hrid.trans hid.symm), hs] at hopen
    cases hopen

/-- The status that a refused cancel reports is a terminal one, or there was no row before. -/
theorem isTerminal_or_absent (h : Trace (initial http clock) (l₁ ++ x :: l₂) c) {t : TaskSelect}
    (hread : ReadsTask p id (some t) x) {P : Prog Await Reply (Except JsError Response)}
    (hp : c.procs[p]? = some (.running (.cancel id) P)) :
    t.status.isTerminal = true ∨
      ∃ y ∈ l₁, FindsNothing p id y ∧ ∀ r ∈ y.before.store.tasks, r.id ≠ id := by
  have hfound := hread.findTask
  obtain ⟨o, hcall, -⟩ := hread
  obtain ⟨k, hp'⟩ := request_of_step h (by simp) hcall hp
  obtain ⟨hbefore, -, -⟩ := h.split
  obtain ⟨γ₁, hγ₁, hlists₁⟩ := exists_history hbefore
  obtain ⟨now, hmiss⟩ := (cancelPoint_of_runs hγ₁ hp').read _ k rfl
  obtain ⟨y, hy, hperform⟩ := (hlists₁.mem_iff p _ _ hp' _).mp hmiss
  have hnothing : FindsNothing p id y := ⟨now, hperform⟩
  by_cases hrow : ∃ r ∈ y.before.store.tasks, r.id = id
  · obtain ⟨r, hr, hrid⟩ := hrow
    obtain ⟨hy₀, hm, hafter⟩ := hbefore.reaches_of_mem hy
    have hended := hnothing.ended r hr hrid
    have hout := (sameOutcome_of_reaches hy₀ (.head ⟨_, trivial, hm⟩ hafter) hr hended).2 t
      (List.mem_of_find?_eq_some hfound)
      (Eq.trans (by simpa using List.find?_some hfound) hrid.symm)
    exact .inl (hout.status ▸ hended)
  · exact .inr ⟨y, hy, hnothing, fun r hr hid => hrow ⟨r, hr, hid⟩⟩

end

/-- **What the answers to cancel requests say.** A cancel that is accepted has itself ended the
task, with its event; the task stays `CANCELLED`, and no other cancel of it is accepted. One that
is refused has ended nothing: a 404 reports that there was no row at a step of the request, a 409
the status of the row at a step of the request, which is final unless there was no row yet when
the UPDATE was tried. -/
theorem cancel_answered (http : HttpClient) (clock : Timestamp)
    (l : List (proxy http).Transition) (c : (proxy http).Config)
    (h : Trace (initial http clock) l c) (p : ℕ) (id : String) :
    (∀ response, c.Returned p (.cancel id) (.ok response) →
      (∃ x ∈ l, Cancels p id x) ∧ (∀ t ∈ c.store.tasks, t.id = id → t.status = .cancelled) ∧
        ∀ q response', c.Returned q (.cancel id) (.ok response') → q = p) ∧
    (∀ message, c.Returned p (.cancel id) (.error (.conflict message)) →
      (∀ x ∈ l, ¬ Cancels p id x) ∧ ∃ l₁ x l₂ t, l = l₁ ++ x :: l₂ ∧ ReadsTask p id (some t) x ∧
        message = "Task " ++ id ++ " cannot be cancelled in its current state (" ++
          t.status.text ++ ")." ∧
        (t.status.isTerminal = true ∨
          ∃ y ∈ l₁, FindsNothing p id y ∧ ∀ r ∈ y.before.store.tasks, r.id ≠ id)) ∧
    (∀ message, c.Returned p (.cancel id) (.error (.notFound message)) →
      (∀ x ∈ l, ¬ Cancels p id x) ∧ message = "Task " ++ id ++ " not found" ∧
        ∃ x ∈ l, ReadsTask p id none x) := by
  obtain ⟨γ, hγ, hlists⟩ := exists_history h
  have hbacked : ∀ {q : ℕ} {answer : Except JsError Response},
      c.Returned q (.cancel id) answer → BackedAnswer id (γ q) answer :=
    fun hret => (cancelPoint_of_runs hγ hret).returns _ rfl
  refine ⟨fun response hret => ?_, fun message hret => ?_, fun message hret => ?_⟩
  · obtain ⟨x, hx, hcancels⟩ := exists_cancels h hret
    refine ⟨⟨x, hx, hcancels⟩, fun t ht hid => ?_, fun q response' hret' => ?_⟩
    · obtain ⟨hbefore, hm, hafter⟩ := h.reaches_of_mem hx
      obtain ⟨u, hu, huid, hs⟩ := hcancels.after
      have hout := (sameOutcome_of_reaches (hbefore.tail ⟨_, trivial, hm⟩) hafter hu
        (by rw [hs]; rfl)).2 t ht (hid.trans huid.symm)
      rw [hout.status, hs]
    · have hender : ∀ {q : ℕ} {response : Response},
          c.Returned q (.cancel id) (.ok response) → Ender ⟨c, γ⟩ q id :=
        fun hret => ⟨_, _, hret, .inl ⟨rfl, hbacked hret⟩⟩
      exact (enders_of_runs hγ).once id q p (hender hret') (hender hret)
  · obtain ⟨hnot, t, hread, hmessage⟩ := hbacked hret
    obtain ⟨x, hx, hperform⟩ := (hlists.mem_iff p _ _ hret _).mp hread
    refine ⟨fun x hx => not_cancels h hlists hret hnot hx, ?_⟩
    obtain ⟨l₁, l₂, rfl⟩ := List.append_of_mem hx
    exact ⟨l₁, x, l₂, t, rfl, hperform, hmessage, isTerminal_or_absent h hperform hret⟩
  · obtain ⟨hnot, hread, hmessage⟩ := hbacked hret
    exact ⟨fun x hx => not_cancels h hlists hret hnot hx, hmessage,
      (hlists.mem_iff p _ _ hret _).mp hread⟩

/-! ### Example run -/

/-- A claimed task is cancelled twice. -/
def cancelledTwice : List (proxy httpRetryService).Move :=
  claimRun httpRetryService ++
    [.spawn (.cancel sampleId), .call 2 { time := 2000 }, .call 2 {}, .call 2 {}, .call 2 {},
      .call 2 {}, .call 2 {}, .call 2 {},
      .spawn (.cancel sampleId), .call 3 { time := 3000 }, .call 3 {}, .call 3 {}, .call 3 {}]

/-- The test whether a cancel of the task has been answered, with success or with 409. -/
def isCancelAnswer (c : (proxy http).Config) (p : ℕ) (id : String) (accepted : Bool) : Bool :=
  match c.procs[p]? with
  | some (.running (.cancel taskId) (.ret (.ok _))) => taskId == id && accepted
  | some (.running (.cancel taskId) (.ret (.error (.conflict _)))) => taskId == id && !accepted
  | _ => false

theorem exists_returned_of_isCancelAnswer {c : (proxy http).Config} {p : ℕ} {id : String}
    {accepted : Bool} (h : isCancelAnswer c p id accepted = true) :
    if accepted then ∃ response, c.Returned p (.cancel id) (.ok response)
    else ∃ message, c.Returned p (.cancel id) (.error (.conflict message)) := by
  unfold isCancelAnswer at h
  split at h
  · next taskId response hp =>
    simp only [Bool.and_eq_true, beq_iff_eq] at h
    obtain ⟨rfl, rfl⟩ := h
    exact ⟨response, hp⟩
  · next taskId message hp =>
    simp only [Bool.and_eq_true, beq_iff_eq, Bool.not_eq_true'] at h
    obtain ⟨rfl, rfl⟩ := h
    exact ⟨message, hp⟩
  · cases h

/-- The first cancel has ended the task, and the second has seen it. -/
theorem cancelledTwice_answered : ∃ l c, Trace (initial httpRetryService 0) l c ∧
    (∃ x ∈ l, Cancels 2 sampleId x) ∧ (∀ x ∈ l, ¬ Cancels 3 sampleId x) ∧
      ∃ x ∈ l, ∃ t, ReadsTask 3 sampleId (some t) x := by
  obtain ⟨l, c, h, hcheck⟩ := Config.exists_trace_of_check (c := initial httpRetryService 0)
    cancelledTwice (fun _ c => isCancelAnswer c 2 sampleId true &&
      isCancelAnswer c 3 sampleId false) (by decide)
  simp only [Bool.and_eq_true] at hcheck
  obtain ⟨response, haccepted⟩ := exists_returned_of_isCancelAnswer hcheck.1
  obtain ⟨message, hrefused⟩ := exists_returned_of_isCancelAnswer hcheck.2
  obtain ⟨hnot, l₁, x, l₂, t, rfl, hread, -⟩ :=
    (cancel_answered httpRetryService 0 _ c h 3 sampleId).2.1 message hrefused
  exact ⟨_, c, h, ((cancel_answered httpRetryService 0 _ c h 2 sampleId).1 response haccepted).1,
    hnot, x, by simp, t, hread⟩

end LongRequestProxy
