import LongRequestProxy.Delivery.LastEvent
import LongRequestProxy.Executor.Enders

/-!
# Results and their terminal events

`ExecutorService.submitResult` ends the task with an UPDATE and inserts the terminal event in a
transaction of its own. Between the two the task has ended without an event, and the guard refuses
every retry; if the request is interrupted there, nobody repairs it. A cancellation and the timeout
sweeper write row and event in one transaction.

## Main definitions

* `IsRecorded`: the history shows that the UPDATE has found the task `PROCESSING`.
* `RecordingPoint`: what holds at every point of a result request.
* `Interrupts`: the step with which a request fails or dies before its event is committed.

## Main results

* `ender_of_new_event`: the terminal event of an ended task is committed by the function that has
  ended the task.
* `recorded_with_event_iff`: a recorded result has its event unless its request was interrupted.
-/

namespace LongRequestProxy

open Async Service Discipline Function

variable {http : HttpClient} {clock : Timestamp} {p : ℕ} {id : String}
  {authorization : Option String} {dto : SubmitResultDto}
  {allow : (proxy http).Config → (proxy http).Move → Prop}

/-! ### The points of a result request -/

/-- The calls of the transaction that inserts an event. -/
def Await.isEventStep : Await → Bool
  | txAdvisoryLock _ | txNextSeq _ | txInsertEvent .. | txCommit => true
  | _ => false

/-- The history shows that the UPDATE has found the task `PROCESSING`. -/
def IsRecorded (log : History) : Prop :=
  ∃ i write t, (⟨.updateTask i write, .ok (some t)⟩ : (x : Await) × Reply x) ∈ log

/-- The history shows that the commit was made, whatever was replied. -/
def IsCommitted (log : History) : Prop :=
  ∃ r, (⟨.txCommit, r⟩ : (x : Await) × Reply x) ∈ log

theorem IsRecorded.mono {log log' : History} (h : IsRecorded log) (hsub : log ⊆ log') :
    IsRecorded log' := by
  obtain ⟨i, write, t, hmem⟩ := h
  exact ⟨i, write, t, hsub hmem⟩

theorem IsCommitted.mono {log log' : History} (h : IsCommitted log) (hsub : log ⊆ log') :
    IsCommitted log' := by
  obtain ⟨r, hmem⟩ := h
  exact ⟨r, hsub hmem⟩

theorem IsCommitted.snoc_iff {log : History} (h : ¬ IsCommitted log) {x : Await} {r : Reply x} :
    IsCommitted (log ++ [⟨x, r⟩]) ↔ x = .txCommit := by
  constructor
  · rintro ⟨r', hmem⟩
    rcases List.mem_append.mp hmem with hmem | hmem
    · exact absurd ⟨r', hmem⟩ h
    · cases List.mem_singleton.mp hmem
      rfl
  · rintro rfl
    exact ⟨r, List.mem_append_right _ (List.mem_singleton_self _)⟩

/-- What holds at a point of a result request. -/
inductive RecordingPoint (id : String) (dto : SubmitResultDto) (log : History) :
    Prog Await Reply (Except JsError Response) → Prop
  | ret (a : Except JsError Response) : RecordingPoint id dto log (.ret a)
  /-- A call that writes nothing to Postgres. -/
  | quiet {x : Await} {k : Reply x → Prog Await Reply (Except JsError Response)}
      (hx : x.writesPostgres = false) (hevent : x.isEventStep = false)
      (hrecorded : IsRecorded log → IsCommitted log) : RecordingPoint id dto log (.call x k)
  /-- The UPDATE. -/
  | update {now : Timestamp}
      {k : Reply (.updateTask id (dto.write now)) → Prog Await Reply (Except JsError Response)}
      (hrecorded : ¬ IsRecorded log) (hcommitted : ¬ IsCommitted log)
      (herror : ∀ e, k (.error e) = .ret (.error e))
      (hnext : ∀ t, ∃ y k', k (.ok (some t)) = .call y k') : RecordingPoint id dto log (.call _ k)
  /-- A call of the transaction of the event. -/
  | event {x : Await} {k : Reply x → Prog Await Reply (Except JsError Response)}
      (hx : x.isEventStep = true) (hrecorded : IsRecorded log) (hcommitted : ¬ IsCommitted log)
      (herror : ∀ e, k (.error e) = .ret (.error e))
      (hnext : x ≠ .txCommit → ∀ v, ∃ y k', k (.ok v) = .call y k')
      (hcommit : x = .txCommit →
        ∃ e, log.summary.tx.events = [e] ∧ e.taskId = id ∧ e.ends ≠ none) :
      RecordingPoint id dto log (.call x k)

theorem SubmitResultDto.ends_event (dto : SubmitResultDto) (taskId eventId : String) (seq : ℤ)
    (createdAt : Timestamp) :
    ((dto.event taskId).row eventId seq createdAt).taskId = taskId ∧
      ((dto.event taskId).row eventId seq createdAt).ends ≠ none := by
  cases dto <;> exact ⟨rfl, Option.some_ne_none _⟩

theorem enqueueIf_recordings {log : History} (h : IsCommitted log) (b : Bool) (job : Job) :
    (enqueueIf b job).run.Always Await.Possible (RecordingPoint id dto) log := by
  cases b with
  | false => exact .ret _
  | true =>
    refine ⟨.quiet rfl rfl fun _ => h, fun r _ => ?_⟩
    cases r <;> exact .ret _

/-- The points of a result request. -/
theorem result_recordings (http : HttpClient) (id : String) (authorization : Option String)
    (dto : SubmitResultDto) :
    ((Request.result id authorization dto).run http).run.Always Await.Possible
      (RecordingPoint id dto) [] := by
  obtain ⟨e, he⟩ | ⟨token, -, hbody⟩ := result_body http id authorization dto
  · rw [he]
    exact .ret _
  rw [hbody]
  refine ⟨.quiet rfl rfl (by simp [IsRecorded]), fun r hr => ?_⟩
  obtain e | row := r
  · exact .ret _
  change (afterRead id token dto row).run.Always _ _ _
  unfold afterRead
  obtain ⟨e, he⟩ | ⟨t, -, rfl, -, -, -, -, hpass⟩ := CallbackAuthGuard.judge_cases id token row
  · rw [he]
    exact .ret _
  rw [hpass]
  obtain rfl : t.id = id := hr t rfl
  refine ⟨.quiet rfl rfl (by simp [IsRecorded]), fun r hr => ?_⟩
  obtain e | now := r
  · exact .ret _
  refine ⟨.update (by simp [IsRecorded]) (by simp [IsCommitted]) (fun _ => rfl)
    fun _ => ⟨_, _, rfl⟩, fun r hr => ?_⟩
  obtain e | row := r
  · exact .ret _
  cases row with
  | none => exact .ret _
  | some u =>
    have hrecorded : ∀ log : History, [⟨.updateTask t.id (dto.write now), .ok (some u)⟩] ⊆ log →
        IsRecorded log := fun log hsub => ⟨_, _, u, hsub List.mem_cons_self⟩
    refine ⟨.event rfl (hrecorded _ (by simp)) (by simp [IsCommitted]) (fun _ => rfl)
      (fun _ _ => ⟨_, _, rfl⟩) (fun h => by cases h), fun r hr => ?_⟩
    obtain e | _ := r
    · exact .ret _
    refine ⟨.event rfl (hrecorded _ (by simp)) (by simp [IsCommitted]) (fun _ => rfl)
      (fun _ _ => ⟨_, _, rfl⟩) (fun h => by cases h), fun r hr => ?_⟩
    obtain e | seq := r
    · exact .ret _
    refine ⟨.event rfl (hrecorded _ (by simp)) (by simp [IsCommitted]) (fun _ => rfl)
      (fun _ _ => ⟨_, _, rfl⟩) (fun h => by cases h), fun r hr => ?_⟩
    obtain e | event := r
    · exact .ret _
    obtain ⟨eventId, createdAt, rfl⟩ := hr
    refine ⟨.event rfl (hrecorded _ (by simp)) (by simp [IsCommitted]) (fun _ => rfl)
      (fun h => absurd rfl h) (fun _ => ⟨_, rfl, dto.ends_event _ _ _ _⟩), fun r hr => ?_⟩
    obtain e | _ := r
    · exact .ret _
    have hcommitted : ∀ log : History, [⟨.txCommit, .ok ()⟩] ⊆ log → IsCommitted log :=
      fun log hsub => ⟨_, hsub List.mem_cons_self⟩
    refine ⟨.quiet rfl rfl fun _ => hcommitted _ (by simp), fun r hr => ?_⟩
    obtain e | _ := r
    · exact .ret _
    exact enqueueIf_recordings (hcommitted _ (by simp)) (truthy t.webhookUrl) (.webhook t.id)

/-! ### Who inserts terminal events -/

namespace Summary

variable {w : Summary} {req : Request} {x : Await}

/-- The function ends the task, in its transaction or with its write. -/
def EndsTask (w : Summary) (i : String) : Prop := i ∈ w.tx.rows ∨ w.Ends i

/-- A terminal event that the function has inserted, or has to insert, is of a task that it ends. -/
structure Reports (w : Summary) : Prop where
  events : ∀ e ∈ w.tx.events, e.ends ≠ none → w.EndsTask e.taskId
  due : ∀ y ∈ w.due, y.2.ends ≠ none → w.EndsTask y.1

theorem Reports.of_settled (h : w.Settled) : w.Reports where
  events e he := by
    rw [h.tx] at he
    cases he
  due y hy := by
    rw [h.due] at hy
    cases hy

theorem reports_next {r : Reply x} (ha : w.Awaits req x) (hr : x.Possible r) (h : w.Reports) :
    (w.next x r).Reports := by
  cases r with
  | error e => exact .of_settled (w.settled_afterError x)
  | ok v =>
    cases x with
    | updateTask id write =>
      have hev : (w.afterWrite id write v).tx.events = [] := by
        cases write <;> exact congrArg OpenTx.events ha.1.tx
      refine ⟨fun e he => absurd (hev ▸ he) List.not_mem_nil, fun y hy hends => .inr ?_⟩
      have hnone : w.due = [] := ha.1.due
      cases write with
      | submitCompleted now result =>
        cases v with
        | none => cases hy
        | some row =>
          rw [List.mem_singleton.mp hy]
          exact ⟨_, row, rfl, Option.some_ne_none _⟩
      | submitFailed now error =>
        cases v with
        | none => cases hy
        | some row =>
          rw [List.mem_singleton.mp hy]
          exact ⟨_, row, rfl, Option.some_ne_none _⟩
      | progress n =>
        rw [List.mem_singleton.mp hy] at hends
        exact absurd rfl hends
      | _ => exact absurd (hnone ▸ hy) List.not_mem_nil
    | txCancelTask id now =>
      cases v with
      | none => exact h
      | some t =>
        refine ⟨fun e he _ => ?_, fun y hy _ => ?_⟩
        · have hev : w.tx.events = [] := by rw [ha.1.tx]
          exact absurd (hev ▸ he) List.not_mem_nil
        · rw [List.mem_singleton.mp hy]
          exact .inl (List.mem_singleton_self _)
    | txExpireTasks now limit =>
      refine ⟨fun e he _ => ?_, fun y hy _ => ?_⟩
      · have hev : w.tx.events = [] := by rw [ha.1.tx]
        exact absurd (hev ▸ he) List.not_mem_nil
      · obtain ⟨i, hi, rfl⟩ := List.mem_map.mp hy
        exact .inl hi
    | txInsertEvent seq input =>
      obtain ⟨id, createdAt, rfl⟩ := hr
      obtain ⟨hdue, -⟩ := ha
      refine ⟨fun e he hends => ?_, fun y hy => by cases hy⟩
      rw [List.mem_singleton.mp he] at hends ⊢
      exact h.due (input.taskId, input.eventType) (hdue ▸ List.mem_singleton_self _) hends
    | txInsertExpiryEvents events =>
      have hv : v = events := hr
      obtain ⟨htx, -⟩ := ha
      refine ⟨fun e he _ => .inl ?_, fun y hy => by cases hy⟩
      change e.taskId ∈ w.tx.rows
      rw [htx]
      exact List.mem_map_of_mem (hv ▸ he)
    | txCommit =>
      refine ⟨fun e he => (by cases he), fun y hy => ?_⟩
      have hdue : w.due = [] := ha.1
      exact absurd (hdue ▸ hy) List.not_mem_nil
    | _ => exact ⟨h.events, h.due⟩

end Summary

theorem reports_of_running {s : (discipline http).Observed}
    (h : Runs allow (observed http clock) s) {req : Request}
    {P : Prog Await Reply (Except JsError Response)}
    (hp : s.config.procs[p]? = some (.running req P)) : (s.locals p).Reports :=
  (discipline_sound http).summary_invariant (I := fun _ (w : Summary) => w.Reports)
    (fun _ => .of_settled Summary.settled_start)
    (fun _ _ _ _ ha hr hw => Summary.reports_next ha hr hw) h observed_obeys rfl hp

/-- What a function knows of its write is in its history. -/
theorem mem_history_of_updated {log : History} {u : CallbackWrite}
    (h : ((discipline http).summary log).updated = some u) :
    (⟨.updateTask u.taskId u.write, .ok u.row⟩ : (x : Await) × Reply x) ∈ log := by
  obtain ⟨⟨x, r⟩, hmem, hx, hr⟩ := exists_mem_of_summary
    (D := discipline http) (K := fun w => w.updated = some u) (by rintro ⟨⟩)
    (fun w x r => Summary.updated_of_next) h
  obtain rfl : x = _ := hx
  obtain rfl := eq_of_heq hr
  exact hmem

variable {s s' : (history (proxy http)).Observed} {m : (proxy http).Move}

/-- **Who inserts terminal events.** A terminal event of a task that has ended before is committed
by the function that has ended it. -/
theorem ender_of_new_event (h : Runs allow (recorded http clock) s) (hm : s.move m = some s')
    (hover : IsOver s.config.store id) {e : TaskEventSelect} (he : e ∈ s'.config.store.events)
    (hnew : e ∉ s.config.store.events) (hid : e.taskId = id) (hends : e.ends ≠ none) :
    ∃ q o, m = .call q o ∧ Ender s q id := by
  obtain ⟨q, o, hcall, -, hev⟩ := committed_of_new_event (Observed.config_move hm) he hnew
  obtain ⟨rfl, req, k, hq⟩ := Config.callOf_eq_some.mp hcall
  refine ⟨q, o, rfl, req, _, hq, .inr ?_⟩
  have hobserved := observed_of_recorded h
  have htracks : Tracks s.config.store (s.config.store.tx q)
      ((discipline http).summary (s.locals q)) := (tracked_of_runs hobserved).tracks q
  have hreports : ((discipline http).summary (s.locals q)).Reports :=
    reports_of_running hobserved hq
  rw [htracks.events] at hev
  obtain hrow | ⟨write, row, hu, hne⟩ := hreports.events e hev hends
  · -- the transaction would have updated a row that has not ended
    obtain ⟨δ, hδ⟩ := ledger_of_reaches (h.reaches.mono fun _ _ _ => trivial)
    rw [← htracks.rows] at hrow
    obtain ⟨r, hr, hrid, hopen⟩ := hδ.exists_open_of_written hrow
    rw [hover.2 r hr (hrid.trans hid)] at hopen
    cases hopen
  · exact ⟨write, row, hid ▸ mem_history_of_updated hu, hne⟩

/-! ### Interrupted requests -/

/-- The call belongs to the recording of a result. -/
def Await.isRecordingStep : Await → Bool
  | updateTask .. => true
  | x => x.isEventStep

theorem Await.isRecordingStep_of_isEventStep {x : Await} (h : x.isEventStep = true) :
    x.isRecordingStep = true := by
  cases x <;> first | rfl | exact h

/-- With this step the request of program `p` fails or dies while it records its result. A commit
whose reply gets lost has been made. -/
def Interrupts (p : ℕ) (x : (proxy http).Transition) : Prop :=
  (x.move = .crash p ∧ ∃ y, x.before.nextCall p = some y ∧ y.isEventStep = true) ∨
    ∃ o y e σ, x.before.callOf x.move = some (p, o, y) ∧ y.isRecordingStep = true ∧
      perform p o x.before.store y = some (.error e, σ) ∧
      ¬ (y = .txCommit ∧ o.fault = .lostReply)

/-- The log of the task has a terminal event. -/
def HasTerminalEvent (c : (proxy http).Config) (id : String) : Prop :=
  ∃ e ∈ c.store.events, e.taskId = id ∧ e.ends ≠ none

/-- How far the request of program `p` has got since its UPDATE, with the steps made since then. -/
inductive RecordingPhase (p : ℕ) (id : String) (l : List (proxy http).Transition)
    (s : (history (proxy http)).Observed) : Prop
  | recording (hl : ∀ y ∈ l, ¬ Interrupts p y) (hnone : ¬ HasTerminalEvent s.config id)
      (hrecorded : IsRecorded (s.locals p)) (hcommitted : ¬ IsCommitted (s.locals p))
      (hflight : s.config.InFlight p)
  | stored (hl : ∀ y ∈ l, ¬ Interrupts p y)
      (hevent : s.config.store.HasRow id → HasTerminalEvent s.config id)
      (hcommitted : s.config.InFlight p → IsCommitted (s.locals p))
  | interrupted (hl : ∃ y ∈ l, Interrupts p y) (hnone : ¬ HasTerminalEvent s.config id)
      (hflight : ¬ s.config.InFlight p)

/-- The result request of program `p` has ended its task. -/
structure Recording (p : ℕ) (id : String) (authorization : Option String) (dto : SubmitResultDto)
    (l : List (proxy http).Transition) (s : (history (proxy http)).Observed) : Prop where
  lt : p < s.config.procs.length
  request : ∀ req P, s.config.procs[p]? = some (.running req P) → req = .result id authorization dto
  enders : ∀ q, Ender s q id → q = p
  isOver : IsOver s.config.store id
  phase : RecordingPhase p id l s

variable {l : List (proxy http).Transition}

theorem recordingPoint_of_runs (h : Runs allow (recorded http clock) s)
    {P : Prog Await Reply (Except JsError Response)}
    (hp : s.config.procs[p]? = some (.running (.result id authorization dto) P)) :
    RecordingPoint id dto (s.locals p) P :=
  point_of_runs (fun _ _ _ _ _ _ hx => possible_of_perform hx)
    (result_recordings http id authorization dto) h hp

theorem forall_append_singleton {α : Type} {P : α → Prop} {l : List α} {a : α}
    (hl : ∀ y ∈ l, P y) (ha : P a) : ∀ y ∈ l ++ [a], P y :=
  List.forall_mem_append.mpr ⟨hl, List.forall_mem_singleton.mpr ha⟩

/-- A step of another program adds no terminal event. -/
theorem not_hasTerminalEvent_of_move (h : Runs allow (recorded http clock) s)
    (hm : s.move m = some s') (hover : IsOver s.config.store id)
    (henders : ∀ q, Ender s q id → q = p) (hne : ∀ o, m ≠ .call p o)
    (hnone : ¬ HasTerminalEvent s.config id) : ¬ HasTerminalEvent s'.config id := by
  rintro ⟨e, he, hid, hends⟩
  have hnew : e ∉ s.config.store.events := fun hold => hnone ⟨e, hold, hid, hends⟩
  obtain ⟨q, o, rfl, hq⟩ := ender_of_new_event h hm hover he hnew hid hends
  obtain rfl := henders q hq
  exact hne o rfl

/-- The commit of the request stores its event. -/
theorem terminal_event_of_commit (h : Runs allow (recorded http clock) s)
    (hevents : ∃ e, (History.summary (s.locals p)).tx.events = [e] ∧ e.taskId = id ∧
      e.ends ≠ none) :
    ∃ e ∈ (s.config.store.commit p).events, e.taskId = id ∧ e.ends ≠ none := by
  obtain ⟨e, htx, hid, hends⟩ := hevents
  have htracks : Tracks s.config.store (s.config.store.tx p) (History.summary (s.locals p)) :=
    (tracked_of_runs (observed_of_recorded h)).tracks p
  refine ⟨e, Backend.mem_commit_events.mpr (.inr ?_), hid, hends⟩
  rw [htracks.events, htx]
  exact List.mem_singleton_self _

/-- A call that returns, and a commit that is made, do not interrupt. -/
theorem not_interrupts_of_call {c c' : (proxy http).Config} {o : Oracle} {y : Await} {r : Reply y}
    {σ : Backend} (hstep : c.callOf (.call p o) = some (p, o, y))
    (hs : perform p o c.store y = some (r, σ))
    (hr : (∃ v, r = .ok v) ∨ y = .txCommit ∧ o.fault = .lostReply) :
    ¬ Interrupts p (⟨c, .call p o, c'⟩ : (proxy http).Transition) := by
  rintro (⟨hcrash, -⟩ | ⟨o', y', e, σ', hcall, -, herror, hnot⟩)
  · cases hcrash
  · rw [hstep] at hcall
    cases hcall
    obtain ⟨v, rfl⟩ | hlost := hr
    · rw [hs] at herror
      cases herror
    · exact hnot hlost

/-- The calls of the request while it records its result. -/
theorem RecordingPhase.call {o : Oracle} (h : Runs allow (recorded http clock) s)
    (hm : s.move (.call p o) = some s') (hrecorded : IsRecorded (s.locals p))
    (hcommitted : ¬ IsCommitted (s.locals p)) (hl : ∀ y ∈ l, ¬ Interrupts p y)
    (hnone : ¬ HasTerminalEvent s.config id)
    (hreq : ∀ req P, s.config.procs[p]? = some (.running req P) →
      req = .result id authorization dto) :
    RecordingPhase p id (l ++ [⟨s.config, .call p o, s'.config⟩]) s' := by
  obtain ⟨req, y, k, r, hp, hs, hp', hlog⟩ := Observed.call_cases hm
  obtain rfl := hreq req _ hp
  have hstep : s.config.callOf (.call p o) = some (p, o, y) :=
    Config.callOf_eq_some.mpr ⟨rfl, _, k, hp⟩
  have hpoint := recordingPoint_of_runs h hp
  generalize hP : Prog.call y k = P at hpoint
  cases hpoint with
  | ret a => cases hP
  | quiet _ _ hquiet => exact absurd (hquiet hrecorded) hcommitted
  | update hnot => exact absurd hrecorded hnot
  | @event y k hy _ _ herror hnext hcommit =>
    cases hP
    have hreturned : ∀ e, r = .error e → ¬ s'.config.InFlight p := by
      rintro e rfl
      rw [herror] at hp'
      exact Config.Returned.not_inFlight hp'
    have hdone : IsCommitted (s'.locals p) ↔ y = .txCommit := by
      rw [hlog]
      exact IsCommitted.snoc_iff hcommitted
    have hsame : ∀ v τ, exec p o s.config.store y = some (.ok (v, τ)) → y ≠ .txCommit →
        τ.events = s.config.store.events := by
      intro v τ hx hne
      obtain hev | ⟨heq, -⟩ := exec_events_cases hx
      · exact hev
      · exact absurd heq hne
    obtain ⟨e, rfl, hσ, hcause⟩ | ⟨v, rfl, hx, -⟩ | ⟨v, τ, rfl, hx, hf, hσ⟩ := perform_cases hs
    · refine .interrupted ⟨_, List.mem_append_right _ List.mem_cons_self, .inr ⟨o, y, e, _, hstep,
        Await.isRecordingStep_of_isEventStep hy, hs, ?_⟩⟩ ?_ (hreturned e rfl)
      · rintro ⟨rfl, hf⟩
        obtain hfailed | hx := hcause
        · rw [hf] at hfailed
          cases hfailed
        · cases hx
      · rwa [HasTerminalEvent, hσ]
    · have hquiet : ¬ Interrupts p ⟨s.config, .call p o, s'.config⟩ :=
        not_interrupts_of_call hstep hs (.inl ⟨v, rfl⟩)
      by_cases hcom : y = .txCommit
      · subst hcom
        have hσ : s.config.store.commit p = s'.config.store := by simpa [exec] using hx
        refine .stored (forall_append_singleton hl hquiet) (fun _ => ?_) fun _ => hdone.mpr rfl
        rw [HasTerminalEvent, ← hσ]
        exact terminal_event_of_commit h (hcommit rfl)
      · obtain ⟨z, k', hz⟩ := hnext hcom v
        refine .recording (forall_append_singleton hl hquiet) ?_ ?_ (fun h => hcom (hdone.mp h))
          ⟨_, z, k', hz ▸ hp'⟩
        · rwa [HasTerminalEvent, hsame v _ hx hcom]
        · rw [hlog]
          exact hrecorded.mono (List.subset_append_left _ _)
    · by_cases hcom : y = .txCommit
      · subst hcom
        have hτ : s.config.store.commit p = τ := by simpa [exec] using hx
        refine .stored (forall_append_singleton hl (not_interrupts_of_call hstep hs
          (.inr ⟨rfl, hf⟩))) (fun _ => ?_) fun _ => hdone.mpr rfl
        rw [HasTerminalEvent, hσ, ← hτ]
        exact terminal_event_of_commit h (hcommit rfl)
      · refine .interrupted ⟨_, List.mem_append_right _ List.mem_cons_self, .inr ⟨o, y, _, _,
          hstep, Await.isRecordingStep_of_isEventStep hy, hs, fun hlost => hcom hlost.1⟩⟩ ?_
          (hreturned _ rfl)
        have hev : s'.config.store.events = s.config.store.events := by
          rw [hσ]
          exact hsame v τ hx hcom
        rwa [HasTerminalEvent, hev]

/-- The steps of others do not interrupt. -/
theorem not_interrupts_of_ne {c c' : (proxy http).Config} (hcall : ∀ o, m ≠ .call p o)
    (hcrash : m ≠ .crash p) : ¬ Interrupts p (⟨c, m, c'⟩ : (proxy http).Transition) := by
  rintro (⟨heq, -⟩ | ⟨o, y, e, σ, hstep, -⟩)
  · exact hcrash heq
  · exact hcall o (Config.callOf_eq_some.mp hstep).1

/-- The next call of a request that records its result. -/
theorem isEventStep_of_recording (h : Runs allow (recorded http clock) s)
    (hrecorded : IsRecorded (s.locals p)) (hcommitted : ¬ IsCommitted (s.locals p)) {y : Await}
    {k : Reply y → Prog Await Reply (Except JsError Response)}
    (hp : s.config.procs[p]? = some (.running (.result id authorization dto) (.call y k))) :
    y.isEventStep = true := by
  have hpoint := recordingPoint_of_runs h hp
  generalize hP : Prog.call y k = P at hpoint
  cases hpoint with
  | ret a => cases hP
  | quiet _ _ hquiet => exact absurd (hquiet hrecorded) hcommitted
  | update hnot => exact absurd hrecorded hnot
  | event hy =>
    cases hP
    exact hy

/-- The next call of a request that has recorded its result. -/
theorem not_isRecordingStep_of_committed (h : Runs allow (recorded http clock) s)
    (hcommitted : IsCommitted (s.locals p)) {y : Await}
    {k : Reply y → Prog Await Reply (Except JsError Response)}
    (hp : s.config.procs[p]? = some (.running (.result id authorization dto) (.call y k))) :
    y.isRecordingStep = false := by
  have hpoint := recordingPoint_of_runs h hp
  generalize hP : Prog.call y k = P at hpoint
  cases hpoint with
  | ret a => cases hP
  | quiet hx hevent =>
    cases hP
    cases y <;> first | rfl | exact hevent | cases hx
  | update _ hnot => exact absurd hcommitted hnot
  | event _ _ hnot => exact absurd hcommitted hnot

/-- A stored event stays as long as its task has its row. -/
theorem hasTerminalEvent_of_move (h : Runs allow (recorded http clock) s)
    (hm : s.move m = some s') (hissued : id ∈ s.config.store.issued)
    (hevent : s.config.store.HasRow id → HasTerminalEvent s.config id)
    (hrow : s'.config.store.HasRow id) : HasTerminalEvent s'.config id := by
  obtain ⟨hold, hlog⟩ := (log_of_move (h.reaches.mono fun _ _ _ => trivial)
    (Observed.config_move hm) hissued).2 hrow
  obtain ⟨e, he, hid, hends⟩ := hevent hold
  have hmem : e ∈ s'.config.store.log id := hlog.subset (Backend.mem_log.mpr ⟨he, hid⟩)
  exact ⟨e, (Backend.mem_log.mp hmem).1, hid, hends⟩

/-- A program that was started is in flight only if it was so before. -/
theorem inFlight_of_move {c c' : (proxy http).Config} (hm : c.move m = some c')
    (hlt : p < c.procs.length) (h : c'.InFlight p) : c.InFlight p := by
  obtain ⟨req, y, k, hp⟩ := h
  obtain ⟨hold, -⟩ | ⟨_, x, k', _, -, hold, -⟩ | ⟨-, hlen, -⟩ := Config.running_of_move hm hp
  · exact ⟨req, y, k, hold⟩
  · exact ⟨req, x, k', hold⟩
  · exact absurd hlen (Nat.ne_of_lt hlt)

theorem RecordingPhase.of_move (h : Runs allow (recorded http clock) s)
    (hm : s.move m = some s') (hs : Recording p id authorization dto l s) :
    RecordingPhase p id (l ++ [⟨s.config, m, s'.config⟩]) s' := by
  have hmove := Observed.config_move hm
  cases hs.phase with
  | recording hl hnone hrecorded hcommitted hflight =>
    obtain ⟨req, y, k, hp⟩ := hflight
    obtain rfl := hs.request req _ hp
    by_cases hcrash : m = .crash p
    · subst hcrash
      obtain ⟨hσ, hdead⟩ := store_of_crash hmove
      refine .interrupted
        ⟨_, List.mem_append_right _ List.mem_cons_self, .inl ⟨rfl, y, ?_⟩⟩ ?_ hdead
      · exact ⟨Config.nextCall_eq_some.mpr ⟨_, k, hp⟩,
          isEventStep_of_recording h hrecorded hcommitted hp⟩
      · rwa [HasTerminalEvent, hσ]
    by_cases hcall : ∃ o, m = .call p o
    · obtain ⟨o, rfl⟩ := hcall
      exact RecordingPhase.call h hm hrecorded hcommitted hl hnone hs.request
    · have hne : ∀ o, m ≠ .call p o := fun o heq => hcall ⟨o, heq⟩
      have hlocals : s'.locals p = s.locals p := by
        obtain ⟨heq, -⟩ | ⟨o, _, _, _, _, heq, -⟩ | ⟨heq, -⟩ := Observed.locals_cases hm p
        · exact heq
        · exact absurd heq (hne o)
        · exact absurd heq hcrash
      refine .recording (forall_append_singleton hl (not_interrupts_of_ne hne hcrash))
        (not_hasTerminalEvent_of_move h hm hs.isOver hs.enders hne hnone) (by rwa [hlocals])
        (by rwa [hlocals]) ⟨_, y, k, Config.proc_of_move_of_ne hp hmove hne hcrash⟩
  | stored hl hevent hcommitted =>
    refine .stored (forall_append_singleton hl ?_)
      (hasTerminalEvent_of_move h hm hs.isOver.1 hevent) fun hflight => ?_
    · have hcalls : ∀ req y k, s.config.procs[p]? = some (.running req (.call y k)) →
          y.isRecordingStep = false := by
        intro req y k hp
        obtain rfl := hs.request req _ hp
        exact not_isRecordingStep_of_committed h (hcommitted ⟨_, y, k, hp⟩) hp
      rintro (⟨-, y, hy, hstep⟩ | ⟨o, y, e, σ, hcall, hstep, -⟩)
      · obtain ⟨req, k, hp⟩ := Config.nextCall_eq_some.mp hy
        have hfalse := hcalls req y k hp
        rw [Await.isRecordingStep_of_isEventStep hstep] at hfalse
        cases hfalse
      · obtain ⟨-, req, k, hp⟩ := Config.callOf_eq_some.mp hcall
        rw [hcalls req y k hp] at hstep
        cases hstep
    · have hcom := hcommitted (inFlight_of_move hmove hs.lt hflight)
      obtain ⟨heq, -⟩ | ⟨_, _, _, _, _, -, -, -, heq⟩ | ⟨rfl, -⟩ := Observed.locals_cases hm p
      · rwa [heq]
      · rw [heq]
        exact hcom.mono (List.subset_append_left _ _)
      · exact absurd hflight (store_of_crash hmove).2
  | interrupted hl hnone hflight =>
    obtain ⟨y, hy, hinterrupts⟩ := hl
    refine .interrupted ⟨y, List.mem_append_left _ hy, hinterrupts⟩ ?_
      fun h => hflight (inFlight_of_move hmove hs.lt h)
    refine not_hasTerminalEvent_of_move h hm hs.isOver hs.enders ?_ hnone
    rintro o rfl
    obtain ⟨req, y, k, r, hp, -⟩ := Observed.call_cases hm
    exact hflight ⟨req, y, k, hp⟩

theorem Recording.of_move (h : Runs allow (recorded http clock) s) (hm : s.move m = some s')
    (hs : Recording p id authorization dto l s) :
    Recording p id authorization dto (l ++ [⟨s.config, m, s'.config⟩]) s' := by
  have hmove := Observed.config_move hm
  refine ⟨hs.lt.trans_le (Config.procs_length_le_of_move hmove), fun req P hp => ?_, fun q hq => ?_,
    isOver_of_move h hm hs.isOver, .of_move h hm hs⟩
  · obtain ⟨hold, -⟩ | ⟨_, _, k, _, -, hold, -⟩ | ⟨-, hlen, -⟩ := Config.running_of_move hmove hp
    · exact hs.request req P hold
    · exact hs.request req _ hold
    · exact absurd hlen (Nat.ne_of_lt hs.lt)
  · obtain ⟨hold, -⟩ | ⟨-, hopen, -⟩ := ender_of_move h hm hq
    · exact hs.enders q hold
    · exact absurd hs.isOver hopen

/-- What holds where the request makes its UPDATE. -/
theorem RecordingPoint.of_update {log : History} {i : String} {w : TaskWrite}
    {k : Reply (.updateTask i w) → Prog Await Reply (Except JsError Response)}
    (h : RecordingPoint id dto log (.call (.updateTask i w) k)) :
    (i = id ∧ ∃ now, w = dto.write now) ∧ ¬ IsCommitted log ∧
      (∀ e, k (.error e) = .ret (.error e)) ∧ ∀ t, ∃ y k', k (.ok (some t)) = .call y k' := by
  generalize hP : Prog.call (Await.updateTask i w) k = P at h
  cases h with
  | ret a => cases hP
  | quiet hx =>
    cases hP
    cases hx
  | update _ hcommitted herror hnext =>
    cases hP
    exact ⟨⟨rfl, _, rfl⟩, hcommitted, herror, hnext⟩
  | event hx =>
    cases hP
    cases hx

/-- A task that has not ended has no terminal event. -/
theorem not_hasTerminalEvent_of_processing (h : Runs allow (recorded http clock) s)
    (hstatus : HasStatus s.config id .processing) : ¬ HasTerminalEvent s.config id := by
  rintro ⟨e, he, hid, hends⟩
  obtain ⟨t, ht, htid, hs⟩ := hstatus
  obtain ⟨δ, hδ⟩ := ledger_of_reaches (h.reaches.mono fun _ _ _ => trivial)
  obtain ⟨st, hst⟩ := Option.ne_none_iff_exists'.mp hends
  have hterm := e.isTerminal_of_ends hst
  rw [← hδ.events_match e he st hst t ht (htid.trans hid.symm), hs] at hterm
  cases hterm

/-- The step that records the result. -/
theorem Recording.of_records (h : Runs (fun _ _ => True) (recorded http clock) s)
    (hm : s.move m = some s') (hrec : Records p id dto ⟨s.config, m, s'.config⟩) :
    ∃ authorization, Recording p id authorization dto [⟨s.config, m, s'.config⟩] s' := by
  obtain ⟨o, now, hstep⟩ := hrec.submits
  obtain ⟨rfl, req, k, hp⟩ := Config.callOf_eq_some.mp hstep
  obtain ⟨req', x, k', r, hp', hs, hafter, hlog⟩ := Observed.call_cases hm
  rw [show s.config.procs[p]? = _ from hp] at hp'
  cases hp'
  have hobserved := observed_of_recorded h
  have hawaits : Summary.AwaitsWrite req ((discipline http).summary (s.locals p)) id
    (dto.write now) := ((obeys_of_runs hobserved).awaits hp).2
  obtain ⟨authorization, rfl⟩ : ∃ authorization, req = .result id authorization dto := by
    cases dto with
    | completed result =>
      obtain ⟨-, authorization, hreq, -⟩ := hawaits
      exact ⟨authorization, hreq⟩
    | failed error =>
      obtain ⟨-, authorization, hreq, -⟩ := hawaits
      exact ⟨authorization, hreq⟩
  obtain ⟨-, hcommitted, herror, hnext⟩ := (recordingPoint_of_runs h hp).of_update
  obtain ⟨t, ht, hid, hstatus⟩ := hrec.before
  obtain ⟨t', ht', hid', hout⟩ := hrec.after
  have hterm := SubmitResultDto.isTerminal_of_isOutcome hout
  have hopen : ¬ IsOver s.config.store id := fun hover => by
    have hended := hover.2 t ht hid
    rw [hstatus] at hended
    cases hended
  have hids := (tracked_of_runs hobserved).rowIds
  have hids' := (tracked_of_runs (observed_of_recorded (h.tail ⟨_, trivial, hm⟩))).rowIds
  have hchanged : s'.config.store.tasks ≠ s.config.store.tasks := fun heq => by
    rw [heq] at ht'
    obtain rfl := Table.eq_of_key_eq hids.nodup ht ht' (hid.trans hid'.symm)
    rw [hstatus] at hterm
    cases hterm
  have hnone := not_hasTerminalEvent_of_processing h hrec.before
  refine ⟨authorization, ⟨?_, fun req P hP => ?_, fun q hq => ?_, ?_, ?_⟩⟩
  · exact (List.getElem?_eq_some_iff.mp hafter).1
  · rw [hafter] at hP
    cases hP
    rfl
  · obtain ⟨hold, -⟩ | ⟨⟨o', heq⟩, -⟩ := ender_of_move h hm hq
    · exact absurd ((enders_of_runs h).taken id q hold) hopen
    · cases heq
      rfl
  · refine ⟨hid' ▸ hids'.issued t' ht', fun u hu huid => ?_⟩
    obtain rfl := Table.eq_of_key_eq hids'.nodup hu ht' (huid.trans hid'.symm)
    exact hterm
  · have hevents : ∀ v τ, exec p o s.config.store (.updateTask id (dto.write now)) =
        some (.ok (v, τ)) → τ.events = s.config.store.events := fun v τ hx => by
      obtain hev | ⟨heq, -⟩ := exec_events_cases hx
      · exact hev
      · cases heq
    obtain ⟨e, -, hσ, -⟩ | ⟨v, rfl, hx, -⟩ | ⟨v, τ, rfl, hx, -, hσ⟩ := perform_cases hs
    · exact absurd (by rw [hσ]; rfl) hchanged
    · obtain ⟨-, hσ, -⟩ | ⟨_, -, -, -, -, -, rfl, -⟩ := Backend.updateTask_ok hx
      · exact absurd (by rw [hσ]) hchanged
      · obtain ⟨y, k', hy⟩ := hnext ((dto.write now).apply ‹_›)
        refine .recording (List.forall_mem_singleton.mpr
          (not_interrupts_of_call hstep hs (.inl ⟨_, rfl⟩))) ?_ ?_ ?_ ⟨_, y, k', hy ▸ hafter⟩
        · rwa [HasTerminalEvent, hevents _ _ hx]
        · rw [hlog]
          exact ⟨_, _, _, List.mem_append_right _ (List.mem_singleton_self _)⟩
        · rw [hlog, IsCommitted.snoc_iff hcommitted]
          exact fun heq => by cases heq
    · refine .interrupted
        ⟨_, List.mem_singleton_self _, .inr ⟨o, _, _, _, hstep, rfl, hs, ?_⟩⟩ ?_ ?_
      · rintro ⟨heq, -⟩
        cases heq
      · have hev : s'.config.store.events = s.config.store.events := by
          rw [hσ]
          exact hevents v τ hx
        rwa [HasTerminalEvent, hev]
      · rw [herror] at hafter
        exact Config.Returned.not_inFlight hafter

/-! ### Requests that record nothing -/

variable (dto) in
/-- An UPDATE that finds a row records the result, whether its reply arrives or not. -/
theorem records_of_exec {c c' : (proxy http).Config} {o : Oracle} {now : Timestamp}
    {t : TaskSelect} {σ : Backend}
    (hstep : c.callOf m = some (p, o, .updateTask id (dto.write now)))
    (hx : exec p o c.store (.updateTask id (dto.write now)) = some (.ok (some t, σ)))
    (hσ : c'.store.tasks = σ.tasks) : Records p id dto (⟨c, m, c'⟩ : (proxy http).Transition) := by
  obtain ⟨r, hr, hid, hmatch, -, rfl⟩ := Backend.updateTask_some hx
  refine ⟨⟨o, now, hstep⟩, ⟨r, hr, hid, SubmitResultDto.matches_write_iff.mp hmatch⟩,
    (dto.write now).apply r, ?_, hid, dto.isOutcome_apply now r⟩
  rw [hσ]
  exact Table.mem_update.mpr ⟨r, hr, .inl ⟨hid ▸ hmatch, by rw [← hid]; rfl⟩⟩

variable (p id authorization dto) in
/-- Along a trace, the history of a request shows a recorded result only if there was one. -/
theorem exists_unrecorded {c : (proxy http).Config} (h : Trace (initial http clock) l c) :
    ∃ γ, Runs (fun _ _ => True) (recorded http clock) ⟨c, γ⟩ ∧
      ((∀ x ∈ l, ¬ Records p id dto x) → ∀ P, c.procs[p]? =
        some (.running (.result id authorization dto) P) → ¬ IsRecorded (γ p)) := by
  refine exists_observed_trace (s := recorded http clock)
    (I := fun l (s : (history (proxy http)).Observed) => (∀ x ∈ l, ¬ Records p id dto x) →
      ∀ P, s.config.procs[p]? = some (.running (.result id authorization dto) P) →
        ¬ IsRecorded (s.locals p)) h (fun _ P hp => by cases hp) ?_
  rintro l s m s' - hruns hm ih hnone P hp hrecorded
  have hbefore := ih fun x hx => hnone x (List.mem_append_left _ hx)
  obtain ⟨hold, heq, -⟩ | ⟨o, x, k, r, rfl, hold, hs, -, heq⟩ | ⟨-, -, heq⟩ :=
    Observed.running_cases (history_obeys hruns) hm hp
  · rw [heq] at hrecorded
    exact hbefore P hold hrecorded
  · rw [heq] at hrecorded
    obtain ⟨i, write, t, hmem⟩ := hrecorded
    rcases List.mem_append.mp hmem with hmem | hmem
    · exact hbefore _ hold ⟨i, write, t, hmem⟩
    · cases List.mem_singleton.mp hmem
      obtain ⟨⟨rfl, now, rfl⟩, -⟩ := (recordingPoint_of_runs hruns hold).of_update
      exact hnone _ (List.mem_append_right _ List.mem_cons_self) (records_of_exec _
        (Config.callOf_eq_some.mpr ⟨rfl, _, k, hold⟩) (exec_of_perform_ok hs) rfl)
  · rw [heq] at hrecorded
    obtain ⟨_, _, _, hmem⟩ := hrecorded
    cases hmem

/-- A request that has recorded nothing leaves the tables as they are with its steps. -/
theorem unchanged_of_unrecorded {c c' : (proxy http).Config} {γ : ℕ → History}
    (h : Runs allow (recorded http clock) ⟨c, γ⟩) (hm : c.move m = some c')
    (hmove : m = .crash p ∨ ∃ o, m = .call p o) {P : Prog Await Reply (Except JsError Response)}
    (hp : c.procs[p]? = some (.running (.result id authorization dto) P))
    (hrecorded : ¬ IsRecorded (γ p)) (hnot : ¬ Records p id dto ⟨c, m, c'⟩) :
    c'.store.tasks = c.store.tasks ∧ c'.store.events = c.store.events := by
  obtain rfl | ⟨o, rfl⟩ := hmove
  · rw [(store_of_crash hm).1]
    exact ⟨rfl, rfl⟩
  obtain ⟨time, hσ⟩ | ⟨q, hσ⟩ | ⟨q, o', req, x, k, v, σ, hcall, hp', -, hx, hσ⟩ :=
    store_cases_of_move hm
  · rw [hσ]
    exact ⟨rfl, rfl⟩
  · rw [hσ]
    exact ⟨rfl, rfl⟩
  cases hcall
  rw [hp] at hp'
  cases hp'
  have htables : c'.store.tasks = σ.tasks ∧ c'.store.events = σ.events := by
    obtain hσ | hσ := hσ <;> rw [hσ] <;> exact ⟨rfl, rfl⟩
  rw [htables.1, htables.2]
  have hpoint : RecordingPoint id dto (γ p) (.call x k) := recordingPoint_of_runs h hp
  generalize hP : Prog.call x k = P at hpoint
  cases hpoint with
  | ret a => cases hP
  | quiet hquiet =>
    cases hP
    obtain ⟨ht, he, -⟩ := exec_of_not_writesPostgres hquiet hx
    exact ⟨ht, he⟩
  | update =>
    cases hP
    obtain ⟨-, rfl, -⟩ | ⟨r, -, -, -, -, -, rfl, -⟩ := Backend.updateTask_ok hx
    · exact ⟨rfl, rfl⟩
    · exact absurd (records_of_exec _ (Config.callOf_eq_some.mpr ⟨rfl, _, _, hp⟩) hx htables.1) hnot
  | event _ hrec => exact absurd hrec hrecorded

/-! ### The result -/

theorem exists_recording {l₁ l₂ : List (proxy http).Transition} {x : (proxy http).Transition}
    {c : (proxy http).Config} (h : Trace (initial http clock) (l₁ ++ x :: l₂) c)
    (hrec : Records p id dto x) :
    ∃ authorization γ, Runs (fun _ _ => True) (recorded http clock) ⟨c, γ⟩ ∧
      Recording p id authorization dto (x :: l₂) ⟨c, γ⟩ := by
  obtain ⟨d, m, d'⟩ := x
  obtain ⟨h₁, hm, h₂⟩ := h.split
  obtain ⟨γ₁, hγ₁⟩ := exists_recorded h₁.reaches
  obtain ⟨γ₂, hmove⟩ := Observed.exists_move (s := ⟨d, γ₁⟩) hm
  obtain ⟨authorization, hstart⟩ := Recording.of_records hγ₁ hmove hrec
  have hruns : Runs (fun _ _ => True) (recorded http clock) ⟨d', γ₂⟩ :=
    hγ₁.tail ⟨m, trivial, hmove⟩
  obtain ⟨γ, hγ, hrecording⟩ := exists_observed_trace (s := ⟨d', γ₂⟩)
    (I := fun l s => Recording p id authorization dto (⟨d, m, d'⟩ :: l) s) h₂ hstart
    fun l s m s' _ hs hm ih => ih.of_move (hruns.trans hs) hm
  exact ⟨authorization, γ, hruns.trans hγ, hrecording⟩

/-- **Recorded results and their events.** A result request that is not in flight any more, and
whose UPDATE has found the task `PROCESSING`, has left the row with its terminal event if no step
of its recording was interrupted, and without a terminal event otherwise. As long as its UPDATE has
not found the task `PROCESSING`, it leaves the tables as they are. -/
theorem recorded_with_event_iff (http : HttpClient) (clock : Timestamp)
    (l : List (proxy http).Transition) (c : (proxy http).Config)
    (h : Trace (initial http clock) l c) (p : ℕ) (id : String) (dto : SubmitResultDto) :
    (∀ l₁ x l₂, l = l₁ ++ x :: l₂ → Records p id dto x → ¬ c.InFlight p →
      ∀ t ∈ c.store.tasks, t.id = id → t.status.isTerminal = true ∧
        ((∃ e ∈ c.store.events, e.taskId = id ∧ e.ends = some t.status) ↔
          ∀ y ∈ x :: l₂, ¬ Interrupts p y)) ∧
    ∀ l₁ y l₂ authorization P, l = l₁ ++ y :: l₂ →
      y.before.procs[p]? = some (.running (.result id authorization dto) P) →
      (y.move = .crash p ∨ ∃ o, y.move = .call p o) → (∀ x ∈ l₁ ++ [y], ¬ Records p id dto x) →
      y.after.store.tasks = y.before.store.tasks ∧
        y.after.store.events = y.before.store.events := by
  constructor
  · rintro l₁ x l₂ rfl hrec hflight t ht hid
    obtain ⟨authorization, γ, hγ, hrecording⟩ := exists_recording h hrec
    refine ⟨hrecording.isOver.2 t ht hid, ?_⟩
    cases hrecording.phase with
    | recording _ _ _ _ hp => exact absurd hp hflight
    | stored hl hevent =>
      refine ⟨fun _ => hl, fun _ => ?_⟩
      obtain ⟨e, he, heid, hends⟩ := hevent ⟨t, ht, hid⟩
      obtain ⟨δ, hδ⟩ := ledger_of_reaches h.reaches
      obtain ⟨s, hs⟩ := Option.ne_none_iff_exists'.mp hends
      refine ⟨e, he, heid, ?_⟩
      rw [hδ.events_match e he s hs t ht (hid.trans heid.symm)]
      exact hs
    | interrupted hl hnone =>
      obtain ⟨y, hy, hinterrupts⟩ := hl
      refine ⟨fun ⟨e, he, heid, hends⟩ => ?_, fun hall => absurd hinterrupts (hall y hy)⟩
      exact absurd ⟨e, he, heid, by simp [hends]⟩ hnone
  · rintro l₁ ⟨d, m, d'⟩ l₂ authorization P rfl hp hmove hnone
    obtain ⟨h₁, hm, -⟩ := h.split
    obtain ⟨γ, hγ, hunrecorded⟩ := exists_unrecorded p id authorization dto h₁
    have hbefore := hunrecorded (fun x hx => hnone x (List.mem_append_left _ hx)) P hp
    exact unchanged_of_unrecorded hγ hm hmove hp hbefore
      (hnone _ (List.mem_append_right _ List.mem_cons_self))

/-! ### Example runs -/

/-- A result is submitted for the claimed task, and its UPDATE has been made. -/
def updatedTask : List (proxy httpRetryService).Move :=
  claimedTask ++ [.spawn (.result sampleId (some "Bearer secret") (.completed [])), .call 2 {},
    .call 2 { time := 2000 }, .call 2 {}]

/-- The test for the UPDATE with an empty result. -/
def Await.isEmptySubmission (id : String) : Await → Bool
  | updateTask i (.submitCompleted _ []) => i == id
  | _ => false

/-- The step makes the UPDATE of program `p`, and the task has then completed. -/
def completes (p : ℕ) (id : String) (x : (proxy http).Transition) : Bool :=
  x.calls (Await.isEmptySubmission id) p && x.before.store.tasks.all (·.status == .processing) &&
    x.after.store.tasks.any (·.status == .completed)

theorem records_of_completes {x : (proxy http).Transition}
    (hm : x.before.move x.move = some x.after) (h : completes p id x = true) :
    Records p id (.completed []) x := by
  obtain ⟨c, m, c'⟩ := x
  simp only [completes, Bool.and_eq_true, List.all_eq_true, List.any_eq_true, beq_iff_eq] at h
  obtain ⟨⟨hcalls, hbefore⟩, t, ht, hstatus⟩ := h
  obtain ⟨o, y, hstep, hy⟩ := Transition.calls_eq_true.mp hcalls
  have hchanged : c'.store.tasks ≠ c.store.tasks := fun heq => by
    rw [heq] at ht
    rw [hbefore t ht] at hstatus
    cases hstatus
  unfold Await.isEmptySubmission at hy
  split at hy
  · next i now =>
    obtain rfl := beq_iff_eq.mp hy
    obtain ⟨r, hs⟩ := Config.perform_of_callOf hstep hm
    obtain ⟨e, -, hσ, -⟩ | ⟨v, -, hx, -⟩ | ⟨v, σ, -, hx, -, hσ⟩ := perform_cases hs
    · exact absurd (by rw [hσ]; rfl) hchanged
    · obtain ⟨-, hσ, -⟩ | ⟨_, -, -, -, -, -, rfl, -⟩ := Backend.updateTask_ok hx
      · exact absurd (by rw [hσ]) hchanged
      · exact records_of_exec (.completed []) hstep hx rfl
    · obtain ⟨-, rfl, -⟩ | ⟨_, -, -, -, -, -, rfl, -⟩ := Backend.updateTask_ok hx
      · exact absurd (by rw [hσ]; rfl) hchanged
      · exact records_of_exec (.completed []) hstep hx (by rw [hσ]; rfl)
  · cases hy

/-- The test whether a result request was answered 409. -/
def isRefused (c : (proxy http).Config) (p : ℕ) (id : String) : Bool :=
  match c.procs[p]? with
  | some (.running (.result taskId _ _) (.ret (.error (.conflict _)))) => taskId == id
  | _ => false

theorem exists_returned_of_isRefused {c : (proxy http).Config} (h : isRefused c p id = true) :
    ∃ authorization dto message,
      c.Returned p (.result id authorization dto) (.error (.conflict message)) := by
  unfold isRefused at h
  split at h
  · next authorization dto message hp =>
    obtain rfl := beq_iff_eq.mp h
    exact ⟨authorization, dto, message, hp⟩
  · cases h

/-- The advisory lock cannot be taken after the UPDATE. The task is completed without an event, and
the retry of the executor is answered 409. -/
theorem interrupted_result_lost :
    ¬ ∀ (http : HttpClient) (clock : Timestamp) (l : List (proxy http).Transition)
      (c : (proxy http).Config), Trace (initial http clock) l c →
      ∀ p id dto, (∃ x ∈ l, Records p id dto x) → ¬ c.InFlight p →
      ∀ q authorization dto' message,
        c.Returned q (.result id authorization dto') (.error (.conflict message)) →
        ∀ t ∈ c.store.tasks, t.id = id →
          ∃ e ∈ c.store.events, e.taskId = id ∧ e.ends = some t.status := by
  intro h
  obtain ⟨l, c, htrace, hcheck⟩ := Config.exists_trace_of_check (c := initial httpRetryService 0)
    (updatedTask ++ [.call 2 { fault := .failed },
      .spawn (.result sampleId (some "Bearer secret") (.completed [])), .call 3 {}])
    (fun l c => l.any (completes 2 sampleId) && !c.isInFlight 2 && isRefused c 3 sampleId &&
      c.store.events.isEmpty && c.store.tasks.any (·.id == sampleId)) (by decide)
  simp only [Bool.and_eq_true, Bool.not_eq_true', List.any_eq_true, List.isEmpty_iff,
    beq_iff_eq] at hcheck
  obtain ⟨⟨⟨⟨⟨x, hx, hcompletes⟩, hflight⟩, hrefused⟩, hevents⟩, t, ht, hid⟩ := hcheck
  obtain ⟨-, hm, -⟩ := htrace.reaches_of_mem hx
  obtain ⟨authorization, dto', message, hret⟩ := exists_returned_of_isRefused hrefused
  obtain ⟨e, he, -⟩ := h _ _ l c htrace 2 _ _ ⟨x, hx, records_of_completes hm hcompletes⟩
    (fun hp => by rw [Config.isInFlight_of_inFlight hp] at hflight; cases hflight) 3 authorization
    dto' message hret t ht hid
  rw [hevents] at he
  cases he

/-- The request is not interrupted, and its result has its event. -/
theorem uninterrupted_result_recorded :
    ∃ l c, Trace (initial httpRetryService 0) l c ∧ ∃ l₁ x l₂, l = l₁ ++ x :: l₂ ∧
      Records 2 sampleId (.completed []) x ∧ (∀ y ∈ x :: l₂, ¬ Interrupts 2 y) ∧
      ∃ e ∈ c.store.events, e.taskId = sampleId ∧ e.ends = some .completed := by
  obtain ⟨l, c, htrace, hcheck⟩ := Config.exists_trace_of_check (c := initial httpRetryService 0)
    (updatedTask ++ [.call 2 {}, .call 2 {}, .call 2 {}, .call 2 {}, .call 2 {}])
    (fun l c => l.any (completes 2 sampleId) && !c.isInFlight 2 &&
      c.store.events.any (fun e => e.taskId == sampleId && e.ends == some .completed) &&
      c.store.tasks.any fun t => t.id == sampleId && t.status == .completed) (by decide)
  simp only [Bool.and_eq_true, Bool.not_eq_true', List.any_eq_true, beq_iff_eq] at hcheck
  obtain ⟨⟨⟨⟨x, hx, hcompletes⟩, hflight⟩, e, he, heid, hends⟩, t, ht, hid, hs⟩ := hcheck
  obtain ⟨-, hm, -⟩ := htrace.reaches_of_mem hx
  obtain ⟨l₁, l₂, hl⟩ := List.append_of_mem hx
  have hrec := records_of_completes hm hcompletes
  have hiff := ((recorded_with_event_iff httpRetryService 0 l c htrace 2 sampleId
    (.completed [])).1 l₁ x l₂ hl hrec (fun hp => by
      rw [Config.isInFlight_of_inFlight hp] at hflight
      cases hflight) t ht hid).2
  exact ⟨l, c, htrace, l₁, x, l₂, hl, hrec, hiff.mp ⟨e, he, heid, by rw [hends, hs]⟩, e, he, heid,
    hends⟩

end LongRequestProxy
