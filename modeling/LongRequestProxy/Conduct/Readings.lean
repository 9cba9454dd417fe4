import LongRequestProxy.Conduct.Histories
import LongRequestProxy.Store.PlainCalls

/-!
# The instants that the functions use

Every instant that a function writes to a row, compares with a deadline or derives a cutoff from is
one that it has read from its clock before. When the clocks of the processes show the time of the
servers, such an instant has passed.

## Main definitions

* `Read`: a function has read an instant from its clock.
* `TaskWrite.instant?`: the instant that a write carries.
* `readings`: the calls use instants that were read, as a discipline.
* `readsClock`, `Passed`: the clocks show the time of the servers, and what was read has passed.

## Main results

* `dated_of_runs`: the instant of a call was read.
* `passed_of_runs`: what was read has passed.
-/

namespace LongRequestProxy

open Async Service Discipline

variable {http : HttpClient} {clock : Timestamp}
  {allow : (proxy http).Config → (proxy http).Move → Prop}

/-! ### The discipline -/

/-- The function has read the instant from its clock. -/
def Read (log : History) (time : Timestamp) : Prop :=
  (⟨.now, .ok time⟩ : (x : Await) × Reply x) ∈ log

/-- The instant that a write carries. -/
def TaskWrite.instant? : TaskWrite → Option Timestamp
  | dispatchClaim time _ | dispatchFailure time _ | submitCompleted time _ | submitFailed time _
  | cancel time | expire time => some time
  | dispatchRevert | progress _ => none

/-- The cutoff of a retention job that was started at an instant. -/
def retentionCutoff (time : Timestamp) (retentionDays : ℤ) : Timestamp :=
  time.addSeconds (-(retentionDays * 86400))

/-- The call uses an instant that the function has read. -/
def Await.Dated (req : Request) (log : History) : Await → Prop
  | insertTask _ time _ | txCancelTask _ time | txExpireTasks time _ => Read log time
  | updateTask _ w => ∀ time, w.instant? = some time → Read log time
  | selectOldTasks cutoff _ => ∃ retentionDays batches time, req = .retain retentionDays batches ∧
    Read log time ∧ cutoff = retentionCutoff time retentionDays
  | _ => True

/-- The functions use instants that they have read. -/
abbrev readings (http : HttpClient) : Discipline (proxy http) :=
  remembering (proxy http) (fun req log x => x.Dated req log) fun _ _ => True

/-- A function that does so when it is started after `log`, and returns with `Q`. -/
abbrev Reads (http : HttpClient) (req : Request) {α : Type} (Q : α → History → Prop) (P : Async α)
    (log : History) : Prop :=
  (readings http).followsExcept req Q (fun _ _ => True) P log

section Functions

variable {req : Request} {log : History} {α β : Type} {Q : α → History → Prop} {time : Timestamp}

theorem reads_call {x : Await} {Q : x.Val → History → Prop} (hx : x.Dated req log)
    (hQ : ∀ v, Q v (log ++ [⟨x, .ok v⟩])) : Reads http req Q (call x) log := by
  refine ⟨hx, fun r _ => ?_⟩
  cases r with
  | ok v => exact hQ v
  | error e => trivial

theorem reads_seq {P : Async α} {f : α → Async β} {M : α → History → Prop}
    {Q : β → History → Prop} (hP : Reads http req M P log)
    (hf : ∀ a log, M a log → Reads http req Q (f a) log) : Reads http req Q (P >>= f) log :=
  followsExcept_bind (followsExcept_mono hP hf fun _ _ h => h)

theorem reads_tryCatch {P : Async α} {f : JsError → Async α} (hP : Reads http req Q P log)
    (hf : ∀ e log, Reads http req Q (f e) log) : Reads http req Q (tryCatch P f) log :=
  followsExcept_tryCatch (followsExcept_mono hP (fun _ _ h => h) fun e log _ => hf e log)

/-- The call uses no instant. -/
def Await.IsUndated : Await → Prop
  | insertTask .. | txCancelTask .. | txExpireTasks .. | selectOldTasks .. => False
  | updateTask _ w => w.instant? = none
  | _ => True

theorem Await.IsUndated.dated {x : Await} (hx : x.IsUndated) : x.Dated req log := by
  cases x with
  | updateTask id w =>
    intro time hw
    have hnone : w.instant? = none := hx
    rw [hnone] at hw
    cases hw
  | insertTask dto time token => cases hx
  | txCancelTask id time => cases hx
  | txExpireTasks time limit => cases hx
  | selectOldTasks cutoff limit => cases hx
  | _ => trivial

/-- A function whose calls use no instant. -/
theorem reads_of_uses {P : Async α} (hP : P.run.Uses Await.IsUndated)
    (hQ : ∀ a log', log ⊆ log' → Q a log') : Reads http req Q P log := by
  refine Discipline.follows_of_uses (I := fun log' : History => log ⊆ log') hP
    (fun x log' hx hsub =>
      ⟨hx.dated, fun r _ => List.Subset.trans hsub (List.subset_append_left _ _)⟩)
    (List.Subset.refl _) fun r log' hsub => ?_
  cases r with
  | ok a => exact hQ a log' hsub
  | error e => trivial

/-- The clock is read before the rest of a function. -/
theorem reads_now {f : Timestamp → Async α}
    (hf : ∀ time log, Read log time → Reads http req Q (f time) log) :
    Reads http req Q (call .now >>= f) log :=
  followsExcept_bind (reads_call trivial fun time =>
    hf time _ (List.mem_append_right _ (List.mem_singleton_self _)))

theorem Read.snoc (h : Read log time) {x : Await} (r : Reply x) : Read (log ++ [⟨x, r⟩]) time :=
  List.mem_append_left _ h

/-! ### The functions -/

theorem releaseQuietly_undated (key : Option String) :
    (TasksService.releaseQuietly key).run.Uses Await.IsUndated := by
  cases key with
  | none => exact uses_pure ()
  | some key => exact uses_tryCatch (Uses.call trivial) fun _ => uses_pure ()

theorem reads_createTask (dto : CreateTaskDto) (baseUrl : String) (key : Option String) :
    Reads http req (fun _ _ => True) (TasksService.createTask dto baseUrl key) log := by
  refine reads_seq (M := fun _ _ => True) (reads_tryCatch (reads_now fun time log htime => ?_)
    fun e log => reads_of_uses (uses_bind (releaseQuietly_undated key) fun _ => uses_throw e)
      fun _ _ _ => trivial) fun task log _ => reads_of_uses ?_ fun _ _ _ => trivial
  · exact followsExcept_bind (reads_call trivial fun token =>
      reads_call (htime.snoc _) fun _ => trivial)
  · refine uses_bind (uses_tryCatch (Uses.call trivial) fun e => ?_) fun _ => uses_bind ?_
      fun _ => uses_pure _
    · exact uses_bind (uses_tryCatch (Uses.call trivial) fun _ => uses_pure ()) fun _ =>
        uses_bind (releaseQuietly_undated key) fun _ => uses_throw e
    · cases key with
      | none => exact uses_pure ()
      | some key => exact uses_tryCatch (Uses.call trivial) fun _ => uses_pure ()

theorem reads_create (dto : CreateTaskDto) (baseUrl : String) :
    Reads http req (fun _ _ => True) (TasksService.create dto baseUrl) log := by
  unfold TasksService.create
  split
  · exact reads_createTask dto baseUrl none
  · refine reads_seq (M := fun _ _ => True) (followsExcept_bind
      (reads_call trivial fun _ => trivial)) fun slot log _ => ?_
    cases slot with
    | acquired => exact reads_createTask dto baseUrl _
    | pending => trivial
    | duplicate taskId => trivial

theorem insertEventInTx_undated (input : InsertEventInput) :
    (EventsRepository.insertEventInTx input).run.Uses Await.IsUndated :=
  uses_bind (Uses.call trivial) fun _ => uses_bind (Uses.call trivial) fun _ => Uses.call trivial

theorem reads_cancel (id : String) :
    Reads http req (fun _ _ => True) (TasksService.cancel id) log := by
  refine reads_seq (M := fun _ _ => True) (reads_now fun time log htime =>
    followsExcept_bind (reads_call htime fun row => ?_)) fun outcome log _ =>
      reads_of_uses ?_ fun _ _ _ => trivial
  · cases row with
    | none =>
      exact reads_of_uses (uses_bind (Uses.call trivial) fun _ => uses_pure _) fun _ _ _ => trivial
    | some task =>
      exact reads_of_uses (uses_bind (insertEventInTx_undated _) fun _ =>
        uses_bind (Uses.call trivial) fun _ => uses_pure _) fun _ _ _ => trivial
  · cases outcome with
    | none =>
      refine uses_bind (P := call (.findTask id)) (Uses.call trivial) fun row => ?_
      cases row with
      | none => exact uses_throw _
      | some task => exact uses_throw _
    | some outcome =>
      obtain ⟨task, event⟩ := outcome
      refine uses_bind (P := call (.publish (taskChannel id) event)) (Uses.call trivial)
        fun _ => ?_
      split
      · exact Uses.call trivial
      · exact uses_pure ()

theorem reads_submitResult (task : TaskSelect) (dto : SubmitResultDto) :
    Reads http req (fun _ _ => True) (ExecutorService.submitResult task dto) log := by
  refine reads_now fun time log htime => followsExcept_bind (reads_call ?_ fun row => ?_)
  · intro time' hw
    obtain rfl : time = time' := by cases dto <;> exact Option.some.inj hw
    exact htime
  · cases row with
    | none => trivial
    | some row =>
      refine reads_of_uses (uses_bind (uses_bind (insertEventInTx_undated _) fun _ =>
        uses_bind (Uses.call trivial) fun _ => uses_pure _) fun event =>
          uses_bind (Uses.call trivial) fun _ => ?_) fun _ _ _ => trivial
      split
      · exact Uses.call trivial
      · exact uses_pure ()

theorem updateProgress_undated (task : TaskSelect) (dto : UpdateProgressDto) :
    (ExecutorService.updateProgress task dto).run.Uses Await.IsUndated :=
  uses_bind (Uses.call rfl) fun _ => uses_bind (uses_bind (insertEventInTx_undated _) fun _ =>
    uses_bind (Uses.call trivial) fun _ => uses_pure _) fun _ => Uses.call trivial

theorem Await.IsHttp.isUndated {x : Await} (hx : x.IsHttp) : x.IsUndated := by
  cases x <;> trivial

theorem Await.IsNotification.isUndated {x : Await} (hx : x.IsNotification) : x.IsUndated := by
  cases x <;> trivial

theorem reads_dispatch (taskId : String) (timeoutSeconds : ℤ) :
    Reads http req (fun _ _ => True) (DispatchProcessor.process http taskId timeoutSeconds)
      log := by
  refine reads_now fun time log htime => followsExcept_bind (reads_call ?_ fun row => ?_)
  · rintro time' ⟨⟩
    exact htime
  cases row with
  | none => trivial
  | some task =>
    refine reads_tryCatch (reads_of_uses (uses_bind ((http.post_uses ..).mono fun _ =>
      Await.IsHttp.isUndated) fun _ => uses_pure ()) fun _ _ _ => trivial) fun err log => ?_
    unfold DispatchProcessor.onError
    split
    · refine reads_now fun time log htime => followsExcept_bind (reads_call ?_ fun _ => trivial)
      rintro time' ⟨⟩
      exact htime
    · exact reads_of_uses (uses_bind (uses_tryCatch (uses_bind (Uses.call rfl) fun _ =>
        uses_pure ()) fun _ => uses_pure ()) fun _ => uses_throw _) fun _ _ _ => trivial

theorem publishAll_undated (events : List TaskEventSelect) :
    (TimeoutSweeperProcessor.publishAll events).run.Uses Await.IsUndated := by
  induction events with
  | nil => exact uses_pure ()
  | cons event events ih =>
    exact uses_bind (uses_tryCatch (Uses.call trivial) fun _ => uses_pure ()) fun _ => ih

theorem reads_sweep (n : ℕ) :
    Reads http req (fun _ _ => True) (TimeoutSweeperProcessor.process n) log := by
  induction n generalizing log with
  | zero => trivial
  | succ n ih =>
    refine reads_seq (M := fun _ _ => True) (reads_now fun time log htime =>
      followsExcept_bind (reads_call htime fun ids => ?_)) fun batch log _ => ?_
    · split
      · exact reads_of_uses (uses_bind (Uses.call trivial) fun _ => uses_pure _)
          fun _ _ _ => trivial
      · exact reads_of_uses (uses_bind (Uses.call trivial) fun _ =>
          uses_bind (Uses.call trivial) fun _ => uses_bind (Uses.call trivial) fun _ =>
            uses_pure _) fun _ _ _ => trivial
    · split
      · trivial
      · exact reads_seq (M := fun _ _ => True)
          (reads_of_uses (publishAll_undated _) fun _ _ _ => trivial) fun _ _ _ => ih

theorem reads_deleteBatches {retentionDays : ℤ} {batches n : ℕ}
    (hreq : req = .retain retentionDays batches) (htime : Read log time) (totals : ℕ × ℕ) :
    Reads http req (fun _ _ => True)
      (MaintenanceRepository.deleteBatches (retentionCutoff time retentionDays) n totals) log := by
  induction n generalizing log totals with
  | zero => trivial
  | succ n ih =>
    refine followsExcept_bind (reads_call ⟨retentionDays, batches, time, hreq, htime, rfl⟩
      fun ids => ?_)
    split
    · trivial
    · have hdelete : (MaintenanceRepository.deleteBatch ids).run.Uses Await.IsUndated :=
        uses_bind (Uses.call trivial) fun _ => uses_bind (Uses.call trivial) fun _ =>
          uses_bind (Uses.call trivial) fun _ => uses_pure _
      refine reads_seq (M := fun _ log => Read log time)
        (reads_of_uses hdelete fun _ log' hsub => hsub (htime.snoc _)) fun deleted log' htime' => ?_
      dsimp only
      split
      · exact ih htime' _
      · trivial

theorem reads_run (http : HttpClient) (req : Request) :
    Reads http req (fun _ _ => True) (req.run http) [] := by
  cases req with
  | create dto baseUrl => exact reads_seq (reads_create dto baseUrl) fun _ _ _ => trivial
  | cancel id => exact reads_seq (reads_cancel id) fun _ _ _ => trivial
  | result id authorization dto =>
    refine reads_seq (M := fun _ _ => True) (reads_of_uses ((canActivate_uses _ _).mono fun _ =>
      Await.IsNotification.isUndated) fun _ _ _ => trivial) fun task log _ => ?_
    exact reads_seq (reads_submitResult task dto) fun _ _ _ => trivial
  | progress id authorization dto =>
    refine reads_seq (M := fun _ _ => True) (reads_of_uses ((canActivate_uses _ _).mono fun _ =>
      Await.IsNotification.isUndated) fun _ _ _ => trivial) fun task log _ => ?_
    exact reads_of_uses (uses_bind (updateProgress_undated task dto) fun _ => uses_pure _)
      fun _ _ _ => trivial
  | dispatch id timeoutSeconds =>
    exact reads_seq (reads_dispatch id timeoutSeconds) fun _ _ _ => trivial
  | notifyCancel id =>
    exact reads_of_uses (uses_bind ((notifyCancel_uses http id).mono fun _ =>
      Await.IsNotification.isUndated) fun _ => uses_pure _) fun _ _ _ => trivial
  | notifyWebhook id =>
    exact reads_of_uses (uses_bind ((notifyWebhook_uses http id).mono fun _ =>
      Await.IsNotification.isUndated) fun _ => uses_pure _) fun _ _ _ => trivial
  | sweep batches => exact reads_seq (reads_sweep batches) fun _ _ _ => trivial
  | retain days batches =>
    refine reads_seq (M := fun _ _ => True) (reads_now fun time log htime => ?_)
      fun _ _ _ => trivial
    exact reads_deleteBatches rfl htime _

end Functions

theorem readings_sound (http : HttpClient) : (readings http).Sound where
  body req := follows_mono (reads_run http req) fun _ _ _ => trivial
  reply _ _ _ _ _ _ _ := trivial

/-! ### Runs -/

variable {s : (history (proxy http)).Observed} {p : ℕ} {req : Request} {x : Await}
  {k : Reply x → Prog Await Reply (Except JsError Response)} {time : Timestamp}

/-- **Dated calls.** The instant that a call uses was read by the function that makes the call. -/
theorem dated_of_runs (h : Runs allow (recorded http clock) s)
    (hp : s.config.procs[p]? = some (.running req (.call x k))) : x.Dated req (s.locals p) := by
  have hobeys := (readings_sound http).obeys (runs_summarised (readings http) h)
    Observed.obeys_of_no_procs
  have hawaits : (readings http).awaits _ ((readings http).summary (s.locals p)) x :=
    hobeys.awaits hp
  rwa [summary_remembering] at hawaits

/-- Whoever reads a clock with the move is told the time of the servers. -/
def readsClock (c : (proxy http).Config) (m : (proxy http).Move) : Bool :=
  match c.callOf m with
  | some (_, o, .now) => o.time == c.store.clock
  | _ => true

/-- The clock of the servers does not go back. -/
theorem clock_le_of_move {c c' : (proxy http).Config} {m : (proxy http).Move}
    (hm : c.move m = some c') : c.store.clock ≤ c'.store.clock := by
  obtain ⟨req, rfl, -, rfl⟩ | ⟨p, o, req, x, k, r, σ, rfl, hp, hs, rfl⟩ |
    ⟨p, req, x, k, rfl, -, rfl⟩ | ⟨time, σ, rfl, hs, rfl⟩ := Config.move_cases hm
  · exact le_refl _
  · obtain ⟨e, -, rfl, -⟩ | ⟨v, -, hx, -⟩ | ⟨v, σ₁, -, hx, -, rfl⟩ := perform_cases hs
    · exact le_refl _
    · exact (exec_clock hx).ge
    · exact (exec_clock hx).ge
  · exact le_refl _
  · simp only [Backend.tick] at hs
    split at hs
    · next hle =>
      cases hs
      exact hle
    · cases hs

variable {s' : (history (proxy http)).Observed} {m : (proxy http).Move}

/-- No function has read an instant that is still to come. -/
def Passed (s : (history (proxy http)).Observed) : Prop :=
  ∀ p time, Read (s.locals p) time → time ≤ s.config.store.clock

theorem passed_of_move (hm : s.move m = some s') (hclock : readsClock s.config m = true)
    (hs : Passed s) : Passed s' := by
  intro p time htime
  have hle := clock_le_of_move (Observed.config_move hm)
  obtain ⟨heq, -⟩ | ⟨o, req, x, k, r, rfl, hp, hx, heq⟩ | ⟨-, heq⟩ := Observed.locals_cases hm p
  · rw [heq] at htime
    exact (hs p time htime).trans hle
  · rw [heq] at htime
    rcases List.mem_append.mp htime with htime | htime
    · exact (hs p time htime).trans hle
    · -- the clock is read with this move
      cases List.mem_singleton.mp htime
      have hcall : s.config.callOf (.call p o) = some (p, o, .now) :=
        Config.callOf_eq_some.mpr ⟨rfl, req, k, hp⟩
      simp only [readsClock, hcall, beq_iff_eq] at hclock
      have hread : o.time = time := by
        have hexec := exec_of_perform_ok (p := p) (c := .now) hx
        simp only [exec, Option.some.injEq, Except.ok.injEq, Prod.mk.injEq] at hexec
        exact hexec.1
      rwa [← hread, hclock]
  · rw [heq] at htime
    cases htime

/-- **Readings have passed.** When the clocks show the time of the servers, no function has read an
instant that is still to come. -/
theorem passed_of_runs (h : Runs (fun d m => readsClock d m = true) (recorded http clock) s) :
    Passed s :=
  h.invariant (fun _ _ _ _ hclock hm hs => passed_of_move hm hclock hs)
    (fun p time htime => by cases htime)

end LongRequestProxy
