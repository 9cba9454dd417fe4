import LongRequestProxy.Tasks.Lifecycle

/-!
# The outcomes of a dispatch

`DispatchProcessor.process` reverts a task to `PENDING` when its post rejects with an error that
is neither a `NonRetryableError` nor a `DispatchFailedError`. The client of the program rejects
with no other error. So with it no task goes back to `PENDING`, and none loses its deadline.

## Main definitions

* `dispatchOutcomes`: a dispatch with the client of the program does not await the revert.

## Main results

* `loop_rejects`: the errors with which the client rejects.
* `not_awaits_revert`: no dispatch is reverted.
* `tasks_go_forward`: what that means for the tasks.
-/

namespace LongRequestProxy

open Async Discipline Service Function

variable {clock : Timestamp} {c c' : (proxy httpRetryService).Config}

/-- A dispatch does not await the revert. Calls that touch no server do not throw. -/
abbrev dispatchOutcomes : Discipline (proxy httpRetryService) where
  Local := Unit
  start := ()
  next _ _ _ := ()
  awaits req _ x := (∃ id timeoutSeconds, req = .dispatch id timeoutSeconds) →
    ∀ id, x ≠ .updateTask id .dispatchRevert
  returns _ _ _ := True
  possible x r := x.isRemote = false → ∃ v, r = .ok v

section

variable {req : Request} {α : Type}

/-- A call that touches no server returns. -/
theorem outcomes_local {x : Await} {Q : x.Val → Unit → Prop} {E : JsError → Unit → Prop}
    (hlocal : x.isRemote = false) (hQ : ∀ v, Q v ()) :
    dispatchOutcomes.followsExcept req Q E (call x) () := by
  refine ⟨fun _ id => (by rintro rfl; cases hlocal), fun r hr => ?_⟩
  obtain ⟨v, rfl⟩ := hr hlocal
  exact hQ v

/-- A call other than the revert, whether or not it returns. -/
theorem outcomes_call {x : Await} {Q : x.Val → Unit → Prop} {E : JsError → Unit → Prop}
    (hx : ∀ id, x ≠ .updateTask id .dispatchRevert) (hQ : ∀ v, Q v ()) (hE : ∀ e, E e ()) :
    dispatchOutcomes.followsExcept req Q E (call x) () := by
  refine ⟨fun _ => hx, fun r _ => ?_⟩
  cases r with
  | ok v => exact hQ v
  | error e => exact hE e

/-- The error that ends the loop at once is one that the dispatch records. -/
theorem dispatchError_rejection {url : String} {attempt : ℕ} {err : HttpError} {e : JsError}
    (h : HttpRetryService.rejection url attempt err = some e) :
    (dispatchError e).isSome = true := by
  unfold HttpRetryService.rejection at h
  split at h
  · split at h
    · cases h
    · cases h
      rfl
  · split at h
    · cases h
    · cases h
      rfl

/-- **The client of the program rejects with errors that the dispatch records.** -/
theorem loop_rejects (url : String) (body : Json) (authorization : String)
    (opts : HttpRetryOptions) (left attempt : ℕ) (lastError : String)
    (lastStatusCode : Option ℕ) :
    dispatchOutcomes.followsExcept req (fun _ _ => True)
      (fun e _ => (dispatchError e).isSome = true)
      (HttpRetryService.loop url body authorization opts left attempt lastError lastStatusCode)
      () := by
  induction left generalizing attempt lastError lastStatusCode with
  | zero => exact rfl
  | succ left ih =>
    unfold HttpRetryService.loop
    refine followsExcept_bind (outcomes_local rfl fun reply => ?_)
    cases reply with
    | ok data => trivial
    | error err =>
      dsimp only
      split
      · next e he => exact dispatchError_rejection he
      · split
        · exact ih ..
        · refine followsExcept_bind (outcomes_local rfl fun jitter => ?_)
          exact followsExcept_bind (outcomes_local rfl fun _ => ih ..)

/-- The error branch of a dispatch, for an error that it records. -/
theorem onError_follows {taskId : String} {err : JsError}
    (herr : (dispatchError err).isSome = true) :
    dispatchOutcomes.followsExcept req (fun _ _ => True) (fun _ _ => True)
      (DispatchProcessor.onError taskId err) () := by
  unfold DispatchProcessor.onError
  split
  · refine followsExcept_bind (outcomes_local rfl fun now => ?_)
    exact followsExcept_bind (outcomes_call (by simp) (fun _ => trivial) fun _ => trivial)
  · next hnone =>
    rw [hnone] at herr
    cases herr

theorem process_follows (taskId : String) (timeoutSeconds : ℤ) :
    dispatchOutcomes.followsExcept req (fun _ _ => True) (fun _ _ => True)
      (DispatchProcessor.process httpRetryService taskId timeoutSeconds) () := by
  refine followsExcept_bind (outcomes_local rfl fun now => ?_)
  refine followsExcept_bind (outcomes_call (by simp) (fun row => ?_) fun _ => trivial)
  cases row with
  | none => trivial
  | some task =>
    refine followsExcept_tryCatch (followsExcept_bind ?_)
    exact followsExcept_mono (loop_rejects ..) (fun _ _ _ => trivial) fun e _ he =>
      onError_follows he

end

theorem dispatchOutcomes_sound : dispatchOutcomes.Sound where
  body req := by
    by_cases hreq : ∃ id timeoutSeconds, req = .dispatch id timeoutSeconds
    · obtain ⟨id, timeoutSeconds, rfl⟩ := hreq
      have hbody : dispatchOutcomes.followsExcept (.dispatch id timeoutSeconds)
          (fun _ _ => True) (fun _ _ => True)
          ((Request.dispatch id timeoutSeconds).run httpRetryService) () :=
        followsExcept_bind (followsExcept_mono (process_follows id timeoutSeconds)
          (fun _ _ _ => trivial) fun _ _ h => h)
      exact follows_mono hbody fun _ _ _ => trivial
    · exact follows_of_forall (fun _ _ hdispatch => absurd hdispatch hreq) fun _ _ => trivial
  reply p o σ x r σ' h hlocal := by
    obtain ⟨e, rfl, -, hx⟩ | ⟨v, rfl, -⟩ | ⟨v, σ₁, rfl, -, hf, -⟩ := perform_cases h
    · cases x <;> simp [Await.isRemote] at hlocal <;> simp [perform, Await.isRemote, exec] at h
    · exact ⟨v, rfl⟩
    · cases x <;> simp [Await.isRemote] at hlocal <;> simp [perform, Await.isRemote, exec] at h

/-- **No dispatch is reverted** by the program with its own client, in any run. -/
theorem not_awaits_revert (h : Reaches (fun _ _ => True) (initial httpRetryService clock) c)
    (m : (proxy httpRetryService).Move) (p : ℕ) (o : Oracle) (id : String) :
    c.callOf m ≠ some (p, o, .updateTask id .dispatchRevert) := by
  intro hcall
  obtain ⟨-, req, k, hp⟩ := Config.callOf_eq_some.mp hcall
  -- only a dispatch makes this write
  obtain ⟨γ, -, hobeys⟩ := exists_observed h
  obtain ⟨-, n, u, rfl, -⟩ := hobeys.awaits hp
  obtain ⟨δ, hδ⟩ := exists_runs (D := dispatchOutcomes)
    ⟨initial httpRetryService clock, fun _ => ()⟩ h
  have hawaits := (dispatchOutcomes_sound.obeys hδ Observed.obeys_of_no_procs).awaits hp
  exact hawaits ⟨id, n, rfl⟩ id rfl

theorem never_reverts (h : Reaches (fun _ _ => True) (initial httpRetryService clock) c)
    (m : (proxy httpRetryService).Move) : revertsDispatch c m = false := by
  by_contra hrev
  obtain ⟨p, o, w, t, -, hcall, hw, -⟩ := makesWrite_iff.mp (eq_true_of_ne_false hrev)
  obtain rfl : w = .dispatchRevert := by
    cases w <;> simp [TaskWrite.isDispatchRevert] at hw ⊢
  exact not_awaits_revert h m p o t.id hcall

/-- How far along its life a task is. -/
def TaskStage.rank : TaskStage → ℕ
  | .unborn => 0
  | .at .pending => 1
  | .at .processing => 2
  | .at _ => 3
  | .gone => 4

/-- Without reverts every edge leads on. -/
theorem TaskStage.rank_lt {a b : TaskStage} (h : TaskStage.Step False a b) : a.rank < b.rank := by
  cases h with
  | create | claim | cancelPending => decide
  | revert h => exact h.elim
  | finish s hs => cases s <;> first | decide | cases hs
  | delete s => cases s <;> decide

theorem stages_refines_forward (id : String) :
    (proxy httpRetryService).Refines (fun _ _ => True) (initial httpRetryService clock)
      (stages False) fun c => (lifeOf c.store id).stage :=
  stages_refines (fun _ m hreach _ hrev => by
    rw [never_reverts hreach m] at hrev
    cases hrev) id

/-- **Tasks go forward.** With the client of the program every task that has not ended has a
deadline, in every state reached, and between two states of a run the status of every task follows
the edges without the revert: it never goes back. -/
theorem tasks_go_forward (clock : Timestamp) (c c' : (proxy httpRetryService).Config)
    (hc : Reaches (fun _ _ => True) (initial httpRetryService clock) c)
    (h : Reaches (fun _ _ => True) c c') :
    (∀ t ∈ c.store.tasks, t.status = .pending ∨ t.status = .processing → t.expiresAt ≠ none) ∧
    ∀ id, Relation.ReflTransGen (TaskStage.Step False) (lifeOf c.store id).stage
        (lifeOf c'.store id).stage ∧
      (lifeOf c.store id).stage.rank ≤ (lifeOf c'.store id).stage.rank := by
  refine ⟨fun t ht => ?_, fun id => ?_⟩
  · have hreverts : Reaches (fun d m => revertsDispatch d m = false)
        (initial httpRetryService clock) c :=
      hc.mono_of_reaches fun d m hd _ => never_reverts hd m
    exact ((reaches_hasDeadline hreverts).committed t ht).expiresAt
  · exact ⟨(stages_refines_forward id).run hc h,
      (stages_refines_forward id).monotone TaskStage.rank
        (fun _ _ hab => (TaskStage.rank_lt hab).le) hc h⟩

/-- A request that cancels the claimed task of the run. -/
def cancelClaimed : List (proxy httpRetryService).Move :=
  [.spawn (.cancel sampleId), .call 2 { time := 2000 }, .call 2 {}, .call 2 {}, .call 2 {},
    .call 2 {}, .call 2 {}]

/-- The claimed task has a deadline, and goes on to be cancelled. -/
theorem claimed_task_goes_forward : ∃ c c', ∃ t ∈ c.store.tasks,
    Reaches (fun _ _ => True) (initial httpRetryService 0) c ∧ Reaches (fun _ _ => True) c c' ∧
      t.expiresAt ≠ none ∧ (lifeOf c'.store sampleId).stage = .at .cancelled ∧
      (lifeOf c.store sampleId).stage.rank ≤ 3 := by
  obtain ⟨c, hc, hcheck⟩ : ∃ c, Reaches (fun _ _ => True) (initial httpRetryService 0) c ∧
      ((c.store.tasks.any fun t => t.status == .processing) &&
        (c.replay (fun _ _ => true) cancelClaimed).any fun d =>
          decide ((lifeOf d.store sampleId).stage = .at .cancelled)) = true :=
    exists_reaches_of_replay (fun _ _ => true) (claimRun httpRetryService) _
      (fun _ _ _ => trivial) (by decide)
  simp only [Bool.and_eq_true, List.any_eq_true, beq_iff_eq] at hcheck
  obtain ⟨⟨t, ht, hs⟩, hlate⟩ := hcheck
  obtain ⟨c', hc', hend⟩ := exists_reaches_of_replay (fun _ _ => true) cancelClaimed _
    (fun _ _ _ => trivial) hlate
  have hend := of_decide_eq_true hend
  obtain ⟨hdeadlines, hstages⟩ := tasks_go_forward 0 c c' hc hc'
  refine ⟨c, c', t, ht, hc, hc', hdeadlines t ht (.inr hs), hend, ?_⟩
  have hrank := (hstages sampleId).2
  rwa [hend] at hrank

end LongRequestProxy
