import LongRequestProxy.HttpRetry.Specification
import LongRequestProxy.System

/-!
# Transient failures

The retry service is meant to go on after every transient failure: a 5xx status, 429, a network
error, or the expiry of its own timeout. Its two sets leave out the other 5xx statuses, and the
error with which the timeout rejects has neither a status nor a code.

## Main definitions

* `HttpError.isTransient`: the failures that are transient by the contract of the service.
* `HttpError.isUnlisted`: those of them that end the loop.
* `GoesOn`: no transient failure ends the loop before the attempts are used up.
* `dispatchWorld`: the world in which a dispatch runs.

## Main results

* `HttpError.isTransient_iff`: what the two sets leave out.
* `HttpRetryService.goesOn_iff`: when the service goes on.
* `transient_retried_iff`: the same, with its consequence for a dispatch.
-/

namespace LongRequestProxy

open Async

/-! ### Transient failures -/

/-- The `TimeoutError` of rxjs: it has neither a response nor a code. -/
def rxjsTimeoutError : HttpError := { message := "Timeout has occurred" }

namespace HttpError

/-- A failure that is transient by the contract of the service. -/
def isTransient (err : HttpError) : Bool :=
  match err.status with
  | some statusCode => statusCode == 429 || (500 ≤ statusCode && statusCode ≤ 599)
  | none => isRetryableNetworkError err || err == rxjsTimeoutError

/-- A transient failure that is in neither set: a rare 5xx status, or the expiry of the timeout. -/
def isUnlisted (err : HttpError) : Bool :=
  match err.status with
  | some statusCode =>
    (500 ≤ statusCode && statusCode ≤ 599) && !retryableStatusCodes.contains statusCode
  | none => err == rxjsTimeoutError

/-- The two sets leave out exactly the unlisted failures. -/
theorem isTransient_iff (err : HttpError) :
    err.isTransient = true ↔
      HttpOutcome.isRetryable (.error err) = true ∨ err.isUnlisted = true := by
  unfold isTransient isUnlisted HttpOutcome.isRetryable
  cases hs : err.status with
  | none => simp [hs]
  | some statusCode =>
    simp [hs, retryableStatusCodes]
    omega

/-- No failure is both. -/
theorem isRetryable_of_isUnlisted {err : HttpError} (h : err.isUnlisted = true) :
    HttpOutcome.isRetryable (.error err) = false := by
  unfold isUnlisted at h
  unfold HttpOutcome.isRetryable
  cases hs : err.status with
  | none =>
    obtain rfl : err = rxjsTimeoutError := by simpa [hs] using h
    rfl
  | some statusCode =>
    simp only [hs, Bool.and_eq_true, Bool.not_eq_true'] at h
    simp only [hs, h.2]

end HttpError

/-! ### The loop -/

namespace HttpRetryService

variable {url : String} {body : Json} {authorization : String} {opts : HttpRetryOptions}
  {outcomes : ℕ → HttpOutcome} {jitters : ℕ → Fin 200}

theorem firstFinal_eq_some {n k : ℕ} :
    firstFinal outcomes 0 n = some k ↔ (outcomes k).isRetryable = false ∧ k < n ∧
      ∀ j < k, (outcomes j).isRetryable = true := by
  unfold firstFinal
  rw [← List.range_eq_range', List.find?_range_eq_some]
  simp

/-- The loop makes an attempt when it has attempts left and all outcomes before are retryable. -/
theorem lt_requests_iff {j : ℕ} : j < (specified url opts outcomes).2 ↔
    j < opts.attempts ∧ ∀ i < j, (outcomes i).isRetryable = true := by
  unfold specified
  cases hf : firstFinal outcomes 0 opts.attempts with
  | none =>
    have hall : ∀ i < opts.attempts, (outcomes i).isRetryable = true := by
      unfold firstFinal at hf
      rw [← List.range_eq_range', List.find?_eq_none] at hf
      simpa using hf
    exact ⟨fun hj => ⟨hj, fun i hi => hall i (hi.trans hj)⟩, And.left⟩
  | some k =>
    obtain ⟨hk, hkn, hbefore⟩ := firstFinal_eq_some.mp hf
    constructor
    · intro hj
      have hj : j ≤ k := Nat.le_of_lt_succ hj
      exact ⟨hj.trans_lt hkn, fun i hi => hbefore i (hi.trans_le hj)⟩
    · rintro ⟨-, hall⟩
      by_contra hj
      have hkj : k < j := Nat.lt_of_succ_le (Nat.not_lt.mp hj)
      rw [hall k hkj] at hk
      cases hk

/-- An attempt that succeeds ends the loop with its data. -/
theorem specified_of_ok {j : ℕ} {data : Json} (hj : j < opts.attempts)
    (hbefore : ∀ i < j, (outcomes i).isRetryable = true) (ho : outcomes j = .ok data) :
    (specified url opts outcomes).1 = .ok data := by
  have hfinal : firstFinal outcomes 0 opts.attempts = some j :=
    firstFinal_eq_some.mpr ⟨by rw [ho]; rfl, hj, hbefore⟩
  simp only [specified, hfinal, ending, ho]

end HttpRetryService

/-- No transient failure ends the loop before the attempts are used up: after one at attempt `j`
the next request is made, and its data is returned if it succeeds. -/
def GoesOn (url : String) (body : Json) (authorization : String) (opts : HttpRetryOptions)
    (outcomes : ℕ → HttpOutcome) (jitters : ℕ → Fin 200) : Prop :=
  ∀ result log, (HttpRetryService.post url body authorization opts).run.runAlone
      (httpWorld outcomes jitters) [] = some (result, log) →
    ∀ j err, j + 1 < opts.attempts → j < log.countP HttpAction.isRequest →
      outcomes j = .error err → err.isTransient = true →
      j + 1 < log.countP HttpAction.isRequest ∧
        ∀ data, outcomes (j + 1) = .ok data → result = .ok data

/-- None of the attempts before the last ends with an unlisted failure, as far as they are made. -/
def AllListed (opts : HttpRetryOptions) (outcomes : ℕ → HttpOutcome) : Prop :=
  ∀ j err, j + 1 < opts.attempts → (∀ i < j, (outcomes i).isRetryable = true) →
    outcomes j = .error err → err.isUnlisted = false

namespace HttpRetryService

theorem goesOn_iff (url : String) (body : Json) (authorization : String) (opts : HttpRetryOptions)
    (outcomes : ℕ → HttpOutcome) (jitters : ℕ → Fin 200) :
    GoesOn url body authorization opts outcomes jitters ↔ AllListed opts outcomes := by
  unfold GoesOn
  rw [post_runAlone]
  constructor
  · intro h j err hj hbefore ho
    by_contra hun
    have hun : err.isUnlisted = true := by simpa using hun
    have hmade : j < (specified url opts outcomes).2 :=
      lt_requests_iff.mpr ⟨Nat.lt_of_succ_lt hj, hbefore⟩
    have hnext := (h _ _ rfl j err hj (by rwa [countP_isRequest_attemptLog]) ho
      ((HttpError.isTransient_iff err).mpr (.inr hun))).1
    rw [countP_isRequest_attemptLog] at hnext
    have := (lt_requests_iff.mp hnext).2 j (Nat.lt_succ_self j)
    rw [ho, HttpError.isRetryable_of_isUnlisted hun] at this
    cases this
  · intro h result log hrun j err hj hmade ho htransient
    cases hrun
    rw [countP_isRequest_attemptLog] at hmade ⊢
    obtain ⟨-, hbefore⟩ := lt_requests_iff.mp hmade
    have hretry : (outcomes j).isRetryable = true := by
      rw [ho]
      refine ((HttpError.isTransient_iff err).mp htransient).resolve_right fun hun => ?_
      rw [h j err hj hbefore ho] at hun
      cases hun
    have hbefore' : ∀ i < j + 1, (outcomes i).isRetryable = true := fun i hi =>
      (Nat.lt_succ_iff_lt_or_eq.mp hi).elim (hbefore i) fun heq => heq ▸ hretry
    exact ⟨lt_requests_iff.mpr ⟨hj, hbefore'⟩, fun data hd => specified_of_ok hj hbefore' hd⟩

end HttpRetryService

/-! ### Dispatches -/

/-- The world of a dispatch that runs alone: its requests end with `outcomes`, and the servers of
the proxy answer as `o` says. -/
def dispatchWorld (o : Oracle) (outcomes : ℕ → HttpOutcome) (jitters : ℕ → Fin 200)
    (s : Backend × List HttpAction) (c : Await) : Option (Reply c × Backend × List HttpAction) :=
  match httpWorld outcomes jitters s.2 c with
  | some x => some (x.1, s.1, x.2)
  | none => (perform 0 o s.1 c).map fun x => (x.1, x.2, s.2)

variable {o : Oracle} {outcomes : ℕ → HttpOutcome} {jitters : ℕ → Fin 200} {σ σ' : Backend}
  {log : List HttpAction}

theorem dispatchWorld_of_isHttp {c : Await} (h : c.IsHttp) :
    dispatchWorld o outcomes jitters (σ, log) c =
      (httpWorld outcomes jitters log c).map fun x => (x.1, σ, x.2) := by
  cases c <;> first | rfl | exact absurd h id

theorem dispatchWorld_of_none {c : Await} {r : Reply c} {s s' : Backend × List HttpAction}
    (h : ∀ log, httpWorld outcomes jitters log c = none)
    (hx : dispatchWorld o outcomes jitters s c = some (r, s')) : s'.2 = s.2 := by
  rw [dispatchWorld, h] at hx
  obtain ⟨x, -, heq⟩ := Option.map_eq_some_iff.mp hx
  cases heq
  rfl

theorem onError_uses (taskId : String) (err : JsError) :
    (DispatchProcessor.onError taskId err).run.Uses
      fun c => ∀ log, httpWorld outcomes jitters log c = none := by
  unfold DispatchProcessor.onError
  split
  · exact Prog.Uses.bindExcept (Uses.call fun _ => rfl) fun _ =>
      Prog.Uses.bindExcept (Uses.call fun _ => rfl) fun _ => trivial
  · exact Prog.Uses.bindExcept (Prog.Uses.tryCatch (Prog.Uses.bindExcept (Uses.call fun _ => rfl)
      fun _ => trivial) fun _ => trivial) fun _ => trivial

/-- `post` in the world of a dispatch. -/
theorem post_dispatchWorld (url : String) (body : Json) (authorization : String)
    (opts : HttpRetryOptions) :
    (httpRetryService.post url body authorization opts).run.runAlone
        (dispatchWorld o outcomes jitters) (σ, []) =
      some ((HttpRetryService.specified url opts outcomes).1, σ,
        HttpRetryService.attemptLog url body authorization opts jitters
          (HttpRetryService.specified url opts outcomes).2) := by
  rw [Prog.runAlone_map (f := fun log => (σ, log)) (h := httpWorld outcomes jitters)
    (httpRetryService.post_uses url body authorization opts)
    fun log c hc => dispatchWorld_of_isHttp hc]
  exact congrArg _ (HttpRetryService.post_runAlone url body authorization opts outcomes jitters)

/-- A dispatch that runs alone makes no request, or those of one `post` with three attempts. -/
theorem dispatch_log {taskId : String} {timeoutSeconds : ℤ} {r : Except JsError Unit}
    (h : (DispatchProcessor.process httpRetryService taskId timeoutSeconds).run.runAlone
      (dispatchWorld o outcomes jitters) (σ, []) = some (r, σ', log)) :
    log = [] ∨ ∃ url, log.countP HttpAction.isRequest =
      (HttpRetryService.specified url { attempts := 3 } outcomes).2 := by
  rw [DispatchProcessor.process, Prog.runAlone_bindExcept, call_runAlone] at h
  obtain ⟨⟨r₁, s₁⟩, hnow, h⟩ := Option.bind_eq_some_iff.mp h
  have hlog₁ : s₁.2 = [] := dispatchWorld_of_none (fun _ => rfl) hnow
  cases r₁ with
  | error err =>
    cases h
    exact .inl hlog₁
  | ok now =>
    dsimp only at h
    rw [Prog.runAlone_bindExcept, call_runAlone] at h
    obtain ⟨⟨r₂, s₂⟩, hclaim, h⟩ := Option.bind_eq_some_iff.mp h
    have hlog₂ : s₂.2 = [] := (dispatchWorld_of_none (fun _ => rfl) hclaim).trans hlog₁
    obtain ⟨σ₂, log₂⟩ := s₂
    obtain rfl : log₂ = [] := hlog₂
    cases r₂ with
    | error err =>
      cases h
      exact .inl rfl
    | ok row =>
      cases row with
      | none =>
        cases h
        exact .inl rfl
      | some task =>
        refine .inr ⟨task.executorUrl, ?_⟩
        dsimp only at h
        rw [Prog.runAlone_tryCatch, Prog.runAlone_bindExcept, post_dispatchWorld,
          Option.bind_some] at h
        have hcount : ∀ n, (HttpRetryService.attemptLog task.executorUrl
            (.obj [("taskId", .str taskId), ("payload", task.payload)])
            ("Bearer " ++ task.callbackToken.getD "") { attempts := 3 } jitters n).countP
              HttpAction.isRequest = n := HttpRetryService.countP_isRequest_attemptLog
        rw [← hcount (HttpRetryService.specified _ _ outcomes).2]
        cases hs : (HttpRetryService.specified task.executorUrl { attempts := 3 } outcomes).1 with
        | ok data =>
          rw [hs] at h
          cases h
          rfl
        | error err =>
          rw [hs] at h
          dsimp only [Option.bind_some] at h
          have := Prog.runAlone_frame (f := Prod.snd) (onError_uses taskId err)
            (fun s c r s' hc hx => dispatchWorld_of_none hc hx) h
          exact congrArg (List.countP HttpAction.isRequest) this

/-- **Transient failures.** The service goes on after every transient failure exactly when no
attempt before the last ends with an unlisted one, and a dispatch whose first request fails
transiently makes a second one exactly when the failure is not unlisted. -/
theorem transient_retried_iff (outcomes : ℕ → HttpOutcome) (jitters : ℕ → Fin 200) :
    (∀ url body authorization opts,
      GoesOn url body authorization opts outcomes jitters ↔ AllListed opts outcomes) ∧
    ∀ o σ taskId timeoutSeconds r σ' log err,
      (DispatchProcessor.process httpRetryService taskId timeoutSeconds).run.runAlone
        (dispatchWorld o outcomes jitters) (σ, []) = some (r, σ', log) →
      log ≠ [] → outcomes 0 = .error err → err.isTransient = true →
      (2 ≤ log.countP HttpAction.isRequest ↔ err.isUnlisted = false) := by
  refine ⟨fun url body authorization opts => HttpRetryService.goesOn_iff .., ?_⟩
  intro o σ taskId timeoutSeconds r σ' log err hrun hne ho htransient
  obtain hnil | ⟨url, hcount⟩ := dispatch_log hrun
  · exact absurd hnil hne
  · rw [hcount, Nat.succ_le_iff, HttpRetryService.lt_requests_iff]
    have hretry : (∀ i < 1, (outcomes i).isRetryable = true) ↔
        HttpOutcome.isRetryable (.error err) = true := by
      rw [← ho]
      simp
    rw [hretry]
    constructor
    · rintro ⟨-, h⟩
      by_contra hun
      rw [HttpError.isRetryable_of_isUnlisted (by simpa using hun)] at h
      cases h
    · intro hun
      exact ⟨by decide,
        ((HttpError.isTransient_iff err).mp htransient).resolve_right (by simp [hun])⟩

/-! ### A slow executor, and one behind a failing gateway -/

/-- The first request fails, the others succeed. -/
def failsOnce (err : HttpError) (k : ℕ) : HttpOutcome := if k = 0 then .error err else .ok .null

/-- Postgres with a pending task. -/
def pendingBackend : Backend where
  tasks := [(sampleDto.values 0 "secret").row sampleId 0]
  issued := [sampleId]

/-- The dispatch of the pending task. -/
def sampleDispatch (err : HttpError) :
    Option (Except JsError Unit × Backend × List HttpAction) :=
  (DispatchProcessor.process httpRetryService sampleId 300).run.runAlone
    (dispatchWorld {} (failsOnce err) fun _ => noJitter) (pendingBackend, [])

/-- After a status 503 the dispatch makes a second request. -/
theorem transient_retried_unavailable :
    ∃ r σ' log, sampleDispatch { status := some 503, message := "" } = some (r, σ', log) ∧
      2 ≤ log.countP HttpAction.isRequest := by
  have hsome : (sampleDispatch { status := some 503, message := "" }).any
      (fun x => x.2.2.countP HttpAction.isRequest == 2) = true := by decide
  obtain ⟨⟨r, σ', log⟩, hrun, hcount⟩ := (Option.any_eq_true _ _).mp hsome
  have hne : log ≠ [] := by
    rintro rfl
    simp at hcount
  exact ⟨r, σ', log, hrun, ((transient_retried_iff (failsOnce { status := some 503, message := "" })
    fun _ => noJitter).2 {} pendingBackend sampleId 300 r σ' log _ hrun hne rfl rfl).mpr rfl⟩

/-- A timeout and a status 501 end the loop after one request, though the next one would succeed,
and the task of the dispatch has failed for good. -/
theorem timeout_is_not_retried :
    ¬ GoesOn "" .null "" {} (failsOnce rxjsTimeoutError) (fun _ => noJitter) ∧
    ¬ GoesOn "" .null "" {} (failsOnce { status := some 501, message := "" }) (fun _ => noJitter) ∧
    (sampleDispatch rxjsTimeoutError).any (fun x => x.2.2.countP HttpAction.isRequest == 1 &&
      x.2.1.tasks.all fun t => t.status == .failed) = true := by
  refine ⟨fun h => ?_, fun h => ?_, by decide⟩
  · have := (h _ _ rfl 0 rxjsTimeoutError (by decide) (by decide) rfl rfl).1
    revert this
    decide
  · have := (h _ _ rfl 0 { status := some 501, message := "" } (by decide) (by decide) rfl rfl).1
    revert this
    decide

end LongRequestProxy
