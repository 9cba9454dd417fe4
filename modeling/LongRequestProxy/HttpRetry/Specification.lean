import LongRequestProxy.HttpRetry.Service

/-!
# What `HttpRetryService.post` does

The retry loop against its specification: it stops at the first outcome that is not retryable, or
after the last attempt, and pauses once between two requests.

## Main definitions

* `isRetryable`: the outcomes after which the loop goes on.
* `HttpAction`, `httpWorld`: what a caller of `post` can observe, and the world that it runs in.
* `HttpRetryService.firstFinal`, `HttpRetryService.specified`: the specification.

## Main results

* `HttpRetryService.loop_runAlone`: the loop from any of its states.
* `HttpRetryService.post_runAlone`, `post_meets_specification`: the result of `post`, its
  requests and its pauses.
-/

namespace LongRequestProxy

open Async

/-! ### Outcomes -/

/-- What one request ends with. -/
abbrev HttpOutcome : Type := Except HttpError Json

/-- The loop goes on after the outcome, when attempts are left. -/
def HttpOutcome.isRetryable : HttpOutcome → Bool
  | .ok _ => false
  | .error err =>
    match err.status with
    | some statusCode => retryableStatusCodes.contains statusCode
    | none => isRetryableNetworkError err

/-- The status of a response that was rejected. -/
def HttpOutcome.status? : HttpOutcome → Option ℕ
  | .ok _ => none
  | .error err => err.status

/-- The message of an error. -/
def HttpOutcome.message? : HttpOutcome → Option String
  | .ok _ => none
  | .error err => some err.message

/-! ### The world of the loop -/

/-- What a caller of `post` can observe. -/
inductive HttpAction : Type
  | request (url : String) (body : Json) (authorization : String) (timeoutMs : ℕ)
  | sleep (ms : ℕ)

namespace HttpAction

@[simp] def isRequest : HttpAction → Bool
  | request .. => true
  | sleep _ => false

@[simp] def isSleep : HttpAction → Bool
  | request .. => false
  | sleep _ => true

end HttpAction

/-- The world in which the requests end with `outcomes`, one after the other, and `jitter()` gives
`jitters`, with what has happened so far. -/
def httpWorld (outcomes : ℕ → HttpOutcome) (jitters : ℕ → Fin 200) (log : List HttpAction) :
    (c : Await) → Option (Reply c × List HttpAction)
  | .httpRequest url body authorization timeoutMs =>
    some (.ok (outcomes (log.countP HttpAction.isRequest)),
      log ++ [.request url body authorization timeoutMs])
  | .jitter => some (.ok (jitters (log.countP HttpAction.isSleep)), log)
  | .sleep ms => some (.ok (), log ++ [.sleep ms])
  | _ => none

namespace HttpRetryService

section

variable (url : String) (body : Json) (authorization : String) (opts : HttpRetryOptions)
  (outcomes : ℕ → HttpOutcome) (jitters : ℕ → Fin 200)

/-! ### The specification -/

/-- The first of some attempts whose outcome is not retryable. -/
def firstFinal (attempt left : ℕ) : Option ℕ :=
  (List.range' attempt left).find? fun k => !(outcomes k).isRetryable

/-- What `post` returns or throws after an outcome that is not retryable. -/
def ending (k : ℕ) : Except JsError Json :=
  match outcomes k with
  | .ok data => .ok data
  | .error err =>
    match err.status with
    | some statusCode => .error (nonRetryableError url statusCode)
    | none => .error (dispatchFailedError url (k + 1) err.message)

/-- The last status among the outcomes of some attempts. -/
def lastStatus (attempt left : ℕ) : Option ℕ :=
  ((List.range' attempt left).filterMap fun k => (outcomes k).status?).getLast?

/-- The last message among the outcomes of some attempts. -/
def lastMessage (attempt left : ℕ) : Option String :=
  ((List.range' attempt left).filterMap fun k => (outcomes k).message?).getLast?

/-- The specified result, with the number of requests. -/
def specified : Except JsError Json × ℕ :=
  match firstFinal outcomes 0 opts.attempts with
  | some k => (ending url outcomes k, k + 1)
  | none =>
    (.error (dispatchFailedError url opts.attempts
      ((lastMessage outcomes 0 opts.attempts).getD "undefined")
      (lastStatus outcomes 0 opts.attempts)), opts.attempts)

/-- The pause after an attempt. -/
def pause (k : ℕ) : ℕ := computeDelay k opts.baseDelayMs opts.maxDelayMs (jitters k)

/-- Some attempts, each followed by its pause. -/
def paced (n : ℕ) : List HttpAction :=
  (List.range n).flatMap fun k =>
    [.request url body authorization opts.requestTimeoutMs, .sleep (pause opts jitters k)]

/-- Some attempts, with a pause between any two. -/
def attemptLog : ℕ → List HttpAction
  | 0 => []
  | n + 1 =>
    paced url body authorization opts jitters n ++
      [.request url body authorization opts.requestTimeoutMs]

end

/-! ### The loop -/

variable {url : String} {body : Json} {authorization : String} {opts : HttpRetryOptions}
  {outcomes : ℕ → HttpOutcome} {jitters : ℕ → Fin 200}

theorem paced_succ (n : ℕ) : paced url body authorization opts jitters (n + 1) =
    attemptLog url body authorization opts jitters (n + 1) ++ [.sleep (pause opts jitters n)] := by
  simp [paced, attemptLog, List.range_succ]

@[simp] theorem countP_isRequest_paced (n : ℕ) :
    (paced url body authorization opts jitters n).countP HttpAction.isRequest = n := by
  induction n with
  | zero => rfl
  | succ n ih => simp [paced_succ, attemptLog, ih, List.countP_cons]

@[simp] theorem countP_isSleep_paced (n : ℕ) :
    (paced url body authorization opts jitters n).countP HttpAction.isSleep = n := by
  induction n with
  | zero => rfl
  | succ n ih => simp [paced_succ, attemptLog, ih, List.countP_cons]

@[simp] theorem countP_isSleep_attemptLog (n : ℕ) :
    (attemptLog url body authorization opts jitters (n + 1)).countP HttpAction.isSleep = n := by
  simp [attemptLog]

@[simp] theorem countP_isRequest_attemptLog (n : ℕ) :
    (attemptLog url body authorization opts jitters n).countP HttpAction.isRequest = n := by
  cases n with
  | zero => rfl
  | succ n => simp [attemptLog]

/-- The loop ends at once exactly after the outcomes that are not retryable. -/
theorem rejection_eq_none_iff {attempt : ℕ} {err : HttpError} :
    rejection url attempt err = none ↔ HttpOutcome.isRetryable (.error err) = true := by
  unfold rejection HttpOutcome.isRetryable
  cases hs : err.status with
  | none => simp [hs]
  | some statusCode => simp [hs]

theorem ending_of_rejection {k : ℕ} {err : HttpError} {e : JsError} (ho : outcomes k = .error err)
    (h : rejection url k err = some e) : ending url outcomes k = .error e := by
  unfold rejection at h
  unfold ending
  rw [ho]
  dsimp only
  cases hs : err.status with
  | some statusCode =>
    rw [hs] at h
    dsimp only at h
    split at h
    · cases h
    · cases h
      rfl
  | none =>
    rw [hs] at h
    dsimp only at h
    split at h
    · cases h
    · cases h
      rfl

theorem firstFinal_succ (attempt left : ℕ) : firstFinal outcomes attempt (left + 1) =
    if (outcomes attempt).isRetryable then firstFinal outcomes (attempt + 1) left
    else some attempt := by
  unfold firstFinal
  rw [List.range'_succ, List.find?_cons]
  cases (outcomes attempt).isRetryable <;> rfl

theorem getLast?_toList_append {α : Type} (x : Option α) (l : List α) :
    (x.toList ++ l).getLast? = l.getLast?.or x := by
  rw [List.getLast?_append]
  cases x <;> rfl

theorem lastStatus_succ (attempt left : ℕ) : lastStatus outcomes attempt (left + 1) =
    (lastStatus outcomes (attempt + 1) left).or (outcomes attempt).status? := by
  unfold lastStatus
  rw [List.range'_succ, List.filterMap_cons, ← getLast?_toList_append]
  cases (outcomes attempt).status? <;> rfl

theorem lastMessage_succ (attempt left : ℕ) : lastMessage outcomes attempt (left + 1) =
    (lastMessage outcomes (attempt + 1) left).or (outcomes attempt).message? := by
  unfold lastMessage
  rw [List.range'_succ, List.filterMap_cons, ← getLast?_toList_append]
  cases (outcomes attempt).message? <;> rfl

/-- The result of the loop from one of its states, with the number of requests at its end. -/
def specifiedFrom (url : String) (opts : HttpRetryOptions) (outcomes : ℕ → HttpOutcome)
    (attempt left : ℕ) (lastError : String) (lastStatusCode : Option ℕ) :
    Except JsError Json × ℕ :=
  match firstFinal outcomes attempt left with
  | some k => (ending url outcomes k, k + 1)
  | none =>
    (.error (dispatchFailedError url opts.attempts
      ((lastMessage outcomes attempt left).getD lastError)
      ((lastStatus outcomes attempt left).or lastStatusCode)), attempt + left)

theorem specifiedFrom_of_final {attempt left : ℕ} {lastError : String} {lastStatusCode : Option ℕ}
    (h : (outcomes attempt).isRetryable = false) :
    specifiedFrom url opts outcomes attempt (left + 1) lastError lastStatusCode =
      (ending url outcomes attempt, attempt + 1) := by
  rw [specifiedFrom, firstFinal_succ, h, if_neg Bool.false_ne_true]

theorem specifiedFrom_of_retryable {attempt left : ℕ} {lastError : String}
    {lastStatusCode : Option ℕ} {err : HttpError} (ho : outcomes attempt = .error err)
    (h : (outcomes attempt).isRetryable = true) :
    specifiedFrom url opts outcomes attempt (left + 1) lastError lastStatusCode =
      specifiedFrom url opts outcomes (attempt + 1) left err.message
        (err.status.or lastStatusCode) := by
  have hs : (outcomes attempt).status? = err.status := by rw [ho]; rfl
  have hm : (outcomes attempt).message? = some err.message := by rw [ho]; rfl
  rw [specifiedFrom, specifiedFrom, firstFinal_succ, h, if_pos rfl, lastStatus_succ,
    lastMessage_succ, hs, hm, Option.or_assoc, Option.getD_or, Option.getD_some,
    Nat.add_right_comm, Nat.add_assoc]

theorem request_runAlone (attempt : ℕ) :
    httpWorld outcomes jitters (paced url body authorization opts jitters attempt)
        (.httpRequest url body authorization opts.requestTimeoutMs) =
      some (.ok (outcomes attempt),
        attemptLog url body authorization opts jitters (attempt + 1)) := by
  simp [httpWorld, attemptLog]

/-- An attempt that ends the loop. -/
theorem loop_of_final {left attempt : ℕ} {lastError : String} {lastStatusCode : Option ℕ}
    (h : (outcomes attempt).isRetryable = false) :
    (loop url body authorization opts (left + 1) attempt lastError lastStatusCode).run.runAlone
        (httpWorld outcomes jitters) (paced url body authorization opts jitters attempt) =
      some (ending url outcomes attempt,
        attemptLog url body authorization opts jitters (attempt + 1)) := by
  rw [loop, Prog.runAlone_bindExcept, call_runAlone, request_runAlone, Option.bind_some]
  cases ho : outcomes attempt with
  | ok data =>
    have hend : ending url outcomes attempt = .ok data := by simp only [ending, ho]
    rw [hend]
    rfl
  | error err =>
    have hr : rejection url attempt err ≠ none := by
      rw [Ne, rejection_eq_none_iff, ← ho, h]
      exact Bool.false_ne_true
    obtain ⟨e, he⟩ := Option.ne_none_iff_exists'.mp hr
    rw [ending_of_rejection ho he]
    dsimp only
    rw [he]
    rfl

/-- An attempt after which the loop goes on, without a pause when it was the last one. -/
theorem loop_of_retryable {left attempt : ℕ} {lastError : String} {lastStatusCode : Option ℕ}
    {err : HttpError} (ho : outcomes attempt = .error err)
    (h : (outcomes attempt).isRetryable = true) :
    (loop url body authorization opts (left + 1) attempt lastError lastStatusCode).run.runAlone
        (httpWorld outcomes jitters) (paced url body authorization opts jitters attempt) =
      (loop url body authorization opts left (attempt + 1) err.message
        (err.status.or lastStatusCode)).run.runAlone (httpWorld outcomes jitters)
        (if left = 0 then attemptLog url body authorization opts jitters (attempt + 1)
        else paced url body authorization opts jitters (attempt + 1)) := by
  have hr : rejection url attempt err = none := by
    rw [rejection_eq_none_iff, ← ho]
    exact h
  rw [loop, Prog.runAlone_bindExcept, call_runAlone, request_runAlone, Option.bind_some, ho]
  dsimp only
  rw [hr]
  dsimp only
  split
  · rfl
  · have hjitter : httpWorld outcomes jitters
        (attemptLog url body authorization opts jitters (attempt + 1)) .jitter =
        some (.ok (jitters attempt : ℕ),
          attemptLog url body authorization opts jitters (attempt + 1)) := by
      simp [httpWorld]
    rw [Prog.runAlone_bindExcept, call_runAlone, hjitter, Option.bind_some]
    dsimp only
    rw [Prog.runAlone_bindExcept, call_runAlone, paced_succ]
    rfl

/-- **The loop**, from the state in which it makes an attempt. -/
theorem loop_runAlone (left attempt : ℕ) (lastError : String) (lastStatusCode : Option ℕ) :
    (loop url body authorization opts (left + 1) attempt lastError lastStatusCode).run.runAlone
        (httpWorld outcomes jitters) (paced url body authorization opts jitters attempt) =
      some ((specifiedFrom url opts outcomes attempt (left + 1) lastError lastStatusCode).1,
        attemptLog url body authorization opts jitters
          (specifiedFrom url opts outcomes attempt (left + 1) lastError lastStatusCode).2) := by
  induction left generalizing attempt lastError lastStatusCode with
  | zero =>
    cases h : (outcomes attempt).isRetryable with
    | false => rw [loop_of_final h, specifiedFrom_of_final h]
    | true =>
      cases ho : outcomes attempt with
      | ok data => simp [ho, HttpOutcome.isRetryable] at h
      | error err =>
        rw [loop_of_retryable ho h, specifiedFrom_of_retryable ho h, if_pos rfl]
        rfl
  | succ left ih =>
    cases h : (outcomes attempt).isRetryable with
    | false => rw [loop_of_final h, specifiedFrom_of_final h]
    | true =>
      cases ho : outcomes attempt with
      | ok data => simp [ho, HttpOutcome.isRetryable] at h
      | error err =>
        rw [loop_of_retryable ho h, specifiedFrom_of_retryable ho h, if_neg (Nat.succ_ne_zero _),
          ih]

/-- The whole of `post`. -/
theorem post_runAlone (url : String) (body : Json) (authorization : String)
    (opts : HttpRetryOptions) (outcomes : ℕ → HttpOutcome) (jitters : ℕ → Fin 200) :
    (post url body authorization opts).run.runAlone (httpWorld outcomes jitters) [] =
      some ((specified url opts outcomes).1,
        attemptLog url body authorization opts jitters (specified url opts outcomes).2) := by
  have hspec : specified url opts outcomes =
      specifiedFrom url opts outcomes 0 opts.attempts "undefined" none := by
    simp only [specified, specifiedFrom, Option.or_none, Nat.zero_add]
  rw [post, hspec]
  cases hn : opts.attempts with
  | zero =>
    simp only [loop, specifiedFrom, hn]
    rfl
  | succ left => exact loop_runAlone left 0 "undefined" none

theorem pause_bounds (opts : HttpRetryOptions) (jitters : ℕ → Fin 200) (k : ℕ) :
    min (opts.baseDelayMs * 2 ^ k) opts.maxDelayMs ≤ pause opts jitters k ∧
      pause opts jitters k ≤ min (opts.baseDelayMs * 2 ^ k + 199) opts.maxDelayMs := by
  have := (jitters k).isLt
  unfold pause computeDelay
  omega

end HttpRetryService

end LongRequestProxy
