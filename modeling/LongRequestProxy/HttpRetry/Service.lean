import LongRequestProxy.Store.Calls
import Mathlib.Algebra.Group.Nat.Defs

/-!
# `HttpRetryService`

POST requests with exponential backoff. The processors are given the client that they use, so
that what is proved about them holds for every client whose `post` makes HTTP requests only;
`httpRetryService` is the one of the program.

## Main definitions

* `HttpClient`: a `post` function that touches no server of the proxy.
* `HttpRetryService.post`, `httpRetryService`: the retry loop of the program.
-/

namespace LongRequestProxy

open Async

/-- The options of `HttpRetryService.post`. -/
structure HttpRetryOptions where
  attempts : ℕ := 3
  baseDelayMs : ℕ := 500
  maxDelayMs : ℕ := 30000
  requestTimeoutMs : ℕ := 10000

/-- A client for POST requests. -/
structure HttpClient where
  post : (url : String) → (body : Json) → (authorization : String) → HttpRetryOptions → Async Json
  /-- It awaits HTTP requests, pauses and jitter only. -/
  post_uses : ∀ url body authorization opts,
    (post url body authorization opts).run.Uses Await.IsHttp

/-- `RETRYABLE_STATUS_CODES`. -/
def retryableStatusCodes : List ℕ := [429, 500, 502, 503, 504]

/-- `RETRYABLE_NETWORK_CODES`. -/
def retryableNetworkCodes : List String :=
  ["ECONNREFUSED", "ECONNRESET", "ETIMEDOUT", "ENOTFOUND", "ECONNABORTED", "ERR_NETWORK"]

/-- `isRetryableNetworkError`. -/
def isRetryableNetworkError (err : HttpError) : Bool :=
  err.code.any fun code => retryableNetworkCodes.contains code

/-- `computeDelay`, with the value of `jitter()`. -/
def computeDelay (attempt baseDelayMs maxDelayMs jitter : ℕ) : ℕ :=
  min (baseDelayMs * 2 ^ attempt + jitter) maxDelayMs

namespace HttpRetryService

/-- The constructor of `NonRetryableError`. -/
def nonRetryableError (url : String) (statusCode : ℕ) : JsError :=
  .nonRetryable ("POST " ++ url ++ " rejected with " ++ toString statusCode ++ " - not retrying")
    statusCode

/-- The constructor of `DispatchFailedError`. -/
def dispatchFailedError (url : String) (attempts : ℕ) (cause : String)
    (lastStatusCode : Option ℕ := none) : JsError :=
  .dispatchFailed
    ("POST " ++ url ++ " failed after " ++ toString attempts ++ " attempt(s): " ++ cause)
    attempts lastStatusCode

/-- The error that ends the loop at once: of a status or a network error that is not retryable. -/
def rejection (url : String) (attempt : ℕ) (err : HttpError) : Option JsError :=
  match err.status with
  | some statusCode =>
    if retryableStatusCodes.contains statusCode then none
    else some (nonRetryableError url statusCode)
  | none =>
    if isRetryableNetworkError err then none
    else some (dispatchFailedError url (attempt + 1) err.message)

/-- The loop of `HttpRetryService.post`, with the number of attempts left, the number of the
next attempt, and `lastError` and `lastStatusCode` so far. -/
def loop (url : String) (body : Json) (authorization : String) (opts : HttpRetryOptions) :
    ℕ → ℕ → String → Option ℕ → Async Json
  | 0, _, lastError, lastStatusCode =>
    throw (dispatchFailedError url opts.attempts lastError lastStatusCode)
  | left + 1, attempt, _, lastStatusCode => do
    match ← call (.httpRequest url body authorization opts.requestTimeoutMs) with
    | .ok data => return data
    | .error err =>
      let lastStatusCode := err.status.or lastStatusCode
      match rejection url attempt err with
      | some e => throw e
      | none =>
        if left = 0 then
          -- the last attempt leaves the loop without a pause
          loop url body authorization opts left (attempt + 1) err.message lastStatusCode
        else
          let jitter ← call .jitter
          call (.sleep (computeDelay attempt opts.baseDelayMs opts.maxDelayMs jitter))
          loop url body authorization opts left (attempt + 1) err.message lastStatusCode

/-- `HttpRetryService.post`. -/
def post (url : String) (body : Json) (authorization : String) (opts : HttpRetryOptions) :
    Async Json :=
  loop url body authorization opts opts.attempts 0 "undefined" none

end HttpRetryService

theorem Uses.call {p : Await → Prop} {c : Await} (h : p c) : (call c).run.Uses p :=
  ⟨h, fun _ => trivial⟩

open HttpRetryService in
theorem HttpRetryService.loop_uses (url : String) (body : Json) (authorization : String)
    (opts : HttpRetryOptions) (left attempt : ℕ) (lastError : String)
    (lastStatusCode : Option ℕ) :
    (loop url body authorization opts left attempt lastError lastStatusCode).run.Uses
      Await.IsHttp := by
  induction left generalizing attempt lastError lastStatusCode with
  | zero => trivial
  | succ left ih =>
    unfold loop
    refine Prog.Uses.bindExcept (Uses.call trivial) fun r => ?_
    cases r with
    | ok data => trivial
    | error err =>
      dsimp only
      split
      · trivial
      · split
        · exact ih ..
        · refine Prog.Uses.bindExcept (Uses.call trivial) fun _ => ?_
          exact Prog.Uses.bindExcept (Uses.call trivial) fun _ => ih ..

/-- The client of the program. -/
def httpRetryService : HttpClient where
  post := HttpRetryService.post
  post_uses _ _ _ _ := HttpRetryService.loop_uses ..

end LongRequestProxy
