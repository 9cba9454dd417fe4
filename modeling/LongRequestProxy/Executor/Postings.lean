import LongRequestProxy.Conduct.Draining
import LongRequestProxy.Executor.Notifications

/-!
# What the program posts, and to whom

Executors and clients are reached by POST requests of the three workers. Each posts what it has
read of its task: the URL, the payload and the callback token, which no write changes, are those of
the request that created the task.

## Main definitions

* `Contract`: the columns that a creation fixes for good.
* `Request.post`: the POST request of a worker, as a function of the row that it has read.
* `postings`: a worker posts only what it has read, and a creation inserts the token that it drew.

## Main results

* `posts_created`: every POST request of the program goes where the creation of the task said,
  with what it said.
-/

namespace LongRequestProxy

open Async Discipline Service Function

/-! ### Contracts -/

/-- The columns that a creation fixes for good. -/
structure Contract where
  executorUrl : String
  payload : Json
  callbackToken : Option String
  webhookUrl : Option String
  cancelUrl : Option String

/-- The contract of a task. -/
def TaskSelect.contract (t : TaskSelect) : Contract where
  executorUrl := t.executorUrl
  payload := t.payload
  callbackToken := t.callbackToken
  webhookUrl := t.webhookUrl
  cancelUrl := t.cancelUrl

/-- The contract that a creation request asks for, with the token that `randomUUID` draws. -/
def CreateTaskDto.contract (dto : CreateTaskDto) (callbackToken : String) : Contract where
  executorUrl := dto.executorUrl
  payload := dto.payload.getD (.obj [])
  callbackToken := some callbackToken
  webhookUrl := dto.webhookUrl
  cancelUrl := dto.cancelUrl

/-- No write changes a contract. -/
theorem TaskWrite.contract_apply (w : TaskWrite) (t : TaskSelect) :
    (w.apply t).contract = t.contract := by
  cases w <;> rfl

/-! ### The requests of the workers -/

/-- A POST request of a worker; the `Authorization` header is empty if there is none. -/
structure Posting where
  url : String
  body : Json
  authorization : String

/-- The task of the worker that a request starts. -/
def Request.workerTask : Request → Option String
  | dispatch taskId _ | notifyCancel taskId | notifyWebhook taskId => some taskId
  | _ => none

/-- The POST request of a worker for the row that it has read. -/
def Request.post (t : TaskSelect) : Request → Option Posting
  | dispatch taskId _ => some
    { url := t.executorUrl
      body := .obj [("taskId", .str taskId), ("payload", t.payload)]
      authorization := "Bearer " ++ t.callbackToken.getD "" }
  | notifyCancel taskId => (t.cancelUrl.filter (· ≠ "")).map fun url =>
    { url := url
      body := .obj [("taskId", .str taskId)]
      authorization := "Bearer " ++ t.callbackToken.getD "" }
  | notifyWebhook _ => (t.webhookUrl.filter (· ≠ "")).map fun url =>
    { url := url
      body := webhookPayload t
      authorization := "" }
  | _ => none

/-- What a function has learned of rows and tokens. -/
structure Knowledge where
  /-- The row that a reply has shown last. -/
  row : Option TaskSelect := none
  /-- The token that `randomUUID` has drawn last. -/
  token : Option String := none

namespace Knowledge

/-- The knowledge after a call and its reply. -/
def next (w : Knowledge) : (x : Await) → Reply x → Knowledge
  | .updateTask .., .ok (some t) => { w with row := some t }
  | .findTask _, .ok (some t) => { w with row := some t }
  | .randomUUID, .ok token => { w with token := some token }
  | _, _ => w

/-- A worker posts what it has read of its task, and a creation inserts the token that it drew. -/
def Awaits (req : Request) (w : Knowledge) : Await → Prop
  | .httpRequest url body authorization _ => ∀ id, req.workerTask = some id →
    ∃ t, w.row = some t ∧ t.id = id ∧ req.post t = some ⟨url, body, authorization⟩
  | .insertTask _ _ token => ∀ dto baseUrl, req = .create dto baseUrl → w.token = some token
  | _ => True

end Knowledge

/-- A worker posts what it has read of its task, and a creation inserts the token that it drew. -/
abbrev postings : Discipline (proxy httpRetryService) where
  Local := Knowledge
  start := {}
  next w x r := w.next x r
  awaits req w x := w.Awaits req x
  returns _ _ _ := True
  possible x r := x.Possible r

section

variable {req : Request} {α : Type} {w : Knowledge}

/-- A call of which nothing is asked. -/
theorem postings_call {x : Await} {Q : x.Val → Knowledge → Prop} {E : JsError → Knowledge → Prop}
    (ha : w.Awaits req x) (hQ : ∀ v, x.PossibleValue v → Q v (w.next x (.ok v)))
    (hE : ∀ e, E e (w.next x (.error e))) :
    postings.followsExcept req Q E (call x) w := by
  refine ⟨ha, fun r hr => ?_⟩
  cases r with
  | ok v => exact hQ v hr
  | error e => exact hE e

/-- A program that neither posts nor inserts. -/
theorem postings_of_uses {P : Async α} {p : Await → Prop} (hP : P.run.Uses p)
    (hp : ∀ x, p x → ∀ w : Knowledge, w.Awaits req x) :
    postings.followsExcept req (fun _ _ => True) (fun _ _ => True) P w := by
  refine Discipline.follows_of_uses (I := fun _ => True) hP
    (fun x w hx _ => ⟨hp x hx w, fun _ _ => trivial⟩) trivial fun r _ _ => ?_
  cases r <;> trivial

/-- The loop posts the same request again and again. -/
theorem postings_loop {t : TaskSelect} {p : Posting}
    (hrow : w.row = some t) (hid : req.workerTask = some t.id) (hpost : req.post t = some p)
    (opts : HttpRetryOptions) (left attempt : ℕ) (lastError : String)
    (lastStatusCode : Option ℕ) :
    postings.followsExcept req (fun _ _ => True) (fun _ _ => True)
      (HttpRetryService.loop p.url p.body p.authorization opts left attempt lastError
        lastStatusCode) w := by
  induction left generalizing attempt lastError lastStatusCode with
  | zero => trivial
  | succ left ih =>
    have hawaits : w.Awaits req (.httpRequest p.url p.body p.authorization opts.requestTimeoutMs) :=
      fun id hworker => ⟨t, hrow, Option.some.inj (hid.symm.trans hworker), hpost⟩
    unfold HttpRetryService.loop
    refine followsExcept_bind (postings_call hawaits (fun reply _ => ?_) fun _ => trivial)
    cases reply with
    | ok data => trivial
    | error err =>
      dsimp only
      split
      · trivial
      · split
        · exact ih ..
        · refine followsExcept_bind (postings_call trivial (fun jitter _ => ?_) fun _ => trivial)
          exact followsExcept_bind (postings_call trivial (fun _ _ => ih ..) fun _ => trivial)

theorem postings_dispatch (taskId : String) (timeoutSeconds : ℤ) :
    postings.followsExcept (.dispatch taskId timeoutSeconds) (fun _ _ => True) (fun _ _ => True)
      (DispatchProcessor.process httpRetryService taskId timeoutSeconds) {} := by
  refine followsExcept_bind (postings_call trivial (fun now _ => ?_) fun _ => trivial)
  refine followsExcept_bind (postings_call trivial (fun row hrow => ?_) fun _ => trivial)
  cases row with
  | none => trivial
  | some t =>
    obtain ⟨r, hr, -, rfl⟩ := hrow t rfl
    have hid : ((TaskWrite.dispatchClaim now timeoutSeconds).apply r).id = taskId := hr
    refine followsExcept_tryCatch (followsExcept_bind ?_)
    have hworker : (Request.dispatch taskId timeoutSeconds).workerTask =
        some ((TaskWrite.dispatchClaim now timeoutSeconds).apply r).id := congrArg some hid.symm
    refine followsExcept_mono (postings_loop rfl hworker rfl _ _ _ _ _) (fun _ _ _ => trivial)
      fun err _ _ => ?_
    unfold DispatchProcessor.onError
    split
    · refine followsExcept_bind (postings_call trivial (fun now _ => ?_) fun _ => trivial)
      exact followsExcept_bind (postings_call trivial (fun _ _ => trivial) fun _ => trivial)
    · refine followsExcept_bind (followsExcept_tryCatch (followsExcept_bind
        (postings_call trivial (fun _ _ => trivial) fun _ => trivial)))

theorem postings_notifyCancel (taskId : String) :
    postings.followsExcept (.notifyCancel taskId) (fun _ _ => True) (fun _ _ => True)
      (CancelProcessor.process httpRetryService taskId) {} := by
  refine followsExcept_bind (postings_call trivial (fun row hrow => ?_) fun _ => trivial)
  cases row with
  | none => trivial
  | some t =>
    dsimp only
    split
    · trivial
    · next url hurl =>
      refine followsExcept_tryCatch (followsExcept_bind ?_)
      have hworker : (Request.notifyCancel taskId).workerTask = some t.id :=
        congrArg some (hrow t rfl).symm
      exact followsExcept_mono (postings_loop (p := ⟨url, _, _⟩) rfl hworker
        (by simp only [Request.post, hurl]; rfl) _ _ _ _ _)
        (fun _ _ _ => trivial) fun _ _ _ => trivial

theorem postings_notifyWebhook (taskId : String) :
    postings.followsExcept (.notifyWebhook taskId) (fun _ _ => True) (fun _ _ => True)
      (WebhookProcessor.process httpRetryService taskId) {} := by
  refine followsExcept_bind (postings_call trivial (fun row hrow => ?_) fun _ => trivial)
  cases row with
  | none => trivial
  | some t =>
    dsimp only
    split
    · trivial
    · next url hurl =>
      refine followsExcept_tryCatch (followsExcept_bind ?_)
      have hworker : (Request.notifyWebhook taskId).workerTask = some t.id :=
        congrArg some (hrow t rfl).symm
      refine followsExcept_mono (postings_loop (p := ⟨url, _, _⟩) rfl hworker
        (by simp only [Request.post, hurl]; rfl) _ _ _ _ _)
        (fun _ _ _ => trivial) fun err _ _ => ?_
      split <;> trivial

theorem postings_create (dto : CreateTaskDto) (baseUrl : String) :
    postings.followsExcept (.create dto baseUrl) (fun _ _ => True) (fun _ _ => True)
      (TasksService.create dto baseUrl) {} := by
  have hquiet : ∀ {α : Type} {P : Async α} {w : Knowledge},
      P.run.Uses (fun x => x.isInsert = false) →
      postings.followsExcept (.create dto baseUrl) (fun _ _ => True) (fun _ _ => True) P w :=
    fun hP => postings_of_uses hP fun x hx w => by cases x <;> simp_all [Knowledge.Awaits,
      Await.isInsert, Request.workerTask]
  have htask : ∀ key w, postings.followsExcept (.create dto baseUrl) (fun _ _ => True)
      (fun _ _ => True) (TasksService.createTask dto baseUrl key) w := by
    intro key w
    have hcatch : ∀ e : JsError, (do
        TasksService.releaseQuietly key
        throw e : Async TaskSelect).run.Uses fun x => x.isInsert = false :=
      fun e => uses_bind (releaseQuietly_inserts key) fun _ => uses_throw e
    have hinsert : postings.followsExcept (.create dto baseUrl) (fun _ _ => True) (fun _ _ => True)
        (TasksService.insertOrRelease dto key) w := by
      refine followsExcept_tryCatch (followsExcept_bind (postings_call trivial (fun now _ =>
        followsExcept_bind (postings_call trivial (fun token _ =>
          postings_call ?_ (fun _ _ => trivial) ?_) ?_)) ?_))
      · rintro _ _ ⟨⟩
        rfl
      all_goals exact fun e => hquiet (hcatch e)
    exact followsExcept_bind (followsExcept_mono hinsert (fun task w _ => hquiet
      (uses_bind (enqueueOrRollback_inserts task key) fun _ =>
        uses_bind (commitQuietly_inserts key task.id) fun _ => uses_pure _)) fun _ _ h => h)
  unfold TasksService.create
  split
  · exact htask none {}
  · next key _ =>
    refine followsExcept_bind (followsExcept_mono (hquiet (uses_bind (Uses.call rfl) fun _ =>
      uses_pure _)) (fun slot w _ => ?_) fun _ _ h => h)
    cases slot with
    | acquired => exact htask (some key) w
    | pending => trivial
    | duplicate taskId => trivial

end

theorem postings_sound : postings.Sound where
  body req := by
    have hfree : req.workerTask = none → (∀ dto baseUrl, req ≠ .create dto baseUrl) →
        postings.follows req (fun _ _ => True) (req.run httpRetryService).run {} := by
      intro hworker hcreate
      refine follows_of_forall (fun x w => ?_) fun _ _ => trivial
      cases x with
      | httpRequest url body authorization ms => exact fun id hid => by simp [hworker] at hid
      | insertTask dto now token => exact fun dto' baseUrl heq => absurd heq (hcreate dto' baseUrl)
      | _ => trivial
    have hbody : postings.followsExcept req (fun _ _ => True) (fun _ _ => True)
        (req.run httpRetryService) {} → postings.follows req (postings.returns req)
          (req.run httpRetryService).run {} := fun h => follows_mono h fun _ _ _ => trivial
    cases req with
    | create dto baseUrl =>
      exact hbody (followsExcept_bind (followsExcept_mono (postings_create dto baseUrl)
        (fun _ _ _ => trivial) fun _ _ h => h))
    | dispatch taskId timeoutSeconds =>
      exact hbody (followsExcept_bind (followsExcept_mono
        (postings_dispatch taskId timeoutSeconds) (fun _ _ _ => trivial) fun _ _ h => h))
    | notifyCancel taskId =>
      exact hbody (followsExcept_bind (followsExcept_mono (postings_notifyCancel taskId)
        (fun _ _ _ => trivial) fun _ _ h => h))
    | notifyWebhook taskId =>
      exact hbody (followsExcept_bind (followsExcept_mono (postings_notifyWebhook taskId)
        (fun _ _ _ => trivial) fun _ _ h => h))
    | _ => exact hfree rfl fun _ _ heq => by cases heq
  reply p o σ x r σ' h := possible_of_perform h

/-! ### Where contracts come from -/

section Runs

variable {clock : Timestamp} {c c' : (proxy httpRetryService).Config}
  {m : (proxy httpRetryService).Move} {V : String → Prop}
  {allow : (proxy httpRetryService).Config → (proxy httpRetryService).Move → Prop}

/-- The contract is that of a creation request, with a token that satisfies `V`. -/
def WasAsked (V : String → Prop) (c : (proxy httpRetryService).Config) (k : Contract) : Prop :=
  ∃ dto baseUrl token, Request.create dto baseUrl ∈ c.requests ∧ V token ∧ k = dto.contract token

theorem WasAsked.of_move {k : Contract} (h : WasAsked V c k) (hm : c.move m = some c') :
    WasAsked V c' k := by
  obtain ⟨dto, baseUrl, token, hreq, hV, rfl⟩ := h
  exact ⟨dto, baseUrl, token, Config.requests_of_move hm hreq, hV, rfl⟩

/-- What writes keep, and insertions establish, holds of every version of every row. -/
theorem everyRow_of_move {P : TaskSelect → Prop} (hm : c.move m = some c')
    (hP : ∀ (w : TaskWrite) t, P t → P (w.apply t))
    (hcreate : ∀ (p : ℕ) (req : Request) (dto : CreateTaskDto) now token k id createdAt,
      c.procs[p]? = some (.running req (.call (.insertTask dto now token) k)) →
        P ((dto.values now token).row id createdAt))
    (h : c.store.EveryRow P) : c'.store.EveryRow P := by
  obtain ⟨time, hσ⟩ | ⟨p, hσ⟩ | ⟨p, o, req, x, k, v, σ, -, hp, -, hx, hσ⟩ := store_cases_of_move hm
  · rw [hσ]
    exact h.of_frame rfl rfl
  · rw [hσ]
    exact h.rollback p
  · have hrows : σ.EveryRow P := by
      refine exec_everyRow (fun dto now token hins => ?_) (fun id w _ t _ _ ht _ _ => hP w t ht)
        (fun w _ t ht _ _ => hP w t ht) hx h
      subst hins
      exact hcreate p req dto now token k _ _ hp
    obtain hσ | hσ := hσ <;> rw [hσ]
    · exact hrows
    · exact hrows.rollback p

/-- What the functions know of the tasks: the contracts that their creations fixed. -/
structure Knows (V : String → Prop) (s : postings.Observed) : Prop where
  rows : s.config.store.EveryRow fun t => WasAsked V s.config t.contract
  drawn : ∀ p token, (s.locals p).token = some token → V token
  known : ∃ f, s.config.store.Fixed TaskSelect.contract f ∧ ∀ p t, (s.locals p).row = some t →
    t.id ∈ s.config.store.issued ∧ t.contract = f t.id ∧ WasAsked V s.config t.contract

variable {p : ℕ} {o : Oracle} {σ σ' : Backend} {x : Await} {r : Reply x} {w : Knowledge}
  {req : Request}

/-- The row that a call shows is one that is committed, but for the columns that writes change. -/
theorem Knowledge.row_of_perform {t : TaskSelect} (hs : perform p o σ x = some (r, σ'))
    (h : (w.next x r).row = some t) :
    w.row = some t ∨ ∃ u ∈ σ.tasks, t.id = u.id ∧ t.contract = u.contract := by
  cases r with
  | error e => cases x <;> exact .inl h
  | ok v =>
    have hx := exec_of_perform_ok hs
    cases x with
    | updateTask id write =>
      cases v with
      | none => exact .inl h
      | some t' =>
        cases h
        obtain ⟨hnone, -⟩ | ⟨u, hu, -, -, -, -, ht, -⟩ := Backend.updateTask_ok hx
        · cases hnone
        · cases ht
          exact .inr ⟨u, hu, write.apply_id u, write.contract_apply u⟩
    | findTask id =>
      cases v with
      | none => exact .inl h
      | some t' =>
        cases h
        simp only [exec, Option.some.injEq, Except.ok.injEq, Prod.mk.injEq] at hx
        exact .inr ⟨t, List.mem_of_find?_eq_some hx.1, rfl, rfl⟩
    | _ => exact .inl h

theorem Knowledge.token_of_perform {token : String} (hs : perform p o σ x = some (r, σ'))
    (h : (w.next x r).token = some token) :
    w.token = some token ∨ x = .randomUUID ∧ token = o.uuid 0 := by
  cases r with
  | error e => cases x <;> exact .inl h
  | ok v =>
    have hx := exec_of_perform_ok hs
    cases x with
    | randomUUID =>
      cases h
      simp only [exec, Option.some.injEq, Except.ok.injEq, Prod.mk.injEq] at hx
      exact .inr ⟨rfl, hx.1.symm⟩
    | updateTask id write => cases v <;> exact .inl h
    | findTask id => cases v <;> exact .inl h
    | _ => exact .inl h

/-- The tokens that are drawn satisfy `V`. -/
def Draws (V : String → Prop) (c : (proxy httpRetryService).Config)
    (m : (proxy httpRetryService).Move) : Prop :=
  ∀ p o, c.callOf m = some (p, o, .randomUUID) → V (o.uuid 0)

theorem knows_of_move {s s' : postings.Observed}
    (hreach : Reaches allow (initial httpRetryService clock) s.config) (hs : s.Obeys)
    (hm : s.move m = some s') (hV : Draws V s.config m) (h : Knows V s) : Knows V s' := by
  have hmove := Observed.config_move hm
  obtain ⟨f, hf, hrow⟩ := h.known
  obtain ⟨hissued, f', hf', hsame⟩ := fixed_of_move TaskWrite.contract_apply hmove hf
  refine ⟨everyRow_of_move hmove (fun w t ht => ?_)
    (fun p req dto now token k id createdAt hp => ?_)
    (h.rows.mono fun t ht => ht.of_move hmove), fun p token htoken => ?_, f', hf',
    fun p t ht => ?_⟩
  · rwa [w.contract_apply]
  · -- only a creation inserts a row, with the token that it drew
    obtain ⟨γ, -, hobeys⟩ := exists_observed hreach
    obtain ⟨-, -, baseUrl, rfl⟩ := hobeys.awaits hp
    have htoken : (s.locals p).token = some token := hs.awaits hp dto baseUrl rfl
    exact ⟨dto, baseUrl, token, Config.requests_of_move hmove (Config.request_mem_requests hp),
      h.drawn p token htoken, rfl⟩
  · obtain ⟨heq, -⟩ | ⟨o, req, x, k, r, rfl, hp, hx, heq⟩ | ⟨-, heq⟩ := Observed.locals_cases hm p
    · rw [heq] at htoken
      exact h.drawn p token htoken
    · rw [heq] at htoken
      obtain hold | ⟨rfl, rfl⟩ := Knowledge.token_of_perform hx htoken
      · exact h.drawn p token hold
      · exact hV p o (Config.callOf_eq_some.mpr ⟨rfl, req, k, hp⟩)
    · rw [heq] at htoken
      cases htoken
  · obtain ⟨heq, -⟩ | ⟨o, req, x, k, r, rfl, hp, hx, heq⟩ | ⟨-, heq⟩ := Observed.locals_cases hm p
    · rw [heq] at ht
      obtain ⟨hi, hcontract, hcreated⟩ := hrow p t ht
      exact ⟨hissued hi, hcontract.trans (hsame _ hi).symm, hcreated.of_move hmove⟩
    · rw [heq] at ht
      obtain hold | ⟨u, hu, hid, hcontract⟩ := Knowledge.row_of_perform hx ht
      · obtain ⟨hi, hcontract, hcreated⟩ := hrow p t hold
        exact ⟨hissued hi, hcontract.trans (hsame _ hi).symm, hcreated.of_move hmove⟩
      · obtain ⟨hi, hu'⟩ := hf.committed u hu
        rw [hid, hcontract]
        exact ⟨hissued hi, hu'.trans (hsame _ hi).symm, (h.rows.committed u hu).of_move hmove⟩
    · rw [heq] at ht
      cases ht

/-- What the functions know, in every state reached. -/
theorem exists_knows (h : Reaches (Draws V) (initial httpRetryService clock) c) :
    ∃ γ, (⟨c, γ⟩ : postings.Observed).Obeys ∧ Knows V ⟨c, γ⟩ := by
  let start : postings.Observed := ⟨initial httpRetryService clock, fun _ => ({} : Knowledge)⟩
  obtain ⟨γ, hγ⟩ := exists_runs start h
  have hobeys : ∀ s, Runs (Draws V) start s → s.Obeys := fun s hs =>
    postings_sound.obeys hs Observed.obeys_of_no_procs
  refine ⟨γ, hobeys _ hγ, hγ.invariant (I := Knows V) (fun t m t' hrun ha hm ht =>
    knows_of_move hrun.reaches (hobeys t hrun) hm ha ht) ⟨⟨?_, ?_⟩, ?_, fun _ => ⟨"", .null, none,
      none, none⟩, ⟨?_, ?_⟩, ?_⟩⟩
  all_goals simp [start, initial, Backend.tx]

end Runs

end LongRequestProxy
