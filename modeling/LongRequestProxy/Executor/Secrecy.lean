import LongRequestProxy.Executor.Credentials
import LongRequestProxy.Store.TokenRenaming
import LongRequestProxy.Tasks.Polling

/-!
# Callback tokens stay secret

A callback token goes to the executor of its task, and nowhere else: whoever does not see the
`Authorization` headers of the requests to executors cannot tell a run from one in which other
tokens were drawn. What the program answers, logs, publishes, enqueues and shows of a task is the
same in both.

## Main definitions

* `RequestTwins`: the requests are the same but for the token that an executor shows.
* `otherTokens π`: the relation between the runs of the program that differ in the tokens.
* `LooksAlike π c c'`: nobody who sees no token tells the configurations apart.

## Main results

* `tokens_secret`: every run has a counterpart with other tokens, which looks alike.
-/

namespace LongRequestProxy

open Async Service Prog

variable (π : Renaming)

/-- The headers carry tokens that correspond, or no token at all. -/
def BearerTwins (authorization authorization' : Option String) : Prop :=
  extractBearerToken authorization' = (extractBearerToken authorization).map π.map

/-- The requests are the same but for the token that an executor shows. -/
inductive RequestTwins : Request → Request → Prop
  | create (dto : CreateTaskDto) (baseUrl : String) :
    RequestTwins (.create dto baseUrl) (.create dto baseUrl)
  | cancel (id : String) : RequestTwins (.cancel id) (.cancel id)
  | result {authorization authorization' : Option String} (id : String) (dto : SubmitResultDto)
      (h : BearerTwins π authorization authorization') :
    RequestTwins (.result id authorization dto) (.result id authorization' dto)
  | progress {authorization authorization' : Option String} (id : String)
      (dto : UpdateProgressDto) (h : BearerTwins π authorization authorization') :
    RequestTwins (.progress id authorization dto) (.progress id authorization' dto)
  | dispatch (id : String) (timeoutSeconds : ℤ) :
    RequestTwins (.dispatch id timeoutSeconds) (.dispatch id timeoutSeconds)
  | notifyCancel (id : String) : RequestTwins (.notifyCancel id) (.notifyCancel id)
  | notifyWebhook (id : String) : RequestTwins (.notifyWebhook id) (.notifyWebhook id)
  | sweep (batches : ℕ) : RequestTwins (.sweep batches) (.sweep batches)
  | retain (retentionDays : ℤ) (batches : ℕ) :
    RequestTwins (.retain retentionDays batches) (.retain retentionDays batches)

/-- The functions do the same with tokens that correspond. -/
abbrev Alike {α β : Type} (A : α → β → Prop) (P : Async α) (Q : Async β) : Prop :=
  RelatedExcept (TokenLinks π) A P Q

variable {π} {α : Type}

/-! ### Calls -/

theorem alike_same {x : Await} (hx : x.showsToken = false) : Alike π Eq (call x) (call x) := by
  refine .call (.same hx) ?_
  rintro r _ rfl
  cases r with
  | ok v => exact .ret (.ok rfl)
  | error e => exact .ret (.error e)

theorem alike_call {x y : Await} {A : x.Val → y.Val → Prop}
    (hlink : TokenLinks π x y (Agree A)) : Alike π A (call x) (call y) :=
  .call hlink fun _ _ h => .ret h

theorem alike_sleep (ms : ℕ) : Alike π Eq (call (.sleep ms)) (call (.sleep ms)) := alike_same rfl

/-- A function whose calls show no token. -/
theorem alike_of_uses {P : Async α} (hP : P.run.Uses fun x => x.showsToken = false) :
    Alike π Eq P P :=
  .of_uses hP (fun _ hx => .same hx) fun _ => rfl

/-! ### Functions -/

theorem insertEvent_alike (input : InsertEventInput) :
    Alike π Eq (EventsRepository.insertEvent input) (EventsRepository.insertEvent input) :=
  alike_of_uses <| uses_bind (uses_bind (Uses.call rfl) fun _ =>
    uses_bind (Uses.call rfl) fun _ => Uses.call rfl) fun _ =>
      uses_bind (Uses.call rfl) fun _ => uses_pure _

theorem releaseQuietly_alike (key : Option String) :
    Alike π Eq (TasksService.releaseQuietly key) (TasksService.releaseQuietly key) := by
  refine alike_of_uses ?_
  cases key with
  | none => exact uses_pure ()
  | some key => exact uses_tryCatch (Uses.call rfl) fun _ => uses_pure ()

theorem commitQuietly_alike (key : Option String) (id : String) :
    Alike π Eq (TasksService.commitQuietly key id) (TasksService.commitQuietly key id) := by
  refine alike_of_uses ?_
  cases key with
  | none => exact uses_pure ()
  | some key => exact uses_tryCatch (Uses.call rfl) fun _ => uses_pure ()

theorem createTask_alike (dto : CreateTaskDto) (baseUrl : String) (key : Option String) :
    Alike π Eq (TasksService.createTask dto baseUrl key)
      (TasksService.createTask dto baseUrl key) := by
  have hfails : ∀ {β : Type} {A : β → β → Prop} (error : JsError),
      Alike π A (do TasksService.releaseQuietly key; throw error)
        (do TasksService.releaseQuietly key; throw error) := fun error =>
    .bind (releaseQuietly_alike key) fun _ _ _ => .throw error
  have hinsert : Alike π (fun t t' => t' = t.rename π) (TasksService.insertOrRelease dto key)
      (TasksService.insertOrRelease dto key) := by
    refine .tryCatch (.bind (alike_same rfl) ?_) hfails
    rintro now _ rfl
    refine .bind (alike_call .randomUUID) ?_
    rintro token _ rfl
    exact alike_call (.insertTask dto now token)
  refine .bind hinsert ?_
  rintro t _ rfl
  have henqueue : Alike π Eq (call (.enqueue (.dispatch t.id t.timeoutSeconds)))
      (call (.enqueue (.dispatch t.id t.timeoutSeconds))) := alike_same rfl
  refine .bind (.tryCatch henqueue fun error => ?_) fun _ _ _ => ?_
  · have hdelete : Alike π Eq (call (.deleteTask t.id)) (call (.deleteTask t.id)) := alike_same rfl
    exact .bind (.tryCatch hdelete fun _ => .pure rfl) fun _ _ _ => hfails error
  · exact .bind (commitQuietly_alike key t.id) fun _ _ _ => .pure rfl

theorem create_alike (dto : CreateTaskDto) (baseUrl : String) :
    Alike π Eq (TasksService.create dto baseUrl) (TasksService.create dto baseUrl) := by
  unfold TasksService.create
  split
  · exact createTask_alike dto baseUrl none
  · refine .bind (.bind (alike_same rfl) fun _ _ heq => .pure (congrArg _ heq)) ?_
    rintro slot _ rfl
    cases slot with
    | acquired => exact createTask_alike dto baseUrl _
    | pending => exact .throw _
    | duplicate taskId => exact .pure rfl

theorem cancelTask_alike (id : String) :
    Alike π (fun a b => b = a.map fun r => (r.1.rename π, r.2))
      (TasksRepository.cancelTask id) (TasksRepository.cancelTask id) := by
  have hcommit : Alike π Eq (call .txCommit) (call .txCommit) := alike_same rfl
  refine .bind (alike_same rfl) ?_
  rintro now _ rfl
  refine .bind (alike_call (.txCancelTask id now)) ?_
  rintro t _ rfl
  cases t with
  | none => exact .bind hcommit fun _ _ _ => .pure rfl
  | some t =>
    refine .bind (alike_of_uses (uses_bind (Uses.call rfl) fun _ =>
      uses_bind (Uses.call rfl) fun _ => Uses.call rfl)) ?_
    rintro e _ rfl
    exact .bind hcommit fun _ _ _ => .pure rfl

theorem cancel_alike (id : String) :
    Alike π Eq (TasksService.cancel id) (TasksService.cancel id) := by
  refine .bind (cancelTask_alike id) ?_
  rintro r _ rfl
  cases r with
  | none =>
    refine .bind (alike_call (.findTask id)) ?_
    rintro t _ rfl
    cases t with
    | none => exact .throw _
    | some t => exact .throw _
  | some r =>
    have hpublish : Alike π Eq (call (.publish (taskChannel id) r.2))
        (call (.publish (taskChannel id) r.2)) := alike_same rfl
    refine .bind hpublish fun _ _ _ => ?_
    refine alike_of_uses ?_
    split
    · exact Uses.call rfl
    · exact uses_pure ()

/-- What the guard makes of a row depends on whether the tokens are equal. -/
theorem judge_alike (id token : String) (t : Option TaskSelect) :
    Alike π (fun t t' => t' = t.rename π) (CallbackAuthGuard.judge id token t)
      (CallbackAuthGuard.judge id (π.map token) (t.map (TaskSelect.rename π))) := by
  cases t with
  | none => exact .throw _
  | some t =>
    have hstored : (t.rename π).callbackToken.filter (· ≠ "") =
        (t.callbackToken.filter (· ≠ "")).map π.map := by
      cases hnull : t.callbackToken with
      | none => simp [TaskSelect.rename, hnull]
      | some stored =>
        have hempty := π.map_ne_empty (s := stored)
        by_cases hs : stored = "" <;> simp_all [TaskSelect.rename, Option.filter_some]
    simp only [Option.map_some, CallbackAuthGuard.judge, hstored]
    cases t.callbackToken.filter (· ≠ "") with
    | none => exact .throw _
    | some stored =>
      have hmatch : tokensMatch (π.map token) (π.map stored) = tokensMatch token stored := by
        rw [Bool.eq_iff_iff, tokensMatch_iff, tokensMatch_iff, π.injective.eq_iff]
      simp only [Option.map_some, hmatch]
      split
      · exact .throw _
      · by_cases hstatus : t.status ≠ .processing
        · have hstatus' : (t.rename π).status ≠ .processing := hstatus
          rw [if_pos hstatus, if_pos hstatus']
          exact .throw _
        · have hstatus' : ¬ (t.rename π).status ≠ .processing := hstatus
          rw [if_neg hstatus, if_neg hstatus']
          exact .pure rfl

theorem canActivate_alike {authorization authorization' : Option String} (id : String)
    (h : BearerTwins π authorization authorization') :
    Alike π (fun t t' => t' = t.rename π) (CallbackAuthGuard.canActivate id authorization)
      (CallbackAuthGuard.canActivate id authorization') := by
  unfold BearerTwins at h
  cases htoken : extractBearerToken authorization with
  | none =>
    rw [htoken] at h
    simp only [CallbackAuthGuard.canActivate, htoken, h, Option.map_none]
    exact .throw _
  | some token =>
    rw [htoken] at h
    by_cases hid : id = ""
    · simp only [CallbackAuthGuard.canActivate, htoken, h, Option.map_some, if_pos hid]
      exact .throw _
    · rw [CallbackAuthGuard.canActivate_eq htoken hid, CallbackAuthGuard.canActivate_eq h hid]
      refine .bind (alike_call (.findTask id)) ?_
      rintro t _ rfl
      exact judge_alike id token t

theorem submitResult_alike (t : TaskSelect) (dto : SubmitResultDto) :
    Alike π Eq (ExecutorService.submitResult t dto)
      (ExecutorService.submitResult (t.rename π) dto) := by
  refine .bind (alike_same rfl) ?_
  rintro now _ rfl
  refine .bind (alike_call (.updateTask t.id (dto.write now))) ?_
  rintro u _ rfl
  cases u with
  | none => exact .pure rfl
  | some u =>
    refine .bind (insertEvent_alike (dto.event t.id)) ?_
    rintro e _ rfl
    refine alike_of_uses (uses_bind (Uses.call rfl) fun _ => ?_)
    split
    · exact Uses.call rfl
    · exact uses_pure ()

theorem updateProgress_alike (t : TaskSelect) (dto : UpdateProgressDto) :
    Alike π Eq (ExecutorService.updateProgress t dto)
      (ExecutorService.updateProgress (t.rename π) dto) := by
  refine .bind (alike_call (.updateTask t.id (.progress dto.progress))) fun _ _ _ => ?_
  refine .bind (insertEvent_alike (.progress t.id dto.progress)) ?_
  rintro e _ rfl
  have hpublish : Alike π Eq (call (.publish (taskChannel t.id) e))
      (call (.publish (taskChannel t.id) e)) := alike_same rfl
  exact hpublish

/-- The loop posts with headers that correspond. -/
theorem loop_alike {authorization authorization' : String} (url : String) (body : Json)
    (h : HeaderTwins π authorization authorization') (opts : HttpRetryOptions)
    (left attempt : ℕ) (lastError : String) (lastStatusCode : Option ℕ) :
    Alike π Eq
      (HttpRetryService.loop url body authorization opts left attempt lastError lastStatusCode)
      (HttpRetryService.loop url body authorization' opts left attempt lastError
        lastStatusCode) := by
  induction left generalizing attempt lastError lastStatusCode with
  | zero => exact .throw _
  | succ left ih =>
    unfold HttpRetryService.loop
    refine .bind (A := Eq) (.call (.httpRequest url body opts.requestTimeoutMs h) ?_) ?_
    · rintro r _ rfl
      cases r with
      | ok v => exact .ret (.ok rfl)
      | error e => exact .ret (.error e)
    rintro reply _ rfl
    cases reply with
    | ok data => exact .pure rfl
    | error err =>
      dsimp only
      split
      · exact .throw _
      · split
        · exact ih ..
        · refine .bind (A := Eq) (alike_same rfl) ?_
          rintro jitter _ rfl
          refine .bind (alike_sleep _) ?_
          exact fun _ _ _ => ih ..

theorem headerTwins (t : TaskSelect) : HeaderTwins π ("Bearer " ++ t.callbackToken.getD "")
    ("Bearer " ++ (t.rename π).callbackToken.getD "") := by
  refine ⟨t.callbackToken.getD "", rfl, ?_⟩
  cases hnull : t.callbackToken with
  | none => simp [TaskSelect.rename, hnull, π.map_empty]
  | some token => simp [TaskSelect.rename, hnull]

theorem post_alike {authorization authorization' : String} (url : String) (body : Json)
    (h : HeaderTwins π authorization authorization') (opts : HttpRetryOptions) :
    Alike π Eq (HttpRetryService.post url body authorization opts)
      (HttpRetryService.post url body authorization' opts) :=
  loop_alike url body h opts ..

theorem dispatch_alike (id : String) (timeoutSeconds : ℤ) :
    Alike π Eq (DispatchProcessor.process httpRetryService id timeoutSeconds)
      (DispatchProcessor.process httpRetryService id timeoutSeconds) := by
  refine .bind (alike_same rfl) ?_
  rintro now _ rfl
  refine .bind (alike_call (.updateTask id (.dispatchClaim now timeoutSeconds))) ?_
  rintro t _ rfl
  cases t with
  | none => exact .pure rfl
  | some t =>
    refine .tryCatch (.bind (post_alike _ _ (headerTwins t) _) fun _ _ _ => .pure rfl)
      fun err => ?_
    unfold DispatchProcessor.onError
    split
    · next error herror =>
      refine .bind (alike_same rfl) ?_
      rintro now _ rfl
      exact .bind (alike_call (.updateTask id (.dispatchFailure now error))) fun _ _ _ => .pure rfl
    · exact .bind (A := Eq) (.tryCatch (.bind (alike_call (.updateTask id .dispatchRevert))
        fun _ _ _ => .pure rfl) fun _ => .pure rfl) fun _ _ _ => .throw err

theorem notifyCancel_alike (id : String) :
    Alike π Eq (CancelProcessor.process httpRetryService id)
      (CancelProcessor.process httpRetryService id) := by
  refine .bind (alike_call (.findTask id)) ?_
  rintro t _ rfl
  cases t with
  | none => exact .pure rfl
  | some t =>
    dsimp only [Option.map_some]
    have hurl : (t.rename π).cancelUrl = t.cancelUrl := rfl
    rw [hurl]
    cases t.cancelUrl.filter (· ≠ "") with
    | none => exact .pure rfl
    | some url =>
      exact .tryCatch (.bind (post_alike _ _ (headerTwins t) _) fun _ _ _ => .pure rfl)
        fun _ => .pure rfl

theorem notifyWebhook_alike (id : String) :
    Alike π Eq (WebhookProcessor.process httpRetryService id)
      (WebhookProcessor.process httpRetryService id) := by
  refine .bind (alike_call (.findTask id)) ?_
  rintro t _ rfl
  cases t with
  | none => exact .pure rfl
  | some t =>
    dsimp only [Option.map_some]
    have hurl : (t.rename π).webhookUrl = t.webhookUrl := rfl
    have hpayload : webhookPayload (t.rename π) = webhookPayload t := rfl
    rw [hurl, hpayload]
    cases t.webhookUrl.filter (· ≠ "") with
    | none => exact .pure rfl
    | some url =>
      exact alike_of_uses ((deliver_uses httpRetryService url (webhookPayload t)).mono
        fun x hx => by cases x <;> first | rfl | cases hx)

theorem sweep_alike (batches : ℕ) : Alike π Eq (TimeoutSweeperProcessor.process batches)
    (TimeoutSweeperProcessor.process batches) := by
  refine alike_of_uses ?_
  induction batches with
  | zero => exact uses_pure ()
  | succ n ih =>
    refine uses_bind (uses_bind (Uses.call rfl) fun _ => uses_bind (Uses.call rfl) fun ids => ?_)
      fun batch => ?_
    · split
      · exact uses_bind (Uses.call rfl) fun _ => uses_pure _
      · exact uses_bind (Uses.call rfl) fun _ => uses_bind (Uses.call rfl) fun _ =>
          uses_bind (Uses.call rfl) fun _ => uses_pure _
    · split
      · exact uses_pure ()
      · refine uses_bind ?_ fun _ => ih
        induction batch.2 with
        | nil => exact uses_pure ()
        | cons e es ihes =>
          exact uses_bind (uses_tryCatch (Uses.call rfl) fun _ => uses_pure ()) fun _ => ihes

theorem retain_alike (retentionDays : ℤ) (batches : ℕ) :
    Alike π Eq (MaintenanceRepository.deleteOldData retentionDays batches)
      (MaintenanceRepository.deleteOldData retentionDays batches) := by
  have hbatches : ∀ (cutoff : Timestamp) (totals : ℕ × ℕ), (MaintenanceRepository.deleteBatches
      cutoff batches totals).run.Uses fun x => x.showsToken = false := by
    intro cutoff
    induction batches with
    | zero => exact fun _ => uses_pure _
    | succ n ih =>
      intro totals
      refine uses_bind (Uses.call rfl) fun batch => ?_
      split
      · exact uses_pure _
      · refine uses_bind (uses_bind (Uses.call rfl) fun _ => uses_bind (Uses.call rfl) fun _ =>
          uses_bind (Uses.call rfl) fun _ => uses_pure _) fun deleted => ?_
        dsimp only
        split
        · exact ih _
        · exact uses_pure _
  exact alike_of_uses (uses_bind (Uses.call rfl) fun _ => hbatches ..)

/-- **Requests that correspond start functions that do the same.** -/
theorem run_alike {req req' : Request} (h : RequestTwins π req req') :
    Alike π Eq (req.run httpRetryService) (req'.run httpRetryService) := by
  cases h with
  | create dto baseUrl =>
    exact .bind (create_alike dto baseUrl) fun _ _ heq => .pure (congrArg _ heq)
  | cancel id => exact .bind (cancel_alike id) fun _ _ _ => .pure rfl
  | result id dto h =>
    refine .bind (canActivate_alike id h) ?_
    rintro t _ rfl
    exact .bind (submitResult_alike t dto) fun _ _ _ => .pure rfl
  | progress id dto h =>
    refine .bind (canActivate_alike id h) ?_
    rintro t _ rfl
    exact .bind (updateProgress_alike t dto) fun _ _ _ => .pure rfl
  | dispatch id timeoutSeconds =>
    exact .bind (dispatch_alike id timeoutSeconds) fun _ _ _ => .pure rfl
  | notifyCancel id => exact .bind (notifyCancel_alike id) fun _ _ _ => .pure rfl
  | notifyWebhook id => exact .bind (notifyWebhook_alike id) fun _ _ _ => .pure rfl
  | sweep batches => exact .bind (sweep_alike batches) fun _ _ _ => .pure rfl
  | retain retentionDays batches =>
    exact .bind (retain_alike retentionDays batches) fun _ _ _ => .pure rfl

/-! ### Runs -/

/-- An executor can show the token that corresponds. -/
theorem exists_bearerTwins (π : Renaming) (authorization : Option String) :
    ∃ authorization', BearerTwins π authorization authorization' := by
  unfold BearerTwins
  cases htoken : extractBearerToken authorization with
  | none => exact ⟨authorization, htoken⟩
  | some token =>
    obtain ⟨hne, text, -, htrim⟩ := extractBearerToken_eq_some_iff.mp htoken
    have htight : IsTight token.toList := by
      rw [← htrim, String.toList_ofList]
      exact isTight_jsTrim _
    exact ⟨_, extractBearerToken_bearer (π.map_ne_empty.mpr hne) (π.tight htight)⟩

theorem exists_requestTwins (π : Renaming) (req : Request) : ∃ req', RequestTwins π req req' := by
  cases req with
  | create dto baseUrl => exact ⟨_, .create dto baseUrl⟩
  | cancel id => exact ⟨_, .cancel id⟩
  | result id authorization dto =>
    obtain ⟨_, h⟩ := exists_bearerTwins π authorization
    exact ⟨_, .result id dto h⟩
  | progress id authorization dto =>
    obtain ⟨_, h⟩ := exists_bearerTwins π authorization
    exact ⟨_, .progress id dto h⟩
  | dispatch id timeoutSeconds => exact ⟨_, .dispatch id timeoutSeconds⟩
  | notifyCancel id => exact ⟨_, .notifyCancel id⟩
  | notifyWebhook id => exact ⟨_, .notifyWebhook id⟩
  | sweep batches => exact ⟨_, .sweep batches⟩
  | retain retentionDays batches => exact ⟨_, .retain retentionDays batches⟩

/-- Runs of the program that differ in the tokens. -/
def otherTokens (π : Renaming) : Similarity (proxy httpRetryService) where
  links := TokenLinks π
  stores := Twins π
  requests := RequestTwins π
  exists_request := exists_requestTwins π
  admits h hreq hadmits := by
    cases hreq with
    | dispatch | notifyCancel | notifyWebhook =>
      simp only [Request.admitted, h.queue] at hadmits ⊢
      exact hadmits
    | _ => rfl
  body hreq := (run_alike hreq).mono fun r s hrs => by
    cases hrs with
    | ok heq => exact congrArg _ heq
    | error e => rfl
  perform h hlink hstep := by
    obtain ⟨r', τ', hperform, hr, hτ⟩ := h.perform hlink hstep
    exact ⟨_, r', τ', hperform, hr, hτ⟩
  abort h p := h.rollback p
  ambient {s s' t σ} h ht := by
    simp only [Backend.tick] at ht ⊢
    rw [h.clock]
    split at ht
    · next hle =>
      cases ht
      exact ⟨_, if_pos hle, h.of_surroundings (fun x => { x with clock := t }) rfl rfl rfl rfl rfl
        rfl⟩
    · cases ht

variable {c c' : (proxy httpRetryService).Config}

variable (π) in
/-- The configurations differ in the tokens only: a poll shows the same task, the log, the
messages, the queues and the slots are the same, the functions have answered the same, and those
in flight make the same calls, up to the tokens. -/
structure LooksAlike (c c' : (proxy httpRetryService).Config) : Prop where
  tasks : c'.store.tasks = c.store.tasks.map (TaskSelect.rename π)
  polls : ∀ o id, poll o c'.store id = poll o c.store id
  events : c'.store.events = c.store.events
  published : c'.store.published = c.store.published
  queue : c'.store.queue = c.store.queue
  lookup : ∀ key, c'.store.lookup key = c.store.lookup key
  answers : ∀ p a, (∃ req, c.Returned p req a) ↔ ∃ req, c'.Returned p req a
  calls : ∀ p x, c.nextCall p = some x → ∃ y V, TokenLinks π x y V ∧ c'.nextCall p = some y

theorem Twins.poll {σ σ' : Backend} (h : Twins π σ σ') (o : Oracle) (id : String) :
    poll o σ' id = poll o σ id := by
  rw [poll_eq, poll_eq, h.findTask]
  cases σ.findTask id <;> rfl

theorem looksAlike_of_similar (h : (otherTokens π).Similar c c') : LooksAlike π c c' where
  tasks := h.store.tasks
  polls := h.store.poll
  events := h.store.events
  published := h.store.published
  queue := h.store.queue
  lookup := h.store.lookup
  answers := h.returned_iff
  calls p x hx := by
    obtain ⟨req, k, hp⟩ := Config.nextCall_eq_some.mp hx
    obtain ⟨req', y, V, l, -, hlink, -, hp'⟩ := h.running hp
    exact ⟨y, V, hlink, Config.nextCall_eq_some.mpr ⟨req', l, hp'⟩⟩

/-- **Secrecy.** Let callback tokens be renamed in any way. To every run of the program with its
own client there is a run in which the other tokens are drawn, and the two look alike all along:
nobody who sees no token can tell which ones were drawn. -/
theorem tokens_secret (π : Renaming) (clock : Timestamp)
    (l : List (proxy httpRetryService).Config)
    (h : List.IsChain (Moves fun _ _ => True) (initial httpRetryService clock :: l)) :
    ∃ l', List.IsChain (Moves fun _ _ => True) (initial httpRetryService clock :: l') ∧
      List.Forall₂ (LooksAlike π) l l' := by
  have hstart : (otherTokens π).Similar (initial httpRetryService clock)
      (initial httpRetryService clock) :=
    ⟨⟨rfl, fun _ => rfl, rfl⟩, .nil⟩
  obtain ⟨l', hl', hsimilar⟩ := Similarity.run hstart h
  exact ⟨l', hl', hsimilar.imp fun _ _ => looksAlike_of_similar⟩

/-- The run that posts the token of the task has a counterpart that posts another one. -/
theorem postedTask_secret : ∃ (l l' : List (proxy httpRetryService).Config) (π : Renaming),
    π.map otherId = "33333333-3333-4333-8333-333333333333" ∧
    List.Forall₂ (LooksAlike π) l l' ∧
    ∃ c ∈ l, ∃ t ∈ c.store.tasks, t.callbackToken = some otherId := by
  let thirdId := "33333333-3333-4333-8333-333333333333"
  have hother : isUuid otherId = true := by decide
  have hthird : isUuid thirdId = true := by decide
  let π := Renaming.swap otherId thirdId ⟨ne_empty_of_isUuid hother, isTight_of_isUuid hother⟩
    ⟨ne_empty_of_isUuid hthird, isTight_of_isUuid hthird⟩
  obtain ⟨c, hc, hcheck⟩ : ∃ c, Reaches (fun _ _ => True) (initial httpRetryService 0) c ∧
      (c.store.tasks.any fun t => t.callbackToken == some otherId) = true :=
    exists_reaches_of_replay (fun _ _ => true) postedTask _ (fun _ _ _ => trivial) (by decide)
  obtain ⟨l, hl, hlast⟩ := List.exists_isChain_cons_of_relationReflTransGen hc
  obtain ⟨l', -, halike⟩ := tokens_secret π 0 l hl
  simp only [List.any_eq_true, beq_iff_eq] at hcheck
  obtain ⟨t, ht, htoken⟩ := hcheck
  refine ⟨l, l', π, Equiv.swap_apply_left otherId thirdId, halike, c, ?_, t, ht, htoken⟩
  cases l with
  | nil =>
    cases hlast
    cases ht
  | cons d l =>
    rw [← hlast, List.getLast_cons_cons]
    exact List.getLast_mem _

end LongRequestProxy
