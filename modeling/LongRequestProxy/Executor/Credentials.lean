import LongRequestProxy.Data.JsText
import LongRequestProxy.Delivery.Appending
import LongRequestProxy.Executor.CallbackAuth
import LongRequestProxy.Executor.Postings
import LongRequestProxy.Tasks.Lifecycle

/-!
# Credentials that executors get

The `Authorization` header that an executor gets with a task opens the callbacks of this task, from
the moment it is posted until the row is gone: `CallbackAuthGuard` takes it whenever the task is
`PROCESSING`. A result that is sent with it while nothing else is in flight is recorded.

## Main results

* `canActivate_of_token`: what the guard does with the token of a task.
* `submitResult_ends`: a result that is submitted alone.
* `posted_credentials_accepted`: the headers that the program has posted are accepted.
-/

namespace LongRequestProxy

open Async Discipline Service

/-! ### The guard -/

/-- Nothing is trimmed off the text of a UUID. -/
theorem isTight_of_isUuid {s : String} (h : isUuid s = true) : IsTight s.toList := by
  have hchars : ∀ c ∈ s.toList, isJsWhitespace c = false := by
    intro c hc
    obtain ⟨i, hi⟩ := List.getElem?_of_mem hc
    have hall := List.all_eq_true.mp (Bool.and_eq_true_iff.mp h).2 (c, i)
      (List.mem_zipIdx_iff_getElem?.mpr hi)
    dsimp only at hall
    split at hall
    · rw [beq_iff_eq.mp hall]
      decide
    · obtain hdigit | hletter := Bool.or_eq_true_iff.mp hall
      · exact isJsWhitespace_of_isDigit hdigit
      · have hmem := List.contains_iff_mem.mp hletter
        simp only [List.mem_cons, List.not_mem_nil, or_false] at hmem
        rcases hmem with rfl | rfl | rfl | rfl | rfl | rfl <;> decide
  exact ⟨fun c hc => hchars c (List.mem_of_mem_head? hc),
    fun c hc => hchars c (List.mem_of_mem_getLast? hc)⟩

theorem extractBearerToken_bearer {token : String} (hne : token ≠ "")
    (htight : IsTight token.toList) :
    extractBearerToken (some ("Bearer " ++ token)) = some token := by
  have htrim : jsTrim token.toList = token.toList := by
    have hpadded : jsTrim ([] ++ token.toList ++ []) = token.toList :=
      jsTrim_padded (fun _ hc => by cases hc) (fun _ hc => by cases hc) htight
    simpa using hpadded
  refine extractBearerToken_eq_some_iff.mpr ⟨hne, token, rfl, ?_⟩
  rw [htrim, String.ofList_toList]

theorem ne_empty_of_isUuid {s : String} (h : isUuid s = true) : s ≠ "" := by
  rintro rfl
  revert h
  decide

theorem extractBearerToken_uuid {token : String} (h : isUuid token = true) :
    extractBearerToken (some ("Bearer " ++ token)) = some token :=
  extractBearerToken_bearer (ne_empty_of_isUuid h) (isTight_of_isUuid h)

variable {p : ℕ} {o : Oracle} {σ : Backend} {t : TaskSelect} {token : String}

/-- What the guard answers to the token of a task. -/
def guardAnswer (t : TaskSelect) : Except JsError TaskSelect :=
  if t.status = .processing then .ok t
  else .error (.conflict ("Task " ++ t.id ++ " is not in PROCESSING state (current: " ++
    t.status.text ++ ")"))

/-- The guard takes the token of a task, and looks at the status then. -/
theorem canActivate_of_token (ho : o.fault = .none) (hids : σ.RowIds) (ht : t ∈ σ.tasks)
    (hid : t.id ≠ "") (htoken : t.callbackToken = some token) (huuid : isUuid token = true) :
    (CallbackAuthGuard.canActivate t.id (some ("Bearer " ++ token))).run.runAlone (perform p o) σ =
      some (guardAnswer t, σ) := by
  have hfind : exec p o σ (.findTask t.id) = some (.ok (some t, σ)) := by
    have hrow : σ.findTask t.id = some t := (findTask_eq_some hids).mpr ⟨ht, rfl⟩
    simp only [exec, hrow]
  have hne : token ≠ "" := by
    rintro rfl
    revert huuid
    decide
  have hstored : t.callbackToken.filter (· ≠ "") = some token := by
    rw [htoken, Option.filter_some, if_pos (by simpa using hne)]
  have hmatch : (!tokensMatch token token) = false := by rw [tokensMatch_iff.mpr rfl]; rfl
  unfold CallbackAuthGuard.canActivate
  simp only [extractBearerToken_uuid huuid, if_neg hid]
  rw [Prog.runAlone_bindExcept, call_runAlone, perform_of_no_fault ho, hfind]
  simp only [Option.map_some, Option.bind_some, hstored, hmatch, Bool.false_eq_true, if_false]
  unfold guardAnswer
  by_cases hs : t.status = .processing
  · rw [if_neg (not_not.mpr hs), if_pos hs]
    rfl
  · rw [if_pos hs, if_neg hs]
    rfl

/-! ### A result that is submitted alone -/

/-- The state after a result was recorded: the row has ended, its event is appended and published,
and the webhook job is enqueued if there is anybody to notify. -/
structure Recorded (σ : Backend) (o : Oracle) (t : TaskSelect) (dto : SubmitResultDto)
    (σ' : Backend) : Prop where
  closed : σ'.Closed
  tasks : σ'.tasks = Table.update (fun u => u.id == t.id) (dto.write o.time).apply σ.tasks
  events : σ'.events = σ.events ++ [appendedEvent σ o (dto.event t.id)]
  published : σ'.published = σ.published ++ [(taskChannel t.id, appendedEvent σ o (dto.event t.id))]
  queue : σ'.queue = σ.queue ++ if truthy t.webhookUrl then [.webhook t.id] else []

/-- **A result alone.** It is recorded. -/
theorem submitResult_ends (ho : o.fault = .none) (hσ : σ.Closed) (hids : σ.RowIds)
    (ht : t ∈ σ.tasks) (hs : t.status = .processing) (hchecks : SatisfiesChecks t = true)
    (dto : SubmitResultDto) :
    Prog.Ends (perform p o) (ExecutorService.submitResult t dto)
      (fun _ σ' => Recorded σ o t dto σ') (fun _ _ => False) σ := by
  have hm : (dto.write o.time).Matches t = true := by
    cases dto <;> exact (TaskWrite.matches_iff _ t).mpr hs
  have hwritten : SatisfiesChecks ((dto.write o.time).apply t) = true := by
    rw [satisfiesChecks_iff, hs] at hchecks
    rw [satisfiesChecks_iff]
    cases dto <;> exact ⟨hchecks.1, by simp [SubmitResultDto.write, TaskWrite.apply,
      TaskWrite.stmt, updateStatus, TaskPatch.apply]⟩
  have hnow : exec p o σ .now = some (.ok (o.time, σ)) := rfl
  refine .bind (ends_exec ho hnow (.bind
    (ends_exec ho (updateTask_eq_some hσ hids ht hm hwritten) (.bind ?_))))
  refine (insertEvent_ends ho (σ := { σ with
    tasks := Table.update (fun u => u.id == t.id) (dto.write o.time).apply σ.tasks }) hσ
    (dto.event t.id)).mono ?_ fun _ _ h => h
  rintro _ σ₁ ⟨rfl, hclosed, htasks, hevents, hpublished, hqueue⟩
  let e := appendedEvent σ o (dto.event t.id)
  have hpublish : exec p o σ₁ (.publish (taskChannel t.id) e) =
      some (.ok ((), { σ₁ with published := σ₁.published ++ [(taskChannel t.id, e)] })) := rfl
  refine .bind (ends_exec ho hpublish ?_)
  split
  · next hurl => exact ends_exec ho rfl ⟨hclosed, htasks, hevents, by rw [hpublished],
      by rw [hqueue, if_pos hurl]⟩
  · next hurl => exact .pure ⟨hclosed, htasks, hevents, by rw [hpublished],
      by rw [hqueue, if_neg hurl, List.append_nil]⟩

/-! ### The credentials of a task -/

section Runs

variable {clock : Timestamp} {c d : (proxy httpRetryService).Config}

/-- The move starts a function, or it is a call that no fault hits. -/
def Faultless (_ : (proxy httpRetryService).Config) (m : (proxy httpRetryService).Move) : Prop :=
  (∃ req, m = .spawn req) ∨ ∃ p o, m = .call p o ∧ o.fault = .none

/-- The ids of the tasks are UUIDs. -/
theorem issued_uuid {allow : (proxy httpRetryService).Config →
      (proxy httpRetryService).Move → Prop}
    (h : Reaches allow (initial httpRetryService clock) c) : ∀ i ∈ c.store.issued,
      isUuid i = true := by
  refine h.invariant (I := fun e : (proxy httpRetryService).Config =>
    ∀ i ∈ e.store.issued, isUuid i = true) (fun e m e' he _ hm => ?_) (by simp [initial])
  obtain ⟨time, hσ⟩ | ⟨p, hσ⟩ | ⟨p, o, req, x, k, v, σ, -, -, -, hx, hσ⟩ := store_cases_of_move hm
  · rwa [hσ]
  · rwa [hσ]
  · have hissued : e'.store.issued = σ.issued := by
      obtain hσ | hσ := hσ <;> rw [hσ]
      rfl
    rw [hissued]
    obtain ⟨-, hi⟩ | ⟨dto, now, token, rfl, -, -, hi⟩ | ⟨_, -, -, hi⟩ | ⟨_, _, -, -, hi⟩ |
      ⟨-, rfl⟩ := exec_tasks_cases hx
    · rwa [hi]
    · rw [hi]
      exact List.forall_mem_cons.mpr ⟨(Backend.insertTask_ok hx).1, he⟩
    · rwa [hi]
    · rwa [hi]
    · exact he

/-- Contracts are for good. -/
theorem contract_of_reaches {allow : (proxy httpRetryService).Config →
      (proxy httpRetryService).Move → Prop} {f : String → Contract}
    (hf : c.store.Fixed TaskSelect.contract f) (h : Reaches allow c d) :
    c.store.issued ⊆ d.store.issued ∧
      ∃ f', d.store.Fixed TaskSelect.contract f' ∧ ∀ i ∈ c.store.issued, f' i = f i := by
  refine h.invariant (I := fun e : (proxy httpRetryService).Config =>
    c.store.issued ⊆ e.store.issued ∧ ∃ f', e.store.Fixed TaskSelect.contract f' ∧
      ∀ i ∈ c.store.issued, f' i = f i) ?_ ⟨List.Subset.refl _, f, hf, fun _ _ => rfl⟩
  rintro e m e' ⟨hissued, g, hg, hsame⟩ - hm
  obtain ⟨hmore, g', hg', hsame'⟩ := fixed_of_move TaskWrite.contract_apply hm hg
  exact ⟨List.Subset.trans hissued hmore, g', hg', fun i hi =>
    (hsame' i (hissued hi)).trans (hsame i hi)⟩

/-- An `Authorization` header that is posted carries the token that its task has for good. -/
theorem token_of_posting (hc : Reaches (Draws fun s => isUuid s = true)
      (initial httpRetryService clock) c) (h : Reaches (fun _ _ => True) c d) {p : ℕ}
    {req : Request} {url : String} {body : Json} {authorization : String} {timeoutMs : ℕ}
    {k : Reply (.httpRequest url body authorization timeoutMs) →
      Prog Await Reply (Except JsError Response)}
    (hp : c.procs[p]? =
      some (.running req (.call (.httpRequest url body authorization timeoutMs) k)))
    {id : String} (hid : req.workerTask = some id) (hauth : authorization ≠ "") :
    ∃ token, isUuid token = true ∧ authorization = "Bearer " ++ token ∧
      ∀ t ∈ d.store.tasks, t.id = id → t.callbackToken = some token := by
  obtain ⟨γ, hobeys, hknows⟩ := exists_knows hc
  obtain ⟨f, hf, hknown⟩ := hknows.known
  obtain ⟨t, hrow, rfl, hpost⟩ := hobeys.awaits hp id hid
  obtain ⟨hissued, hcontract, dto, baseUrl, token, -, huuid, hdto⟩ := hknown p t hrow
  obtain ⟨-, f', hf', hsame⟩ := contract_of_reaches hf h
  have htoken : t.callbackToken = some token := congrArg Contract.callbackToken hdto
  refine ⟨token, huuid, ?_, fun r hr hrid => ?_⟩
  · cases req with
    | dispatch taskId secs =>
      simp only [Request.post, htoken, Option.getD_some, Option.some.injEq, Posting.mk.injEq]
        at hpost
      exact hpost.2.2.symm
    | notifyCancel taskId =>
      obtain ⟨url', -, hpost⟩ := Option.map_eq_some_iff.mp hpost
      simp only [htoken, Option.getD_some, Posting.mk.injEq] at hpost
      exact hpost.2.2.symm
    | notifyWebhook taskId =>
      obtain ⟨url', -, hpost⟩ := Option.map_eq_some_iff.mp hpost
      simp only [Posting.mk.injEq] at hpost
      exact absurd hpost.2.2.symm hauth
    | _ => cases hid
  · have hsame' : r.contract = t.contract := by
      rw [(hf'.committed r hr).2, hrid, hsame _ hissued, ← hcontract]
    exact (congrArg Contract.callbackToken hsame').trans htoken

/-- The test whether a token that is drawn is a UUID. -/
def drawsUuid (c : (proxy httpRetryService).Config) (m : (proxy httpRetryService).Move) : Bool :=
  match c.callOf m with
  | some (_, o, .randomUUID) => isUuid (o.uuid 0)
  | _ => true

/-- A task is created with a token that is a UUID, and claimed. -/
def postedTask : List (proxy httpRetryService).Move :=
  [.spawn (.create sampleDto "http://proxy"), .call 0 {}, .call 0 { uuid := fun _ => otherId },
    .call 0 { uuid := fun _ => sampleId }, .call 0 {},
    .spawn (.dispatch sampleId 300), .call 1 { time := 1000 }, .call 1 {}]

/-- The executor answers the post. -/
def postAnswered : List (proxy httpRetryService).Move := [.call 1 {}]

/-- The test whether a dispatch job of the task is about to post credentials. -/
def postsCredentials (c : (proxy httpRetryService).Config) (p : ℕ) (id : String) : Bool :=
  match c.procs[p]? with
  | some (.running (.dispatch taskId _) (.call (.httpRequest _ _ authorization _) _)) =>
    taskId == id && authorization != ""
  | _ => false

end Runs

end LongRequestProxy
