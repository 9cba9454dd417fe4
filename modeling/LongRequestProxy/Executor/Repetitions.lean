import LongRequestProxy.Delivery.WebhookPayload
import LongRequestProxy.Executor.Postings

/-!
# Repeated posts

Jobs are delivered at least once, and a post is tried several times. So executors and clients may
get a request more than once, in any order, while the task goes on. They always get the same
request: what a dispatch or a cancel job posts is fixed by the contract of the task, and a webhook
job is enqueued only when the outcome that it reports is final.

## Main definitions

* `Sends`: the step with which a delivery of a job posts something.

## Main results

* `exists_fixed_of_trace`: along a trace a column that no write changes is one function of the id.
* `exists_reading`: what is posted was read before, by the same program.
* `posts_repeated`: all deliveries of a job post the same.
-/

namespace LongRequestProxy

open Async Discipline Service Function

/-! ### Columns along a trace -/

section Columns

variable {http : HttpClient} {clock : Timestamp} {l : List (proxy http).Transition}
  {c : (proxy http).Config} {β : Type} {column : TaskSelect → β}

/-- Along a trace a column that no write changes is one function of the id. -/
theorem exists_fixed_of_trace (hcol : ∀ (w : TaskWrite) t, column (w.apply t) = column t)
    (f₀ : String → β) (h : Trace (initial http clock) l c) :
    ∃ f, c.store.Fixed column f ∧ ∀ x ∈ l, x.before.store.Fixed column f := by
  suffices hinv : ∃ f, c.store.Fixed column f ∧ ∀ x ∈ l, x.before.store.Fixed column f ∧
      x.before.store.issued ⊆ c.store.issued by
    obtain ⟨f, hf, hl⟩ := hinv
    exact ⟨f, hf, fun x hx => (hl x hx).1⟩
  refine h.invariant (I := fun l (c : (proxy http).Config) => ∃ f, c.store.Fixed column f ∧
    ∀ x ∈ l, x.before.store.Fixed column f ∧ x.before.store.issued ⊆ c.store.issued)
    ⟨f₀, ⟨by simp [initial], by simp [initial, Backend.tx]⟩, by simp⟩ ?_
  rintro l c m c' - hm ⟨f, hf, hl⟩
  obtain ⟨hissued, f', hf', hsame⟩ := fixed_of_move hcol hm hf
  have hcongr : ∀ {σ : Backend}, σ.Fixed column f → σ.issued ⊆ c.store.issued →
      σ.Fixed column f' := fun hσ hsub =>
    hσ.mono fun t ht => ⟨ht.1, ht.2.trans (hsame t.id (hsub ht.1)).symm⟩
  refine ⟨f', hf', fun x hx => ?_⟩
  rcases List.mem_append.mp hx with hx | hx
  · obtain ⟨hx, hsub⟩ := hl x hx
    exact ⟨hcongr hx hsub, List.Subset.trans hsub hissued⟩
  · obtain rfl := List.mem_singleton.mp hx
    exact ⟨hcongr hf (List.Subset.refl _), hissued⟩

end Columns

/-! ### What is posted -/

/-- The row that a reply shows. -/
def Await.shownRow : (x : Await) → Reply x → Option TaskSelect
  | .updateTask .., .ok row => row
  | .findTask _, .ok row => row
  | _, _ => none

theorem Knowledge.row_next {w : Knowledge} {x : Await} {r : Reply x} {t : TaskSelect}
    (h : (w.next x r).row = some t) : w.row = some t ∨ x.shownRow r = some t := by
  cases r with
  | error e => cases x <;> exact .inl h
  | ok v =>
    cases x with
    | updateTask id write => cases v <;> first | exact .inl h | exact .inr h
    | findTask id => cases v <;> first | exact .inl h | exact .inr h
    | _ => exact .inl h

theorem Knowledge.row_of_shownRow {w : Knowledge} {x : Await} {r : Reply x} {t : TaskSelect}
    (h : x.shownRow r = some t) : (w.next x r).row = some t := by
  cases r with
  | error e => cases x <;> cases h
  | ok v =>
    cases x with
    | updateTask id write => cases h; rfl
    | findTask id => cases h; rfl
    | _ => cases h

/-- Only two calls show rows. -/
theorem Await.call_of_shownRow {x : Await} {r : Reply x} {t : TaskSelect}
    (h : x.shownRow r = some t) :
    (∃ id, x = .findTask id) ∨ ∃ id write, x = .updateTask id write := by
  cases x with
  | findTask id => exact .inl ⟨id, rfl⟩
  | updateTask id write => exact .inr ⟨id, write, rfl⟩
  | _ => cases r <;> cases h

/-- The request of a worker is determined by its job. -/
theorem Request.eq_of_delivers {req req' : Request} {job : Job} (h : req.delivers = some job)
    (h' : req'.delivers = some job) : req = req' := by
  cases req <;> cases h <;> cases req' <;> cases h' <;> rfl

theorem SameOutcome.symm {t t' : TaskSelect} (h : SameOutcome t t') : SameOutcome t' t :=
  ⟨h.status.symm, h.result.symm, h.error.symm, h.completedAt.symm, h.processingStartedAt.symm,
    h.expiresAt.symm⟩

/-- A post is determined by the contract of the task, and by its outcome if it reports that. -/
theorem Request.post_congr {req : Request} {t t' : TaskSelect} (hid : t'.id = t.id)
    (hcontract : t'.contract = t.contract)
    (hout : ∀ id, req = .notifyWebhook id → SameOutcome t t') : req.post t' = req.post t := by
  have hexec : t'.executorUrl = t.executorUrl := congrArg Contract.executorUrl hcontract
  have hpayload : t'.payload = t.payload := congrArg Contract.payload hcontract
  have htoken : t'.callbackToken = t.callbackToken := congrArg Contract.callbackToken hcontract
  have hcancel : t'.cancelUrl = t.cancelUrl := congrArg Contract.cancelUrl hcontract
  have hwebhook : t'.webhookUrl = t.webhookUrl := congrArg Contract.webhookUrl hcontract
  cases req with
  | dispatch taskId n => rw [Request.post, Request.post, hexec, hpayload, htoken]
  | notifyCancel taskId => rw [Request.post, Request.post, hcancel, htoken]
  | notifyWebhook taskId =>
    have hout := hout taskId rfl
    simp only [Request.post, webhookPayload, hid, hwebhook, hout.status, hout.result, hout.error]
  | _ => rfl

section Runs

variable {clock : Timestamp} {l : List (proxy httpRetryService).Transition}
  {c : (proxy httpRetryService).Config}

/-- With this step a worker has read the row from which it makes its request; that of a webhook
shows how the task has ended. -/
structure Reading (req : Request) (t : TaskSelect) (z : (proxy httpRetryService).Transition) :
    Prop where
  contract : ∃ u ∈ z.before.store.tasks, t.id = u.id ∧ t.contract = u.contract
  ended : ∀ id, req = .notifyWebhook id →
    t ∈ z.before.store.tasks ∧ t.status.isTerminal = true

/-- **Nothing is posted that was not read.** -/
theorem exists_reading (h : Trace (initial httpRetryService clock) l c) {p : ℕ} {req : Request}
    {url : String} {body : Json} {authorization : String} {timeoutMs : ℕ}
    {k : Reply (.httpRequest url body authorization timeoutMs) →
      Prog Await Reply (Except JsError Response)}
    (hp : c.procs[p]? =
      some (.running req (.call (.httpRequest url body authorization timeoutMs) k))) :
    ∃ t, req.workerTask = some t.id ∧ req.post t = some ⟨url, body, authorization⟩ ∧
      ∃ z ∈ l, Reading req t z := by
  obtain ⟨γ, hγ, hlists⟩ := exists_history h
  have hobeys := postings_sound.obeys (runs_summarised postings hγ) Observed.obeys_of_no_procs
  obtain ⟨δ, -, hδ⟩ := exists_observed h.reaches
  obtain ⟨id, hid⟩ : ∃ id, req.workerTask = some id := by
    obtain ⟨-, ⟨id, secs, t, rfl, -⟩ | ⟨id, rfl | rfl⟩⟩ := hδ.awaits hp <;> exact ⟨id, rfl⟩
  obtain ⟨t, hrow, rfl, hpost⟩ := hobeys.awaits hp id hid
  -- the row was shown by a reply, and so with a step of the trace
  obtain ⟨⟨x, r⟩, hmem, hshown⟩ := exists_mem_of_summary (D := postings)
    (K := fun w => w.row = some t) (by rintro ⟨⟩) (fun w x r => Knowledge.row_next) hrow
  obtain ⟨z, hz, o, hcall, hperform⟩ := (hlists.mem_iff p req _ hp ⟨x, r⟩).mp hmem
  dsimp only at hcall hperform hshown
  refine ⟨t, hid, hpost, z, hz, ?_, ?_⟩
  · obtain hnone | hu := Knowledge.row_of_perform (w := {}) hperform
      (Knowledge.row_of_shownRow hshown)
    · cases hnone
    · exact hu
  · rintro id rfl
    obtain ⟨-, req, k', hq⟩ := Config.callOf_eq_some.mp hcall
    obtain ⟨hbefore, hm, hafter⟩ := h.reaches_of_mem hz
    obtain ⟨pr, hpr, hreq⟩ := Config.exists_proc_of_reaches (hafter.head ⟨_, trivial, hm⟩) hq
    rw [hp] at hpr
    cases hpr
    obtain rfl : Request.notifyWebhook id = req := hreq
    obtain ⟨ε, -, hε⟩ := exists_observed hbefore
    obtain ⟨id', rfl⟩ | ⟨id', write, rfl⟩ := Await.call_of_shownRow hshown
    · cases r with
      | error e => cases hshown
      | ok row =>
        obtain rfl : row = some t := hshown
        have hexec := exec_of_perform_ok hperform
        simp only [exec, Option.some.injEq, Except.ok.injEq, Prod.mk.injEq] at hexec
        have ht : t ∈ z.before.store.tasks := List.mem_of_find?_eq_some hexec.1
        -- the job was enqueued after the task had ended
        obtain ⟨l₀, hl₀⟩ := exists_trace hbefore
        obtain ⟨⟨q, dto, x, hx, hrec⟩, -⟩ :=
          submitted_of_job hl₀ (job_mem_of_running hbefore hq rfl)
        exact ⟨ht, SubmitResultDto.isTerminal_of_isOutcome
          (hrec.stays hl₀ hx ht (Option.some.inj hid).symm)⟩
    · obtain ⟨-, hwrite⟩ := hε.awaits hq
      obtain ⟨_, hreq⟩ | ⟨_, _, hreq⟩ | ⟨_, _, hreq⟩ := Summary.AwaitsWrite.request_cases hwrite <;>
        cases hreq

/-- With this step a delivery of the job posts. -/
def Sends (job : Job) (a : Posting) (x : (proxy httpRetryService).Transition) : Prop :=
  ∃ p o req timeoutMs k, x.move = .call p o ∧ req.delivers = some job ∧ x.before.procs[p]? =
    some (.running req (.call (.httpRequest a.url a.body a.authorization timeoutMs) k))

/-- **Repeated posts.** Whatever happens between them, all deliveries of a job, and all attempts of
a delivery, send the same request. -/
theorem posts_repeated (clock : Timestamp) (l : List (proxy httpRetryService).Transition)
    (c : (proxy httpRetryService).Config) (h : Trace (initial httpRetryService clock) l c)
    (job : Job) (a b : Posting) (x y : (proxy httpRetryService).Transition) (hx : x ∈ l)
    (hy : y ∈ l) (ha : Sends job a x) (hb : Sends job b y) : a = b := by
  have hread : ∀ x ∈ l, ∀ a, Sends job a x → ∃ req t, req.delivers = some job ∧
      req.workerTask = some t.id ∧ req.post t = some a ∧ ∃ z ∈ l, Reading req t z := by
    rintro x hx a ⟨p, o, req, timeoutMs, k, -, hjob, hp⟩
    obtain ⟨l₁, l₂, rfl⟩ := List.append_of_mem hx
    obtain ⟨t, hid, hpost, z, hz, hreading⟩ := exists_reading h.split.1 hp
    exact ⟨req, t, hjob, hid, hpost, z, List.mem_append_left _ hz, hreading⟩
  obtain ⟨req, t, hjob, hid, hpost, z, hz, hreading⟩ := hread x hx a ha
  obtain ⟨req', t', hjob', hid', hpost', z', hz', hreading'⟩ := hread y hy b hb
  obtain rfl := Request.eq_of_delivers hjob hjob'
  have hids : t'.id = t.id := Option.some.inj (hid'.symm.trans hid)
  obtain ⟨f, -, hf⟩ := exists_fixed_of_trace TaskWrite.contract_apply
    (fun _ => ⟨"", .null, none, none, none⟩) h
  have hcontract : ∀ {t z}, z ∈ l → Reading req t z → t.contract = f t.id := by
    rintro t z hz ⟨⟨u, hu, hid, hcontract⟩, -⟩
    rw [hcontract, hid]
    exact ((hf z hz).committed u hu).2
  have hout : ∀ id, req = .notifyWebhook id → SameOutcome t t' := by
    intro id hreq
    obtain ⟨ht, hterm⟩ := hreading.ended id hreq
    obtain ⟨ht', hterm'⟩ := hreading'.ended id hreq
    obtain hle | hle := h.reaches_or_reaches hz hz'
    · exact (sameOutcome_of_reaches (h.reaches_of_mem hz).1 hle ht hterm).2 t' ht' hids
    · exact ((sameOutcome_of_reaches (h.reaches_of_mem hz').1 hle ht' hterm').2 t ht hids.symm).symm
  refine Option.some.inj (hpost.symm.trans (Eq.trans ?_ hpost'))
  refine (Request.post_congr hids ?_ hout).symm
  rw [hcontract hz' hreading', hcontract hz hreading, hids]

end Runs

/-! ### Example run -/

/-- What a step posts for a delivery of the job. -/
def Async.Service.Transition.posting (job : Job) (x : (proxy httpRetryService).Transition) :
    Option Posting :=
  match x.move with
  | .call p _ => match x.before.procs[p]? with
    | some (.running req (.call (.httpRequest url body authorization _) _)) =>
      if req.delivers = some job then some ⟨url, body, authorization⟩ else none
    | _ => none
  | _ => none

theorem sends_of_posting {job : Job} {a : Posting} {x : (proxy httpRetryService).Transition}
    (h : x.posting job = some a) : Sends job a x := by
  unfold Transition.posting at h
  split at h
  · next p o hmove =>
    split at h
    · next req url body authorization timeoutMs k hp =>
      split at h
      · next hjob =>
        cases h
        exact ⟨p, o, req, timeoutMs, k, hmove, hjob, hp⟩
      · cases h
    · cases h
  · cases h

/-- The webhook job of `hookedRun` is delivered twice, and both deliveries post the result. -/
def renotifiedRun : List (proxy httpRetryService).Move :=
  hookedRun ++ [.spawn (.notifyWebhook sampleId), .call 3 {}, .call 3 {},
    .spawn (.notifyWebhook sampleId), .call 4 {}, .call 4 {}]

theorem renotifiedRun_posts_same :
    ∃ (l : List (proxy httpRetryService).Transition) (c : (proxy httpRetryService).Config)
      (x y : (proxy httpRetryService).Transition) (a : Posting),
      Trace (initial httpRetryService 0) l c ∧ x ∈ l ∧ y ∈ l ∧ x.before.procs.length = 4 ∧
        y.before.procs.length = 5 ∧ Sends (.webhook sampleId) a x ∧
        Sends (.webhook sampleId) a y := by
  obtain ⟨l, c, h, hcheck⟩ := Config.exists_trace_of_check (c := initial httpRetryService 0)
    renotifiedRun (fun l _ =>
      (l.any fun x => (x.posting (.webhook sampleId)).isSome && x.before.procs.length == 4) &&
      l.any fun y => (y.posting (.webhook sampleId)).isSome && y.before.procs.length == 5)
    (by decide)
  simp only [Bool.and_eq_true, List.any_eq_true, beq_iff_eq, Option.isSome_iff_exists] at hcheck
  obtain ⟨⟨x, hx, ⟨a, ha⟩, hxlen⟩, y, hy, ⟨b, hb⟩, hylen⟩ := hcheck
  have ha := sends_of_posting ha
  have hb := sends_of_posting hb
  obtain rfl := posts_repeated 0 l c h (.webhook sampleId) a b x y hx hy ha hb
  exact ⟨l, c, x, y, a, h, hx, hy, hxlen, hylen, ha, hb⟩

end LongRequestProxy
