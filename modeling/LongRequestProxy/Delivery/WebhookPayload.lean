import LongRequestProxy.Conduct.Jobs
import LongRequestProxy.Delivery.LogOrder
import LongRequestProxy.Executor.Notifications

/-!
# What webhooks report

The worker of a webhook job reads the task again, possibly long after the job was enqueued, and
posts what it reads. The job was enqueued by a result request that has recorded its submission, and
the outcome of an ended task does not change: so the worker reads the submitted result or the
submitted error, or finds that the row is gone.

## Main definitions

* `Submitted`: a submission for the task was recorded, and the task has a webhook.
* `SubmitResultDto.payload`: the payload for a submission.
* `afterReread`, `delivering`: what the worker does with the row that it has read.

## Main results

* `submitted_of_job`: the origin of a webhook job.
* `webhook_reports_submission`: rows are consistent, and webhooks report what was submitted.
-/

namespace LongRequestProxy

open Async Service Discipline Function

variable {http : HttpClient} {clock : Timestamp} {c c' : (proxy http).Config}
  {m : (proxy http).Move} {l : List (proxy http).Transition} {i : String}

/-! ### Rows along a move -/

/-- No column that the writes leave alone changes in the row of an issued task, and such a task gets
no new row. -/
theorem column_of_move {β : Type} (column : TaskSelect → β)
    (hcol : ∀ (w : TaskWrite) t, column (w.apply t) = column t)
    (h : Reaches (fun _ _ => True) (initial http clock) c) (hm : c.move m = some c')
    {t' : TaskSelect} (ht' : t' ∈ c'.store.tasks) (hi : t'.id ∈ c.store.issued) :
    ∃ t ∈ c.store.tasks, t.id = t'.id ∧ column t' = column t := by
  obtain ⟨f, hf⟩ : ∃ f, c.store.Fixed column f := by
    refine Reaches.invariant (I := fun d : (proxy http).Config => ∃ f, d.store.Fixed column f)
      (fun d m d' hd _ hm => ?_) h
      ⟨fun _ => column t', by simp [initial], by simp [initial, Backend.tx]⟩
    obtain ⟨f, hf⟩ := hd
    obtain ⟨-, f', hf', -⟩ := fixed_of_move hcol hm hf
    exact ⟨f', hf'⟩
  obtain ⟨-, f', hf', hsame⟩ := fixed_of_move hcol hm hf
  obtain ⟨t, ht, hid⟩ := ((log_of_move h hm hi).2 ⟨t', ht', rfl⟩).1
  refine ⟨t, ht, hid, ?_⟩
  rw [(hf'.committed t' ht').2, hsame t'.id hi, (hf.committed t ht).2, hid]

/-! ### The origin of a webhook job -/

/-- The job of a webhook was enqueued after a submission was recorded, and its task has a
webhook. -/
structure Submitted (l : List (proxy http).Transition) (c : (proxy http).Config) (i : String) :
    Prop where
  recorded : ∃ p dto, ∃ x ∈ l, Records p i dto x
  webhookUrl : ∀ t ∈ c.store.tasks, t.id = i → truthy t.webhookUrl = true

theorem Records.issued (h : Trace (initial http clock) l c) {p : ℕ} {dto : SubmitResultDto}
    {x : (proxy http).Transition} (hx : x ∈ l) (hrec : Records p i dto x) :
    i ∈ c.store.issued := by
  obtain ⟨hbefore, hm, hafter⟩ := h.reaches_of_mem hx
  obtain ⟨t, ht, rfl, hout⟩ := hrec.after
  exact (sameOutcome_of_reaches (hbefore.tail ⟨x.move, trivial, hm⟩) hafter ht
    (SubmitResultDto.isTerminal_of_isOutcome hout)).1

/-- **The origin of a webhook job.** -/
theorem submitted_of_job (h : Trace (initial http clock) l c)
    (hjob : Job.webhook i ∈ c.store.queue) : Submitted l c i := by
  refine h.invariant (I := fun l (c : (proxy http).Config) =>
    ∀ i, Job.webhook i ∈ c.store.queue → Submitted l c i) (fun i hjob => by cases hjob) ?_ i hjob
  intro l c m c' htrace hm ih i hjob
  obtain hold | ⟨p, o, req, k, rfl, hp⟩ := queue_of_move hm hjob
  · obtain ⟨⟨q, dto, x, hx, hrec⟩, hurl⟩ := ih i hold
    refine ⟨⟨q, dto, x, List.mem_append_left _ hx, hrec⟩, fun t' ht' hid => ?_⟩
    obtain ⟨t, ht, hid', hsame⟩ := column_of_move (·.webhookUrl) (fun _ _ => rfl)
      htrace.reaches hm ht' (hid ▸ hrec.issued htrace hx)
    rw [hsame]
    exact hurl t ht (hid'.trans hid)
  · obtain ⟨γ, hγ, hwrote⟩ := exists_wrote htrace
    obtain ⟨-, authorization, dto, t, now, u, rfl, hfound, hurl, hupdated⟩ :
        Summary.AwaitsEnqueue req (γ p) (.webhook i) := ((obeys_of_runs hγ).awaits hp).2
    obtain ⟨x, hx, hw⟩ := hwrote p _ hupdated
    have hrec := hw.records
    refine ⟨⟨p, dto, x, List.mem_append_left _ hx, hrec⟩, fun t' ht' hid => ?_⟩
    obtain ⟨r, hr, hrid, hsame⟩ := column_of_move (·.webhookUrl) (fun _ _ => rfl)
      htrace.reaches hm ht' (hid ▸ hrec.issued htrace hx)
    obtain ⟨f, hf, hreaders⟩ := exists_webhookUrl hγ
    have hends : (γ p).Ends i := ⟨_, u, hupdated, Summary.ending_write_ne_none dto now⟩
    obtain ⟨-, t₀, ht₀, hti⟩ := (announces_of_running hγ hp).request i hends
    obtain rfl : t = t₀ := Option.some.inj (hfound.symm.trans ht₀)
    have hurls : r.webhookUrl = t.webhookUrl :=
      calc r.webhookUrl = f r.id := (hf.committed r hr).2
        _ = f t.id := by rw [hrid, hid, hti]
        _ = t.webhookUrl := (hreaders p t hfound).symm
    rwa [hsame, hurls]

/-! ### The worker -/

/-- The payload for a submission. -/
def SubmitResultDto.payload (i : String) : SubmitResultDto → Json
  | completed result =>
    .obj [("taskId", .str i), ("status", .str "COMPLETED"), ("result", .obj result)]
  | failed error => .obj [("taskId", .str i), ("status", .str "FAILED"), ("error", error.json)]

/-- The payload for a row that shows a submission. -/
theorem webhookPayload_eq {t : TaskSelect} {dto : SubmitResultDto} (ht : t.Consistent)
    (hout : dto.IsOutcome t) : webhookPayload t = dto.payload t.id := by
  cases dto with
  | completed result =>
    obtain ⟨hs, hresult⟩ := hout
    have herror : t.error = none := by
      by_contra hne
      rw [ht.error.mp hne] at hs
      cases hs
    simp [webhookPayload, SubmitResultDto.payload, hs, hresult, herror, TaskStatus.text,
      Json.isNull]
  | failed error =>
    obtain ⟨hs, herror⟩ := hout
    have hresult : t.result = none := by
      by_contra hne
      rw [ht.result.mp hne] at hs
      cases hs
    simp [webhookPayload, SubmitResultDto.payload, hs, hresult, herror, TaskStatus.text]

/-- What the worker still does with the payload. -/
def delivering (http : HttpClient) (url : String) (payload : Json) : Async Response := do
  WebhookProcessor.deliver http url payload
  return .done

/-- What the worker does with the row that it has read. -/
def afterReread (http : HttpClient) : Option TaskSelect → Async Response
  | none => return .done
  | some t =>
    match t.webhookUrl.filter (· ≠ "") with
    | none => return .done
    | some url => delivering http url (webhookPayload t)

theorem notifyWebhook_body (http : HttpClient) (i : String) :
    (Request.notifyWebhook i).run http = call (.findTask i) >>= afterReread http := by
  simp only [Request.run, WebhookProcessor.process]
  rw [bind_assoc (m := Async)]
  refine bind_congr fun row => ?_
  cases row with
  | none => rfl
  | some t =>
    unfold afterReread
    dsimp only
    cases t.webhookUrl.filter (· ≠ "") <;> rfl

theorem afterReread_uses (http : HttpClient) (row : Option TaskSelect) :
    (afterReread http row).run.Uses Await.IsHttp := by
  cases row with
  | none => exact uses_pure _
  | some t =>
    unfold afterReread
    dsimp only
    split
    · exact uses_pure _
    · exact uses_bind (deliver_uses http _ _) fun _ => uses_pure _

/-- A worker that reads the task is at its start. -/
theorem eq_body_of_reread (h : Reaches (fun _ _ => True) (initial http clock) c) {p : ℕ}
    {k : Reply (.findTask i) → Prog Await Reply (Except JsError Response)}
    (hp : c.procs[p]? = some (.running (.notifyWebhook i) (.call (.findTask i) k))) :
    Prog.call (.findTask i) k = (call (.findTask i) >>= afterReread http).run := by
  have hcases : ∀ req P, c.procs[p]? = some (.running req P) → ∀ i, req = .notifyWebhook i →
      P = (call (.findTask i) >>= afterReread http).run ∨ P.Uses Await.IsHttp := by
    intro req P hP
    refine h.program_invariant (I := fun req P => ∀ i, req = Request.notifyWebhook i →
      P = (call (.findTask i) >>= afterReread http).run ∨ P.Uses Await.IsHttp) ?_ ?_ hP
    · rintro _ i rfl
      exact .inl (congrArg ExceptT.run (notifyWebhook_body http i))
    · rintro _ x k r ih i rfl
      refine .inr ?_
      obtain hbody | huses := ih i rfl
      · cases hbody
        cases r with
        | ok row => exact afterReread_uses http row
        | error e => trivial
      · exact huses.2 r
  obtain hbody | huses := hcases _ _ hp i rfl
  · exact hbody
  · exact huses.1.elim

/-- **What webhooks report.** Every row is consistent. The worker of a webhook job reads the task
once. If the read fails, or the row is gone, it ends without a request; otherwise it goes on to post
to the webhook URL of the task the payload for a submission that was recorded. -/
theorem webhook_reports_submission (http : HttpClient) (clock : Timestamp)
    (c : (proxy http).Config) (h : Reaches (fun _ _ => True) (initial http clock) c) :
    (∀ t ∈ c.store.tasks, t.Consistent) ∧
    ∀ p i k o c', c.procs[p]? = some (.running (.notifyWebhook i) (.call (.findTask i) k)) →
      c.move (.call p o) = some c' →
      (o.fault ≠ .none ∧ ∃ e, c'.Returned p (.notifyWebhook i) (.error e)) ∨
      (¬ c.store.HasRow i ∧ c'.Returned p (.notifyWebhook i) (.ok .done)) ∨
      ∃ t ∈ c.store.tasks, t.id = i ∧ ∃ (url : String) (dto : SubmitResultDto),
        t.webhookUrl = some url ∧ dto.IsOutcome t ∧
        c'.procs[p]? =
          some (.running (.notifyWebhook i) (delivering http url (dto.payload i)).run) := by
  have hconsistent : ∀ t ∈ c.store.tasks, t.Consistent := fun t ht =>
    ((reaches_rowHistory h).committed t ht).consistent
  refine ⟨hconsistent, fun p i k o c' hp hm => ?_⟩
  have hbody := eq_body_of_reread h hp
  obtain ⟨hlt, -⟩ := List.getElem?_eq_some_iff.mp hp
  simp only [Config.move, hp, Option.map_eq_some_iff] at hm
  obtain ⟨⟨r, σ⟩, hx, rfl⟩ := hm
  cases hbody
  simp only [Config.Returned, List.getElem?_set_self hlt]
  cases r with
  | error e =>
    refine .inl ⟨fun hf => ?_, e, rfl⟩
    rw [perform_of_no_fault hf] at hx
    cases hx
  | ok row =>
    have hrow : c.store.findTask i = row := by
      have hexec := exec_of_perform_ok hx
      simp only [exec, Option.some.injEq, Except.ok.injEq, Prod.mk.injEq] at hexec
      exact hexec.1
    cases row with
    | none =>
      refine .inr (.inl ⟨?_, rfl⟩)
      rintro ⟨t, ht, hid⟩
      have := List.find?_eq_none.mp hrow t ht
      simp [hid] at this
    | some t =>
      have ht : t ∈ c.store.tasks := List.mem_of_find?_eq_some hrow
      have hid : t.id = i := by simpa using List.find?_some hrow
      obtain ⟨l, hl⟩ := exists_trace h
      obtain ⟨⟨q, dto, x, hxl, hrec⟩, hurl⟩ := submitted_of_job hl (job_mem_of_running h hp rfl)
      have hout := hrec.stays hl hxl ht hid
      obtain ⟨url, hsome, hne⟩ := (Option.any_eq_true _ _).mp (hurl t ht hid)
      have hfilter : t.webhookUrl.filter (· ≠ "") = some url :=
        Option.filter_eq_some_iff.mpr ⟨hsome, hne⟩
      refine .inr (.inr ⟨t, ht, hid, url, dto, hsome, hout, ?_⟩)
      rw [← hid, ← webhookPayload_eq (hconsistent t ht) hout]
      have hgo : afterReread http (some t) = delivering http url (webhookPayload t) := by
        unfold afterReread
        dsimp only
        rw [hfilter]
      rw [← hgo]
      rfl

/-! ### Example run -/

/-- The test whether a program is a webhook worker that is about to read the task. -/
def isRereading (c : (proxy http).Config) (p : ℕ) (id : String) : Bool :=
  match c.procs[p]? with
  | some (.running (.notifyWebhook i) (.call (.findTask j) _)) => i == id && j == id
  | _ => false

theorem exists_of_isRereading {p : ℕ} (h : isRereading c p i = true) :
    ∃ k, c.procs[p]? = some (.running (.notifyWebhook i) (.call (.findTask i) k)) := by
  unfold isRereading at h
  split at h
  · next i' j k hp =>
    simp only [Bool.and_eq_true, beq_iff_eq] at h
    obtain ⟨rfl, rfl⟩ := h
    exact ⟨k, hp⟩
  · cases h

/-- The webhook of the completed task of `hookedRun` is called with the result. -/
theorem hookedRun_reports_result :
    ∃ c c' p o, Reaches (fun _ _ => True) (initial httpRetryService 0) c ∧
      c.move (.call p o) = some c' ∧ ∃ url result, c'.procs[p]? = some (.running
        (.notifyWebhook sampleId) (delivering httpRetryService url
          (SubmitResultDto.payload sampleId (.completed result))).run) := by
  obtain ⟨c, hc, hcheck⟩ : ∃ c, Reaches (fun _ _ => True) (initial httpRetryService 0) c ∧
      (isRereading c 3 sampleId && (c.move (.call 3 {})).isSome && c.store.tasks.any fun t =>
        t.id == sampleId && t.status == .completed) = true :=
    exists_reaches_of_replay (fun _ _ => true) (hookedRun ++ [.spawn (.notifyWebhook sampleId)]) _
      (fun _ _ _ => trivial) (by decide)
  simp only [Bool.and_eq_true, List.any_eq_true, beq_iff_eq, Option.isSome_iff_exists] at hcheck
  obtain ⟨⟨hreading, c', hm⟩, t, ht, hid, hs⟩ := hcheck
  obtain ⟨k, hp⟩ := exists_of_isRereading hreading
  obtain ⟨hfault, -⟩ | ⟨hnone, -⟩ | ⟨u, hu, huid, url, dto, -, hout, hgo⟩ :=
    (webhook_reports_submission httpRetryService 0 c hc).2 3 sampleId k _ c' hp hm
  · exact absurd rfl hfault
  · exact absurd ⟨t, ht, hid⟩ hnone
  · obtain ⟨δ, hδ⟩ := ledger_of_reaches hc
    obtain rfl := Table.eq_of_key_eq hδ.ids hu ht (huid.trans hid.symm)
    cases dto with
    | completed result => exact ⟨c, c', 3, _, hc, hm, url, result, hgo⟩
    | failed error =>
      have hfailed := hout.1
      rw [hs] at hfailed
      cases hfailed

end LongRequestProxy
