import LongRequestProxy.Executor.Enders

/-!
# Publications that fail

The publication of an event is an awaited call whose error nobody catches in a cancellation or a
result request. It stands before the call that enqueues the job of the cancel URL or of the
webhook: when the publication fails the request is answered with an error, though its end of the
task is committed, and the job is never enqueued, since every later request finds the task over.

## Main definitions

* `Notifies`: a function that goes on to enqueue its job.

## Main results

* `notifies_iff`: the job survives the publication exactly when the publication reports no failure.
* `failed_publication_drops_webhook`: a webhook job that is lost.
-/

namespace LongRequestProxy

open Async Service Discipline Function

variable {http : HttpClient} {clock : Timestamp}
  {allow : (proxy http).Config → (proxy http).Move → Prop}
  {s s' : (history (proxy http)).Observed} {m : (proxy http).Move}

/-! ### The URLs that the functions read -/

section Column

variable {β : Type} {column : TaskSelect → β} {f : String → β} {K : List TaskSelect}
  (hcol : ∀ (w : TaskWrite) t, column (w.apply t) = column t)
include hcol

theorem fixed_of_move {c c' : (proxy http).Config} (hm : c.move m = some c')
    (hf : c.store.Fixed column f) :
    c.store.issued ⊆ c'.store.issued ∧
      ∃ f', c'.store.Fixed column f' ∧ ∀ i ∈ c.store.issued, f' i = f i := by
  obtain ⟨time, hσ⟩ | ⟨p, hσ⟩ | ⟨p, o, req, x, k, v, σ, -, -, -, hx, hσ⟩ := store_cases_of_move hm
  · rw [hσ]
    exact ⟨List.Subset.refl _, f, hf.of_frame rfl rfl, fun _ _ => rfl⟩
  · rw [hσ]
    exact ⟨List.Subset.refl _, f, hf.rollback p, fun _ _ => rfl⟩
  · have hissued := issued_subset_of_exec hx
    obtain ⟨f', hf', hsame⟩ := exec_fixed hcol hx hf
    obtain hσ | hσ := hσ
    · rw [hσ]
      exact ⟨hissued, f', hf', hsame⟩
    · rw [hσ]
      exact ⟨hissued, f', hf'.rollback p, hsame⟩

variable (column K) in
/-- The column is a function of the id, in the rows that the functions were told of and in the rows
`K` too. -/
def ColumnKnown (s : (history (proxy http)).Observed) : Prop :=
  ∃ f, s.config.store.Fixed column f ∧
    (∀ p i u, Told (s.locals p) i u → i ∈ s.config.store.issued ∧ u.id = i ∧ column u = f i) ∧
    ∀ t ∈ K, t.id ∈ s.config.store.issued ∧ column t = f t.id

omit hcol in
/-- A reply that tells of a row. -/
theorem told_of_next {log : History} {x : Await} {r : Reply x} {i : String} {u : TaskSelect}
    (h : Told (log ++ [⟨x, r⟩]) i u) :
    Told log i u ∨ (∃ now, (⟨x, r⟩ : (x : Await) × Reply x) = ⟨.txCancelTask i now, .ok (some u)⟩) ∨
      (⟨x, r⟩ : (x : Await) × Reply x) = ⟨.findTask i, .ok (some u)⟩ := by
  obtain ⟨now, hmem⟩ | hmem := h
  · rcases List.mem_append.mp hmem with hmem | hmem
    · exact .inl (.inl ⟨now, hmem⟩)
    · exact .inr (.inl ⟨now, (List.mem_singleton.mp hmem).symm⟩)
  · rcases List.mem_append.mp hmem with hmem | hmem
    · exact .inl (.inr hmem)
    · exact .inr (.inr (List.mem_singleton.mp hmem).symm)

theorem columnKnown_of_move (hm : s.move m = some s') (hs : ColumnKnown column K s) :
    ColumnKnown column K s' := by
  obtain ⟨f, hf, htold, hK⟩ := hs
  obtain ⟨hissued, f', hf', hsame⟩ := fixed_of_move hcol (Observed.config_move hm) hf
  have hold : ∀ p i u, Told (s.locals p) i u →
      i ∈ s'.config.store.issued ∧ u.id = i ∧ column u = f' i := by
    intro p i u hu
    obtain ⟨hi, hid, hcolumn⟩ := htold p i u hu
    exact ⟨hissued hi, hid, hcolumn.trans (hsame i hi).symm⟩
  refine ⟨f', hf', fun p i u hu => ?_, fun t ht => ?_⟩
  · obtain ⟨heq, -⟩ | ⟨o, req, x, k, r, -, -, hx, heq⟩ | ⟨-, heq⟩ := Observed.locals_cases hm p
    · rw [heq] at hu
      exact hold p i u hu
    · rw [heq] at hu
      obtain hu | ⟨now, hreply⟩ | hreply := told_of_next hu
      · exact hold p i u hu
      · cases hreply
        obtain ⟨hnone, -⟩ | ⟨r, hr, rfl, -, -, -, ht, -⟩ :=
          Backend.txCancelTask_ok (exec_of_perform_ok hx)
        · cases hnone
        · cases ht
          obtain ⟨hi, hcolumn⟩ := hf.committed r hr
          exact ⟨hissued hi, rfl, (hcol _ r).trans (hcolumn.trans (hsame _ hi).symm)⟩
      · cases hreply
        have hfind : s.config.store.findTask i = some u := by
          have hexec := exec_of_perform_ok hx
          simp only [exec, Option.some.injEq, Except.ok.injEq, Prod.mk.injEq] at hexec
          exact hexec.1
        have hid : u.id = i := by simpa using List.find?_some hfind
        obtain ⟨hi, hcolumn⟩ := hf.committed u (List.mem_of_find?_eq_some hfind)
        rw [hid] at hi hcolumn
        exact ⟨hissued hi, hid, hcolumn.trans (hsame _ hi).symm⟩
    · rw [heq] at hu
      obtain ⟨_, hmem⟩ | hmem := hu <;> cases hmem
  · obtain ⟨hi, hcolumn⟩ := hK t ht
    exact ⟨hissued hi, hcolumn.trans (hsame _ hi).symm⟩

end Column

/-- A function knows the URL of its task as any row of the task at any time has it. -/
theorem url_of_told {c₀ c : (proxy http).Config}
    (h₀ : Reaches (fun _ _ => True) (initial http clock) c₀) (h : Reaches (fun _ _ => True) c₀ c)
    {column : TaskSelect → Option String}
    (hcol : ∀ (w : TaskWrite) t, column (w.apply t) = column t) :
    ∃ γ, Runs (fun _ _ => True) (recorded http clock) ⟨c, γ⟩ ∧
      ∀ t ∈ c₀.store.tasks, ∀ p u, Told (γ p) t.id u → column u = column t := by
  obtain ⟨γ₀, hγ₀⟩ := exists_recorded h₀
  obtain ⟨γ, hγ⟩ := exists_runs (D := history (proxy http)) ⟨c₀, γ₀⟩ h
  have hknown₀ : ColumnKnown column [] ⟨c₀, γ₀⟩ := by
    refine hγ₀.invariant (I := ColumnKnown column [])
      (fun _ _ _ _ _ hm hs => columnKnown_of_move hcol hm hs) ?_
    refine ⟨fun _ => none, ⟨by simp [recorded, initial], by simp [recorded, initial, Backend.tx]⟩,
      ?_, by simp⟩
    rintro p i u (⟨_, hmem⟩ | hmem) <;> cases hmem
  have hknown : ColumnKnown column c₀.store.tasks ⟨c, γ⟩ := by
    refine hγ.invariant (I := ColumnKnown column c₀.store.tasks)
      (fun _ _ _ _ _ hm hs => columnKnown_of_move hcol hm hs) ?_
    obtain ⟨f, hf, htold, -⟩ := hknown₀
    exact ⟨f, hf, htold, hf.committed⟩
  obtain ⟨f, -, htold, hK⟩ := hknown
  refine ⟨γ, Relation.ReflTransGen.trans hγ₀ hγ, fun t ht p u hu => ?_⟩
  exact (htold p t.id u hu).2.2.trans (hK t ht).2.symm

theorem Request.url_apply {req : Request} {n : Notification} (hn : req.notification = some n)
    (w : TaskWrite) (t : TaskSelect) : n.url (w.apply t) = n.url t := by
  cases req <;> cases hn <;> rfl

theorem Request.job_cases {req : Request} {n : Notification} (hn : req.notification = some n) :
    n.job = .cancel n.taskId ∨ n.job = .webhook n.taskId := by
  cases req <;> cases hn <;> simp

/-! ### Jobs that are never enqueued -/

/-- A function that has ended its task and has returned without enqueuing its job leaves the job
unqueued for good. -/
theorem job_not_mem_of_returned (h : Runs (fun _ _ => True) (recorded http clock) s)
    (h' : Runs (fun _ _ => True) s s') {p : ℕ} {req : Request} {n : Notification}
    {a : Except JsError Response} (hn : req.notification = some n)
    (hret : s.config.Returned p req a) (hended : Ended req (s.locals p) n.taskId)
    (hjob : n.job ∉ s.config.store.queue) : n.job ∉ s'.config.store.queue := by
  refine (h'.invariant (I := fun t : (history (proxy http)).Observed => t.config.Returned p req a ∧
    Ended req (t.locals p) n.taskId ∧ n.job ∉ t.config.store.queue) ?_ ⟨hret, hended, hjob⟩).2.2
  rintro t m t' hrun - hm ⟨hret, hended, hjob⟩
  have hmove := Observed.config_move hm
  have hruns : Runs (fun _ _ => True) (recorded http clock) t := Relation.ReflTransGen.trans h hrun
  refine ⟨hret.of_move hmove, ?_, fun hmem => ?_⟩
  · obtain ⟨heq, -⟩ | ⟨o, req', x, k, r, -, hp, -⟩ | ⟨rfl, -⟩ := Observed.locals_cases hm p
    · rwa [heq]
    · rw [hret] at hp
      cases hp
    · obtain ⟨_, hspawn, -⟩ | ⟨_, _, _, _, _, _, _, hcall, -⟩ | ⟨q, req', x, k, hcrash, hq, -⟩ |
        ⟨_, _, hambient, -⟩ := Observed.move_cases hm
      · cases hspawn
      · cases hcall
      · cases hcrash
        rw [hret] at hq
        cases hq
      · cases hambient
  · obtain hold | ⟨q, o, req', k, rfl, hq⟩ := queue_of_move hmove hmem
    · exact hjob hold
    · have hsame := (enders_of_runs hruns).once _ q p
        (notification_of_enqueue hruns hq (Request.job_cases hn)) ⟨req, _, hret, hended⟩
      rw [hsame, hret] at hq
      cases hq

/-- The function goes on to enqueue the job, and answers without an error once it is enqueued. -/
def Notifies (c : (proxy http).Config) (p : ℕ) (req : Request) (job : Job) : Prop :=
  ∃ k, c.procs[p]? = some (.running req (.call (.enqueue job) k)) ∧ k (.ok ()) = .ret (.ok .done)

/-- A publication is answered with an error exactly when a fault hits it. -/
theorem publish_cases {p : ℕ} {o : Oracle} {σ σ' : Backend} {channel : String}
    {event : TaskEventSelect} {r : Reply (.publish channel event)}
    (h : perform p o σ (.publish channel event) = some (r, σ')) :
    (o.fault = .none ∧ r = .ok ()) ∨ (o.fault ≠ .none ∧ r = .error .unavailable) := by
  cases hf : o.fault with
  | none =>
    rw [perform_of_no_fault hf] at h
    cases h
    exact .inl ⟨rfl, rfl⟩
  | failed =>
    rw [perform_of_failed rfl hf] at h
    cases h
    exact .inr ⟨by simp, rfl⟩
  | lostReply =>
    obtain ⟨e, rfl, -, hfail | hx⟩ | ⟨v, -, -, hne⟩ | ⟨v, σ₁, rfl, -⟩ := perform_cases h
    · rw [hf] at hfail
      cases hfail
    · cases hx
    · unfold perform at h
      rw [hf] at h
      cases h
      exact .inr ⟨by simp, rfl⟩
    · exact .inr ⟨by simp, rfl⟩

/-- **When the job survives the publication.** A cancellation or a result request that is about to
publish has ended its task, which is over. If the task has the URL, the function goes on to enqueue
the job exactly when no fault hits the publication. After a fault it has been answered with an
error, and the job is in no queue at any later time, whatever is requested then. -/
theorem notifies_iff (http : HttpClient) (clock : Timestamp) (c₀ c c' : (proxy http).Config)
    (h₀ : Reaches (fun _ _ => True) (initial http clock) c₀) (h : Reaches (fun _ _ => True) c₀ c)
    (req : Request) (n : Notification) (hn : req.notification = some n) (t : TaskSelect)
    (ht : t ∈ c₀.store.tasks) (hid : t.id = n.taskId) (hurl : truthy (n.url t) = true)
    (p : ℕ) (o : Oracle) (channel : String) (event : TaskEventSelect)
    (k : Reply (.publish channel event) → Prog Await Reply (Except JsError Response))
    (hp : c.procs[p]? = some (.running req (.call (.publish channel event) k)))
    (hm : c.move (.call p o) = some c') :
    IsOver c.store n.taskId ∧
      (Notifies c' p req n.job ↔ o.fault = .none) ∧
      (o.fault ≠ .none → c'.Returned p req (.error .unavailable) ∧
        ∀ c'', Reaches (fun _ _ => True) c' c'' → n.job ∉ c''.store.queue) := by
  obtain ⟨γ, hγ, htold⟩ := url_of_told h₀ h (Request.url_apply hn)
  obtain ⟨hended, hnone, herror, u, hu, hgo⟩ :=
    (notificationPoint_of_runs hγ hn hp).publish channel event k rfl
  have hurl' : truthy (n.url u) = true := by rwa [htold t ht p u (hid ▸ hu)]
  obtain ⟨k', hk, hdone⟩ := hgo hurl'
  have henders := enders_of_runs hγ
  have hender : Ender ⟨c, γ⟩ p n.taskId := ⟨req, _, hp, hended⟩
  obtain ⟨hlt, -⟩ := List.getElem?_eq_some_iff.mp hp
  have hmove := hm
  simp only [Config.move, hp, Option.map_eq_some_iff] at hmove
  obtain ⟨⟨r, σ'⟩, hx, rfl⟩ := hmove
  obtain ⟨hfault, rfl⟩ | ⟨hfault, rfl⟩ := publish_cases hx
  · refine ⟨henders.taken _ p hender, iff_of_true ⟨k', ?_, hdone⟩ hfault,
      fun hne => absurd hfault hne⟩
    simp only [List.getElem?_set_self hlt, hk]
  · have hret : Config.Returned (S := proxy http)
        ⟨σ', c.procs.set p (.running req (k (.error .unavailable)))⟩ p req
        (.error .unavailable) := by
      simp only [Config.Returned, List.getElem?_set_self hlt, herror]
    refine ⟨henders.taken _ p hender, iff_of_false ?_ hfault, fun _ => ⟨hret, fun c'' h'' => ?_⟩⟩
    · rintro ⟨k'', hk'', -⟩
      rw [hret] at hk''
      cases hk''
    · have hbefore : n.job ∉ c.store.queue := by
        intro hmem
        obtain ⟨r, hr⟩ := (henders.queued _ _ (Request.job_cases hn) hmem).2 p hender
        exact hnone n.job r hr
      obtain ⟨γ', hstep⟩ :=
        Observed.exists_move (s := (⟨c, γ⟩ : (history (proxy http)).Observed)) hm
      obtain ⟨γ'', hγ''⟩ := exists_runs ⟨_, γ'⟩ h''
      refine job_not_mem_of_returned (hγ.tail ⟨_, trivial, hstep⟩) hγ'' hn hret ?_ fun hmem => ?_
      · obtain ⟨-, hne⟩ | ⟨o', req', x, k₁, r, -, -, -, heq⟩ | ⟨hcrash, -⟩ :=
          Observed.locals_cases hstep p
        · exact absurd (Config.callOf_eq_some.mpr ⟨rfl, req, k, hp⟩) (hne o _)
        · rw [heq]
          exact hended.mono (List.subset_append_left _ _)
        · cases hcrash
      · obtain hold | ⟨q, o', req', k₁, hcall, hq⟩ := queue_of_move hm hmem
        · exact hbefore hold
        · cases hcall
          rw [hp] at hq
          cases hq

/-! ### Example runs -/

/-- The result request of `hookedRun` before its publication, which is then made with the fault. -/
def publishingRun (fault : Fault) : List (proxy httpRetryService).Move :=
  hookedRun.dropLast.dropLast ++ [.call 2 { fault := fault }]

/-- The test whether a program is a result request for the task that is about to publish. -/
def isPublishing (c : (proxy http).Config) (p : ℕ) (id : String) : Bool :=
  match c.procs[p]? with
  | some (.running (.result i _ _) (.call (.publish ..) _)) => i == id
  | _ => false

/-- The test whether a program has returned. -/
def isAnswered (c : (proxy http).Config) (p : ℕ) : Bool :=
  match c.procs[p]? with
  | some (.running _ (.ret _)) => true
  | _ => false

/-- The test whether program 2 publishes with this step, and is answered with it or not. -/
def publishes (fault : Fault) (answered : Bool) (x : (proxy http).Transition) : Bool :=
  isPublishing x.before 2 sampleId &&
    (x.before.callOf x.move).any (fun y => y.1 == 2 && y.2.1.fault == fault) &&
    (isAnswered x.after 2 == answered) &&
      x.before.store.tasks.any fun t => t.id == sampleId && truthy t.webhookUrl

/-- A run in which the result request of a task with a webhook publishes. -/
theorem exists_publication (fault : Fault) (answered : Bool)
    (h : ((initial httpRetryService 0).trace (publishingRun fault)).any
      (fun y => y.1.any (publishes fault answered)) = true) :
    ∃ c c' authorization dto t o channel event k,
      Reaches (fun _ _ => True) (initial httpRetryService 0) c ∧
      c.procs[2]? = some (.running (.result sampleId authorization dto)
        (.call (.publish channel event) k)) ∧
      c.move (.call 2 o) = some c' ∧ o.fault = fault ∧ isAnswered c' 2 = answered ∧
      t ∈ c.store.tasks ∧ t.id = sampleId ∧ truthy t.webhookUrl = true := by
  obtain ⟨l, d, htrace, hcheck⟩ :=
    Config.exists_trace_of_check _ (fun l _ => l.any (publishes fault answered)) h
  obtain ⟨x, hx, hcheck⟩ := List.any_eq_true.mp hcheck
  simp only [publishes, Bool.and_eq_true, List.any_eq_true, beq_iff_eq, Option.any_eq_true]
    at hcheck
  obtain ⟨⟨⟨hpub, ⟨p, o, y⟩, hcall, rfl, hfault⟩, hanswered⟩, t, ht, hid, hurl⟩ := hcheck
  obtain ⟨hreach, hm, -⟩ := htrace.reaches_of_mem hx
  obtain ⟨hmove, -⟩ := Config.callOf_eq_some.mp hcall
  rw [hmove] at hm
  unfold isPublishing at hpub
  split at hpub
  · next i authorization dto channel event k hp =>
    obtain rfl : i = sampleId := beq_iff_eq.mp hpub
    exact ⟨_, _, authorization, dto, t, o, channel, event, k, hreach, hp, hm, hfault, hanswered,
      ht, hid, hurl⟩
  · cases hpub

/-- Without a fault the request goes on to its job. -/
theorem notifies_without_fault :
    ∃ c c' o req, Reaches (fun _ _ => True) (initial httpRetryService 0) c ∧
      c.move (.call 2 o) = some c' ∧ Notifies c' 2 req (.webhook sampleId) := by
  obtain ⟨c, c', authorization, dto, t, o, channel, event, k, hreach, hp, hm, hfault, -, ht, hid,
    hurl⟩ := exists_publication .none false (by decide)
  exact ⟨c, c', o, _, hreach, hm, (notifies_iff httpRetryService 0 c c c' hreach .refl _ _ rfl t ht
    hid hurl 2 o channel event k hp hm).2.1.mpr hfault⟩

/-- After a failed publication the request is answered with an error instead. -/
theorem failed_publication_drops_webhook :
    ¬ ∀ (http : HttpClient) (clock : Timestamp) (c₀ c c' : (proxy http).Config),
      Reaches (fun _ _ => True) (initial http clock) c₀ → Reaches (fun _ _ => True) c₀ c →
      ∀ (req : Request) (n : Notification), req.notification = some n → ∀ t ∈ c₀.store.tasks,
        t.id = n.taskId → truthy (n.url t) = true →
        ∀ p o channel event k,
          c.procs[p]? = some (.running req (.call (.publish channel event) k)) →
          c.move (.call p o) = some c' → Notifies c' p req n.job := by
  intro h
  obtain ⟨c, c', authorization, dto, t, o, channel, event, k, hreach, hp, hm, -, hanswered, ht,
    hid, hurl⟩ := exists_publication .failed true (by decide)
  obtain ⟨k', hk', -⟩ := h _ _ c c c' hreach .refl _ _ rfl t ht hid hurl 2 o channel event k hp hm
  unfold isAnswered at hanswered
  rw [hk'] at hanswered
  cases hanswered

end LongRequestProxy
