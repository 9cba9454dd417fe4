import LongRequestProxy.Async.Trace
import LongRequestProxy.Conduct.Runs
import LongRequestProxy.Delivery.TaskEndings

/-!
# The claims of the dispatch workers

A run of `DispatchProcessor.process` posts a task to its executor only after its own conditional
UPDATE has moved the task from `PENDING` to `PROCESSING`. While a run holds such a claim the task is
not `PENDING`, so that nobody else can claim it, and the claim ends with the revert that makes the
task `PENDING` again. The claim is the last look at the status: a run that holds one goes on posting
when the task ends under it.

## Main definitions

* `Claims`, `Reverts`: the steps between `PENDING` and `PROCESSING`.
* `IsPosting`, `Posts`: the runs that have reached `HttpRetryService.post`, and their requests.
* `OneClaim`: the invariant.

## Main results

* `oneClaim_of_runs`: at every time at most one run holds a claim of a task.
* `dispatch_claimed`: every run that posts has claimed the task.
* `posts_after_end`: who posts a task that has ended, and how often.
-/

namespace LongRequestProxy

open Async Service Discipline Function

variable {http : HttpClient} {clock : Timestamp}

/-! ### The steps -/

/-- The task has a row in the given status. -/
def HasStatus (c : (proxy http).Config) (id : String) (s : TaskStatus) : Prop :=
  ∃ t ∈ c.store.tasks, t.id = id ∧ t.status = s

/-- With this step program `p` moves the task from `PENDING` to `PROCESSING`. -/
structure Claims (p : ℕ) (id : String) (x : (proxy http).Transition) : Prop where
  call : ∃ o now timeoutSeconds,
    x.before.callOf x.move = some (p, o, .updateTask id (.dispatchClaim now timeoutSeconds))
  before : HasStatus x.before id .pending
  after : HasStatus x.after id .processing

/-- With this step program `p` moves the task from `PROCESSING` back to `PENDING`. -/
structure Reverts (p : ℕ) (id : String) (x : (proxy http).Transition) : Prop where
  call : ∃ o, x.before.callOf x.move = some (p, o, .updateTask id .dispatchRevert)
  before : HasStatus x.before id .processing
  after : HasStatus x.after id .pending

/-- Program `p` runs a dispatch job of the task and is in `HttpRetryService.post`. -/
def IsPosting (c : (proxy http).Config) (p : ℕ) (id : String) : Prop :=
  ∃ timeoutSeconds x k, c.procs[p]? = some (.running (.dispatch id timeoutSeconds) (.call x k)) ∧
    x.IsHttp

/-- The call starts an HTTP request. -/
def Await.isPost : Await → Bool
  | httpRequest .. => true
  | _ => false

/-- With this step program `p`, which runs a dispatch job of the task, starts a POST request. -/
structure Posts (p : ℕ) (id : String) (x : (proxy http).Transition) : Prop where
  posting : IsPosting x.before p id
  call : x.calls Await.isPost p = true

/-- What one step does to the rows that are `PENDING`. -/
theorem pending_cases_of_move {c c' : (proxy http).Config} {m : (proxy http).Move} {id : String}
    (hc : Reaches (fun _ _ => True) (initial http clock) c) (hm : c.move m = some c')
    (h : HasStatus c' id .pending) :
    HasStatus c id .pending ∨ id ∉ c.store.issued ∨ ∃ p, Reverts p id ⟨c, m, c'⟩ := by
  obtain ⟨γ, hγ⟩ := ledger_of_reaches hc
  obtain ⟨t', ht', rfl, hs⟩ := h
  obtain hold | ⟨hnew, -⟩ | ⟨p, o, w, hcall, -, t, ht, hid, hmatch, happly⟩ | ⟨hterm, -⟩ :=
    row_cases_of_move hγ hm ht'
  · exact .inl ⟨t', hold, rfl, hs⟩
  · exact .inr (.inl hnew)
  · rw [happly] at hs
    rw [TaskWrite.matches_iff] at hmatch
    -- of the writes only a revert sets the status `PENDING`
    cases w with
    | dispatchRevert =>
      exact .inr (.inr ⟨p, ⟨o, hcall⟩, ⟨t, ht, hid, hmatch⟩, t', ht', rfl, happly ▸ hs⟩)
    | progress n => exact .inl ⟨t, ht, hid, hs⟩
    | _ => cases hs
  · rw [hs] at hterm
    cases hterm

/-- While no step reverts it, a task that is not `PENDING` does not become so. -/
theorem not_pending_of_trace {c c' : (proxy http).Config} {l : List (proxy http).Transition}
    {id : String} (hc : Reaches (fun _ _ => True) (initial http clock) c) (h : Trace c l c')
    (hissued : id ∈ c.store.issued) (hnot : ¬ HasStatus c id .pending)
    (hl : ∀ z ∈ l, ∀ p, ¬ Reverts p id z) : ¬ HasStatus c' id .pending := by
  suffices hinv : (∀ z ∈ l, ∀ p, ¬ Reverts p id z) →
      id ∈ c'.store.issued ∧ ¬ HasStatus c' id .pending from (hinv hl).2
  refine h.invariant (I := fun l c' => (∀ z ∈ l, ∀ p, ¬ Reverts p id z) →
    id ∈ c'.store.issued ∧ ¬ HasStatus c' id .pending) (fun _ => ⟨hissued, hnot⟩) ?_
  intro l d m d' hd hm ih hl
  obtain ⟨hi, hn⟩ := ih fun z hz => hl z (List.mem_append_left _ hz)
  have hreach := hc.trans hd.reaches
  obtain ⟨γ, hγ⟩ := ledger_of_reaches hreach
  refine ⟨(rowStep_of_move hγ hm).1 hi, fun hpending => ?_⟩
  obtain hold | hnew | ⟨p, hrev⟩ := pending_cases_of_move hreach hm hpending
  · exact hn hold
  · exact hnew hi
  · exact hl _ (List.mem_append_right _ List.mem_cons_self) p hrev

/-! ### Holding a claim -/

/-- The function holds a claim of the task: its conditional UPDATE has returned the row, and it has
not yet tried to record the outcome. -/
def Summary.Holds (w : Summary) (id : String) : Prop := ∃ t, w.claimed = some t ∧ t.id = id

/-- A reply gives a function its claim, or leaves it with the one that it had. -/
theorem Summary.claimed_of_next {w : Summary} {x : Await} {r : Reply x} {t : TaskSelect}
    (h : (w.next x r).claimed = some t) :
    (w.claimed = some t ∧ ∀ id, x ≠ .updateTask id .dispatchRevert) ∨
      ∃ id now timeoutSeconds, x = .updateTask id (.dispatchClaim now timeoutSeconds) ∧
        HEq r (.ok (some t) : Reply (.updateTask id (.dispatchClaim now timeoutSeconds))) := by
  cases r with
  | error e => cases x <;> first | cases h | exact .inl ⟨h, by simp⟩
  | ok v =>
    cases x with
    | updateTask id write =>
      cases write with
      | dispatchClaim now timeoutSeconds =>
        obtain rfl : v = some t := h
        exact .inr ⟨id, now, timeoutSeconds, rfl, .rfl⟩
      | dispatchFailure now error => cases h
      | dispatchRevert => cases h
      | _ => exact .inl ⟨h, by simp⟩
    | txCancelTask id now => cases v <;> exact .inl ⟨h, by simp⟩
    | _ => exact .inl ⟨h, by simp⟩

/-- A function gets a claim by a claiming step, and a reverting step takes it away. -/
theorem holds_of_move {s s' : (discipline http).Observed} {m : (proxy http).Move} {q : ℕ}
    {id : String} (hm : s.move m = some s') (h : (s'.locals q).Holds id) :
    ((s.locals q).Holds id ∧ ¬ Reverts q id ⟨s.config, m, s'.config⟩) ∨
      Claims q id ⟨s.config, m, s'.config⟩ := by
  obtain ⟨t, hclaimed, rfl⟩ := h
  have hkeep : (s.locals q).claimed = some t →
      (∀ o, s.config.callOf m ≠ some (q, o, .updateTask t.id .dispatchRevert)) →
      (s.locals q).Holds t.id ∧ ¬ Reverts q t.id ⟨s.config, m, s'.config⟩ :=
    fun hsame hne => ⟨⟨t, hsame, rfl⟩, fun ⟨⟨o, hx⟩, _, _⟩ => hne o hx⟩
  obtain ⟨heq, hnone⟩ | ⟨o, req, x, k, r, rfl, hp, hs, heq⟩ | ⟨-, heq⟩ :=
    Observed.locals_cases hm q
  · rw [heq] at hclaimed
    exact .inl (hkeep hclaimed fun o => hnone o _)
  · have hcall : s.config.callOf (.call q o) = some (q, o, x) :=
      Config.callOf_eq_some.mpr ⟨rfl, req, k, hp⟩
    rw [heq] at hclaimed
    obtain ⟨hsame, hne⟩ | ⟨id, now, timeoutSeconds, rfl, hr⟩ := Summary.claimed_of_next hclaimed
    · refine .inl (hkeep hsame fun o' h => ?_)
      rw [hcall] at h
      cases h
      exact hne _ rfl
    · obtain rfl := eq_of_heq hr
      obtain ⟨row, hrow, rfl, hmatch, rfl, hσ⟩ := Backend.updateTask_some (exec_of_perform_ok hs)
      refine .inr ⟨⟨o, now, timeoutSeconds, hcall⟩, ⟨row, hrow, rfl, ?_⟩, _, ?_, rfl, rfl⟩
      · exact (TaskWrite.matches_iff _ row).mp hmatch
      · rw [hσ]
        exact Table.mem_update.mpr ⟨row, hrow, .inl ⟨hmatch, rfl⟩⟩
  · rw [heq] at hclaimed
    cases hclaimed

/-- The claims of all runs: a claimed task is not `PENDING`, and has one holder. -/
structure OneClaim (s : (discipline http).Observed) : Prop where
  not_pending : ∀ p id, (s.locals p).Holds id →
    id ∈ s.config.store.issued ∧ ¬ HasStatus s.config id .pending
  once : ∀ p q id, (s.locals p).Holds id → (s.locals q).Holds id → p = q

/-- Two rows of one task are the same. -/
theorem status_unique {c : (proxy http).Config} {γ : ℕ → Duty} (hc : Ledger false c.store γ)
    {id : String} {s s' : TaskStatus} (h : HasStatus c id s) (h' : HasStatus c id s') : s = s' := by
  obtain ⟨t, ht, hid, rfl⟩ := h
  obtain ⟨t', ht', hid', rfl⟩ := h'
  rw [Table.eq_of_key_eq hc.ids ht ht' (hid.trans hid'.symm)]

/-- **One claim at a time.** -/
theorem oneClaim_of_runs {s : (discipline http).Observed}
    (h : Runs (fun _ _ => True) (observed http clock) s) : OneClaim s := by
  have hnone : ∀ id, ¬ Summary.Holds {} id := fun id ⟨t, ht, _⟩ => by cases ht
  refine h.invariant ?_ ⟨fun p id hp => absurd hp (hnone id), fun p q id hp => absurd hp (hnone id)⟩
  intro s m s' hruns _ hm hs
  have hreach : Reaches (fun _ _ => True) (initial http clock) s.config := hruns.reaches
  have hmove := Observed.config_move hm
  obtain ⟨γ, hγ⟩ := ledger_of_reaches hreach
  obtain ⟨γ', hγ'⟩ := ledger_of_reaches (hreach.tail ⟨m, trivial, hmove⟩)
  have hsub := (rowStep_of_move hγ hmove).1
  constructor
  · intro q id hq
    obtain ⟨hold, hrev⟩ | hclaim := holds_of_move hm hq
    · obtain ⟨hissued, hnot⟩ := hs.not_pending q id hold
      refine ⟨hsub hissued, fun hpending => ?_⟩
      obtain h | h | ⟨p, hr⟩ := pending_cases_of_move hreach hmove hpending
      · exact hnot h
      · exact h hissued
      · -- the run that reverts holds the claim, so it is `q`
        obtain ⟨o, hx⟩ := hr.call
        obtain ⟨-, req, k, hp⟩ := Config.callOf_eq_some.mp hx
        obtain ⟨-, timeoutSeconds, t, -, ht, hid⟩ := (obeys_of_runs hruns).awaits hp
        obtain rfl := hs.once p q id ⟨t, ht, hid⟩ hold
        exact hrev hr
    · obtain ⟨t, ht, hid, -⟩ := hclaim.before
      refine ⟨hsub (hid ▸ hγ.issued t ht), fun hpending => ?_⟩
      cases status_unique hγ' hclaim.after hpending
  · intro p q id hp hq
    obtain ⟨hp, -⟩ | hpclaim := holds_of_move hm hp
    · obtain ⟨hq, -⟩ | hqclaim := holds_of_move hm hq
      · exact hs.once p q id hp hq
      · exact absurd hqclaim.before (hs.not_pending p id hp).2
    · obtain ⟨hq, -⟩ | hqclaim := holds_of_move hm hq
      · exact absurd hpclaim.before (hs.not_pending q id hq).2
      · obtain ⟨o, _, _, hx⟩ := hpclaim.call
        obtain ⟨o', _, _, hx'⟩ := hqclaim.call
        have heq := Option.some.inj (hx.symm.trans hx')
        exact congrArg Prod.fst heq

/-- A run that posts holds a claim of its task. -/
theorem holds_of_isPosting {s : (discipline http).Observed} (hs : s.Obeys) {p : ℕ} {id : String}
    (h : IsPosting s.config p id) : (s.locals p).Holds id := by
  obtain ⟨timeoutSeconds, x, k, hp, hx⟩ := h
  have hawaits : (s.locals p).Awaits (.dispatch id timeoutSeconds) x := hs.awaits hp
  have hclaim : (∃ id' timeoutSeconds' t, Request.dispatch id timeoutSeconds =
      .dispatch id' timeoutSeconds' ∧ (s.locals p).claimed = some t ∧ t.id = id') ∨
      ∃ id', Request.dispatch id timeoutSeconds = .notifyCancel id' ∨
        Request.dispatch id timeoutSeconds = .notifyWebhook id' := by
    cases x <;> first | exact hawaits.2 | exact hx.elim
  obtain ⟨_, _, t, heq, ht, rfl⟩ | ⟨_, heq | heq⟩ := hclaim
  · cases heq
    exact ⟨t, ht, rfl⟩
  · cases heq
  · cases heq

/-! ### Traces -/

variable {l : List (proxy http).Transition} {c : (proxy http).Config}

/-- Along every trace, whoever holds a claim has made it. -/
theorem exists_claims (h : Trace (initial http clock) l c) :
    ∃ γ, Runs (fun _ _ => True) (observed http clock) ⟨c, γ⟩ ∧
      ∀ p id, (γ p).Holds id → ∃ x ∈ l, Claims p id x := by
  refine exists_observed_trace (s := observed http clock)
    (I := fun l (s : (discipline http).Observed) =>
      ∀ p id, (s.locals p).Holds id → ∃ x ∈ l, Claims p id x) h
    (fun p id ⟨t, ht, _⟩ => by cases ht) ?_
  intro l s m s' _ _ hm ih p id hp
  obtain ⟨hold, -⟩ | hclaim := holds_of_move hm hp
  · obtain ⟨x, hx, hclaim⟩ := ih p id hold
    exact ⟨x, List.mem_append_left _ hx, hclaim⟩
  · exact ⟨_, List.mem_append_right _ List.mem_cons_self, hclaim⟩

/-- A task that has ended is claimed by nobody any more. -/
theorem not_claims_of_hasEnded {c d : (proxy http).Config} {id : String}
    (hc : Reaches (fun _ _ => True) (initial http clock) c) (hend : HasEnded c id)
    (h : Reaches (fun _ _ => True) c d) (p : ℕ) (m : (proxy http).Move)
    (d' : (proxy http).Config) : ¬ Claims p id ⟨d, m, d'⟩ := by
  rintro ⟨-, ⟨t', ht', hid', hs⟩, -⟩
  obtain ⟨t, ht, rfl, hterm⟩ := hend
  have hout := (sameOutcome_of_reaches hc h ht hterm).2 t' ht' hid'
  rw [← hout.status, hs] at hterm
  cases hterm

/-- After a task has ended its posts come from the runs that hold a claim at that time. -/
theorem holds_after_end {s₀ : (discipline http).Observed} {id : String}
    (hruns : Runs (fun _ _ => True) (observed http clock) s₀) (hend : HasEnded s₀.config id)
    (h : Trace s₀.config l c) :
    (∀ p, IsPosting c p id → (s₀.locals p).Holds id) ∧
      ∀ y ∈ l, ∀ p, ¬ Claims p id y ∧ (IsPosting y.before p id → (s₀.locals p).Holds id) := by
  obtain ⟨γ, hγ, hholds, hl⟩ := exists_observed_trace
    (I := fun l (s : (discipline http).Observed) =>
      (∀ p, (s.locals p).Holds id → (s₀.locals p).Holds id) ∧
      ∀ y ∈ l, ∀ p, ¬ Claims p id y ∧ (IsPosting y.before p id → (s₀.locals p).Holds id)) h
    ⟨fun _ hp => hp, by simp⟩ fun l s m s' htrace hs hm ih => by
      have hno := fun p => not_claims_of_hasEnded hruns.reaches hend htrace.reaches p m s'.config
      refine ⟨fun p hp => ?_, fun y hy p => ?_⟩
      · obtain ⟨hold, -⟩ | hclaim := holds_of_move hm hp
        · exact ih.1 p hold
        · exact absurd hclaim (hno p)
      · rcases List.mem_append.mp hy with hy | hy
        · exact ih.2 y hy p
        · obtain rfl := List.mem_singleton.mp hy
          have hobeys := obeys_of_runs (Relation.ReflTransGen.trans hruns hs)
          exact ⟨hno p, fun hp => ih.1 p (holds_of_isPosting hobeys hp)⟩
  have hobeys := obeys_of_runs (Relation.ReflTransGen.trans hruns hγ)
  exact ⟨fun p hp => hholds p (holds_of_isPosting hobeys hp), hl⟩

/-- **Every run that posts has claimed the task itself.** However often the dispatch jobs of a task
are delivered: a run that is in `post` has made a step from `PENDING` to `PROCESSING`, no step is
made by two runs, and no two runs of one task are in `post` at a time. Between two claims lies a
revert, and once the task has left `PENDING` for its end it is neither claimed nor posted. -/
theorem dispatch_claimed (http : HttpClient) (clock : Timestamp)
    (l : List (proxy http).Transition) (c : (proxy http).Config)
    (h : Trace (initial http clock) l c) :
    (∀ p id, IsPosting c p id → ∃ x ∈ l, Claims p id x) ∧
    (∀ x ∈ l, ∀ p q id id', Claims p id x → Claims q id' x → p = q) ∧
    (∀ p q id, IsPosting c p id → IsPosting c q id → p = q) ∧
    (∀ l₁ x l₂ y l₃ p q id, l = l₁ ++ x :: (l₂ ++ y :: l₃) → Claims p id x → Claims q id y →
      ∃ z ∈ l₂, ∃ r, Reverts r id z) ∧
    ∀ l₁ x l₂ id, l = l₁ ++ x :: l₂ → HasStatus x.before id .pending → HasEnded x.after id →
      (∀ y ∈ l₂, ∀ p, ¬ Claims p id y ∧ ¬ IsPosting y.before p id) ∧ ∀ p, ¬ IsPosting c p id := by
  obtain ⟨γ, hγ, hclaims⟩ := exists_claims h
  have hholds : ∀ p id, IsPosting c p id → (γ p).Holds id := fun p id hp =>
    holds_of_isPosting (obeys_of_runs hγ) hp
  refine ⟨fun p id hp => hclaims p id (hholds p id hp), ?_,
    fun p q id hp hq => (oneClaim_of_runs hγ).once p q id (hholds p id hp) (hholds q id hq), ?_, ?_⟩
  · rintro x - p q id id' ⟨⟨o, _, _, hx⟩, _, _⟩ ⟨⟨o', _, _, hx'⟩, _, _⟩
    exact congrArg Prod.fst (Option.some.inj (hx.symm.trans hx'))
  · rintro l₁ x l₂ y l₃ p q id rfl hx hy
    obtain ⟨h₁, hm, hrest⟩ := h.split
    obtain ⟨h₂, -, -⟩ := hrest.split
    have hreach := h₁.reaches.tail ⟨x.move, trivial, hm⟩
    obtain ⟨δ, hδ⟩ := ledger_of_reaches hreach
    obtain ⟨t, ht, hid, hs⟩ := hx.after
    by_contra hnone
    refine not_pending_of_trace hreach h₂ (hid ▸ hδ.issued t ht) (fun hpending => ?_)
      (fun z hz r hr => hnone ⟨z, hz, r, hr⟩) hy.before
    cases status_unique hδ hpending hx.after
  · rintro l₁ x l₂ id rfl hpending hend
    obtain ⟨h₁, hm, h₂⟩ := h.split
    obtain ⟨γ₁, hγ₁, -⟩ := exists_claims h₁
    have hmove : Observed.move (D := discipline http) ⟨x.before, γ₁⟩ x.move =
        some ⟨x.after, Observed.after ⟨x.before, γ₁⟩ x.move⟩ := by
      rw [Observed.move, hm]
      rfl
    have hruns : Runs (fun _ _ => True) (observed http clock) ⟨x.after, _⟩ :=
      hγ₁.tail ⟨x.move, trivial, hmove⟩
    -- nobody holds a claim when the task leaves `PENDING`, and the step itself is no claim
    have hnone : ∀ p,
        ¬ (Observed.after (D := discipline http) ⟨x.before, γ₁⟩ x.move p).Holds id := by
      intro p hp
      obtain ⟨hold, -⟩ | hclaim := holds_of_move hmove hp
      · exact ((oneClaim_of_runs hγ₁).not_pending p id hold).2 hpending
      · obtain ⟨t, ht, hid, hterm⟩ := hend
        obtain ⟨δ, hδ⟩ := ledger_of_reaches hruns.reaches
        have hs := status_unique hδ hclaim.after ⟨t, ht, hid, rfl⟩
        rw [← hs] at hterm
        cases hterm
    obtain ⟨hc, hl⟩ := holds_after_end hruns hend h₂
    exact ⟨fun y hy p => ⟨(hl y hy p).1, fun hp => hnone p ((hl y hy p).2 hp)⟩,
      fun p hp => hnone p (hc p hp)⟩

/-! ### The posts of a task that has ended -/

/-- A call other than a POST request. -/
theorem call_atMost_zero {x : Await} (hx : x.isPost = false) : (call x).run.AtMost Await.isPost 0 :=
  .of_uses (Uses.call hx) 0

theorem loop_atMost (url : String) (body : Json) (authorization : String)
    (opts : HttpRetryOptions) (left attempt : ℕ) (lastError : String)
    (lastStatusCode : Option ℕ) :
    (HttpRetryService.loop url body authorization opts left attempt lastError
      lastStatusCode).run.AtMost Await.isPost left := by
  induction left generalizing attempt lastError lastStatusCode with
  | zero => trivial
  | succ left ih =>
    have hpost : ∀ x, (call (.httpRequest url body authorization x)).run.AtMost Await.isPost 1 :=
      fun x => ⟨0, rfl, fun _ => trivial⟩
    unfold HttpRetryService.loop
    rw [Nat.add_comm left 1]
    refine (hpost _).bindExcept fun reply => ?_
    cases reply with
    | ok data => trivial
    | error err =>
      dsimp only
      split
      · trivial
      · split
        · exact ih ..
        · rw [← Nat.zero_add left]
          refine (call_atMost_zero rfl).bindExcept fun jitter => ?_
          rw [← Nat.zero_add left]
          exact (call_atMost_zero rfl).bindExcept fun _ => by simpa using ih ..

/-- A run of `DispatchProcessor.process` makes at most three POST requests. -/
theorem dispatch_atMost (taskId : String) (timeoutSeconds : ℤ) :
    (DispatchProcessor.process httpRetryService taskId timeoutSeconds).run.AtMost
      Await.isPost 3 := by
  refine (call_atMost_zero rfl).bindExcept (m := 3) fun now => ?_
  refine (call_atMost_zero rfl).bindExcept (m := 3) fun row => ?_
  cases row with
  | none => trivial
  | some task =>
    have honError : ∀ err, (DispatchProcessor.onError taskId err).run.Uses
        fun x => x.isPost = false := by
      intro err
      unfold DispatchProcessor.onError
      split
      · exact uses_bind (Uses.call rfl) fun _ => uses_bind (Uses.call rfl) fun _ => uses_pure ()
      · exact uses_bind (uses_tryCatch (uses_bind (Uses.call rfl) fun _ => uses_pure ())
          fun _ => uses_pure ()) fun _ => uses_throw _
    refine Prog.AtMost.tryCatch (n := 3) (m := 0) ?_ fun err => .of_uses (honError err) 0
    exact Prog.AtMost.bindExcept (n := 3) (m := 0) (loop_atMost ..) fun _ => trivial

/-- **Posts of an ended task.** Once a task is in a terminal status no run claims it. Posts that are
started later all come from one run, which claimed the task before it ended; and a run starts at
most three posts in all. -/
theorem posts_after_end (clock : Timestamp) (l : List (proxy httpRetryService).Transition)
    (c : (proxy httpRetryService).Config) (h : Trace (initial httpRetryService clock) l c) :
    (∀ l₁ x l₂ id, l = l₁ ++ x :: l₂ → HasEnded x.after id →
      (∀ y ∈ l₂, ∀ p, ¬ Claims p id y) ∧
      (∀ y ∈ l₂, ∀ p, Posts p id y → ∃ z ∈ l₁, Claims p id z) ∧
      ∀ y ∈ l₂, ∀ y' ∈ l₂, ∀ p q, Posts p id y → Posts q id y' → p = q) ∧
    ∀ p id timeoutSeconds pr, c.procs[p]? = some pr →
      pr.request = .dispatch id timeoutSeconds →
      l.countP (Transition.calls Await.isPost p) ≤ 3 := by
  constructor
  · rintro l₁ x l₂ id rfl hend
    obtain ⟨h₁, hm, h₂⟩ := h.split
    obtain ⟨γ, hγ, hclaims⟩ := exists_claims (h₁.snoc hm)
    obtain ⟨-, hl⟩ := holds_after_end hγ hend h₂
    refine ⟨fun y hy p => (hl y hy p).1, fun y hy p hp => ?_, fun y hy y' hy' p q hp hq =>
      (oneClaim_of_runs hγ).once p q id ((hl y hy p).2 hp.posting) ((hl y' hy' q).2 hq.posting)⟩
    obtain ⟨z, hz, hclaim⟩ := hclaims p id ((hl y hy p).2 hp.posting)
    rcases List.mem_append.mp hz with hz | hz
    · exact ⟨z, hz, hclaim⟩
    · -- the step that ends the task is no claim
      obtain rfl := List.mem_singleton.mp hz
      obtain ⟨δ, hδ⟩ := ledger_of_reaches hγ.reaches
      obtain ⟨t, ht, hid, hterm⟩ := hend
      rw [← status_unique hδ hclaim.after ⟨t, ht, hid, rfl⟩] at hterm
      cases hterm
  · intro p id timeoutSeconds pr hp hreq
    refine h.countP_le ?_ hp hreq
    exact Prog.AtMost.bindExcept (n := 3) (m := 0) (dispatch_atMost id timeoutSeconds)
      fun _ => trivial

/-! ### Example runs -/

/-- The test whether a dispatch job of the task is about to start a POST request. -/
def isAboutToPost (c : (proxy http).Config) (p : ℕ) (id : String) : Bool :=
  match c.procs[p]? with
  | some (.running (.dispatch taskId _) (.call (.httpRequest ..) _)) => taskId == id
  | _ => false

theorem isPosting_of_isAboutToPost {p : ℕ} {id : String} (h : isAboutToPost c p id = true) :
    IsPosting c p id := by
  unfold isAboutToPost at h
  split at h
  · next taskId timeoutSeconds url body authorization ms k hp =>
    obtain rfl := beq_iff_eq.mp h
    exact ⟨timeoutSeconds, _, k, hp, trivial⟩
  · cases h

/-- The task was claimed by program 1, which is about to post it. -/
def claimedTask : List (proxy httpRetryService).Move := completedRun.take 8

/-- The run that is about to post has claimed the task. -/
theorem claimedTask_claimed :
    ∃ l c, Trace (initial httpRetryService 0) l c ∧ IsPosting c 1 sampleId ∧
      ∃ x ∈ l, Claims 1 sampleId x := by
  obtain ⟨l, c, h, hcheck⟩ := Config.exists_trace_of_check (c := initial httpRetryService 0)
    claimedTask (fun _ c => isAboutToPost c 1 sampleId) (by decide)
  have hposting := isPosting_of_isAboutToPost hcheck
  exact ⟨l, c, h, hposting, (dispatch_claimed httpRetryService 0 l c h).1 1 sampleId hposting⟩

/-- The task is cancelled, then program 1 posts it. -/
def cancelledTask : List (proxy httpRetryService).Move :=
  claimedTask ++ [.spawn (.cancel sampleId), .call 2 { time := 2000 }, .call 2 {}, .call 2 {},
    .call 2 {}, .call 2 {}, .call 2 {}, .call 1 {}]

/-- The last two steps of a trace. -/
def lastTwo (l : List (proxy httpRetryService).Transition) :
    Option ((proxy httpRetryService).Transition × (proxy httpRetryService).Transition) :=
  match l.reverse with
  | y :: x :: _ => some (x, y)
  | _ => none

theorem lastTwo_eq_some {l : List (proxy httpRetryService).Transition}
    {x y : (proxy httpRetryService).Transition} (h : lastTwo l = some (x, y)) :
    ∃ l₁, l = l₁ ++ x :: [y] := by
  unfold lastTwo at h
  split at h
  · next y' x' l' hl =>
    cases h
    refine ⟨l'.reverse, ?_⟩
    rw [← List.reverse_reverse l, hl]
    simp
  · cases h

theorem cancelledTask_trace :
    ∃ l c, Trace (initial httpRetryService 0) l c ∧ ∃ l₁ x y, l = l₁ ++ x :: [y] ∧
      HasStatus x.after sampleId .cancelled ∧ Posts 1 sampleId y := by
  obtain ⟨l, c, htrace, hcheck⟩ := Config.exists_trace_of_check
    (c := initial httpRetryService 0) cancelledTask (fun l _ => (lastTwo l).any fun x =>
      x.1.after.store.tasks.any (fun t => t.id == sampleId && t.status == .cancelled) &&
        x.2.calls Await.isPost 1 && isAboutToPost x.2.before 1 sampleId) (by decide)
  obtain ⟨⟨x, y⟩, hl, hcheck⟩ := (Option.any_eq_true _ _).mp hcheck
  simp only [Bool.and_eq_true, List.any_eq_true, beq_iff_eq] at hcheck
  obtain ⟨⟨⟨t, ht, hid, hs⟩, hcalls⟩, hposting⟩ := hcheck
  obtain ⟨l₁, hl⟩ := lastTwo_eq_some hl
  exact ⟨l, c, htrace, l₁, x, y, hl, ⟨t, ht, hid, hs⟩, isPosting_of_isAboutToPost hposting, hcalls⟩

/-- A cancelled task is posted to its executor. -/
theorem cancelled_task_posted :
    ¬ ∀ (http : HttpClient) (clock : Timestamp) (l : List (proxy http).Transition)
      (c : (proxy http).Config), Trace (initial http clock) l c →
      ∀ (l₁ l₂ : List (proxy http).Transition) (x : (proxy http).Transition) (id : String),
        l = l₁ ++ x :: l₂ → (HasStatus x.after id .cancelled ∨ HasStatus x.after id .failed) →
        ∀ y ∈ l₂, ∀ p, ¬ Posts p id y := by
  intro h
  obtain ⟨l, c, htrace, l₁, x, y, heq, hs, hposts⟩ := cancelledTask_trace
  exact h _ _ l c htrace l₁ [y] x _ heq (.inl hs) y (List.mem_singleton_self y) 1 hposts

/-- The late post comes from the run that had claimed the task. -/
theorem late_post_claimed :
    ∃ l c, Trace (initial httpRetryService 0) l c ∧ ∃ l₁ x y, l = l₁ ++ x :: [y] ∧
      HasStatus x.after sampleId .cancelled ∧ Posts 1 sampleId y ∧
      ∃ z ∈ l₁, Claims 1 sampleId z := by
  obtain ⟨l, c, htrace, l₁, x, y, heq, hs, hposts⟩ := cancelledTask_trace
  obtain ⟨t, ht, hid, hstatus⟩ := hs
  have hend : HasEnded x.after sampleId := ⟨t, ht, hid, by rw [hstatus]; rfl⟩
  exact ⟨l, c, htrace, l₁, x, y, heq, ⟨t, ht, hid, hstatus⟩, hposts,
    ((posts_after_end 0 l c htrace).1 l₁ x [y] sampleId heq hend).2.1 y
      (List.mem_singleton_self y) 1 hposts⟩

end LongRequestProxy
