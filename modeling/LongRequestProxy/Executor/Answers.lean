import LongRequestProxy.Executor.Claims

/-!
# The answers to submitted results

`CallbackAuthGuard` reads the task and answers 409 when it is not `PROCESSING`; the service then
makes its conditional UPDATE. A request that passes the guard and comes too late for the UPDATE is
answered like one whose result was recorded, and changes nothing.

## Main definitions

* `SubmitResultDto.IsOutcome`: a row that shows what a request has submitted.
* `Records`, `Ignores`: the two ways in which the UPDATE of a submission can end.

## Main results

* `result_answered`: what the answers 204 and 409 say about the task.
-/

namespace LongRequestProxy

open Async Service Discipline Function

variable {http : HttpClient} {clock : Timestamp}

/-! ### Submissions -/

/-- The row shows what the request has submitted. -/
def SubmitResultDto.IsOutcome (t : TaskSelect) : SubmitResultDto → Prop
  | completed result => t.status = .completed ∧ t.result = some (.obj result)
  | failed error => t.status = .failed ∧ t.error = some error

/-- With this step program `p` makes the UPDATE of its submission. -/
def Submits (p : ℕ) (id : String) (dto : SubmitResultDto) (x : (proxy http).Transition) : Prop :=
  ∃ o now, x.before.callOf x.move = some (p, o, .updateTask id (dto.write now))

/-- The submission finds the task `PROCESSING`, and is recorded. -/
structure Records (p : ℕ) (id : String) (dto : SubmitResultDto) (x : (proxy http).Transition) :
    Prop where
  submits : Submits p id dto x
  before : HasStatus x.before id .processing
  after : ∃ t ∈ x.after.store.tasks, t.id = id ∧ dto.IsOutcome t

/-- The submission does not find the task `PROCESSING`, and changes nothing. -/
structure Ignores (p : ℕ) (id : String) (dto : SubmitResultDto) (x : (proxy http).Transition) :
    Prop where
  submits : Submits p id dto x
  before : ¬ HasStatus x.before id .processing
  after : x.after.store.tasks = x.before.store.tasks

theorem SubmitResultDto.isTerminal_of_isOutcome {dto : SubmitResultDto} {t : TaskSelect}
    (h : dto.IsOutcome t) : t.status.isTerminal = true := by
  cases dto <;> rw [h.1] <;> rfl

theorem SubmitResultDto.IsOutcome.of_sameOutcome {dto : SubmitResultDto} {t t' : TaskSelect}
    (h : dto.IsOutcome t) (ht : SameOutcome t t') : dto.IsOutcome t' := by
  cases dto with
  | completed result => exact ⟨ht.status.trans h.1, ht.result.trans h.2⟩
  | failed error => exact ⟨ht.status.trans h.1, ht.error.trans h.2⟩

theorem SubmitResultDto.isOutcome_apply (dto : SubmitResultDto) (now : Timestamp)
    (t : TaskSelect) : dto.IsOutcome ((dto.write now).apply t) := by
  cases dto <;> exact ⟨rfl, rfl⟩

theorem SubmitResultDto.matches_write_iff {dto : SubmitResultDto} {now : Timestamp}
    {t : TaskSelect} : (dto.write now).Matches t = true ↔ t.status = .processing := by
  rw [TaskWrite.matches_iff]
  cases dto <;> rfl

/-! ### What a callback has written -/

/-- With this step program `p` has made a callback's write, and has been told the row. -/
structure Wrote (p : ℕ) (u : CallbackWrite) (x : (proxy http).Transition) : Prop where
  call : ∃ o, x.before.callOf x.move = some (p, o, .updateTask u.taskId u.write)
  found : ∀ t, u.row = some t → ∃ r ∈ x.before.store.tasks, r.id = u.taskId ∧
    u.write.Matches r = true ∧ t = u.write.apply r ∧ t ∈ x.after.store.tasks
  missed : u.row = none → x.after.store.tasks = x.before.store.tasks ∧
    ∀ r ∈ x.before.store.tasks, r.id = u.taskId → u.write.Matches r = false

/-- A reply tells a function of its write, or leaves it with what it knew of one. -/
theorem Summary.updated_of_next {w : Summary} {x : Await} {r : Reply x} {u : CallbackWrite}
    (h : (w.next x r).updated = some u) :
    w.updated = some u ∨ x = .updateTask u.taskId u.write ∧
      HEq r (.ok u.row : Reply (.updateTask u.taskId u.write)) := by
  cases r with
  | error e => cases x <;> first | cases h | exact .inl h
  | ok v =>
    cases x with
    | updateTask id write =>
      cases write <;> first | exact .inl h | (cases h; exact .inr ⟨rfl, .rfl⟩)
    | txCancelTask id now => cases v <;> exact .inl h
    | _ => exact .inl h

theorem wrote_of_move {s s' : (discipline http).Observed} {m : (proxy http).Move} {q : ℕ}
    {u : CallbackWrite} (hm : s.move m = some s') (h : (s'.locals q).updated = some u) :
    (s.locals q).updated = some u ∨ Wrote q u ⟨s.config, m, s'.config⟩ := by
  obtain ⟨heq, -⟩ | ⟨o, req, x, k, r, rfl, hp, hs, heq⟩ | ⟨-, heq⟩ := Observed.locals_cases hm q
  · rw [heq] at h
    exact .inl h
  · rw [heq] at h
    obtain hold | ⟨rfl, hr⟩ := Summary.updated_of_next h
    · exact .inl hold
    · obtain rfl := eq_of_heq hr
      refine .inr ⟨⟨o, Config.callOf_eq_some.mpr ⟨rfl, req, k, hp⟩⟩, fun t ht => ?_,
        fun hnone => ?_⟩
      · have hx := exec_of_perform_ok hs
        rw [ht] at hx
        obtain ⟨row, hrow, hid, hmatch, rfl, hσ⟩ := Backend.updateTask_some hx
        refine ⟨row, hrow, hid, hmatch, rfl, ?_⟩
        rw [hσ]
        refine Table.mem_update.mpr ⟨row, hrow, .inl ?_⟩
        rw [← hid]
        exact ⟨hmatch, rfl⟩
      · have hx := exec_of_perform_ok hs
        rw [hnone] at hx
        obtain ⟨-, hσ, hno⟩ | ⟨_, _, _, _, _, _, ht, _⟩ := Backend.updateTask_ok hx
        · refine ⟨congrArg Backend.tasks hσ, fun r hr hid => ?_⟩
          have := hno r hr
          rwa [← hid] at this
        · cases ht
  · rw [heq] at h
    cases h

variable {l : List (proxy http).Transition} {c : (proxy http).Config}

/-- Along every trace, what the functions know of their writes has happened. -/
theorem exists_wrote (h : Trace (initial http clock) l c) :
    ∃ γ, Runs (fun _ _ => True) (observed http clock) ⟨c, γ⟩ ∧
      ∀ p u, (γ p).updated = some u → ∃ x ∈ l, Wrote p u x := by
  refine exists_observed_trace (s := observed http clock)
    (I := fun l (s : (discipline http).Observed) =>
      ∀ p u, (s.locals p).updated = some u → ∃ x ∈ l, Wrote p u x) h
    (fun p u hp => by cases hp) ?_
  intro l s m s' _ _ hm ih p u hp
  obtain hold | hwrote := wrote_of_move hm hp
  · obtain ⟨x, hx, hwrote⟩ := ih p u hold
    exact ⟨x, List.mem_append_left _ hx, hwrote⟩
  · exact ⟨_, List.mem_append_right _ List.mem_cons_self, hwrote⟩

/-! ### Refused requests -/

/-- Only the guard's read changes what a function has found. -/
theorem Summary.found_next {w : Summary} {x : Await} (hx : ∀ id, x ≠ .findTask id) (r : Reply x) :
    (w.next x r).found = w.found := by
  cases r with
  | error e => cases x <;> first | rfl | exact absurd rfl (hx _)
  | ok v =>
    cases x with
    | findTask id => exact absurd rfl (hx id)
    | updateTask id write => cases write <;> rfl
    | txCancelTask id now => cases v <;> rfl
    | _ => rfl

/-- A result request that has tried to write has found its task `PROCESSING`. -/
def FoundProcessing (s : (discipline http).Observed) (p : ℕ) (req : Request) : Prop :=
  p < s.config.procs.length ∧ ∀ P, s.config.procs[p]? = some (.running req P) →
    ∃ t, (s.locals p).found = some t ∧ t.status = .processing

theorem FoundProcessing.of_move {s s' : (discipline http).Observed} {m : (proxy http).Move} {p : ℕ}
    {id : String} {authorization : Option String} {dto : SubmitResultDto} (hs : s.Obeys)
    (h : FoundProcessing s p (.result id authorization dto)) (hm : s.move m = some s') :
    FoundProcessing s' p (.result id authorization dto) := by
  have hmove := Observed.config_move hm
  refine ⟨h.1.trans_le (Config.procs_length_le_of_move hmove), fun P hP => ?_⟩
  obtain ⟨hold, hcrash, hcall⟩ | ⟨o, x, k, r, rfl, hold, hperform, -⟩ | ⟨-, hlen, -⟩ :=
    Config.running_of_move hmove hP
  · obtain ⟨heq, -⟩ | ⟨o, _, _, _, _, rfl, -⟩ | ⟨rfl, -⟩ := Observed.locals_cases hm p
    · rw [heq]
      exact h.2 P hold
    · exact absurd rfl (hcall o)
    · exact absurd rfl hcrash
  · obtain ⟨t, ht, hstatus⟩ := h.2 _ hold
    obtain ⟨-, hnone⟩ | ⟨o', req', x', k', r', hcall, hold', -, heq⟩ | ⟨hcrash, -⟩ :=
      Observed.locals_cases hm p
    · exact absurd (Config.callOf_eq_some.mpr ⟨rfl, _, k, hold⟩) (hnone o x)
    · cases hcall
      rw [hold] at hold'
      cases hold'
      have hawaits := hs.awaits hold
      refine ⟨t, ?_, hstatus⟩
      rw [heq]
      refine (Summary.found_next ?_ r').trans ht
      rintro i rfl
      have hunasked := hawaits.2 id authorization dto rfl
      rw [ht] at hunasked
      cases hunasked
    · cases hcrash
  · exact absurd hlen (Nat.ne_of_lt h.1)

/-- The request's own UPDATE: the guard has let it pass. -/
theorem FoundProcessing.of_update {s s' : (discipline http).Observed} {m : (proxy http).Move}
    {p : ℕ} {id : String} {authorization : Option String} {dto : SubmitResultDto} (hs : s.Obeys)
    (hm : s.move m = some s') {o : Oracle} {i : String} {w : TaskWrite}
    (hx : s.config.callOf m = some (p, o, .updateTask i w)) :
    FoundProcessing s' p (.result id authorization dto) := by
  obtain ⟨hcall, req, k, hp⟩ := Config.callOf_eq_some.mp hx
  obtain ⟨hlt, -⟩ := List.getElem?_eq_some_iff.mp hp
  have hmove := Observed.config_move hm
  refine ⟨hlt.trans_le (Config.procs_length_le_of_move hmove), fun P hP => ?_⟩
  obtain ⟨-, -, hne⟩ | ⟨o', x, k', r, -, hold, -, -⟩ | ⟨hspawn, -⟩ :=
    Config.running_of_move hmove hP
  · exact absurd hcall (hne o)
  · rw [hp] at hold
    cases hold
    have hawaits : (s.locals p).AwaitsWrite (.result id authorization dto) i w := (hs.awaits hp).2
    have hpassed : ∃ i authorization, (s.locals p).Passed i authorization := by
      cases w with
      | submitCompleted now result =>
        obtain ⟨-, a, -, hpassed⟩ := hawaits
        exact ⟨_, _, hpassed⟩
      | submitFailed now error =>
        obtain ⟨-, a, -, hpassed⟩ := hawaits
        exact ⟨_, _, hpassed⟩
      | dispatchClaim now timeoutSeconds => cases hawaits.1
      | dispatchFailure now error =>
        obtain ⟨_, _, heq, -⟩ := hawaits
        cases heq
      | dispatchRevert =>
        obtain ⟨_, _, heq, -⟩ := hawaits
        cases heq
      | progress n =>
        obtain ⟨-, _, _, heq, -⟩ := hawaits
        cases heq
      | cancel now => exact hawaits.elim
      | expire now => exact hawaits.elim
    obtain ⟨_, _, t, _, _, ht, -, hstatus, -⟩ := hpassed
    refine ⟨t, ?_, hstatus⟩
    obtain ⟨-, hnone⟩ | ⟨_, _, _, _, r', hcall', hold', -, heq⟩ | ⟨hcrash, -⟩ :=
      Observed.locals_cases hm p
    · exact absurd hx (hnone o _)
    · rw [hp] at hold'
      cases hold'
      rw [heq]
      exact (Summary.found_next (by simp) r').trans ht
    · rw [hcall] at hcrash
      cases hcrash
  · rw [hcall] at hspawn
    cases hspawn

/-- A request that is answered 409 has not tried to write. -/
theorem not_update_of_conflict (h : Trace (initial http clock) l c) {p : ℕ} {id : String}
    {authorization : Option String} {dto : SubmitResultDto} {message : String}
    (hret : c.Returned p (.result id authorization dto) (.error (.conflict message)))
    {x : (proxy http).Transition} (hx : x ∈ l) {o : Oracle} {i : String} {w : TaskWrite} :
    x.before.callOf x.move ≠ some (p, o, .updateTask i w) := by
  intro hcall
  obtain ⟨γ, hγ, hfound⟩ := exists_observed_trace (s := observed http clock)
    (I := fun l (s : (discipline http).Observed) =>
      (∃ x ∈ l, ∃ o i w, x.before.callOf x.move = some (p, o, .updateTask i w)) →
        FoundProcessing s p (.result id authorization dto)) h
    (fun ⟨_, hx, _⟩ => by cases hx) fun l s m s' _ hruns hm ih ⟨x, hx, o, i, w, hcall⟩ => by
      have hobeys := obeys_of_runs hruns
      rcases List.mem_append.mp hx with hx | hx
      · exact (ih ⟨x, hx, o, i, w, hcall⟩).of_move hobeys hm
      · obtain rfl := List.mem_singleton.mp hx
        exact .of_update hobeys hm hcall
  obtain ⟨-, hfound⟩ := hfound ⟨x, hx, o, i, w, hcall⟩
  obtain ⟨t, ht, hstatus⟩ := hfound _ hret
  obtain ⟨-, t', ht', hne⟩ : Summary.Returns (.result id authorization dto)
    (.error (.conflict message)) (γ p) := (obeys_of_runs hγ).returns hret
  rw [show (γ p).found = some t from ht] at ht'
  cases ht'
  exact hne hstatus

/-! ### The guard -/

/-- What `CallbackAuthGuard.canActivate` makes of the row that it has read. -/
def CallbackAuthGuard.judge (taskId token : String) : Option TaskSelect → Async TaskSelect
  | none => throw (.notFound "Task not found")
  | some task =>
    match task.callbackToken.filter (· ≠ "") with
    | none => throw (.unauthorized ("Task " ++ taskId ++ " has no callback token configured"))
    | some stored =>
      if !tokensMatch token stored then throw (.unauthorized "Invalid callback token")
      else if task.status ≠ .processing then
        throw (.conflict ("Task " ++ taskId ++ " is not in PROCESSING state (current: " ++
          task.status.text ++ ")"))
      else return task

theorem CallbackAuthGuard.canActivate_eq {taskId token : String} {authorization : Option String}
    (htoken : extractBearerToken authorization = some token) (hid : taskId ≠ "") :
    canActivate taskId authorization = call (.findTask taskId) >>= judge taskId token := by
  unfold canActivate
  rw [htoken]
  dsimp only
  rw [if_neg hid]
  refine bind_congr fun row => ?_
  cases row <;> rfl

theorem CallbackAuthGuard.canActivate_throws (taskId : String) (authorization : Option String)
    (h : extractBearerToken authorization = none ∨ taskId = "") :
    ∃ e, canActivate taskId authorization = throw e := by
  unfold canActivate
  split
  · exact ⟨_, rfl⟩
  · next token htoken =>
    obtain hnone | rfl := h
    · rw [hnone] at htoken
      cases htoken
    · exact ⟨_, if_pos rfl⟩

/-- The checks of the guard for a task that has a token. -/
theorem CallbackAuthGuard.judge_of_token {taskId token stored : String} {t : TaskSelect}
    (hstored : t.callbackToken = some stored) (hne : stored ≠ "") :
    judge taskId token (some t) =
      if !tokensMatch token stored then throw (.unauthorized "Invalid callback token")
      else if t.status ≠ .processing then
        throw (.conflict ("Task " ++ taskId ++ " is not in PROCESSING state (current: " ++
          t.status.text ++ ")"))
      else return t := by
  have hfilter : t.callbackToken.filter (· ≠ "") = some stored := by simp [hstored, hne]
  unfold judge
  dsimp only
  rw [hfilter]

theorem CallbackAuthGuard.judge_conflict {taskId token stored : String} {t : TaskSelect}
    (hstored : t.callbackToken = some stored) (hne : stored ≠ "")
    (hmatch : tokensMatch token stored = true) (hstatus : t.status ≠ .processing) :
    judge taskId token (some t) = throw (.conflict ("Task " ++ taskId ++
      " is not in PROCESSING state (current: " ++ t.status.text ++ ")")) := by
  rw [judge_of_token hstored hne, hmatch, if_neg (by decide), if_pos hstatus]

/-- The guard throws, or it lets the request pass with the row. -/
theorem CallbackAuthGuard.judge_cases (taskId token : String) (row : Option TaskSelect) :
    (∃ e, judge taskId token row = throw e) ∨
      ∃ t stored, row = some t ∧ t.callbackToken = some stored ∧ stored ≠ "" ∧
        tokensMatch token stored = true ∧ t.status = .processing ∧
        judge taskId token row = pure t := by
  cases row with
  | none => exact .inl ⟨_, rfl⟩
  | some t =>
    cases hstored : t.callbackToken.filter (· ≠ "") with
    | none =>
      refine .inl ⟨.unauthorized ("Task " ++ taskId ++ " has no callback token configured"), ?_⟩
      unfold judge
      dsimp only
      rw [hstored]
    | some stored =>
      obtain ⟨htoken, hne⟩ := Option.filter_eq_some_iff.mp hstored
      have hne : stored ≠ "" := by simpa using hne
      rw [judge_of_token htoken hne]
      by_cases hmatch : tokensMatch token stored = true
      · by_cases hstatus : t.status = .processing
        · exact .inr ⟨t, stored, rfl, htoken, hne, hmatch, hstatus, by simp [hmatch, hstatus]⟩
        · exact .inl ⟨_, by rw [hmatch, if_neg (by decide), if_pos hstatus]⟩
      · exact .inl ⟨_, by rw [Bool.eq_false_of_not_eq_true hmatch]; rfl⟩

/-- The rest of a result request, once the row was read. -/
def afterRead (taskId token : String) (dto : SubmitResultDto) (row : Option TaskSelect) :
    Async Response := do
  let task ← CallbackAuthGuard.judge taskId token row
  ExecutorService.submitResult task dto
  return .done

/-- A request that `CallbackAuthGuard` checks, and its handler. -/
structure Callback where
  taskId : String
  authorization : Option String
  handle : TaskSelect → Async Unit

/-- The callback that a request makes. -/
def Request.callback : Request → Option Callback
  | result id authorization dto =>
    some ⟨id, authorization, fun task => ExecutorService.submitResult task dto⟩
  | progress id authorization dto =>
    some ⟨id, authorization, fun task => ExecutorService.updateProgress task dto⟩
  | _ => none

/-- The rest of a callback request, once the row was read. -/
def Callback.afterRead (cb : Callback) (token : String) (row : Option TaskSelect) :
    Async Response := do
  let task ← CallbackAuthGuard.judge cb.taskId token row
  cb.handle task
  return .done

/-- The body of a callback request throws at once, or it reads the task and goes on. -/
theorem callback_body (http : HttpClient) (req : Request) {cb : Callback}
    (h : req.callback = some cb) :
    (∃ e, (req.run http).run = .ret (.error e)) ∨
    ∃ token, extractBearerToken cb.authorization = some token ∧
      (req.run http).run = (call (.findTask cb.taskId) >>= cb.afterRead token).run := by
  have hrun : req.run http = do
      let task ← CallbackAuthGuard.canActivate cb.taskId cb.authorization
      cb.handle task
      return .done := by
    cases req <;> cases h <;> rfl
  rw [hrun]
  cases htoken : extractBearerToken cb.authorization with
  | none =>
    obtain ⟨e, he⟩ := CallbackAuthGuard.canActivate_throws cb.taskId cb.authorization (.inl htoken)
    refine .inl ⟨e, ?_⟩
    rw [he]
    rfl
  | some token =>
    by_cases hid : cb.taskId = ""
    · obtain ⟨e, he⟩ := CallbackAuthGuard.canActivate_throws cb.taskId cb.authorization (.inr hid)
      refine .inl ⟨e, ?_⟩
      rw [he]
      rfl
    · refine .inr ⟨token, rfl, ?_⟩
      rw [CallbackAuthGuard.canActivate_eq htoken hid, bind_assoc (m := Async)]
      rfl

theorem result_body (http : HttpClient) (id : String) (authorization : Option String)
    (dto : SubmitResultDto) :
    (∃ e, ((Request.result id authorization dto).run http).run = .ret (.error e)) ∨
    ∃ token, extractBearerToken authorization = some token ∧
      ((Request.result id authorization dto).run http).run =
        (call (.findTask id) >>= afterRead id token dto).run :=
  callback_body http (.result id authorization dto) rfl

/-- The call is not a read of a task. -/
def Await.IsNoRead (x : Await) : Prop := ∀ id, x ≠ .findTask id

theorem afterRead_uses (taskId token : String) (dto : SubmitResultDto) (row : Option TaskSelect) :
    (afterRead taskId token dto row).run.Uses Await.IsNoRead := by
  have hcall : ∀ x : Await, x.IsNoRead → (call x).run.Uses Await.IsNoRead :=
    fun x hx => Uses.call hx
  refine uses_bind ?_ fun task => uses_bind ?_ fun _ => uses_pure _
  · obtain ⟨e, he⟩ | ⟨t, -, -, -, -, -, -, hpass⟩ := CallbackAuthGuard.judge_cases taskId token row
    · rw [he]
      exact uses_throw _
    · rw [hpass]
      exact uses_pure _
  · refine uses_bind (hcall _ (by simp [Await.IsNoRead])) fun now => ?_
    refine uses_bind (hcall _ (by simp [Await.IsNoRead])) fun row => ?_
    cases row with
    | none => exact uses_pure _
    | some task' =>
      refine uses_bind (uses_bind (uses_bind (hcall _ (by simp [Await.IsNoRead])) fun _ =>
        uses_bind (hcall _ (by simp [Await.IsNoRead])) fun _ => hcall _ (by simp [Await.IsNoRead]))
        fun event => uses_bind (hcall _ (by simp [Await.IsNoRead])) fun _ => uses_pure _)
        fun event => uses_bind (hcall _ (by simp [Await.IsNoRead])) fun _ => ?_
      split
      · exact hcall _ (by simp [Await.IsNoRead])
      · exact uses_pure _

/-- Behind its first call, a result request does not read the task again. -/
theorem eq_body_or_uses (h : Reaches (fun _ _ => True) (initial http clock) c) {p : ℕ} {id : String}
    {authorization : Option String} {dto : SubmitResultDto}
    {P : Prog Await Reply (Except JsError Response)}
    (hp : c.procs[p]? = some (.running (.result id authorization dto) P)) :
    P = ((Request.result id authorization dto).run http).run ∨ P.Uses Await.IsNoRead := by
  refine h.program_invariant (I := fun req P => ∀ id authorization dto,
    req = Request.result id authorization dto →
      P = (Request.run http req).run ∨ P.Uses Await.IsNoRead)
    (fun req _ _ _ _ => .inl rfl) ?_ hp id authorization dto rfl
  rintro _ x k r ih id authorization dto rfl
  refine .inr ?_
  obtain hbody | huses := ih id authorization dto rfl
  · obtain ⟨e, he⟩ | ⟨token, -, hread⟩ := result_body http id authorization dto
    · rw [he] at hbody
      cases hbody
    · rw [hread] at hbody
      cases hbody
      cases r with
      | ok row => exact afterRead_uses id token dto row
      | error e => trivial
  · exact huses.2 r

/-- **The guard answers 409.** A request whose token is that of the task is answered 409 when its
guard does not read the task as `PROCESSING`. -/
theorem conflict_of_read (h : Reaches (fun _ _ => True) (initial http clock) c)
    {c' : (proxy http).Config} {p : ℕ} {o : Oracle} {id i : String}
    {authorization : Option String} {dto : SubmitResultDto}
    {k : Reply (.findTask i) → Prog Await Reply (Except JsError Response)}
    (hp : c.procs[p]? = some (.running (.result id authorization dto) (.call (.findTask i) k)))
    (hm : c.move (.call p o) = some c') (ho : o.fault = .none) {t : TaskSelect}
    {token stored : String} (ht : c.store.findTask i = some t)
    (htoken : extractBearerToken authorization = some token)
    (hstored : t.callbackToken = some stored) (hne : stored ≠ "")
    (hmatch : tokensMatch token stored = true) (hstatus : t.status ≠ .processing) :
    c'.Returned p (.result id authorization dto) (.error (.conflict
      ("Task " ++ id ++ " is not in PROCESSING state (current: " ++ t.status.text ++ ")"))) := by
  have hmove := hm
  simp only [Config.move, hp, perform_of_no_fault ho, exec, ht, Option.map_some,
    Option.some.injEq] at hmove
  obtain ⟨hlt, -⟩ := List.getElem?_eq_some_iff.mp hp
  obtain hbody | huses := eq_body_or_uses h hp
  · obtain ⟨e, he⟩ | ⟨token', htoken', hread⟩ := result_body http id authorization dto
    · rw [he] at hbody
      cases hbody
    · rw [htoken] at htoken'
      cases htoken'
      rw [hread] at hbody
      cases hbody
      have hanswer : (afterRead id token dto (some t)).run = .ret (.error (.conflict
          ("Task " ++ id ++ " is not in PROCESSING state (current: " ++
            t.status.text ++ ")"))) := by
        unfold afterRead
        rw [CallbackAuthGuard.judge_conflict hstored hne hmatch hstatus]
        rfl
      rw [← hmove]
      simp only [Config.Returned, List.getElem?_set_self hlt]
      exact congrArg (fun P => some (Proc.running _ P)) hanswer
  · exact absurd rfl (huses.1 i)

/-! ### The answers -/

theorem Wrote.submits {p : ℕ} {id : String} {dto : SubmitResultDto} {now : Timestamp}
    {row : Option TaskSelect} {x : (proxy http).Transition}
    (h : Wrote p ⟨id, dto.write now, row⟩ x) : Submits p id dto x := by
  obtain ⟨o, hx⟩ := h.call
  exact ⟨o, now, hx⟩

/-- The UPDATE of a submission that returns a row is recorded. -/
theorem Wrote.records {p : ℕ} {id : String} {dto : SubmitResultDto} {now : Timestamp}
    {t : TaskSelect} {x : (proxy http).Transition} (h : Wrote p ⟨id, dto.write now, some t⟩ x) :
    Records p id dto x := by
  obtain ⟨r, hr, hid, hmatch, ht, hafter⟩ := h.found t rfl
  obtain rfl : t = (dto.write now).apply r := ht
  exact ⟨h.submits, ⟨r, hr, hid, SubmitResultDto.matches_write_iff.mp hmatch⟩, _, hafter, hid,
    dto.isOutcome_apply now r⟩

/-- The UPDATE of a submission is recorded or ignored. -/
theorem records_or_ignores {p : ℕ} {id : String} {dto : SubmitResultDto} {now : Timestamp}
    {row : Option TaskSelect} {x : (proxy http).Transition}
    (h : Wrote p ⟨id, dto.write now, row⟩ x) : Records p id dto x ∨ Ignores p id dto x := by
  cases row with
  | some t => exact .inl h.records
  | none =>
    obtain ⟨hafter, hno⟩ := h.missed rfl
    refine .inr ⟨h.submits, fun ⟨t, ht, hid, hs⟩ => ?_, hafter⟩
    have hmatch : (dto.write now).Matches t = true := SubmitResultDto.matches_write_iff.mpr hs
    rw [hno t ht hid] at hmatch
    cases hmatch

/-- A recorded submission stays the outcome of the task. -/
theorem Records.stays (h : Trace (initial http clock) l c) {p : ℕ} {id : String}
    {dto : SubmitResultDto} {x : (proxy http).Transition} (hx : x ∈ l) (hrec : Records p id dto x)
    {t : TaskSelect} (ht : t ∈ c.store.tasks) (hid : t.id = id) : dto.IsOutcome t := by
  obtain ⟨hbefore, hm, hafter⟩ := h.reaches_of_mem hx
  obtain ⟨t₀, ht₀, hid₀, hout⟩ := hrec.after
  exact hout.of_sameOutcome ((sameOutcome_of_reaches (hbefore.tail ⟨x.move, trivial, hm⟩) hafter ht₀
    (SubmitResultDto.isTerminal_of_isOutcome hout)).2 t ht (hid.trans hid₀.symm))

/-- **What the answers say.** A request that is answered 204 has made its UPDATE; either its
submission is the outcome of the task from then on, or the task was not `PROCESSING` any more and
the UPDATE has changed nothing. At most one submission is recorded for a task. A request that is
answered 409 has made no UPDATE, and one with the right token whose guard finds the task not
`PROCESSING` is answered 409. -/
theorem result_answered (http : HttpClient) (clock : Timestamp)
    (l : List (proxy http).Transition) (c : (proxy http).Config)
    (h : Trace (initial http clock) l c) (p : ℕ) (id : String) (authorization : Option String)
    (dto : SubmitResultDto) :
    (∀ response, c.Returned p (.result id authorization dto) (.ok response) →
      ((∃ x ∈ l, Records p id dto x) ∧ ∀ t ∈ c.store.tasks, t.id = id → dto.IsOutcome t) ∨
        ∃ x ∈ l, Ignores p id dto x) ∧
    (∀ l₁ x l₂ q dto', l = l₁ ++ x :: l₂ → Records p id dto x → ∀ y ∈ l₂, ¬ Records q id dto' y) ∧
    (∀ message, c.Returned p (.result id authorization dto) (.error (.conflict message)) →
      ∀ x ∈ l, ¬ Submits p id dto x) ∧
    ∀ x ∈ l, ∀ o k t token stored, x.move = .call p o →
      x.before.procs[p]? = some (.running (.result id authorization dto) (.call (.findTask id) k)) →
      o.fault = .none → x.before.store.findTask id = some t →
      extractBearerToken authorization = some token → t.callbackToken = some stored →
      stored ≠ "" → tokensMatch token stored = true → t.status ≠ .processing →
      x.after.Returned p (.result id authorization dto) (.error (.conflict
        ("Task " ++ id ++ " is not in PROCESSING state (current: " ++ t.status.text ++ ")"))) := by
  refine ⟨fun response hret => ?_, ?_, fun message hret x hx ⟨o, now, hcall⟩ =>
    not_update_of_conflict h hret hx hcall, ?_⟩
  · obtain ⟨γ, hγ, hwrote⟩ := exists_wrote h
    obtain ⟨-, t, now, row, -, hupdated, -⟩ : Summary.Returns (.result id authorization dto)
      (.ok response) (γ p) := (obeys_of_runs hγ).returns hret
    obtain ⟨x, hx, hw⟩ := hwrote p _ hupdated
    obtain hrec | hign := records_or_ignores hw
    · exact .inl ⟨⟨x, hx, hrec⟩, fun t ht hid => hrec.stays h hx ht hid⟩
    · exact .inr ⟨x, hx, hign⟩
  · rintro l₁ x l₂ q dto' rfl hrec y hy hrec'
    obtain ⟨m₁, m₂, rfl⟩ := List.append_of_mem hy
    obtain ⟨t, ht, hid, hs⟩ := hrec'.before
    have hsplit : l₁ ++ x :: (m₁ ++ y :: m₂) = (l₁ ++ x :: m₁) ++ y :: m₂ := by simp
    rw [hsplit] at h
    have hout := hrec.stays h.split.1 (List.mem_append_right _ List.mem_cons_self) ht hid
    have hterm := SubmitResultDto.isTerminal_of_isOutcome hout
    rw [hs] at hterm
    cases hterm
  · intro x hx o k t token stored hmove hp ho ht htoken hstored hne hmatch hstatus
    obtain ⟨hbefore, hm, -⟩ := h.reaches_of_mem hx
    rw [hmove] at hm
    exact conflict_of_read hbefore hp hm ho ht htoken hstored hne hmatch hstatus

/-! ### Example run -/

/-- Two results are submitted for one task: both requests pass the guard, then the first is recorded
and the second comes too late. -/
def twoResults : List (proxy httpRetryService).Move :=
  claimedTask ++ [.spawn (.result sampleId (some "Bearer secret") (.completed [])),
    .spawn (.result sampleId (some "Bearer secret") (.failed timeoutError)), .call 2 {}, .call 3 {},
    .call 2 { time := 2000 }, .call 2 {}, .call 2 {}, .call 2 {}, .call 2 {}, .call 2 {},
    .call 2 {}, .call 3 { time := 3000 }, .call 3 {}]

/-- The test whether a request that has submitted a failure of the task is answered 204. -/
def isAcknowledged (c : (proxy http).Config) (p : ℕ) (id : String) : Bool :=
  match c.procs[p]? with
  | some (.running (.result taskId _ (.failed _)) (.ret (.ok _))) => taskId == id
  | _ => false

theorem twoResults_trace :
    ∃ l c, Trace (initial httpRetryService 0) l c ∧
      (∃ t ∈ c.store.tasks, t.id = sampleId ∧ t.status = .completed) ∧
      ∃ authorization error response,
        c.Returned 3 (.result sampleId authorization (.failed error)) (.ok response) := by
  obtain ⟨l, c, h, hcheck⟩ := Config.exists_trace_of_check (c := initial httpRetryService 0)
    twoResults (fun _ c => isAcknowledged c 3 sampleId &&
      c.store.tasks.any fun t => t.id == sampleId && t.status == .completed) (by decide)
  simp only [Bool.and_eq_true, List.any_eq_true, beq_iff_eq] at hcheck
  obtain ⟨hret, t, ht, hid, hs⟩ := hcheck
  unfold isAcknowledged at hret
  split at hret
  · next id authorization error response hp =>
    obtain rfl : id = sampleId := beq_iff_eq.mp hret
    exact ⟨l, c, h, ⟨t, ht, hid, hs⟩, authorization, error, response, hp⟩
  · cases hret

/-- The second result is acknowledged and discarded. -/
theorem acknowledged_result_discarded :
    ¬ ∀ (http : HttpClient) (clock : Timestamp) (l : List (proxy http).Transition)
      (c : (proxy http).Config), Trace (initial http clock) l c →
      ∀ p id authorization dto response,
        c.Returned p (.result id authorization dto) (.ok response) →
        ∀ t ∈ c.store.tasks, t.id = id → dto.IsOutcome t := by
  intro h
  obtain ⟨l, c, htrace, ⟨t, ht, hid, hs⟩, authorization, error, response, hret⟩ := twoResults_trace
  have hout := h _ _ l c htrace 3 _ _ _ response hret t ht hid
  exact absurd (hs.symm.trans hout.1) (by decide)

/-- The UPDATE of the second result was ignored. -/
theorem second_result_ignored :
    ∃ l c, Trace (initial httpRetryService 0) l c ∧
      (∃ t ∈ c.store.tasks, t.id = sampleId ∧ t.status = .completed) ∧
      ∃ error, ∃ x ∈ l, Ignores 3 sampleId (.failed error) x := by
  obtain ⟨l, c, htrace, ⟨t, ht, hid, hs⟩, authorization, error, response, hret⟩ := twoResults_trace
  refine ⟨l, c, htrace, ⟨t, ht, hid, hs⟩, error, ?_⟩
  obtain ⟨-, hout⟩ | hign := (result_answered httpRetryService 0 l c htrace 3 sampleId
    authorization (.failed error)).1 response hret
  · exact absurd (hs.symm.trans (hout t ht hid).1) (by decide)
  · exact hign

end LongRequestProxy
