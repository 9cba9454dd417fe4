import LongRequestProxy.Executor.Answers

/-!
# Callback requests and the token of their task

`CallbackAuthGuard` reads the task that the path names, compares the token of the header with the
token of the task, and looks at the status last. So a request without the token changes nothing and
is answered the same way whatever has become of the task; a request with the token changes its own
task only, and only if the guard has read it as `PROCESSING`.

## Main definitions

* `HasToken`: the header carries the token of the task.
* `SameOthers`: the tables agree outside one task.
* `Admits`: the step with which the guard lets a request pass.
* `Blurred`: two rows that differ in what an outsider must not learn.

## Main results

* `tokensMatch_iff`: the comparison of the guard is equality.
* `callback_guarded`: what callback requests can change and what they reveal.
-/

namespace LongRequestProxy

open Async Service

variable {http : HttpClient} {clock : Timestamp} {id : String} {p : ℕ} {o : Oracle}
  {σ σ' : Backend} {x : Await} {req : Request} {cb : Callback}

/-! ### The comparison of tokens -/

theorem toByteArray_utf8Bytes (s : String) : (utf8Bytes s).toByteArray = s.toByteArray :=
  String.utf8Encode_toList

theorem utf8Bytes_injective : Function.Injective utf8Bytes := by
  intro s t h
  refine String.toByteArray_inj.mp ?_
  rw [← toByteArray_utf8Bytes, h, toByteArray_utf8Bytes]

/-- Buffers that are padded with zeros agree with their lengths exactly when they are equal. -/
theorem padded_eq_padded_iff {n : ℕ} {a b : List UInt8} :
    padded n a = padded n b ∧ a.length = b.length ↔ a = b := by
  constructor
  · rintro ⟨h, hlen⟩
    exact (List.append_inj h hlen).1
  · rintro rfl
    exact ⟨rfl, rfl⟩

/-- **The comparison is equality.** -/
theorem tokensMatch_iff {provided stored : String} :
    tokensMatch provided stored = true ↔ provided = stored := by
  have hbytes : tokensMatch provided stored = true ↔ utf8Bytes provided = utf8Bytes stored := by
    simp only [tokensMatch, Bool.and_eq_true, beq_iff_eq]
    exact padded_eq_padded_iff
  rw [hbytes]
  exact utf8Bytes_injective.eq_iff

/-- The header is `Bearer ` and a text that is, trimmed, the token of the task. -/
def HasToken (authorization : Option String) (t : TaskSelect) : Prop :=
  ∃ text stored, authorization = some ("Bearer " ++ text) ∧ t.callbackToken = some stored ∧
    stored ≠ "" ∧ String.ofList (jsTrim text.toList) = stored

theorem extractBearerToken_eq_some_iff {authorization : Option String} {token : String} :
    extractBearerToken authorization = some token ↔ token ≠ "" ∧
      ∃ text, authorization = some ("Bearer " ++ text) ∧
        String.ofList (jsTrim text.toList) = token := by
  have hlength : ∀ text : List Char,
      0 < (jsTrim text).length ↔ String.ofList (jsTrim text) ≠ "" := by
    intro text
    rw [List.length_pos_iff]
    refine not_congr ⟨fun h => by rw [h], fun h => ?_⟩
    simpa using congrArg String.toList h
  constructor
  · intro h
    obtain ⟨auth, rfl, hauth⟩ := Option.bind_eq_some_iff.mp h
    split at hauth
    · next hprefixed =>
      obtain ⟨rest, hrest⟩ := List.isPrefixOf_iff_prefix.mp hprefixed
      have hdrop : auth.toList.drop 7 = rest := by
        rw [← hrest]
        rfl
      dsimp only at hauth
      rw [hdrop] at hauth
      split at hauth
      · next hlen =>
        cases hauth
        refine ⟨(hlength rest).mp hlen, String.ofList rest, congrArg some ?_, ?_⟩
        · rw [← String.ofList_toList (s := auth), ← hrest, String.ofList_append]
          rfl
        · rw [String.toList_ofList]
      · cases hauth
    · cases hauth
  · rintro ⟨hne, text, rfl, rfl⟩
    have hprefixed : "Bearer ".toList.isPrefixOf ("Bearer " ++ text).toList = true := by
      rw [String.toList_append]
      exact List.isPrefixOf_iff_prefix.mpr (List.prefix_append _ _)
    have hdrop : ("Bearer " ++ text).toList.drop 7 = text.toList := by
      rw [String.toList_append]
      rfl
    simp only [extractBearerToken, Option.bind_some]
    rw [if_pos hprefixed, hdrop, if_pos ((hlength _).mpr hne)]

theorem hasToken_iff {authorization : Option String} {t : TaskSelect} :
    HasToken authorization t ↔ ∃ token, extractBearerToken authorization = some token ∧
      t.callbackToken = some token ∧ token ≠ "" := by
  constructor
  · rintro ⟨text, stored, rfl, hstored, hne, rfl⟩
    exact ⟨_, extractBearerToken_eq_some_iff.mpr ⟨hne, text, rfl, rfl⟩, hstored, hne⟩
  · rintro ⟨token, htoken, hstored, hne⟩
    obtain ⟨-, text, rfl, rfl⟩ := extractBearerToken_eq_some_iff.mp htoken
    exact ⟨text, _, rfl, hstored, hne, rfl⟩

/-! ### What a handler can change -/

/-- The calls of a handler. -/
def Await.IsOf (id : String) : Await → Prop
  | now | publish .. | enqueue _ | txCommit => True
  | updateTask i _ | txAdvisoryLock i | txNextSeq i => i = id
  | txInsertEvent _ input => input.taskId = id
  | _ => False

theorem insertEvent_uses {input : InsertEventInput} (h : input.taskId = id) :
    (EventsRepository.insertEvent input).run.Uses (Await.IsOf id) := by
  refine uses_bind (uses_bind (Uses.call h) fun _ => uses_bind (Uses.call h) fun _ =>
    Uses.call h) fun event => ?_
  exact uses_bind (Uses.call trivial) fun _ => uses_pure _

theorem submitResult_uses (task : TaskSelect) (dto : SubmitResultDto) :
    (ExecutorService.submitResult task dto).run.Uses (Await.IsOf task.id) := by
  refine uses_bind (Uses.call trivial) fun now => uses_bind (Uses.call rfl) fun row => ?_
  cases row with
  | none => exact uses_pure _
  | some row =>
    refine uses_bind (insertEvent_uses (by cases dto <;> rfl)) fun event =>
      uses_bind (Uses.call trivial) fun _ => ?_
    split
    · exact Uses.call trivial
    · exact uses_pure _

theorem updateProgress_uses (task : TaskSelect) (dto : UpdateProgressDto) :
    (ExecutorService.updateProgress task dto).run.Uses (Await.IsOf task.id) :=
  uses_bind (Uses.call rfl) fun _ => uses_bind (insertEvent_uses rfl) fun _ => Uses.call trivial

theorem handle_uses (h : req.callback = some cb) (task : TaskSelect) :
    (cb.handle task).run.Uses (Await.IsOf task.id) := by
  cases req <;> cases h
  · exact submitResult_uses task _
  · exact updateProgress_uses task _

/-- The transaction writes events of one task, and nothing else. -/
structure Tx.OnlyEventsOf (id : String) (t : Tx) : Prop where
  tasks : t.tasks = []
  deletedTasks : t.deletedTasks = []
  events : ∀ e ∈ t.events, e.taskId = id
  deletedEvents : t.deletedEvents = []

theorem Tx.OnlyEventsOf.empty (id : String) : Tx.OnlyEventsOf id {} :=
  ⟨rfl, rfl, fun _ he => (by cases he), rfl⟩

/-- The tables agree outside one task. -/
structure SameOthers (id : String) (σ σ' : Backend) : Prop where
  tasks : σ'.tasks.filter (·.id != id) = σ.tasks.filter (·.id != id)
  events : σ'.events.filter (·.taskId != id) = σ.events.filter (·.taskId != id)

theorem SameOthers.of_eq (ht : σ'.tasks = σ.tasks) (he : σ'.events = σ.events) :
    SameOthers id σ σ' :=
  ⟨by rw [ht], by rw [he]⟩

theorem SameOthers.commit (h : (σ.tx p).OnlyEventsOf id) : SameOthers id σ (σ.commit p) := by
  have htasks : (σ.commit p).tasks = σ.tasks := by
    have hnewest : (σ.tx p).newest = (fun r => r) := by
      funext r
      simp [Tx.newest, h.tasks]
    simp [Backend.commit, Backend.committedTasks, h.deletedTasks, hnewest]
  have hevents : (σ.commit p).events = σ.events ++ (σ.tx p).events := by
    simp [Backend.commit, Backend.committedEvents, Tx.deletesEvent, h.deletedEvents]
  refine ⟨by rw [htasks], ?_⟩
  have hnone : (σ.tx p).events.filter (·.taskId != id) = [] :=
    List.filter_eq_nil_iff.mpr fun e he => by simp [h.events e he]
  rw [hevents, List.filter_append, hnone, List.append_nil]

/-- A call of a handler leaves the other tasks alone. -/
theorem sameOthers_of_exec (hx : x.IsOf id) (h : (σ.tx p).OnlyEventsOf id) {v : x.Val}
    (hexec : exec p o σ x = some (.ok (v, σ'))) :
    SameOthers id σ σ' ∧ (σ'.tx p).OnlyEventsOf id := by
  cases x with
  | updateTask i w =>
    obtain rfl : i = id := hx
    obtain ⟨-, rfl, -⟩ | ⟨-, -, -, -, -, -, -, rfl⟩ := Backend.updateTask_ok hexec
    · exact ⟨.of_eq rfl rfl, h⟩
    · refine ⟨⟨Table.filter_update fun r hr => ?_, rfl⟩, h⟩
      obtain ⟨hid, -⟩ := TaskWrite.of_where hr
      exact ⟨by simp [hid], by simp [TaskPatch.apply, hid]⟩
  | txAdvisoryLock i =>
    obtain ⟨-, rfl⟩ := Backend.txAdvisoryLock_ok hexec
    refine ⟨.of_eq rfl rfl, ?_⟩
    rw [Backend.tx_setTx_self]
    exact ⟨h.tasks, h.deletedTasks, h.events, h.deletedEvents⟩
  | txInsertEvent seq input =>
    obtain ⟨heq, hinsert⟩ := exec_txInsertEvent_ok hexec
    obtain ⟨-, -, rfl⟩ := Backend.txInsertEvents_ok hinsert
    refine ⟨.of_eq rfl rfl, ?_⟩
    rw [Backend.tx_setTx_self]
    refine ⟨h.tasks, h.deletedTasks, fun e he => ?_, h.deletedEvents⟩
    rcases List.mem_append.mp he with he | he
    · exact h.events e he
    · obtain rfl := List.mem_singleton.mp he
      rw [heq]
      exact hx
  | txCommit =>
    cases hexec
    refine ⟨.commit h, ?_⟩
    rw [Backend.tx_commit_self]
    exact .empty id
  | now | publish _ _ | enqueue _ | txNextSeq _ =>
    cases hexec
    exact ⟨.of_eq rfl rfl, h⟩
  | _ => exact hx.elim

theorem sameOthers_of_perform (hx : x.IsOf id) (h : (σ.tx p).OnlyEventsOf id) {r : Reply x}
    (hs : perform p o σ x = some (r, σ')) :
    SameOthers id σ σ' ∧ (σ'.tx p).OnlyEventsOf id := by
  have hempty : ∀ τ : Backend, ((τ.rollback p).tx p).OnlyEventsOf id := fun τ => by
    rw [Backend.tx_rollback_self]
    exact .empty id
  obtain ⟨e, -, rfl, -⟩ | ⟨v, -, hexec, -⟩ | ⟨v, τ, -, hexec, -, rfl⟩ := perform_cases hs
  · exact ⟨.of_eq rfl rfl, hempty σ⟩
  · exact sameOthers_of_exec hx h hexec
  · obtain ⟨hsame, -⟩ := sameOthers_of_exec hx h hexec
    exact ⟨⟨hsame.tasks, hsame.events⟩, hempty τ⟩

/-! ### Admission -/

/-- With this step the guard of program `p` reads the task as `PROCESSING`, and the header carries
the token of the task. -/
structure Admits (p : ℕ) (cb : Callback) (x : (proxy http).Transition) : Prop where
  reads : ∃ o, x.before.callOf x.move = some (p, o, .findTask cb.taskId)
  found : ∃ t ∈ x.before.store.tasks, t.id = cb.taskId ∧ t.status = .processing ∧
    HasToken cb.authorization t

/-- What program `p` still has to do for a callback request. -/
inductive CallbackStage (http : HttpClient) (req : Request) (cb : Callback) (p : ℕ)
    (l : List (proxy http).Transition) : Prog Await Reply (Except JsError Response) → Prop
  | started : CallbackStage http req cb p l (req.run http).run
  | admitted {P : Prog Await Reply (Except JsError Response)} (h : ∃ x ∈ l, Admits p cb x)
      (hP : P.Uses (Await.IsOf cb.taskId)) : CallbackStage http req cb p l P
  | answered (a : Except JsError Response) : CallbackStage http req cb p l (.ret a)

variable {l : List (proxy http).Transition} {c c' c₀ : (proxy http).Config}
  {m : (proxy http).Move}

theorem CallbackStage.append {P : Prog Await Reply (Except JsError Response)}
    (h : CallbackStage http req cb p l P) (l' : List (proxy http).Transition) :
    CallbackStage http req cb p (l ++ l') P := by
  cases h with
  | started => exact .started
  | admitted h hP =>
    obtain ⟨x, hx, hadmits⟩ := h
    exact .admitted ⟨x, List.mem_append_left _ hx, hadmits⟩ hP
  | answered a => exact .answered a

/-- Program `p` serves the request and follows its stages. -/
structure Guarded (req : Request) (cb : Callback) (p : ℕ) (l : List (proxy http).Transition)
    (c : (proxy http).Config) : Prop where
  lt : p < c.procs.length
  tx : (c.store.tx p).OnlyEventsOf cb.taskId
  stage : ∀ req' P, c.procs[p]? = some (.running req' P) →
    req' = req ∧ CallbackStage http req cb p l P

/-- The read of the guard writes nothing. -/
theorem perform_findTask {r : Reply (.findTask id)}
    (hs : perform p o σ (.findTask id) = some (r, σ')) :
    r = .ok (σ.findTask id) ∧ σ' = σ ∨ (∃ e, r = .error e) ∧ σ' = σ.rollback p := by
  obtain ⟨e, rfl, rfl, -⟩ | ⟨v, rfl, hx, -⟩ | ⟨v, τ, rfl, hx, -, rfl⟩ := perform_cases hs
  · exact .inr ⟨⟨e, rfl⟩, rfl⟩
  · cases hx
    exact .inl ⟨rfl, rfl⟩
  · cases hx
    exact .inr ⟨⟨_, rfl⟩, rfl⟩

theorem afterRead_throws {token : String} {row : Option TaskSelect} {e : JsError}
    (h : CallbackAuthGuard.judge cb.taskId token row = throw e) :
    (cb.afterRead token row).run = .ret (.error e) := by
  unfold Callback.afterRead
  rw [h]
  rfl

/-- Once the row was read, the request throws, or the guard lets it pass. -/
theorem afterRead_cases (hreq : req.callback = some cb) {token : String}
    (htoken : extractBearerToken cb.authorization = some token)
    (hrow : σ.findTask cb.taskId = row) :
    (∃ e, (cb.afterRead token row).run = .ret (.error e)) ∨
      (∃ t ∈ σ.tasks, t.id = cb.taskId ∧ t.status = .processing ∧ HasToken cb.authorization t) ∧
        (cb.afterRead token row).run.Uses (Await.IsOf cb.taskId) := by
  obtain ⟨e, he⟩ | ⟨t, stored, rfl, hstored, hne, hmatch, hstatus, hpass⟩ :=
    CallbackAuthGuard.judge_cases cb.taskId token row
  · exact .inl ⟨e, afterRead_throws he⟩
  · obtain rfl := tokensMatch_iff.mp hmatch
    have hid : t.id = cb.taskId := by simpa using List.find?_some hrow
    refine .inr ⟨⟨t, List.mem_of_find?_eq_some hrow, hid, hstatus,
      hasToken_iff.mpr ⟨token, htoken, hstored, hne⟩⟩, ?_⟩
    unfold Callback.afterRead
    rw [hpass, pure_bind, ← hid]
    exact uses_bind (handle_uses hreq t) fun _ => uses_pure _

/-- A step of the program leaves the tables as they are, or the guard has let it pass and the
step touches its own task only. -/
def Touches (cb : Callback) (p : ℕ) (l : List (proxy http).Transition)
    (x : (proxy http).Transition) : Prop :=
  (x.after.store.tasks = x.before.store.tasks ∧ x.after.store.events = x.before.store.events) ∨
    (∃ y ∈ l, Admits p cb y) ∧ SameOthers cb.taskId x.before.store x.after.store

theorem Guarded.call (hreq : req.callback = some cb) (h : Guarded req cb p l c)
    (hm : c.move (.call p o) = some c') :
    Touches cb p l ⟨c, .call p o, c'⟩ ∧ Guarded req cb p (l ++ [⟨c, .call p o, c'⟩]) c' := by
  obtain ⟨_, hspawn, -⟩ | ⟨q, o', req', x, k, r, σ', hcall, hp, hs, rfl⟩ | ⟨_, _, _, _, hcrash, -⟩ |
    ⟨_, _, hambient, -⟩ := Config.move_cases hm
  · cases hspawn
  · cases hcall
    obtain ⟨rfl, hstage⟩ := h.stage req' _ hp
    have hafter : ∀ P, (c.procs.set p (.running req' P))[p]? = some (.running req' P) :=
      fun P => List.getElem?_set_self h.lt
    generalize hP : Prog.call x k = P at hstage
    cases hstage with
    | started =>
      obtain ⟨e, he⟩ | ⟨token, htoken, hbody⟩ := callback_body http _ hreq
      · rw [he] at hP
        cases hP
      · rw [hbody] at hP
        cases hP
        have hread : c.callOf (.call p o) = some (p, o, .findTask cb.taskId) :=
          Config.callOf_eq_some.mpr ⟨rfl, _, _, hp⟩
        obtain ⟨rfl, rfl⟩ | ⟨⟨e, rfl⟩, rfl⟩ := perform_findTask hs
        · refine ⟨.inl ⟨rfl, rfl⟩, by simpa using h.lt, h.tx, fun req'' P hp' => ?_⟩
          rw [hafter] at hp'
          cases hp'
          refine ⟨rfl, ?_⟩
          obtain ⟨e, he⟩ | ⟨hfound, huses⟩ := afterRead_cases hreq htoken (σ := c.store) rfl
          · exact cast (congrArg _ he.symm) (CallbackStage.answered _)
          · exact .admitted
              ⟨_, List.mem_append_right _ List.mem_cons_self, ⟨o, hread⟩, hfound⟩ huses
        · refine ⟨.inl ⟨rfl, rfl⟩, by simpa using h.lt, ?_, fun req'' P hp' => ?_⟩
          · rw [Backend.tx_rollback_self]
            exact .empty _
          · rw [hafter] at hp'
            cases hp'
            exact ⟨rfl, .answered _⟩
    | admitted hadmits huses =>
      subst hP
      obtain ⟨hsame, htx⟩ := sameOthers_of_perform huses.1 h.tx hs
      refine ⟨.inr ⟨hadmits, hsame⟩, by simpa using h.lt, htx, fun req'' P hp' => ?_⟩
      rw [hafter] at hp'
      cases hp'
      exact ⟨rfl, (CallbackStage.admitted hadmits (huses.2 r)).append _⟩
    | answered a => cases hP
  · cases hcrash
  · cases hambient

theorem Guarded.crash (h : Guarded req cb p l c) (hm : c.move (.crash p) = some c') :
    Touches cb p l ⟨c, .crash p, c'⟩ ∧ Guarded req cb p (l ++ [⟨c, .crash p, c'⟩]) c' := by
  obtain ⟨_, hspawn, -⟩ | ⟨_, _, _, _, _, _, _, hcall, -⟩ | ⟨q, req', x, k, hcrash, -, rfl⟩ |
    ⟨_, _, hambient, -⟩ := Config.move_cases hm
  · cases hspawn
  · cases hcall
  · cases hcrash
    refine ⟨.inl ⟨rfl, rfl⟩, by simpa using h.lt, ?_, fun req'' P hp => ?_⟩
    · change ((c.store.rollback p).tx p).OnlyEventsOf cb.taskId
      rw [Backend.tx_rollback_self]
      exact .empty _
    · rw [List.getElem?_set_self h.lt] at hp
      cases hp
  · cases hambient

theorem Guarded.of_other (h : Guarded req cb p l c) (hm : c.move m = some c')
    (hcall : ∀ o, m ≠ .call p o) (hcrash : m ≠ .crash p) :
    Guarded req cb p (l ++ [⟨c, m, c'⟩]) c' := by
  refine ⟨h.lt.trans_le (Config.procs_length_le_of_move hm), ?_, fun req' P hp => ?_⟩
  · rw [tx_of_move_of_ne hm hcall hcrash]
    exact h.tx
  · obtain ⟨hold, -⟩ | ⟨o, _, _, _, rfl, -⟩ | ⟨-, hlen, -⟩ := Config.running_of_move hm hp
    · obtain ⟨hreq, hstage⟩ := h.stage req' P hold
      exact ⟨hreq, hstage.append _⟩
    · exact absurd rfl (hcall o)
    · exact absurd hlen (Nat.ne_of_lt h.lt)

/-- A callback request is guarded all the time, whatever the others do. -/
theorem Guarded.of_trace (hreq : req.callback = some cb)
    (hp : c₀.procs[p]? = some (.running req (req.run http).run)) (htx : c₀.store.tx p = {})
    (h : Trace c₀ l c) : Guarded req cb p l c := by
  refine h.invariant ⟨(List.getElem?_eq_some_iff.mp hp).1, ?_, fun req' P hp' => ?_⟩ ?_
  · rw [htx]
    exact .empty _
  · rw [hp] at hp'
    cases hp'
    exact ⟨rfl, .started⟩
  · intro l c m c' _ hm hguarded
    by_cases hcrash : m = .crash p
    · subst hcrash
      exact (hguarded.crash hm).2
    by_cases hcall : ∃ o, m = .call p o
    · obtain ⟨o, rfl⟩ := hcall
      exact (hguarded.call hreq hm).2
    · exact hguarded.of_other hm (fun o heq => hcall ⟨o, heq⟩) hcrash

/-! ### What is revealed -/

/-- The row `t'` differs from `t` only if it is the row of the task, and then in its status, result,
error, progress and timestamps only. -/
def Blurred (id : String) (t t' : TaskSelect) : Prop :=
  t' = { t with
    status := t'.status
    result := t'.result
    error := t'.error
    progress := t'.progress
    processingStartedAt := t'.processingStartedAt
    expiresAt := t'.expiresAt
    completedAt := t'.completedAt
    createdAt := t'.createdAt } ∧ (t.id ≠ id → t' = t)

theorem Blurred.same_id {t t' : TaskSelect} (h : Blurred id t t') : t'.id = t.id := by
  rw [h.1]

theorem Blurred.same_callbackToken {t t' : TaskSelect} (h : Blurred id t t') :
    t'.callbackToken = t.callbackToken := by
  rw [h.1]

/-- The SELECT of the guard finds rows that differ in the same way. -/
theorem rel_find_of_blurred {T T' : List TaskSelect} (h : List.Forall₂ (Blurred id) T T')
    (i : String) :
    Option.Rel (Blurred id) (T.find? fun r => r.id == i) (T'.find? fun r => r.id == i) := by
  induction h with
  | nil => exact .none
  | @cons t t' T T' ht _ ih =>
    rw [List.find?_cons, List.find?_cons, ht.same_id]
    cases t.id == i with
    | true => exact .some ht
    | false => exact ih

/-- Without the token, the guard throws the same error for both rows. -/
theorem judge_eq_of_blurred {token : String} {row row' : Option TaskSelect}
    (h : Option.Rel (Blurred id) row row')
    (hno : ∀ t stored, row = some t → t.callbackToken = some stored → stored ≠ "" →
      token ≠ stored) (taskId : String) :
    ∃ e, CallbackAuthGuard.judge taskId token row = throw e ∧
      CallbackAuthGuard.judge taskId token row' = throw e := by
  cases h with
  | none => exact ⟨_, rfl, rfl⟩
  | @some t t' ht =>
    cases hstored : t.callbackToken.filter (· ≠ "") with
    | none =>
      refine ⟨.unauthorized ("Task " ++ taskId ++ " has no callback token configured"), ?_, ?_⟩
      · unfold CallbackAuthGuard.judge
        dsimp only
        rw [hstored]
      · unfold CallbackAuthGuard.judge
        dsimp only
        rw [ht.same_callbackToken, hstored]
    | some stored =>
      obtain ⟨htoken, hne⟩ := Option.filter_eq_some_iff.mp hstored
      have hne : stored ≠ "" := by simpa using hne
      have hmatch : tokensMatch token stored = false :=
        Bool.eq_false_of_not_eq_true fun heq => hno t stored rfl htoken hne (tokensMatch_iff.mp heq)
      refine ⟨.unauthorized "Invalid callback token", ?_, ?_⟩
      · rw [CallbackAuthGuard.judge_of_token htoken hne, hmatch]
        rfl
      · rw [CallbackAuthGuard.judge_of_token (ht.same_callbackToken.trans htoken) hne, hmatch]
        rfl

/-- A request alone: its calls are answered by the store, and by the oracle that `o` gives for
each of them. -/
def aloneWith (p : ℕ) (o : Await → Oracle) (σ : Backend) (x : Await) : Option (Reply x × Backend) :=
  perform p (o x) σ x

/-- A program without a transaction has nothing to abort. -/
theorem rollback_eq_self (h : σ.txs.lookup p = none) : σ.rollback p = σ := by
  have hkeys : p ∉ σ.txs.keys := AList.lookup_eq_none.mp h
  have herase : σ.txs.erase p = σ.txs := AList.ext (List.kerase_of_notMem_keys hkeys)
  rw [Backend.rollback, herase]

/-- The read of the guard leaves the store of a request without a transaction as it is, and the
reply depends on the row found and on the oracle. -/
theorem perform_findTask_eq (h : σ.txs.lookup p = none) :
    perform p o σ (.findTask id) =
      some (if o.fault = .none then .ok (σ.findTask id) else .error .unavailable, σ) := by
  have hrollback := rollback_eq_self h
  unfold perform
  simp only [Await.isRemote, if_true, exec]
  cases o.fault <;> simp [hrollback]

/-- **Nothing is revealed.** A request without the token is answered the same way in stores that
differ in what becomes of the task, and leaves them as they are. -/
theorem answer_eq_of_blurred (http : HttpClient) (hreq : req.callback = some cb)
    {T' : List TaskSelect} (hT : List.Forall₂ (Blurred cb.taskId) σ.tasks T')
    (htx : σ.txs.lookup p = none)
    (hno : ∀ t ∈ σ.tasks, t.id = cb.taskId → ¬ HasToken cb.authorization t)
    (oracle : Await → Oracle) :
    ∃ a, (req.run http).run.runAlone (aloneWith p oracle) σ = some (a, σ) ∧
      (req.run http).run.runAlone (aloneWith p oracle) { σ with tasks := T' } =
        some (a, { σ with tasks := T' }) := by
  obtain ⟨e, he⟩ | ⟨token, htoken, hbody⟩ := callback_body http _ hreq
  · rw [he]
    exact ⟨.error e, rfl, rfl⟩
  · have hrel := rel_find_of_blurred hT cb.taskId
    have hwrong : ∀ t stored, σ.findTask cb.taskId = some t → t.callbackToken = some stored →
        stored ≠ "" → token ≠ stored := by
      rintro t stored ht hstored hne rfl
      refine hno t (List.mem_of_find?_eq_some ht) (by simpa using List.find?_some ht) ?_
      exact hasToken_iff.mpr ⟨token, htoken, hstored, hne⟩
    obtain ⟨e, hjudge, hjudge'⟩ := judge_eq_of_blurred hrel hwrong cb.taskId
    have hrun : ∀ τ : Backend, τ.txs.lookup p = none →
        CallbackAuthGuard.judge cb.taskId token (τ.findTask cb.taskId) = throw e →
        (req.run http).run.runAlone (aloneWith p oracle) τ =
          some (if (oracle (.findTask cb.taskId)).fault = .none then .error e
            else .error .unavailable, τ) := by
      intro τ hτ hthrow
      rw [hbody, Prog.runAlone_bindExcept, call_runAlone, aloneWith, perform_findTask_eq hτ]
      split
      · change (cb.afterRead token (τ.findTask cb.taskId)).run.runAlone _ τ = _
        rw [afterRead_throws hthrow]
        rfl
      · rfl
    exact ⟨_, hrun σ htx hjudge, hrun { σ with tasks := T' } htx hjudge'⟩

/-- **Callback requests are guarded.** The comparison of the guard is equality, whatever the
buffers. A step of a callback request that changes a row or an event comes after the guard has read
the task as `PROCESSING` with the token of the header, and leaves the other tasks alone. And a
request without the token has the same answer in any two stores that differ in what becomes of the
task, and changes neither. -/
theorem callback_guarded (http : HttpClient) (req : Request) (cb : Callback)
    (hreq : req.callback = some cb) :
    (∀ a b : List UInt8, padded (max a.length b.length) a = padded (max a.length b.length) b ∧
      a.length = b.length ↔ a = b) ∧
    (∀ provided stored : String, tokensMatch provided stored = true ↔ provided = stored) ∧
    (∀ (p : ℕ) (c₀ : (proxy http).Config),
      c₀.procs[p]? = some (.running req (req.run http).run) → c₀.store.tx p = {} →
      ∀ (l : List (proxy http).Transition) (c : (proxy http).Config), Trace c₀ l c →
      ∀ (l₁ l₂ : List (proxy http).Transition) (x : (proxy http).Transition), l = l₁ ++ x :: l₂ →
        (x.move = .crash p ∨ ∃ o, x.move = .call p o) →
        (x.after.store.tasks ≠ x.before.store.tasks ∨
          x.after.store.events ≠ x.before.store.events) →
        (∃ y ∈ l₁, Admits p cb y) ∧ SameOthers cb.taskId x.before.store x.after.store) ∧
    ∀ (p : ℕ) (σ : Backend) (T' : List TaskSelect), List.Forall₂ (Blurred cb.taskId) σ.tasks T' →
      σ.txs.lookup p = none →
      (∀ t ∈ σ.tasks, t.id = cb.taskId → ¬ HasToken cb.authorization t) →
      ∀ oracle : Await → Oracle,
        ∃ a, (req.run http).run.runAlone (aloneWith p oracle) σ = some (a, σ) ∧
          (req.run http).run.runAlone (aloneWith p oracle) { σ with tasks := T' } =
            some (a, { σ with tasks := T' }) := by
  refine ⟨fun a b => padded_eq_padded_iff, fun provided stored => tokensMatch_iff, ?_,
    fun p σ T' hT htx hno oracle => answer_eq_of_blurred http hreq hT htx hno oracle⟩
  rintro p c₀ hp htx l c h l₁ l₂ ⟨d, m, d'⟩ rfl hmove hchange
  obtain ⟨hbefore, hm, -⟩ := h.split
  have hguarded := Guarded.of_trace hreq hp htx hbefore
  have htouches : Touches cb p l₁ ⟨d, m, d'⟩ := by
    obtain rfl | ⟨o, rfl⟩ := hmove
    · exact (hguarded.crash hm).1
    · exact (hguarded.call hreq hm).1
  obtain ⟨htasks, hevents⟩ | hown := htouches
  · obtain hne | hne := hchange
    · exact absurd htasks hne
    · exact absurd hevents hne
  · exact hown

/-! ### Example -/

/-- A task that its executor works on. -/
def guardedRow : TaskSelect := (TaskWrite.dispatchClaim 5 300).apply overdueRow

/-- The same task, completed. -/
def completedRow : TaskSelect := (TaskWrite.submitCompleted 8 []).apply guardedRow

/-- A store with the task, and a progress request that has just arrived. -/
def progressArrived : (proxy httpRetryService).Config :=
  let req : Request := .progress "id" (some "Bearer token") sampleProgress
  ⟨{ tasks := [guardedRow] }, [.running req (req.run httpRetryService).run]⟩

/-- The request with the token was admitted before it changed the row; one with another token does
not learn that the task is completed. -/
theorem progress_admitted :
    (∃ l c, Trace progressArrived l c ∧ ∃ l₁ x, l = l₁ ++ [x] ∧
      x.after.store.tasks ≠ x.before.store.tasks ∧
      ∃ y ∈ l₁, Admits 0 ⟨"id", some "Bearer token", fun task =>
        ExecutorService.updateProgress task sampleProgress⟩ y) ∧
    ∃ a, ((Request.progress "id" (some "Bearer other") sampleProgress).run
        httpRetryService).run.runAlone (aloneWith 0 fun _ => {}) { tasks := [guardedRow] } =
          some (a, { tasks := [guardedRow] }) ∧
      ((Request.progress "id" (some "Bearer other") sampleProgress).run
        httpRetryService).run.runAlone (aloneWith 0 fun _ => {}) { tasks := [completedRow] } =
          some (a, { tasks := [completedRow] }) := by
  constructor
  · obtain ⟨l, c, h, hcheck⟩ := Config.exists_trace_of_check (c := progressArrived)
      [.call 0 {}, .call 0 {}] (fun l _ => (lastTwo l).any fun x =>
        x.2.calls (fun _ => true) 0 && x.2.before.store.tasks.any (·.progress == 0) &&
          x.2.after.store.tasks.all (·.progress == 50)) (by decide)
    obtain ⟨⟨x, y⟩, hl, hcheck⟩ := (Option.any_eq_true _ _).mp hcheck
    simp only [Bool.and_eq_true, List.any_eq_true, List.all_eq_true, beq_iff_eq] at hcheck
    obtain ⟨⟨hcalls, t, ht, hbefore⟩, hafter⟩ := hcheck
    obtain ⟨o, _, hcall, -⟩ := Transition.calls_eq_true.mp hcalls
    obtain ⟨l₁, rfl⟩ := lastTwo_eq_some hl
    have hne : y.after.store.tasks ≠ y.before.store.tasks := fun heq => by
      have := hafter t (heq ▸ ht)
      omega
    refine ⟨_, c, h, l₁ ++ [x], y, by simp, hne, ?_⟩
    exact ((callback_guarded httpRetryService
      (.progress "id" (some "Bearer token") sampleProgress) _ rfl).2.2.1 0 progressArrived rfl rfl _
      c h (l₁ ++ [x]) [] y (by simp) (.inr ⟨o, (Config.callOf_eq_some.mp hcall).1⟩) (.inl hne)).1
  · refine (callback_guarded httpRetryService
      (.progress "id" (some "Bearer other") sampleProgress) _ rfl).2.2.2 0 { tasks := [guardedRow] }
      [completedRow] (.cons ⟨rfl, fun h => absurd rfl h⟩ .nil) rfl (fun t ht _ hhas => ?_) _
    rw [List.mem_singleton.mp ht] at hhas
    obtain ⟨token, htoken, hstored, -⟩ := hasToken_iff.mp hhas
    exact absurd (htoken.trans hstored.symm) (by decide)

end LongRequestProxy
