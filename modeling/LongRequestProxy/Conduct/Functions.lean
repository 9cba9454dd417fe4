import LongRequestProxy.Conduct.Summary
import LongRequestProxy.Store.PlainCalls

/-!
# The functions of the program obey the discipline

Function by function, with no server in sight: what each function may await follows from what it
has been told.

## Main results

* `follows_insertEventInTx`, `follows_canActivate`, …: one lemma for each function.
* `discipline_sound`: every request starts a program that obeys the discipline.
-/

namespace LongRequestProxy

open Async Discipline

variable {http : HttpClient} {req : Request} {α β : Type} {w : Summary}
  {Q : α → Summary → Prop} {E : JsError → Summary → Prop}

/-- A function that obeys the discipline when it is started with the summary `w`; it returns with
`Q` or throws with `E`. -/
abbrev Follows (http : HttpClient) (req : Request) (Q : α → Summary → Prop)
    (E : JsError → Summary → Prop) (P : Async α) (w : Summary) : Prop :=
  (discipline http).followsExcept req Q E P w

/-! ### Calls -/

/-- The reply tells the function something that the summary records outside the transaction. -/
def Await.isTold : Await → Bool
  | findTask _ | insertTask .. | deleteTask _ | updateTask .. | selectOldTasks .. | publish .. =>
    true
  | _ => false

namespace Summary

theorem settled_start : Summary.Settled {} := ⟨rfl, rfl⟩

theorem settled_afterError (w : Summary) (c : Await) : (w.afterError c).Settled := ⟨rfl, rfl⟩

/-- A function may always let an error of a server through. -/
theorem returns_of_isServerError {e : JsError} (he : e.IsServerError) (hw : w.Settled) :
    w.Returns req (.error e) := by
  refine ⟨hw, ?_⟩
  cases e with
  | conflict message => exact absurd he id
  | _ => cases req <;> trivial

/-- Without an open transaction an error of these calls changes nothing. -/
theorem afterError_eq_self (hw : w.Settled) {c : Await} (hc : c.isTold = false) :
    w.afterError c = w := by
  obtain ⟨htx, hdue⟩ := hw
  obtain ⟨_, _, _, _, _, tx, due, _, _⟩ := w
  obtain rfl : tx = {} := htx
  obtain rfl : due = [] := hdue
  cases c <;> first | rfl | cases hc

end Summary

/-- **Rule for calls.** -/
theorem follows_call {c : Await} {Q : c.Val → Summary → Prop} (hc : w.Awaits req c)
    (hok : ∀ v, c.PossibleValue v → Q v (w.afterValue c v))
    (herr : ∀ e, e.IsServerError → E e (w.afterError c)) : Follows http req Q E (call c) w := by
  refine ⟨hc, fun r hr => ?_⟩
  cases r with
  | ok v => exact hok v hr
  | error e => exact herr e hr

/-- A call whose errors are let through. -/
theorem follows_call_through {c : Await} {Q : c.Val → Summary → Prop} (hc : w.Awaits req c)
    (hok : ∀ v, c.PossibleValue v → Q v (w.afterValue c v)) :
    Follows http req Q (fun e w' => w'.Returns req (.error e)) (call c) w :=
  follows_call hc hok fun _ he => Summary.returns_of_isServerError he (w.settled_afterError c)

/-- The calls of which the summary records nothing. -/
def Await.IsQuiet : Await → Prop
  | now | randomUUID | redisOccupy .. | redisSetKeepTtl .. | redisDel _ => True
  | c => c.IsHttp

theorem next_of_isQuiet {c : Await} (hc : c.IsQuiet) (hw : w.Settled) (r : Reply c) :
    w.next c r = w := by
  cases r with
  | ok v => cases c <;> first | rfl | exact absurd hc id
  | error e =>
    refine Summary.afterError_eq_self hw ?_
    cases c <;> first | rfl | exact absurd hc id

/-- A function that makes quiet calls only. -/
theorem follows_of_uses {p : Await → Prop} {P : Async α} (hP : P.run.Uses p)
    (hp : ∀ c, p c → c.IsQuiet ∧ w.Awaits req c) (hw : w.Settled) (hQ : ∀ a, Q a w)
    (hE : ∀ e, E e w) : Follows http req Q E P w := by
  refine Discipline.follows_of_uses (I := fun w' => w' = w) hP ?_ rfl ?_
  · rintro c w' hc rfl
    exact ⟨(hp c hc).2, fun r _ => next_of_isQuiet (hp c hc).1 hw r⟩
  · rintro r w' rfl
    cases r with
    | ok a => exact hQ a
    | error e => exact hE e

theorem follows_quiet {c : Await} {Q : c.Val → Summary → Prop} (hc : c.IsQuiet)
    (ha : w.Awaits req c) (hw : w.Settled) (hQ : ∀ a, Q a w) (hE : ∀ e, E e w) :
    Follows http req Q E (call c) w := by
  refine follows_of_uses (p := fun x => x = c) (Uses.call rfl) ?_ hw hQ hE
  rintro x rfl
  exact ⟨hc, ha⟩

/-! ### Events -/

section Events

variable {Q : TaskEventSelect → Summary → Prop} {input : InsertEventInput}

/-- `insertEventInTx` takes the lock, reads the number and inserts. -/
theorem follows_insertEventInTx
    (hw : w.Writing input.taskId input.eventType { rows := w.tx.rows })
    (hQ : ∀ e, (∃ id seq createdAt, e = input.row id seq createdAt) →
      Q e { w with
        tx := { rows := w.tx.rows, locks := [input.taskId], events := [e] }
        due := [] }) :
    Follows http req Q (fun e w' => w'.Returns req (.error e))
      (EventsRepository.insertEventInTx input) w := by
  obtain ⟨hdue, hrows, htx⟩ := hw
  refine followsExcept_bind (follows_call_through ?_ fun _ _ => followsExcept_bind
    (follows_call_through ?_ fun seq _ => follows_call_through ?_ ?_))
  · exact ⟨_, hdue, hrows, htx⟩
  · refine ⟨_, hdue, hrows, ?_⟩
    simp only [Summary.afterValue]
    rw [htx]
  · refine ⟨hdue, hrows, ?_⟩
    simp only [Summary.afterValue]
    rw [htx]
  · rintro e ⟨id, createdAt, he⟩
    have := hQ e ⟨id, seq, createdAt, he⟩
    simp only [Summary.afterValue]
    rw [htx]
    exact this

/-- `insertEvent` commits the event. -/
theorem follows_insertEvent (hw : w.Writing input.taskId input.eventType {})
    (hQ : ∀ e, (∃ id seq createdAt, e = input.row id seq createdAt) →
      Q e { w with tx := {}, due := [], owed := w.owed ++ [e] }) :
    Follows http req Q (fun e w' => w'.Returns req (.error e))
      (EventsRepository.insertEvent input) w := by
  have hrows : w.tx.rows = [] := by rw [hw.2.2]
  refine followsExcept_bind (follows_insertEventInTx (by rwa [hrows]) fun e he => ?_)
  refine followsExcept_bind (follows_call_through ?_ fun _ _ => ?_)
  · exact ⟨rfl, rfl, rfl, by simp [hrows]⟩
  · exact hQ e he

end Events

/-! ### Creation -/

section Creation

variable {dto : CreateTaskDto} {baseUrl : String}

theorem follows_releaseQuietly (hw : w.Settled) (key : Option String)
    {Q : Unit → Summary → Prop} (hQ : Q () w) :
    Follows http req Q E (TasksService.releaseQuietly key) w := by
  cases key with
  | none => exact hQ
  | some key =>
    exact followsExcept_tryCatch (follows_quiet trivial hw hw (fun _ => hQ) fun _ => hQ)

theorem follows_insertOrRelease (hw : w.Settled) (hreq : req = .create dto baseUrl)
    (hins : w.inserted = none) (key : Option String) {Q : TaskSelect → Summary → Prop}
    (hQ : ∀ t, (∃ now token id createdAt, t = (dto.values now token).row id createdAt) →
      Q t { w with inserted := some t }) :
    Follows http req Q (fun e w' => w'.Returns req (.error e))
      (TasksService.insertOrRelease dto key) w := by
  subst hreq
  have hcatch : ∀ e (w' : Summary), w'.Settled → Follows http (.create dto baseUrl) Q
      (fun e w' => w'.Returns (.create dto baseUrl) (.error e))
      (do TasksService.releaseQuietly key; throw e) w' := fun e w' hw' =>
    followsExcept_bind (follows_releaseQuietly hw' key ⟨hw', trivial⟩)
  refine followsExcept_tryCatch (followsExcept_bind
    (follows_quiet trivial hw hw (fun now => ?_) fun e => hcatch e w hw))
  refine followsExcept_bind (follows_quiet trivial hw hw (fun token => ?_) fun e => hcatch e w hw)
  refine follows_call ⟨hw, hins, baseUrl, rfl⟩ (fun t ht => ?_)
    fun e _ => hcatch e _ (w.settled_afterError _)
  obtain ⟨id, createdAt, rfl⟩ := ht
  exact hQ _ ⟨now, token, id, createdAt, rfl⟩

theorem follows_enqueueOrRollback {task : TaskSelect} (hw : w.Settled)
    (hins : w.inserted = some task) (key : Option String) {Q : Unit → Summary → Prop}
    (hQ : Q () { w with enqueued := .dispatch task.id task.timeoutSeconds :: w.enqueued })
    (hE : ∀ e w', w'.Settled → E e w') :
    Follows http req Q E (TasksService.enqueueOrRollback task key) w := by
  refine followsExcept_tryCatch (follows_call ⟨hw, task, hins, rfl, rfl⟩ (fun _ _ => hQ)
    fun e _ => ?_)
  rw [Summary.afterError_eq_self hw rfl]
  have hrelease : ∀ w' : Summary, w'.Settled → Follows http req Q E
      (do TasksService.releaseQuietly key; throw e) w' := fun w' hw' =>
    followsExcept_bind (follows_releaseQuietly hw' key (hE e w' hw'))
  refine followsExcept_bind (followsExcept_tryCatch (follows_call ⟨hw, task, hins, rfl⟩ ?_ ?_))
  · exact fun _ _ => hrelease _ ⟨hw.tx, hw.due⟩
  · exact fun _ _ => hrelease _ (w.settled_afterError _)

theorem follows_create (hreq : req = .create dto baseUrl) {Q : TaskCreatedResponse → Summary → Prop}
    (hQ : ∀ a w', Summary.Settled w' → Q a w') :
    Follows http req Q (fun e w' => w'.Returns req (.error e))
      (TasksService.create dto baseUrl) {} := by
  have hreturns : ∀ (e : JsError) (w' : Summary), w'.Settled → w'.Returns req (.error e) := by
    subst hreq
    exact fun e w' hw' => ⟨hw', trivial⟩
  have htask : ∀ key, Follows http req Q (fun e w' => w'.Returns req (.error e))
      (TasksService.createTask dto baseUrl key) {} := by
    intro key
    refine followsExcept_bind (follows_insertOrRelease Summary.settled_start hreq rfl key
      fun t _ => followsExcept_bind (follows_enqueueOrRollback ⟨rfl, rfl⟩ rfl key ?_ hreturns))
    refine followsExcept_bind ?_
    cases key with
    | none => exact hQ _ _ ⟨rfl, rfl⟩
    | some key =>
      refine followsExcept_tryCatch (follows_quiet trivial ⟨rfl, rfl⟩ ⟨rfl, rfl⟩ (fun _ => ?_)
        fun _ => ?_)
      · exact hQ _ _ ⟨rfl, rfl⟩
      · exact hQ _ _ ⟨rfl, rfl⟩
  unfold TasksService.create
  split
  · exact htask none
  · refine followsExcept_bind (followsExcept_bind (follows_quiet trivial Summary.settled_start
      Summary.settled_start (fun reply => ?_) fun e => hreturns e _ Summary.settled_start))
    refine (followsExcept_pure _).mpr ?_
    cases OccupySlotResult.ofReply reply with
    | acquired => exact htask _
    | pending => exact hreturns _ _ Summary.settled_start
    | duplicate taskId => exact hQ _ _ Summary.settled_start

end Creation

/-! ### Cancellation -/

theorem follows_cancelTask {id : String} (hreq : req = .cancel id)
    {Q : Option (TaskSelect × TaskEventSelect) → Summary → Prop} (hnone : Q none {})
    (hsome : ∀ t e, e.taskId = id → Q (some (t, e)) { owed := [e] }) :
    Follows http req Q (fun e w' => w'.Returns req (.error e))
      (TasksRepository.cancelTask id) {} := by
  subst hreq
  refine followsExcept_bind (follows_quiet trivial Summary.settled_start Summary.settled_start
    (fun now => followsExcept_bind
        (follows_call_through ⟨Summary.settled_start, rfl⟩ fun t _ => ?_))
    fun e => ⟨Summary.settled_start, trivial⟩)
  cases t with
  | none =>
    refine followsExcept_bind (follows_call_through ?_ fun _ _ => hnone)
    exact ⟨rfl, rfl, rfl, by simp [Summary.afterValue]⟩
  | some t =>
    have hwriting : Summary.Writing (Summary.afterValue {} (.txCancelTask id now) (some t))
      (InsertEventInput.cancelled id).taskId (InsertEventInput.cancelled id).eventType
      { rows := [id] } := ⟨rfl, .inr rfl, rfl⟩
    refine followsExcept_bind (follows_insertEventInTx hwriting fun e he => ?_)
    obtain ⟨_, _, _, rfl⟩ := he
    refine followsExcept_bind (follows_call_through ?_ fun _ _ => hsome _ _ rfl)
    exact ⟨rfl, rfl, rfl,
        by simp [Summary.afterValue, InsertEventInput.row, InsertEventInput.taskId]⟩

theorem follows_cancel {id : String} (hreq : req = .cancel id) {Q : Unit → Summary → Prop}
    (hQ : ∀ w', Summary.Settled w' → Q () w') :
    Follows http req Q (fun e w' => w'.Returns req (.error e)) (TasksService.cancel id) {} := by
  refine followsExcept_bind (follows_cancelTask hreq ?_ fun t e he => ?_)
  · have hunasked : Summary.Unasked req {} := fun _ _ _ _ => rfl
    refine followsExcept_bind (follows_call_through ⟨Summary.settled_start, hunasked⟩ fun t _ => ?_)
    subst hreq
    cases t with
    | none => exact ⟨⟨rfl, rfl⟩, trivial⟩
    | some t => exact ⟨⟨rfl, rfl⟩, trivial⟩
  · have hprogressed : Summary.Progressed req { owed := [e] } := fun _ _ _ h => by cases hreq ▸ h
    refine followsExcept_bind (follows_call_through ⟨⟨rfl, rfl⟩, by rw [he], rfl, hprogressed⟩
      fun _ _ => ?_)
    split
    · exact follows_call_through ⟨⟨rfl, rfl⟩, hreq, rfl⟩ fun _ _ => hQ _ ⟨rfl, rfl⟩
    · exact hQ _ ⟨rfl, rfl⟩

/-! ### Callbacks -/

theorem follows_canActivate {id : String} {authorization : Option String}
    {Q : TaskSelect → Summary → Prop}
    (hQ : ∀ t, Summary.Passed { found := some t } id authorization → t.id = id →
      Q t { found := some t })
    (hE : ∀ e w', Summary.Settled w' →
      (∀ message, e = .conflict message → ∃ t, w'.found = some t ∧ t.status ≠ .processing) →
      E e w') :
    Follows http req Q E (CallbackAuthGuard.canActivate id authorization) {} := by
  unfold CallbackAuthGuard.canActivate
  split
  · exact hE _ _ ⟨rfl, rfl⟩ (by simp)
  next token htoken =>
  split
  · exact hE _ _ ⟨rfl, rfl⟩ (by simp)
  have hserver : ∀ e : JsError, e.IsServerError → ∀ message, e ≠ .conflict message := by
    rintro _ he message rfl
    exact he
  refine followsExcept_bind (follows_call ⟨Summary.settled_start, fun _ _ _ _ => rfl⟩
    (fun row hrow => ?_) fun e he => hE _ _ ⟨rfl, rfl⟩ fun m hm => absurd hm (hserver e he m))
  cases row with
  | none => exact hE _ _ ⟨rfl, rfl⟩ (by simp)
  | some t =>
    have hid : t.id = id := hrow t rfl
    dsimp only
    split
    · exact hE _ _ ⟨rfl, rfl⟩ (by simp)
    next stored hstored =>
    split
    · exact hE _ _ ⟨rfl, rfl⟩ (by simp)
    next hmatch =>
    split
    · next hstatus => exact hE _ _ ⟨rfl, rfl⟩ fun _ _ => ⟨t, rfl, hstatus⟩
    next hstatus =>
    rw [Option.filter_eq_some_iff] at hstored
    refine hQ t ⟨t, token, stored, rfl, hid, by simpa using hstatus, htoken, hstored.1, ?_, ?_⟩ hid
    · simpa using hstored.2
    · simpa using hmatch

theorem follows_submitResult {t : TaskSelect} {authorization : Option String}
    {dto : SubmitResultDto} (hreq : req = .result t.id authorization dto)
    (hpassed : Summary.Passed { found := some t } t.id authorization) {Q : Unit → Summary → Prop}
    (hQ : ∀ w' now row, Summary.Settled w' → w'.found = some t →
      w'.updated = some ⟨t.id, dto.write now, row⟩ →
      (row ≠ none → truthy t.webhookUrl = true → .webhook t.id ∈ w'.enqueued) → Q () w') :
    Follows http req Q (fun e w' => w'.Returns req (.error e))
      (ExecutorService.submitResult t dto) { found := some t } := by
  refine followsExcept_bind (follows_call_through ⟨rfl, rfl⟩ fun now _ => ?_)
  have hawaits : Summary.AwaitsWrite req { found := some t } t.id (dto.write now) := by
    subst hreq
    cases dto <;> exact ⟨rfl, _, rfl, hpassed⟩
  have hafter : ∀ row : Option TaskSelect,
      Summary.afterValue { found := some t } (.updateTask t.id (dto.write now)) row =
        { found := some t
          updated := some ⟨t.id, dto.write now, row⟩
          due := (row.map fun _ => (t.id, (dto.event t.id).eventType)).toList } := by
    intro row
    cases dto <;> cases row <;> rfl
  refine followsExcept_bind (follows_call_through (w := { found := some t })
    ⟨⟨rfl, rfl⟩, hawaits⟩ fun row _ => ?_)
  rw [hafter row]
  cases row with
  | none => exact hQ _ now none ⟨rfl, rfl⟩ rfl rfl fun h => absurd rfl h
  | some t' =>
    have hid : (dto.event t.id).taskId = t.id := by cases dto <;> rfl
    refine followsExcept_bind (follows_insertEvent ⟨by rw [hid]; rfl, .inl rfl, rfl⟩
      fun e he => ?_)
    have htask : e.taskId = t.id := by
      obtain ⟨_, _, _, rfl⟩ := he
      exact hid
    refine followsExcept_bind (follows_call_through
      ⟨⟨rfl, rfl⟩, by rw [htask], rfl, fun _ _ _ _ => Option.some_ne_none _⟩ fun _ _ => ?_)
    split
    · next htruthy =>
      refine follows_call_through
        ⟨⟨rfl, rfl⟩, rfl, authorization, dto, t, now, t', hreq, rfl, htruthy, rfl⟩ fun _ _ => ?_
      exact hQ _ _ _ ⟨rfl, rfl⟩ rfl rfl fun _ _ => List.mem_cons_self
    · next htruthy => exact hQ _ _ _ ⟨rfl, rfl⟩ rfl rfl fun _ h => absurd h htruthy

theorem follows_updateProgress {t : TaskSelect} {authorization : Option String}
    {dto : UpdateProgressDto} (hreq : req = .progress t.id authorization dto)
    (hpassed : Summary.Passed { found := some t } t.id authorization) {Q : Unit → Summary → Prop}
    (hQ : ∀ w', Summary.Settled w' → Q () w') :
    Follows http req Q (fun e w' => w'.Returns req (.error e))
      (ExecutorService.updateProgress t dto) { found := some t } := by
  refine followsExcept_bind (follows_call_through
    ⟨⟨rfl, rfl⟩, rfl, authorization, dto, hreq, rfl, hpassed⟩ fun row _ => ?_)
  refine followsExcept_bind (follows_insertEvent ⟨rfl, .inl rfl, rfl⟩ fun e he => ?_)
  obtain ⟨_, _, _, rfl⟩ := he
  exact follows_call_through ⟨⟨rfl, rfl⟩, rfl, rfl, fun _ _ _ _ => Option.some_ne_none _⟩
    fun _ _ => hQ _ ⟨rfl, rfl⟩

/-! ### Workers -/

theorem follows_dispatch {id : String} {timeoutSeconds : ℤ}
    (hreq : req = .dispatch id timeoutSeconds) {Q : Unit → Summary → Prop}
    (hQ : ∀ w', Summary.Settled w' → Q () w') :
    Follows http req Q (fun e w' => w'.Returns req (.error e))
      (DispatchProcessor.process http id timeoutSeconds) {} := by
  have hE : ∀ (e : JsError) (w' : Summary), w'.Settled → w'.Returns req (.error e) := by
    subst hreq
    exact fun e w' hw' => ⟨hw', trivial⟩
  refine followsExcept_bind (follows_quiet trivial ⟨rfl, rfl⟩ ⟨rfl, rfl⟩ (fun now => ?_)
    fun e => hE e _ ⟨rfl, rfl⟩)
  refine followsExcept_bind (follows_call_through ⟨⟨rfl, rfl⟩, hreq, rfl⟩ fun row hrow => ?_)
  cases row with
  | none => exact hQ _ ⟨rfl, rfl⟩
  | some t =>
    obtain ⟨r, hr, -, ht⟩ := hrow t rfl
    have hid : t.id = id := by rw [ht, TaskWrite.apply_id, hr]
    change Follows http req _ _ _ { claimed := some t }
    refine followsExcept_tryCatch (followsExcept_bind (follows_of_uses (http.post_uses ..)
      (fun c hc => ?_) ⟨rfl, rfl⟩ (fun _ => hQ _ ⟨rfl, rfl⟩) fun err => ?_))
    · have hpost : (∃ id timeoutSeconds t', req = .dispatch id timeoutSeconds ∧
          some t = some t' ∧ t'.id = id) ∨ ∃ id, req = .notifyCancel id ∨ req = .notifyWebhook id :=
        .inl ⟨id, timeoutSeconds, t, hreq, rfl, hid⟩
      cases c <;> first | exact ⟨trivial, ⟨rfl, rfl⟩, hpost⟩ | exact absurd hc (fun h => h)
    · unfold DispatchProcessor.onError
      split
      · refine followsExcept_bind (follows_quiet trivial ⟨rfl, rfl⟩ ⟨rfl, rfl⟩ (fun now => ?_)
          fun e => hE e _ ⟨rfl, rfl⟩)
        exact followsExcept_bind (follows_call_through
          ⟨⟨rfl, rfl⟩, timeoutSeconds, t, hreq, rfl, hid⟩ fun _ _ => hQ _ ⟨rfl, rfl⟩)
      · refine followsExcept_bind (followsExcept_tryCatch (followsExcept_bind (follows_call
          ⟨⟨rfl, rfl⟩, timeoutSeconds, t, hreq, rfl, hid⟩ (fun _ _ => ?_) fun _ _ => ?_)))
        · exact hE _ _ ⟨rfl, rfl⟩
        · exact hE _ _ ⟨rfl, rfl⟩

theorem follows_notifyCancel {id : String} (hreq : req = .notifyCancel id)
    {Q : Unit → Summary → Prop} (hQ : ∀ w', Summary.Settled w' → Q () w') :
    Follows http req Q (fun e w' => w'.Returns req (.error e))
      (CancelProcessor.process http id) {} := by
  have hunasked : Summary.Unasked req {} := fun _ _ _ _ => rfl
  refine followsExcept_bind (follows_call_through ⟨Summary.settled_start, hunasked⟩ fun row _ => ?_)
  cases row with
  | none => exact hQ _ ⟨rfl, rfl⟩
  | some t =>
    dsimp only
    split
    · exact hQ _ ⟨rfl, rfl⟩
    · refine followsExcept_tryCatch (followsExcept_bind (follows_of_uses (http.post_uses ..)
        (fun c hc => ?_) ⟨rfl, rfl⟩ (fun _ => hQ _ ⟨rfl, rfl⟩) fun err => hQ _ ⟨rfl, rfl⟩))
      cases c <;> first
        | exact ⟨trivial, ⟨rfl, rfl⟩, .inr ⟨id, .inl hreq⟩⟩
        | exact absurd hc (fun h => h)

theorem follows_notifyWebhook {id : String} (hreq : req = .notifyWebhook id)
    {Q : Unit → Summary → Prop} (hQ : ∀ w', Summary.Settled w' → Q () w') :
    Follows http req Q (fun e w' => w'.Returns req (.error e))
      (WebhookProcessor.process http id) {} := by
  have hunasked : Summary.Unasked req {} := fun _ _ _ _ => rfl
  refine followsExcept_bind (follows_call_through ⟨Summary.settled_start, hunasked⟩ fun row _ => ?_)
  cases row with
  | none => exact hQ _ ⟨rfl, rfl⟩
  | some t =>
    dsimp only
    split
    · exact hQ _ ⟨rfl, rfl⟩
    · have hreturns : ∀ e : JsError, Summary.Returns req (.error e) { found := some t } := by
        subst hreq
        exact fun e => ⟨⟨rfl, rfl⟩, trivial⟩
      refine follows_of_uses (deliver_uses http _ _) (fun c hc => ?_) ⟨rfl, rfl⟩
        (fun _ => hQ _ ⟨rfl, rfl⟩) hreturns
      cases c <;> first
        | exact ⟨trivial, ⟨rfl, rfl⟩, .inr ⟨id, .inr hreq⟩⟩
        | exact absurd hc (fun h => h)

/-! ### Maintenance -/

theorem follows_publishAll {batches : ℕ} {events : List TaskEventSelect}
    {Q : Unit → Summary → Prop} (hreq : req = .sweep batches) (hw : w.Settled)
    (howed : w.owed = events)
    (hQ : ∀ w', Summary.Settled w' → w'.owed = [] → Q () w') :
    Follows http req Q E (TimeoutSweeperProcessor.publishAll events) w := by
  induction events generalizing w with
  | nil => exact hQ w hw howed
  | cons event events ih =>
    have hprogressed : w.Progressed req := fun _ _ _ h => by cases hreq ▸ h
    refine followsExcept_bind (followsExcept_tryCatch (follows_call
      ⟨hw, rfl, by rw [howed]; rfl, hprogressed⟩ (fun _ _ => ih ⟨hw.tx, hw.due⟩ ?_)
      fun _ _ => ih ⟨rfl, rfl⟩ ?_))
    · simp [Summary.afterValue, howed]
    · simp [Summary.afterError, howed]

theorem follows_expireTimedOutTasksBatch {batches batchSize : ℕ} (hreq : req = .sweep batches)
    (hw : w.Settled) (howed : w.owed = []) {Q : ℕ × List TaskEventSelect → Summary → Prop}
    (hQ : ∀ batch w', Summary.Settled w' → w'.owed = batch.2 → Q batch w') :
    Follows http req Q (fun e w' => w'.Returns req (.error e))
      (MaintenanceRepository.expireTimedOutTasksBatch batchSize) w := by
  obtain ⟨htx, hdue⟩ := hw
  refine followsExcept_bind
      (follows_quiet trivial ⟨htx, hdue⟩ ⟨htx, hdue⟩ (fun now => ?_) fun e => ?_)
  · refine followsExcept_bind (follows_call_through ⟨⟨htx, hdue⟩, batches, hreq⟩ fun ids _ => ?_)
    split
    · next hnil =>
      subst hnil
      refine followsExcept_bind (follows_call_through ?_ fun _ _ => hQ _ _ ⟨rfl, rfl⟩ ?_)
      · exact ⟨rfl, by simp [Summary.afterValue, htx], by simp [Summary.afterValue, htx],
          by simp [Summary.afterValue]⟩
      · simp [Summary.afterValue, howed, htx]
    · next hne =>
      refine followsExcept_bind (follows_call_through ?_ fun events hevents => ?_)
      · exact ⟨hne, by simp [Summary.afterValue, htx], rfl⟩
      have hids : events.map (·.taskId) = ids := by
        have := congrArg (List.map Prod.fst) hevents
        simpa [Function.comp_def] using this
      have hfailed : ∀ e ∈ events, e.eventType = .failed := by
        intro e he
        have hmem : (e.taskId, e.eventType) ∈ events.map fun e => (e.taskId, e.eventType) :=
          List.mem_map_of_mem he
        have hevents' : events.map (fun e => (e.taskId, e.eventType)) =
          ids.map fun id => (id, TaskEventType.failed) := hevents
        rw [hevents', List.mem_map] at hmem
        obtain ⟨id, -, heq⟩ := hmem
        exact (congrArg Prod.snd heq).symm
      refine followsExcept_bind (follows_call_through ?_ fun inserted hinserted => ?_)
      · refine ⟨?_, hevents.symm, hfailed⟩
        simp [Summary.afterValue, htx, hids]
      have hinserted : inserted = events := hinserted
      rw [hinserted]
      refine followsExcept_bind (follows_call_through ?_ fun _ _ => hQ _ _ ⟨rfl, rfl⟩ ?_)
      · refine ⟨rfl, rfl, by simp [Summary.afterValue, htx], fun id hid => ?_⟩
        rw [← hids] at hid
        exact hid
      · simp [Summary.afterValue, howed]
  · subst hreq
    exact ⟨⟨htx, hdue⟩, trivial⟩

theorem follows_sweep {batches n : ℕ} (hreq : req = .sweep batches) (hw : w.Settled)
    (howed : w.owed = []) {Q : Unit → Summary → Prop} (hQ : ∀ w', Summary.Settled w' → Q () w') :
    Follows http req Q (fun e w' => w'.Returns req (.error e))
      (TimeoutSweeperProcessor.process n) w := by
  induction n generalizing w with
  | zero => exact hQ w hw
  | succ n ih =>
    refine followsExcept_bind (follows_expireTimedOutTasksBatch hreq hw howed
      fun batch w' hw' howed' => ?_)
    split
    · exact hQ w' hw'
    · exact followsExcept_bind (follows_publishAll hreq hw' howed' fun w'' hw'' howed'' =>
        ih hw'' howed'')

theorem follows_deleteBatch {ids : List String} (hw : w.Settled) (hold : w.old = ids)
    {Q : ℕ × ℕ → Summary → Prop} (hQ : ∀ n w', Summary.Settled w' → Q n w') :
    Follows http req Q (fun e w' => w'.Returns req (.error e))
      (MaintenanceRepository.deleteBatch ids) w := by
  obtain ⟨htx, hdue⟩ := hw
  refine followsExcept_bind (follows_call_through ⟨⟨htx, hdue⟩, hold⟩ fun _ _ =>
    followsExcept_bind (follows_call_through ⟨hold, ?_, hdue⟩ fun _ _ =>
      followsExcept_bind (follows_call_through ⟨hdue, ?_, ?_, ?_⟩ fun _ _ => hQ _ _ ⟨rfl, hdue⟩)))
  · simp [Summary.afterValue, htx]
  · simp [Summary.afterValue, htx]
  · simp [Summary.afterValue]
  · simp [Summary.afterValue, htx]

theorem follows_deleteBatches {n : ℕ} (cutoff : Timestamp) (totals : ℕ × ℕ) (hw : w.Settled)
    {Q : ℕ × ℕ → Summary → Prop} (hQ : ∀ n w', Summary.Settled w' → Q n w') :
    Follows http req Q (fun e w' => w'.Returns req (.error e))
      (MaintenanceRepository.deleteBatches cutoff n totals) w := by
  induction n generalizing w totals with
  | zero => exact hQ _ w hw
  | succ n ih =>
    refine followsExcept_bind (follows_call_through hw fun ids _ => ?_)
    have hw' : Summary.Settled (w.afterValue (.selectOldTasks cutoff
      MaintenanceRepository.retentionDeleteBatchSize) ids) := ⟨hw.tx, hw.due⟩
    split
    · exact hQ _ _ hw'
    · refine followsExcept_bind (follows_deleteBatch hw' rfl fun deleted w'' hw'' => ?_)
      dsimp only
      split
      · exact ih _ hw''
      · exact hQ _ _ hw''

/-! ### The requests -/

theorem follows_run (http : HttpClient) (req : Request) :
    Follows http req (fun a w' => w'.Returns req (.ok a)) (fun e w' => w'.Returns req (.error e))
      (req.run http) {} := by
  cases req with
  | create dto baseUrl =>
    exact followsExcept_bind (follows_create rfl fun _ _ hw' => ⟨hw', trivial⟩)
  | cancel id => exact followsExcept_bind (follows_cancel rfl fun _ hw' => ⟨hw', trivial⟩)
  | result id authorization dto =>
    refine followsExcept_bind (follows_canActivate (fun t hpassed hid => ?_)
      fun e w' hw' hconflict => ?_)
    · subst hid
      exact followsExcept_bind (follows_submitResult rfl hpassed
        fun w' now row hw' hf hupd hwebhook => ⟨hw', t, now, row, hf, hupd, hwebhook⟩)
    · refine ⟨hw', ?_⟩
      cases e <;> first | exact hconflict _ rfl | trivial
  | progress id authorization dto =>
    refine followsExcept_bind (follows_canActivate (fun t hpassed hid => ?_)
      fun e w' hw' _ => ⟨hw', trivial⟩)
    subst hid
    exact followsExcept_bind (follows_updateProgress rfl hpassed fun w' hw' => ⟨hw', trivial⟩)
  | dispatch id timeoutSeconds =>
    exact followsExcept_bind (follows_dispatch rfl fun _ hw' => ⟨hw', trivial⟩)
  | notifyCancel id =>
    exact followsExcept_bind (follows_notifyCancel rfl fun _ hw' => ⟨hw', trivial⟩)
  | notifyWebhook id =>
    exact followsExcept_bind (follows_notifyWebhook rfl fun _ hw' => ⟨hw', trivial⟩)
  | sweep batches =>
    exact followsExcept_bind (follows_sweep rfl ⟨rfl, rfl⟩ rfl fun _ hw' => ⟨hw', trivial⟩)
  | retain days batches =>
    refine followsExcept_bind (followsExcept_bind (follows_quiet trivial ⟨rfl, rfl⟩ ⟨rfl, rfl⟩
      (fun now => ?_) fun e => ⟨⟨rfl, rfl⟩, trivial⟩))
    exact follows_deleteBatches _ _ ⟨rfl, rfl⟩ fun _ _ hw' => ⟨hw', trivial⟩

/-- **The program obeys the discipline.** -/
theorem discipline_sound (http : HttpClient) : (discipline http).Sound where
  reply _ _ _ _ _ _ h := possible_of_perform h
  body req := by
    refine follows_mono (follows_run http req) fun r w' hr => ?_
    cases r with
    | ok a => exact hr
    | error e => exact hr

end LongRequestProxy
