import LongRequestProxy.Delivery.LogOrder

/-!
# Progress requests and the end of a task

`CallbackAuthGuard` checks the status of the task once, before the two writes of a progress
request, and neither of them checks it again. A progress request that has passed the guard writes
its progress and its event even if the task ends in between, after the terminal event.

## Main definitions

* `isReporting`: a progress request between its guard and the commit of its event.
* `endsDuringProgress`: the commits of a terminal event at such a moment.
* `Summary.MayReport`: what a function has to know to report progress.

## Main results

* `terminal_event_last`: without such commits the terminal event of a task is the last of its log,
  and afterwards no progress request changes the task.
* `progress_after_terminal_event`: a run in which the progress comes last.
-/

namespace LongRequestProxy

open Async Discipline Service Function

variable {http : HttpClient} {clock : Timestamp} {c c' : (proxy http).Config} {i : String}
  {w : Summary} {req : Request} {x : Await}

/-! ### Progress requests that have passed the guard -/

/-- The call is neither the read of the guard nor a publication. -/
def Await.isReport : Await → Bool
  | findTask _ | publish .. => false
  | _ => true

/-- Program `q` serves a progress request for the task, has passed the guard and has not yet
committed its event. -/
def isReporting (c : (proxy http).Config) (q : ℕ) (i : String) : Bool :=
  match c.procs[q]? with
  | some (.running (.progress id _ _) (.call x _)) => id == i && x.isReport
  | _ => false

/-- The move commits a terminal event of a task for which a progress request has passed the guard
and not yet committed its own event. -/
def endsDuringProgress (c : (proxy http).Config) (m : (proxy http).Move) : Bool :=
  match c.callOf m with
  | some (p, o, .txCommit) =>
    o.fault != .failed && (c.store.tx p).events.any fun e =>
      e.eventType.isTerminal && (List.range c.procs.length).any fun q => isReporting c q e.taskId
  | _ => false

theorem not_isReporting_of_not_endsDuringProgress {m : (proxy http).Move}
    (h : endsDuringProgress c m = false) {p : ℕ} {o : Oracle}
    (hx : c.callOf m = some (p, o, .txCommit)) (hf : o.fault ≠ .failed) {e : TaskEventSelect}
    (he : e ∈ (c.store.tx p).events) (hterm : e.eventType.isTerminal = true) {q : ℕ}
    {authorization : Option String} {dto : UpdateProgressDto}
    {k : Reply x → Prog Await Reply (Except JsError Response)}
    (hq : c.procs[q]? = some (.running (.progress e.taskId authorization dto) (.call x k))) :
    x.isReport = false := by
  by_contra hreport
  have hends : endsDuringProgress c m = true := by
    simp only [endsDuringProgress, hx, Bool.and_eq_true, List.any_eq_true, List.mem_range,
      bne_iff_ne]
    refine ⟨hf, e, he, hterm, q, (List.getElem?_eq_some_iff.mp hq).1, ?_⟩
    simpa [isReporting, hq] using hreport
  rw [h] at hends
  cases hends

namespace Summary

/-- The function has a progress event of the task to insert or to commit. -/
def HasReport (w : Summary) (i : String) : Prop :=
  (i, .progress) ∈ w.due ∨ ∃ e ∈ w.tx.events, e.taskId = i ∧ e.eventType = .progress

/-- The function serves a progress request that has found the task `PROCESSING` and has not yet
written. -/
def WillReport (req : Request) (w : Summary) (i : String) : Prop :=
  (∃ authorization dto, req = .progress i authorization dto) ∧
    (∃ t, w.found = some t ∧ t.id = i ∧ t.status = .processing) ∧ w.updated = none

/-- The function can still report progress without reading the task again. -/
def MayReport (req : Request) (w : Summary) (i : String) : Prop :=
  w.WillReport req i ∨ w.HasReport i

theorem willReport_of_awaitsWrite {n : ℤ} (h : w.AwaitsWrite req i (.progress n)) :
    w.WillReport req i := by
  obtain ⟨hnone, authorization, dto, hreq, -, t, -, -, hfound, hid, hs, -⟩ := h
  exact ⟨⟨authorization, dto, hreq⟩, ⟨t, hfound, hid, hs⟩, hnone⟩

theorem Settled.not_hasReport (h : w.Settled) : ¬ w.HasReport i := by
  rintro (hdue | ⟨e, he, -⟩)
  · rw [h.due] at hdue
    cases hdue
  · rw [h.tx] at he
    cases he

/-- After an error there is nothing to insert or to commit. -/
theorem not_hasReport_afterError : ¬ (w.afterError x).HasReport i :=
  (settled_afterError w x).not_hasReport

/-- A progress event to insert or to commit comes from the write of a progress request. -/
theorem hasReport_of_next {r : Reply x} (ha : w.Awaits req x) (hr : x.Possible r)
    (h : (w.next x r).HasReport i) : w.HasReport i ∨ w.WillReport req i := by
  cases r with
  | error e => exact absurd h not_hasReport_afterError
  | ok v =>
    cases x with
    | updateTask id write =>
      cases write with
      | progress n =>
        obtain hdue | hev := h
        · cases List.mem_singleton.mp hdue
          exact .inr (willReport_of_awaitsWrite ha.2)
        · exact .inl (.inr hev)
      | submitCompleted now result =>
        obtain hdue | hev := h
        · cases v with
          | none => cases hdue
          | some t => cases List.mem_singleton.mp hdue
        · exact .inl (.inr hev)
      | submitFailed now error =>
        obtain hdue | hev := h
        · cases v with
          | none => cases hdue
          | some t => cases List.mem_singleton.mp hdue
        · exact .inl (.inr hev)
      | _ => exact .inl h
    | txCancelTask id now =>
      cases v with
      | none => exact .inl h
      | some t =>
        obtain hdue | hev := h
        · cases List.mem_singleton.mp hdue
        · exact .inl (.inr hev)
    | txExpireTasks now limit =>
      obtain hdue | hev := h
      · obtain ⟨id, -, heq⟩ := List.mem_map.mp hdue
        cases heq
      · exact .inl (.inr hev)
    | txInsertEvent seq input =>
      obtain hdue | ⟨e, he, hid, htype⟩ := h
      · cases hdue
      · obtain rfl := List.mem_singleton.mp he
        obtain ⟨eid, createdAt, rfl⟩ := hr
        refine .inl (.inl ?_)
        rw [ha.1, ← hid, ← htype]
        exact List.mem_singleton_self _
    | txInsertExpiryEvents events =>
      obtain hdue | ⟨e, he, hid, htype⟩ := h
      · cases hdue
      · have hv : v = events := hr
        have hfailed := ha.2.2 e (hv ▸ he)
        rw [htype] at hfailed
        cases hfailed
    | txCommit =>
      obtain hdue | ⟨e, he, -⟩ := h
      · exact .inl (.inl hdue)
      · cases he
    | _ => exact .inl h

/-- Without reading a task a function does not get to know that it is `PROCESSING`. -/
theorem willReport_of_next {r : Reply x} (ha : w.Awaits req x) (hx : ∀ id, x ≠ .findTask id)
    (h : (w.next x r).WillReport req i) : w.WillReport req i := by
  obtain ⟨hreq, ⟨t, hfound, ht⟩, hnone⟩ := h
  obtain ⟨authorization, dto, rfl⟩ := hreq
  have hfound' : w.found = some t := by
    rw [← hfound]
    cases r with
    | ok v =>
      cases x with
      | findTask id => exact absurd rfl (hx id)
      | updateTask id write => cases write <;> rfl
      | txCancelTask id now => cases v <;> rfl
      | _ => rfl
    | error e =>
      cases x with
      | findTask id => exact absurd rfl (hx id)
      | _ => rfl
  have hnone' : w.updated = none := by
    cases x with
    | updateTask id write =>
      cases write with
      | progress n => exact ha.2.1
      | dispatchClaim now timeoutSeconds => cases ha.2.1
      | dispatchFailure now error =>
        obtain ⟨-, _, _, hreq, -⟩ := ha
        cases hreq
      | dispatchRevert =>
        obtain ⟨-, _, _, hreq, -⟩ := ha
        cases hreq
      | submitCompleted now result => exact ha.2.1
      | submitFailed now error => exact ha.2.1
      | cancel now => exact ha.2.elim
      | expire now => exact ha.2.elim
    | txCancelTask id now =>
      cases r with
      | ok v => cases v <;> exact hnone
      | error e => exact hnone
    | _ => cases r <;> exact hnone
  exact ⟨⟨authorization, dto, rfl⟩, ⟨t, hfound', ht⟩, hnone'⟩

theorem mayReport_of_next {r : Reply x} (ha : w.Awaits req x) (hr : x.Possible r)
    (hx : ∀ id, x ≠ .findTask id) (h : (w.next x r).MayReport req i) : w.MayReport req i := by
  obtain hwill | hhas := h
  · exact .inl (willReport_of_next ha hx hwill)
  · exact (hasReport_of_next ha hr hhas).symm

/-- A progress request that has committed its event reports nothing more. -/
theorem not_mayReport_of_publish {channel : String} {event : TaskEventSelect}
    (ha : w.Awaits req (.publish channel event)) : ¬ w.MayReport req i := by
  obtain ⟨hsettled, -, -, hprogressed⟩ := ha
  rintro (⟨⟨authorization, dto, rfl⟩, -, hnone⟩ | hhas)
  · exact hprogressed _ _ _ rfl hnone
  · exact hsettled.not_hasReport hhas

end Summary

/-- Only progress requests have progress events to insert or to commit. -/
theorem request_of_hasReport {allow : (proxy http).Config → (proxy http).Move → Prop}
    {s : (discipline http).Observed} (h : Runs allow (observed http clock) s) {q : ℕ}
    {P : Prog Await Reply (Except JsError Response)}
    (hq : s.config.procs[q]? = some (.running req P)) (hhas : (s.locals q).HasReport i) :
    ∃ authorization dto, req = .progress i authorization dto := by
  refine (discipline_sound http).summary_invariant
    (I := fun req (w : Summary) => w.HasReport i → ∃ authorization dto,
      req = .progress i authorization dto)
    (fun req hstart => ?_) (fun req w x r ha hr ih hnext => ?_) h observed_obeys rfl hq hhas
  · exact absurd hstart Summary.settled_start.not_hasReport
  · obtain hold | hwill := Summary.hasReport_of_next ha hr hnext
    · exact ih hold
    · exact hwill.1

/-! ### The step -/

/-- What one move does to the log of a task. -/
theorem log_cases_of_move {m : (proxy http).Move} (hm : c.move m = some c') (i : String) :
    c'.store.log i = c.store.log i ∨ ∃ p o, c.callOf m = some (p, o, .txCommit) ∧
      o.fault ≠ .failed ∧ c'.store.log i =
        (c.store.log i).filter (fun e => !(c.store.tx p).deletesEvent e) ++
          (c.store.tx p).events.filter fun e => e.taskId == i := by
  have hsame : ∀ σ : Backend, σ.events = c.store.events → σ.log i = c.store.log i := by
    intro σ hσ
    rw [Backend.log, hσ]
    rfl
  obtain ⟨time, hσ⟩ | ⟨p, hσ⟩ | ⟨p, o, req, x, k, v, σ, rfl, hp, hf, hx, hσ⟩ :=
    store_cases_of_move hm
  · exact .inl (hsame _ (by rw [hσ]))
  · exact .inl (hsame _ (by rw [hσ]; rfl))
  · have hev' : c'.store.events = σ.events := by
      obtain hσ | hσ := hσ <;> rw [hσ]
      rfl
    obtain hev | ⟨rfl, rfl⟩ := exec_events_cases hx
    · exact .inl (hsame _ (hev'.trans hev))
    · refine .inr ⟨p, o, Config.callOf_eq_some.mpr ⟨rfl, req, k, hp⟩, hf rfl, ?_⟩
      simp only [Backend.log, hev', Backend.commit, Backend.committedEvents, List.filter_append,
        List.filter_filter, Bool.and_comm]

/-- A new event was committed by the move. -/
theorem committed_of_new_event {m : (proxy http).Move} (hm : c.move m = some c')
    {e : TaskEventSelect} (he : e ∈ c'.store.events) (hnew : e ∉ c.store.events) :
    ∃ p o, c.callOf m = some (p, o, .txCommit) ∧ o.fault ≠ .failed ∧
      e ∈ (c.store.tx p).events := by
  have hmem : e ∈ c'.store.log e.taskId := Backend.mem_log.mpr ⟨he, rfl⟩
  have hnot : e ∉ c.store.log e.taskId := fun h => hnew (Backend.mem_log.mp h).1
  obtain hlog | ⟨p, o, hcall, hf, hlog⟩ := log_cases_of_move hm e.taskId
  · exact absurd (hlog ▸ hmem) hnot
  · rw [hlog] at hmem
    rcases List.mem_append.mp hmem with hmem | hmem
    · exact absurd (List.mem_filter.mp hmem).1 hnot
    · exact ⟨p, o, hcall, hf, (List.mem_filter.mp hmem).1⟩

theorem TaskEventSelect.ends_ne_none {e : TaskEventSelect} (h : e.eventType.isTerminal = true) :
    e.ends ≠ none :=
  Option.isSome_iff_ne_none.mp h

/-- The guard turns away the progress requests of a task that has a terminal event. -/
theorem not_mayReport_of_findTask {σ σ' : Backend} {δ : ℕ → Duty} (hσ : Ledger false σ δ) {p : ℕ}
    {o : Oracle} {id : String} {r : Reply (.findTask id)} (hw : w.Settled)
    (hx : perform p o σ (.findTask id) = some (r, σ')) {e : TaskEventSelect} (he : e ∈ σ.events)
    (hterm : e.eventType.isTerminal = true) :
    ¬ (w.next (.findTask id) r).MayReport req e.taskId := by
  rintro (⟨-, ⟨t, hfound, hid, hs⟩, -⟩ | hhas)
  · obtain ⟨e', rfl, -, -⟩ | ⟨v, rfl, hx, -⟩ | ⟨v, σ₁, rfl, -⟩ := perform_cases hx
    · cases hfound
    · cases hx
      obtain ⟨st, hst⟩ := Option.ne_none_iff_exists'.mp (e.ends_ne_none hterm)
      have hmatch := hσ.events_match e he st hst t (List.mem_of_find?_eq_some hfound) hid
      have hst' := e.isTerminal_of_ends hst
      rw [← hmatch, hs] at hst'
      cases hst'
    · cases hfound
  · cases r with
    | ok v => exact (show Summary.Settled _ from ⟨hw.tx, hw.due⟩).not_hasReport hhas
    | error e' => exact Summary.not_hasReport_afterError hhas

/-- No progress request may still report progress of a task that has a terminal event. -/
def NoLateReport (s : (discipline http).Observed) : Prop :=
  ∀ e ∈ s.config.store.events, e.eventType.isTerminal = true → ∀ q req x k,
    s.config.procs[q]? = some (.running req (.call x k)) →
      (∃ id, x = .findTask id) ∨ ¬ (s.locals q).MayReport req e.taskId

theorem noLateReport_of_move {allow : (proxy http).Config → (proxy http).Move → Prop}
    {s s' : (discipline http).Observed} {m : (proxy http).Move}
    (h : Runs allow (observed http clock) s) (hallow : endsDuringProgress s.config m = false)
    (hm : s.move m = some s') (hs : NoLateReport s) : NoLateReport s' := by
  intro e he hterm q req x k hq
  have hobeys := obeys_of_runs h
  have hrequest : (s.locals q).MayReport req e.taskId → ∀ P,
      s.config.procs[q]? = some (.running req P) →
      ∃ authorization dto, req = .progress e.taskId authorization dto := by
    rintro (hwill | hhas) P hP
    · exact hwill.1
    · exact request_of_hasReport h hP hhas
  by_cases hold : e ∈ s.config.store.events
  · obtain ⟨hq₀, hw, -⟩ | ⟨o, x₀, k₀, r, -, hq₀, hx, -, hw⟩ | ⟨-, -, hw⟩ :=
      Observed.running_cases hobeys hm hq
    · rw [hw]
      exact hs e hold hterm q req x k hq₀
    · rw [hw]
      refine .inr fun hmay => ?_
      have ha : (s.locals q).Awaits req x₀ := hobeys.awaits hq₀
      obtain ⟨id, rfl⟩ | hnot := hs e hold hterm q req x₀ k₀ hq₀
      · obtain ⟨δ, hδ⟩ := ledger_of_reaches (h.reaches.mono fun _ _ _ => trivial)
        exact not_mayReport_of_findTask hδ ha.1 hx hold hterm hmay
      · by_cases hfind : ∃ id, x₀ = .findTask id
        · obtain ⟨id, rfl⟩ := hfind
          obtain ⟨δ, hδ⟩ := ledger_of_reaches (h.reaches.mono fun _ _ _ => trivial)
          exact not_mayReport_of_findTask hδ ha.1 hx hold hterm hmay
        · exact hnot (Summary.mayReport_of_next ha (possible_of_perform hx)
            (fun id hid => hfind ⟨id, hid⟩) hmay)
    · rw [hw]
      refine .inr ?_
      rintro (⟨-, ⟨t, ht, -⟩, -⟩ | hhas)
      · cases ht
      · exact Summary.settled_start.not_hasReport hhas
  · obtain ⟨p, o, hcall, hf, hmem⟩ := committed_of_new_event (Observed.config_move hm) he hold
    obtain ⟨hq₀, hw, -⟩ | ⟨o', x₀, k₀, r, rfl, hq₀, hx, -, hw⟩ | ⟨rfl, -, -⟩ :=
      Observed.running_cases hobeys hm hq
    · rw [hw]
      by_contra hcon
      obtain ⟨hfind, hmay⟩ := not_or.mp hcon
      have hmay := not_not.mp hmay
      obtain ⟨authorization, dto, rfl⟩ := hrequest hmay _ hq₀
      have hreport := not_isReporting_of_not_endsDuringProgress hallow hcall hf hmem hterm hq₀
      cases x with
      | findTask id => exact hfind ⟨id, rfl⟩
      | publish channel event =>
        exact Summary.not_mayReport_of_publish (hobeys.awaits hq₀) hmay
      | _ => cases hreport
    · -- the program that commits the terminal event is no progress request
      rw [Config.callOf_eq_some.mpr ⟨rfl, req, k₀, hq₀⟩] at hcall
      cases hcall
      rw [hw]
      refine .inr fun hmay => ?_
      have hmay := Summary.mayReport_of_next (hobeys.awaits hq₀) (possible_of_perform hx)
        (fun _ h => by cases h) hmay
      obtain ⟨authorization, dto, rfl⟩ := hrequest hmay _ hq₀
      cases not_isReporting_of_not_endsDuringProgress hallow
        (Config.callOf_eq_some.mpr ⟨rfl, _, k₀, hq₀⟩) hf hmem hterm hq₀
    · cases hcall

/-! ### The end of the log -/

/-- The terminal event of the task is the last of its log. -/
def TerminalLast (c : (proxy http).Config) (i : String) : Prop :=
  ∀ e ∈ c.store.log i, e.eventType.isTerminal = true → ∃ before, c.store.log i = before ++ [e]

/-- If the task has its terminal event in `c`, then neither its progress nor its log has changed
in `c'`. -/
def Untouched (c c' : (proxy http).Config) (i : String) : Prop :=
  (∃ e ∈ c.store.log i, e.eventType.isTerminal = true) → ∀ t ∈ c.store.tasks, t.id = i →
    ∀ t' ∈ c'.store.tasks, t'.id = i → t'.progress = t.progress ∧ c'.store.log i = c.store.log i

variable {allow : (proxy http).Config → (proxy http).Move → Prop}
  {s s' : (discipline http).Observed} {m : (proxy http).Move}

theorem terminalLast_of_move (h : Runs allow (observed http clock) s) (hs : NoLateReport s)
    (hm : s.move m = some s') (hlast : TerminalLast s.config i) : TerminalLast s'.config i := by
  intro e he hterm
  obtain hlog | ⟨p, o, hcall, -, hlog⟩ := log_cases_of_move (Observed.config_move hm) i
  · rw [hlog] at he ⊢
    exact hlast e he hterm
  obtain ⟨-, req, k, hp⟩ := Config.callOf_eq_some.mp hcall
  have hlogged := logged_of_runs h
  obtain ⟨δ, hδ⟩ := ledger_of_reaches (h.reaches.mono fun _ _ _ => trivial)
  have htx := (hlogged.tracked.tracks p).events
  -- a transaction with an event of the task commits only while there is no terminal event
  have hadds : ∀ e' ∈ (s.config.store.tx p).events, e'.taskId = i →
      ∀ f ∈ s.config.store.log i, f.eventType.isTerminal = false := by
    intro e' he' hid f hf
    obtain ⟨hf, hfid⟩ := Backend.mem_log.mp hf
    by_contra hfterm
    have hfterm : f.eventType.isTerminal = true := by simpa using hfterm
    cases htype : e'.eventType with
    | progress =>
      have hhas : (s.locals p).HasReport f.taskId :=
        .inr ⟨e', htx ▸ he', hid.trans hfid.symm, htype⟩
      obtain ⟨id, hid⟩ | hnot := hs f hf hfterm p req .txCommit k hp
      · cases hid
      · exact hnot (.inr hhas)
    | _ =>
      refine hδ.added_new hf (p := p) (by rw [← hδ.tx p]; exact he') (f.ends_ne_none hfterm)
        (e'.ends_ne_none ?_) (hfid.trans hid.symm)
      rw [htype]
      rfl
  rw [hlog] at he ⊢
  by_cases hadd : ∃ e' ∈ (s.config.store.tx p).events, e'.taskId = i
  · obtain ⟨e', he', rfl⟩ := hadd
    have honly : (s.config.store.tx p).events.filter (fun f => f.taskId == e'.taskId) = [e'] :=
      Table.filter_key_eq (by rw [htx]; exact (hlogged.numbered.counts p).added_once) he'
    rw [honly] at he ⊢
    rcases List.mem_append.mp he with he | he
    · have := hadds e' he' rfl e (List.mem_filter.mp he).1
      rw [hterm] at this
      cases this
    · rw [List.mem_singleton.mp he]
      exact ⟨_, rfl⟩
  · have hnone : (s.config.store.tx p).events.filter (fun f => f.taskId == i) = [] :=
      List.filter_eq_nil_iff.mpr fun f hf => by simpa using fun hid => hadd ⟨f, hf, hid⟩
    rw [hnone, List.append_nil] at he ⊢
    obtain ⟨hmem, hkept⟩ := List.mem_filter.mp he
    obtain ⟨before, hbefore⟩ := hlast e hmem hterm
    rw [hbefore, List.filter_append, List.filter_singleton, hkept]
    exact ⟨_, rfl⟩

/-- The progress of a task with a terminal event does not change. -/
theorem progress_of_move (h : Runs allow (observed http clock) s) (hs : NoLateReport s)
    (hm : s.move m = some s') {e : TaskEventSelect} (he : e ∈ s.config.store.log i)
    (hterm : e.eventType.isTerminal = true) {t t' : TaskSelect} (ht : t ∈ s.config.store.tasks)
    (hid : t.id = i) (ht' : t' ∈ s'.config.store.tasks) (hid' : t'.id = i) :
    t'.progress = t.progress := by
  obtain ⟨δ, hδ⟩ := ledger_of_reaches (h.reaches.mono fun _ _ _ => trivial)
  obtain ⟨hmem, heid⟩ := Backend.mem_log.mp he
  have hunique : ∀ r ∈ s.config.store.tasks, r.id = i → r = t := fun r hr hrid =>
    Table.eq_of_key_eq hδ.ids hr ht (hrid.trans hid.symm)
  obtain ⟨st, hst⟩ := Option.ne_none_iff_exists'.mp (e.ends_ne_none hterm)
  have hended : t.status.isTerminal = true := by
    rw [hδ.events_match e hmem st hst t ht (hid.trans heid.symm)]
    exact e.isTerminal_of_ends hst
  have hsame : t' ∈ s.config.store.tasks → t'.progress = t.progress := fun hmem =>
    congrArg TaskSelect.progress (hunique t' hmem hid')
  obtain ⟨time, hσ⟩ | ⟨p, hσ⟩ | ⟨p, o, req, x, k, v, σ, -, hp, -, hx, hσ⟩ :=
    store_cases_of_move (Observed.config_move hm)
  · rw [hσ] at ht'
    exact hsame ht'
  · rw [hσ] at ht'
    exact hsame ht'
  · have ht' : t' ∈ σ.tasks := by
      obtain hσ | hσ := hσ
      · rwa [hσ] at ht'
      · rwa [hσ] at ht'
    obtain ⟨hts, -⟩ | ⟨dto, now, token, -, hnew, hts, -⟩ | ⟨id, -, hts, -⟩ |
      ⟨id, w, rfl, hts, -⟩ | ⟨-, rfl⟩ := exec_tasks_cases hx
    · exact hsame (hts ▸ ht')
    · rw [hts] at ht'
      rcases List.mem_append.mp ht' with ht' | ht'
      · exact hsame ht'
      · obtain rfl := List.mem_singleton.mp ht'
        have hnewid : o.uuid 0 = t.id := hid'.trans hid.symm
        exact absurd (by rw [hnewid]; exact hδ.issued t ht) hnew
    · rw [hts] at ht'
      exact hsame (List.mem_filter.mp ht').1
    · rw [hts] at ht'
      obtain ⟨r, hr, ⟨hw, rfl⟩ | ⟨-, rfl⟩⟩ := Table.mem_update.mp ht'
      · -- only a progress request writes to a task that has ended
        obtain ⟨hrid, hmatch, -⟩ := TaskWrite.of_where hw
        obtain rfl := hunique r hr hid'
        obtain ⟨n, rfl⟩ := TaskWrite.eq_progress_of_isTerminal hmatch hended
        have ha : (s.locals p).Awaits req (.updateTask id (.progress n)) :=
          (obeys_of_runs h).awaits hp
        obtain ⟨_, hfind⟩ | hnot := hs e hmem hterm p req _ k hp
        · cases hfind
        · refine absurd (.inl ?_) hnot
          rw [heid, ← hid, hrid]
          exact Summary.willReport_of_awaitsWrite ha.2
      · exact hsame hr
    · obtain ⟨r, hr, hrid, -, ⟨rfl, -⟩ | ⟨-, hnot⟩⟩ := hδ.commit_row ht'
      · exact hsame hr
      · rw [hunique r hr (hrid.trans hid'), hended] at hnot
        cases hnot

/-! ### Runs -/

/-- Both invariants hold along the runs in which no task ends during a progress request. -/
theorem terminalLast_of_runs
    (h : Runs (fun d m => endsDuringProgress d m = false) (observed http clock) s) :
    NoLateReport s ∧ ∀ i, TerminalLast s.config i := by
  refine h.invariant (I := fun s => NoLateReport s ∧ ∀ i, TerminalLast s.config i) ?_
    ⟨(fun e he => by cases he), (fun i e he => by cases he)⟩
  exact fun t m t' hrun ha hm ht => ⟨noLateReport_of_move hrun ha hm ht.1,
    fun i => terminalLast_of_move hrun ht.1 hm (ht.2 i)⟩

/-- A log that has its terminal event at the end does not grow. -/
theorem log_eq_of_terminalLast {δ : ℕ → Duty} (hδ : Ledger false c'.store δ)
    (hlast : TerminalLast c' i) (hgrows : c.store.log i <+: c'.store.log i) {e : TaskEventSelect}
    (he : e ∈ c.store.log i) (hterm : e.eventType.isTerminal = true) :
    c'.store.log i = c.store.log i := by
  obtain ⟨added, hadded⟩ := hgrows
  obtain ⟨before, hbefore⟩ := hlast e (hadded ▸ List.mem_append_left _ he) hterm
  rcases List.eq_nil_or_concat added with rfl | ⟨rest, f, rfl⟩
  · rw [← hadded, List.append_nil]
  · -- otherwise the terminal event would be in the log twice
    rw [List.concat_eq_append, ← List.append_assoc] at hadded
    have hf : f = e := List.singleton_inj.mp (List.append_inj' (hadded.trans hbefore) rfl).2
    have honce : (c'.store.log i).Pairwise NotBothTerminal := hδ.events_once.filter _
    rw [← hadded, List.append_assoc, List.pairwise_append] at honce
    have hne := e.ends_ne_none hterm
    exact absurd rfl (honce.2.2 e he e (by simp [hf]) hne hne)

/-- **The terminal event comes last.** In every run in which no terminal event is committed while
a progress request for its task is between its guard and the commit of its own event: the terminal
event of a task is the last of its log, and as long as the task keeps its row neither its progress
nor its log changes any more. -/
theorem terminal_event_last (http : HttpClient) (clock : Timestamp) (c c' : (proxy http).Config)
    (h : Reaches (fun d m => endsDuringProgress d m = false) (initial http clock) c)
    (h' : Reaches (fun d m => endsDuringProgress d m = false) c c') (i : String) :
    TerminalLast c i ∧ Untouched c c' i := by
  obtain ⟨γ, hγ, -⟩ := exists_observed h
  refine ⟨(terminalLast_of_runs hγ).2 i, ?_⟩
  rintro ⟨e, he, hterm⟩ t ht hid t' ht' hid'
  obtain ⟨γ', hγ'⟩ := exists_runs (D := discipline http) ⟨c, γ⟩ h'
  have hreach := h.mono fun _ _ _ => trivial
  have hissued : i ∈ c.store.issued := by
    obtain ⟨δ, hδ⟩ := ledger_of_reaches hreach
    exact hid ▸ hδ.issued t ht
  have hlater : ∀ s : (discipline http).Observed,
      Runs (fun d m => endsDuringProgress d m = false) ⟨c, γ⟩ s → s.config.store.HasRow i →
      c.store.log i <+: s.config.store.log i := fun s hs hrow =>
    ((log_of_reaches hreach (hs.reaches.mono fun _ _ _ => trivial) hissued).2 hrow).2
  have hprogress : t'.progress = t.progress := by
    refine hγ'.invariant (I := fun s : (discipline http).Observed =>
      ∀ u ∈ s.config.store.tasks, u.id = i → u.progress = t.progress) ?_ ?_ t' ht' hid'
    · intro s m s' hrun ha hm ih u hu huid
      have hruns : Runs (fun d m => endsDuringProgress d m = false) (observed http clock) s :=
        Relation.ReflTransGen.trans hγ hrun
      have hmid := hruns.reaches.mono fun _ _ _ => trivial
      obtain ⟨-, hrow⟩ := log_of_move hmid (Observed.config_move hm)
        (log_of_reaches hreach (hrun.reaches.mono fun _ _ _ => trivial) hissued).1
      obtain ⟨⟨r, hr, hrid⟩, -⟩ := hrow ⟨u, hu, huid⟩
      have hmem := (hlater s hrun ⟨r, hr, hrid⟩).subset he
      rw [progress_of_move hruns (terminalLast_of_runs hruns).1 hm hmem hterm hr hrid hu huid]
      exact ih r hr hrid
    · intro u hu huid
      obtain ⟨δ, hδ⟩ := ledger_of_reaches hreach
      rw [Table.eq_of_key_eq hδ.ids hu ht (huid.trans hid.symm)]
  obtain ⟨δ, hδ⟩ := ledger_of_reaches (hreach.trans (h'.mono fun _ _ _ => trivial))
  have hruns : Runs (fun d m => endsDuringProgress d m = false) (observed http clock) ⟨c', γ'⟩ :=
    Relation.ReflTransGen.trans hγ hγ'
  exact ⟨hprogress, log_eq_of_terminalLast hδ ((terminalLast_of_runs hruns).2 i)
    (hlater _ hγ' ⟨t', ht', hid'⟩) he hterm⟩

/-! ### Example runs -/

/-- The claimed task reports its progress, and then its executor completes it. -/
def reportedRun : List (proxy httpRetryService).Move :=
  completedRun.take 9 ++
    [.spawn (.progress sampleId (some "Bearer secret") sampleProgress), .call 2 {}, .call 2 {},
      .call 2 {}, .call 2 {}, .call 2 {}, .call 2 {}, .call 2 {},
      .spawn (.result sampleId (some "Bearer secret") (.completed [])),
      .call 3 {}, .call 3 { time := 2000 }, .call 3 {}, .call 3 {}, .call 3 {}, .call 3 {},
      .call 3 {}, .call 3 {}]

/-- The guard of a later progress request turns it away. -/
def refusedProgress : List (proxy httpRetryService).Move :=
  [.spawn (.progress sampleId (some "Bearer secret") sampleProgress), .call 4 {}]

theorem reportedRun_terminal_last :
    ∃ c c', Reaches (fun d m => endsDuringProgress d m = false) (initial httpRetryService 0) c ∧
      Reaches (fun d m => endsDuringProgress d m = false) c c' ∧
      (c.store.log sampleId).length = 2 ∧ TerminalLast c sampleId ∧ Untouched c c' sampleId := by
  obtain ⟨c, hc, hcheck⟩ : ∃ c,
      Reaches (fun d m => endsDuringProgress d m = false) (initial httpRetryService 0) c ∧
      ((c.store.log sampleId).length == 2 &&
        (c.replay (fun d m => !endsDuringProgress d m) refusedProgress).any
          Config.isQuiescent) = true :=
    exists_reaches_of_replay (fun d m => !endsDuringProgress d m) reportedRun _ (by simp)
      (by decide)
  simp only [Bool.and_eq_true, beq_iff_eq] at hcheck
  obtain ⟨hlen, hrefused⟩ := hcheck
  obtain ⟨c', hc', -⟩ : ∃ c', Reaches (fun d m => endsDuringProgress d m = false) c c' ∧
      c'.isQuiescent = true :=
    exists_reaches_of_replay (fun d m => !endsDuringProgress d m) refusedProgress _ (by simp)
      hrefused
  obtain ⟨hlast, huntouched⟩ := terminal_event_last httpRetryService 0 c c' hc hc' sampleId
  exact ⟨c, c', hc, hc', hlen, hlast, huntouched⟩

/-- A progress request that has passed the guard changes the task that has been completed. -/
theorem progress_after_terminal_event :
    ¬ ∀ (http : HttpClient) (clock : Timestamp) (c c' : (proxy http).Config),
      Reaches (fun _ _ => True) (initial http clock) c → Reaches (fun _ _ => True) c c' →
      ∀ i, TerminalLast c i ∧ Untouched c c' i := by
  intro h
  obtain ⟨c, hc, hcheck⟩ : ∃ c, Reaches (fun _ _ => True) (initial httpRetryService 0) c ∧
      ((c.store.log sampleId).any (fun e => e.eventType.isTerminal) &&
        c.store.tasks.any (fun t => t.id == sampleId && t.progress == 0) &&
        (c.replay (fun _ _ => true) lateProgress).any fun c' =>
          c'.store.tasks.any fun t => t.id == sampleId && t.progress == 50) = true :=
    exists_reaches_of_replay (fun _ _ => true) completedRun _ (fun _ _ _ => trivial) (by decide)
  simp only [Bool.and_eq_true, List.any_eq_true, beq_iff_eq] at hcheck
  obtain ⟨⟨hterm, t, ht, hid, hp⟩, hlate⟩ := hcheck
  obtain ⟨c', hc', hcheck'⟩ := exists_reaches_of_replay (fun _ _ => true) lateProgress _
    (fun _ _ _ => trivial) hlate
  simp only [List.any_eq_true, Bool.and_eq_true, beq_iff_eq] at hcheck'
  obtain ⟨t', ht', hid', hp'⟩ := hcheck'
  obtain ⟨hprogress, -⟩ := (h _ _ c c' hc hc' sampleId).2 hterm t ht hid t' ht' hid'
  rw [hp, hp'] at hprogress
  exact absurd hprogress (by decide)

end LongRequestProxy
