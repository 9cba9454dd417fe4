import LongRequestProxy.Delivery.TerminalEvents
import LongRequestProxy.Tasks.Rows

/-!
# How tasks end

A task ends once, its outcome is frozen while its row exists, and its event log holds at most one
terminal event. Without faults every ended task has its terminal event once all operations have
returned, except the tasks that a dispatch failure has ended: that write has no event.

## Main results

* `task_ends_once`: the first part, for all runs.
* `terminal_event_of_no_dispatch_failure`: the second part.
* `dispatch_failure_has_no_event`: a run in which an ended task has no terminal event.
-/

namespace LongRequestProxy

open Async Service Function

variable {http : HttpClient} {clock : Timestamp}

/-! ### The runs that the ledgers cover -/

/-- No crash, and no call throws. -/
def faultFree (c : (proxy http).Config) (m : (proxy http).Move) : Bool :=
  match m with
  | .crash _ => false
  | m =>
    match c.callOf m with
    | some (p, o, x) =>
      match perform p o c.store x with
      | some (.error _, _) => false
      | _ => true
    | none => true

/-- The move records the failure of a dispatch, and its task is `PROCESSING`. -/
def recordsDispatchFailure (c : (proxy http).Config) (m : (proxy http).Move) : Bool :=
  makesWrite TaskWrite.isDispatchFailure c m

/-- A program that has returned has no duty. -/
def noDuty (_ : Request) (_ : Except JsError Response) (d : Duty) (_ : Backend) : Prop := d = {}

theorem keepsLedger_body {strict : Bool} (req : Request) (s : Backend) :
    (ledgerProtocol http strict).wp (req.run http).run (noDuty req) {} s := by
  refine Protocol.wp_mono (keepsLedger_run req s) fun r d s hd => ?_
  cases r with
  | ok a => exact hd
  | error e => exact hd

theorem ledger_ambient {strict : Bool} {σ σ' : Backend} {t : Timestamp} {γ : ℕ → Duty}
    (h : Ledger strict σ γ) (ht : σ.tick t = some σ') : Ledger strict σ' γ := by
  unfold Backend.tick at ht
  split at ht
  · cases ht
    exact h.of_frame rfl rfl rfl rfl
  · cases ht

/-- The plain ledger holds in all runs. -/
theorem ledger_covers :
    (ledgerProtocol http false).Covers noDuty fun _ _ => True where
  body _ req _ _ s := keepsLedger_body req s
  calls _ _ _ _ _ _ _ _ hs := by cases hs
  crash c p γ _ h := Ledger.rollback h p
  ambient _ _ _ _ _ h ht := ledger_ambient h.inv ht

theorem ledger_of_reaches {c : (proxy http).Config}
    (h : Reaches (fun _ _ => True) (initial http clock) c) : ∃ γ, Ledger false c.store γ := by
  obtain ⟨γ, hγ⟩ := ledger_covers.reaches (Protocol.Good.of_no_procs (Ledger.initial clock)) h
  exact ⟨γ, hγ.inv⟩

theorem perform_ne_error_of_faultFree {c : (proxy http).Config} {p : ℕ} {o : Oracle}
    {x : Await} (hx : c.callOf (.call p o) = some (p, o, x))
    (hf : faultFree c (.call p o) = true) (e : JsError) (σ' : Backend) :
    perform p o c.store x ≠ some (.error e, σ') := by
  intro hp
  simp [faultFree, hx, hp] at hf

/-- The strict ledger holds in the runs without faults and recorded dispatch failures. -/
theorem strictLedger_covers :
    (ledgerProtocol http true).Covers noDuty
      fun d m => faultFree d m = true ∧ recordsDispatchFailure d m = false where
  body _ req _ _ s := keepsLedger_body req s
  calls := by
    rintro c p o req x k ⟨hf, hw⟩ hp -
    have hx : c.callOf (.call p o) = some (p, o, x) := Config.callOf_eq_some.mpr ⟨rfl, req, k, hp⟩
    have hne := perform_ne_error_of_faultFree hx hf
    refine ⟨hne, ?_⟩
    rintro id w rfl hfail t ht rfl
    by_contra hm
    have hfault : o.fault ≠ .failed := fun hfault =>
      hne .unavailable (c.store.rollback p) (by simp [perform, Await.isRemote, hfault])
    have hwrites : recordsDispatchFailure c (.call p o) = true :=
      makesWrite_iff.mpr ⟨p, o, w, t, ht, hx, hfail, hfault, by simpa using hm⟩
    rw [hw] at hwrites
    cases hwrites
  crash := by
    rintro c p γ ⟨hf, -⟩
    cases hf
  ambient _ _ _ _ _ h ht := ledger_ambient h.inv ht

/-! ### What one step does to a row -/

/-- Where a row comes from: it was there before, an INSERT or an UPDATE has made it, or a
transaction that has ended the task was committed. -/
theorem row_cases_of_exec {strict : Bool} {p : ℕ} {o : Oracle} {σ σ' : Backend} {γ : ℕ → Duty}
    {c : Await} {v : c.Val} (hσ : Ledger strict σ γ) (h : exec p o σ c = some (.ok (v, σ')))
    {t' : TaskSelect} (ht' : t' ∈ σ'.tasks) :
    t' ∈ σ.tasks ∨
    (t'.id ∉ σ.issued ∧ t'.id ∈ σ'.issued ∧ ∃ (dto : CreateTaskDto) (now : Timestamp)
      (token id : String) (createdAt : Timestamp), t' = (dto.values now token).row id createdAt) ∨
    (∃ w, c = .updateTask t'.id w ∧
      ∃ t ∈ σ.tasks, t.id = t'.id ∧ w.Matches t = true ∧ t' = w.apply t) ∨
    (t'.status.isTerminal = true ∧
      ∃ t ∈ σ.tasks, t.id = t'.id ∧ t.status.isTerminal = false) := by
  obtain ⟨ht, -⟩ | ⟨dto, now, token, -, hnew, ht, hi⟩ | ⟨id, -, ht, -⟩ | ⟨id, w, rfl, ht, -⟩ |
    ⟨-, rfl⟩ := exec_tasks_cases h
  · exact .inl (ht ▸ ht')
  · rw [ht] at ht'
    rcases List.mem_append.mp ht' with hmem | hmem
    · exact .inl hmem
    · obtain rfl := List.mem_singleton.mp hmem
      exact .inr (.inl ⟨hnew, hi ▸ List.mem_cons_self, dto, now, token, _, _, rfl⟩)
  · rw [ht] at ht'
    exact .inl (List.mem_filter.mp ht').1
  · rw [ht] at ht'
    obtain ⟨t, hmem, ⟨hw, rfl⟩ | ⟨-, rfl⟩⟩ := Table.mem_update.mp ht'
    · obtain ⟨rfl, hm, hset⟩ := TaskWrite.of_where hw
      have hid : (w.apply t).id = t.id := w.apply_id t
      rw [hset, hid]
      exact .inr (.inr (.inl ⟨w, rfl, t, hmem, rfl, hm, rfl⟩))
    · exact .inl hmem
  · obtain ⟨t, hmem, hid, -, ⟨rfl, -⟩ | ⟨hwritten, hopen⟩⟩ := hσ.commit_row ht'
    · exact .inl hmem
    · exact .inr (.inr (.inr ⟨((hσ.valid p).written t' hwritten).1, t, hmem, hid, hopen⟩))

theorem row_cases_of_move {strict : Bool} {c c' : (proxy http).Config} {m : (proxy http).Move}
    {γ : ℕ → Duty} (hc : Ledger strict c.store γ) (hm : c.move m = some c') {t' : TaskSelect}
    (ht' : t' ∈ c'.store.tasks) :
    t' ∈ c.store.tasks ∨
    (t'.id ∉ c.store.issued ∧ t'.id ∈ c'.store.issued ∧ ∃ (dto : CreateTaskDto) (now : Timestamp)
      (token id : String) (createdAt : Timestamp), t' = (dto.values now token).row id createdAt) ∨
    (∃ p o w, c.callOf m = some (p, o, .updateTask t'.id w) ∧ o.fault ≠ .failed ∧
      ∃ t ∈ c.store.tasks, t.id = t'.id ∧ w.Matches t = true ∧ t' = w.apply t) ∨
    (t'.status.isTerminal = true ∧
      ∃ t ∈ c.store.tasks, t.id = t'.id ∧ t.status.isTerminal = false) := by
  obtain ⟨time, hσ⟩ | ⟨p, hσ⟩ | ⟨p, o, req, x, k, v, σ, rfl, hp, hf, hx, hσ⟩ :=
    store_cases_of_move hm
  · rw [hσ] at ht'
    exact .inl ht'
  · rw [hσ] at ht'
    exact .inl ht'
  · have hmem : t' ∈ σ.tasks := by
      obtain hσ | hσ := hσ <;> rw [hσ] at ht' <;> exact ht'
    have hissued : c'.store.issued = σ.issued := by
      obtain hσ | hσ := hσ <;> rw [hσ]
      rfl
    obtain hold | ⟨hnew, hi, hrow⟩ | ⟨w, rfl, hrow⟩ | hended := row_cases_of_exec hc hx hmem
    · exact .inl hold
    · exact .inr (.inl ⟨hnew, hissued ▸ hi, hrow⟩)
    · exact .inr (.inr (.inl ⟨p, o, w, Config.callOf_eq_some.mpr ⟨rfl, req, k, hp⟩, hf rfl, hrow⟩))
    · exact .inr (.inr (.inr hended))

/-- What a row of a later state can be: a version of an earlier row that keeps its outcome if the
task had ended, or a new row. -/
def RowStep (σ σ' : Backend) (t' : TaskSelect) : Prop :=
  (∃ t ∈ σ.tasks, t.id = t'.id ∧ (t.status.isTerminal = true → SameOutcome t t')) ∨
    t'.id ∉ σ.issued ∧ t'.status = .pending ∧ t'.id ∈ σ'.issued

/-- What one move does to the rows. -/
theorem rowStep_of_move {strict : Bool} {c c' : (proxy http).Config} {m : (proxy http).Move}
    {γ : ℕ → Duty} (hc : Ledger strict c.store γ) (hm : c.move m = some c') :
    c.store.issued ⊆ c'.store.issued ∧ ∀ t' ∈ c'.store.tasks, RowStep c.store c'.store t' := by
  refine ⟨issued_subset_of_move hm, fun t' ht' => ?_⟩
  obtain hold | ⟨hnew, hi, dto, now, token, id, createdAt, rfl⟩ |
    ⟨p, o, w, -, -, t, ht, hid, hmatch, rfl⟩ | ⟨-, t, ht, hid, hopen⟩ := row_cases_of_move hc hm ht'
  · exact .inl ⟨t', hold, rfl, fun _ => .refl t'⟩
  · exact .inr ⟨hnew, rfl, hi⟩
  · exact .inl ⟨t, ht, hid, TaskWrite.sameOutcome_of_isTerminal hmatch⟩
  · exact .inl ⟨t, ht, hid, fun hterm => by rw [hopen] at hterm; cases hterm⟩

/-- **Frozen outcomes.** Along every run the row of an ended task keeps its outcome. -/
theorem sameOutcome_of_reaches {c c' : (proxy http).Config}
    (hc : Reaches (fun _ _ => True) (initial http clock) c)
    (h : Reaches (fun _ _ => True) c c') {t : TaskSelect} (ht : t ∈ c.store.tasks)
    (hterm : t.status.isTerminal = true) :
    t.id ∈ c'.store.issued ∧ ∀ t' ∈ c'.store.tasks, t'.id = t.id → SameOutcome t t' := by
  induction h with
  | refl =>
    obtain ⟨γ, hγ⟩ := ledger_of_reaches hc
    refine ⟨hγ.issued t ht, fun t' ht' hid => ?_⟩
    rw [Table.eq_of_key_eq hγ.ids ht' ht hid]
  | tail hreach hstep ih =>
    obtain ⟨m, -, hm⟩ := hstep
    obtain ⟨hissued, hsame⟩ := ih
    obtain ⟨γ, hγ⟩ := ledger_of_reaches (hc.trans hreach)
    obtain ⟨hsub, hrows⟩ := rowStep_of_move hγ hm
    refine ⟨hsub hissued, fun t' ht' hid => ?_⟩
    obtain ⟨u, hu, huid, hout⟩ | ⟨hnew, -⟩ := hrows t' ht'
    · have htu := hsame u hu (huid.trans hid)
      exact htu.trans (hout (htu.status ▸ hterm))
    · exact absurd (hid ▸ hissued) hnew

/-- The task `id` has a row, and it is in a terminal status. -/
def HasEnded (c : (proxy http).Config) (id : String) : Prop :=
  ∃ t ∈ c.store.tasks, t.id = id ∧ t.status.isTerminal = true

/-- A task that has ended after a move, and not before, had a row that had not ended. -/
theorem row_of_not_hasEnded {c c' : (proxy http).Config} {m : (proxy http).Move} {γ : ℕ → Duty}
    {id : String} (hc : Ledger false c.store γ) (hm : c.move m = some c')
    (hbefore : ¬ HasEnded c id) (hafter : HasEnded c' id) :
    ∃ t ∈ c.store.tasks, t.id = id ∧ t.status.isTerminal = false := by
  obtain ⟨t', ht', hid, hterm⟩ := hafter
  obtain ⟨t, ht, htid, -⟩ | ⟨-, hpending, -⟩ := (rowStep_of_move hc hm).2 t' ht'
  · refine ⟨t, ht, htid.trans hid, ?_⟩
    by_contra hne
    exact hbefore ⟨t, ht, htid.trans hid, by simpa using hne⟩
  · rw [hpending] at hterm
    cases hterm

/-! ### The results -/

/-- The terminal events of a task. -/
def terminalEvents (σ : Backend) (id : String) : List TaskEventSelect :=
  σ.events.filter fun e => e.taskId == id && e.eventType.isTerminal

theorem mem_terminalEvents {σ : Backend} {id : String} {e : TaskEventSelect} :
    e ∈ terminalEvents σ id ↔ e ∈ σ.events ∧ e.taskId = id ∧ e.ends ≠ none := by
  simp [terminalEvents, TaskEventType.isTerminal, TaskEventSelect.ends,
    Option.isSome_iff_ne_none]

/-- The event log of a task holds at most one terminal event. -/
theorem terminalEvents_length_le_one {strict : Bool} {σ : Backend} {γ : ℕ → Duty}
    (h : Ledger strict σ γ) (id : String) : (terminalEvents σ id).length ≤ 1 := by
  have hpair : (terminalEvents σ id).Pairwise NotBothTerminal :=
    h.events_once.sublist List.filter_sublist
  cases hl : terminalEvents σ id with
  | nil => simp
  | cons e es =>
    cases es with
    | nil => simp
    | cons e' es =>
      have he := mem_terminalEvents.mp (hl ▸ List.mem_cons_self : e ∈ terminalEvents σ id)
      have he' := mem_terminalEvents.mp
        (hl ▸ List.mem_cons_of_mem _ List.mem_cons_self : e' ∈ terminalEvents σ id)
      rw [hl, List.pairwise_cons] at hpair
      exact absurd (he.2.1.trans he'.2.1.symm)
        (hpair.1 e' List.mem_cons_self he.2.2 he'.2.2)

/-- **Tasks end once.** In every run no task enters a terminal status twice; while the row of an
ended task exists its outcome does not change; and the event log of a task holds at most one
terminal event, of the type of its status. -/
theorem task_ends_once (http : HttpClient) (clock : Timestamp) (c : (proxy http).Config)
    (hc : Reaches (fun _ _ => True) (initial http clock) c) :
    (∀ id c₁ c₂ c₃, Moves (fun _ _ => True) c c₁ → Reaches (fun _ _ => True) c₁ c₂ →
      Moves (fun _ _ => True) c₂ c₃ → ¬ HasEnded c id → HasEnded c₁ id → ¬ HasEnded c₂ id →
      ¬ HasEnded c₃ id) ∧
    (∀ c', Reaches (fun _ _ => True) c c' → ∀ t ∈ c.store.tasks, t.status.isTerminal = true →
      ∀ t' ∈ c'.store.tasks, t'.id = t.id → SameOutcome t t') ∧
    (∀ id, (terminalEvents c.store id).length ≤ 1) ∧
    ∀ t ∈ c.store.tasks, ∀ e ∈ terminalEvents c.store t.id, e.eventType.ends = some t.status := by
  obtain ⟨γ, hγ⟩ := ledger_of_reaches hc
  refine ⟨?_, fun c' h t ht hterm => (sameOutcome_of_reaches hc h ht hterm).2,
    terminalEvents_length_le_one hγ, fun t ht e he => ?_⟩
  · rintro id c₁ c₂ c₃ h₁ h₂ ⟨m, -, hm⟩ - ⟨t, ht, hid, hterm⟩ hnot hend
    have hc₁ := hc.tail h₁
    have hc₂ := Relation.ReflTransGen.trans hc₁ h₂
    obtain ⟨γ₂, hγ₂⟩ := ledger_of_reaches hc₂
    obtain ⟨u, hu, huid, hunot⟩ := row_of_not_hasEnded hγ₂ hm hnot hend
    have hout := (sameOutcome_of_reaches hc₁ h₂ ht hterm).2 u hu (huid.trans hid.symm)
    rw [hout.status, hterm] at hunot
    cases hunot
  · obtain ⟨hmem, hid, hne⟩ := mem_terminalEvents.mp he
    obtain ⟨s, hs⟩ := Option.ne_none_iff_exists'.mp hne
    rw [hγ.events_match e hmem s hs t ht hid.symm]
    exact hs

/-- **Every ended task has its event.** In a run without faults in which no dispatch failure is
recorded, when no operation is in flight every ended task has exactly one terminal event, of the
type of its status. -/
theorem terminal_event_of_no_dispatch_failure (http : HttpClient) (clock : Timestamp)
    (c : (proxy http).Config)
    (hc : Reaches (fun d m => faultFree d m = true ∧ recordsDispatchFailure d m = false)
      (initial http clock) c) (hquiet : c.Quiescent) (t : TaskSelect) (ht : t ∈ c.store.tasks)
    (hterm : t.status.isTerminal = true) :
    ∃ e, terminalEvents c.store t.id = [e] ∧ e.eventType.ends = some t.status := by
  obtain ⟨γ, hγ⟩ :=
    strictLedger_covers.reaches (Protocol.Good.of_no_procs (Ledger.initial clock)) hc
  have hledger : Ledger true c.store γ := hγ.inv
  obtain ⟨e, he, hid, hes⟩ | ⟨p, hp⟩ := hledger.complete rfl t ht hterm
  · have hmem : e ∈ terminalEvents c.store t.id :=
      mem_terminalEvents.mpr ⟨he, hid, by simp [hes]⟩
    have hlen := terminalEvents_length_le_one hledger t.id
    obtain ⟨e', hl⟩ := List.length_eq_one_iff.mp
      (Nat.le_antisymm hlen (List.length_pos_of_mem hmem))
    rw [hl, List.mem_singleton] at hmem
    exact ⟨e', hl, hmem ▸ hes⟩
  · -- a program that owes an event has not returned
    have hbusy : γ p ≠ (ledgerProtocol http true).idle := by
      intro hidle
      rw [hidle] at hp
      cases hp
    obtain hflight | ⟨req, a, s, -, hpost⟩ := hγ.inFlight_or_returned hbusy hbusy
    · exact absurd hflight (hquiet p)
    · exact absurd hpost hbusy

/-! ### Example runs -/

/-- A task is created and dispatched; a progress request passes the guard, then the executor
completes the task, and the progress is written last. -/
def completedRun : List (proxy httpRetryService).Move :=
  [.spawn (.create sampleDto "http://proxy"), .call 0 {}, .call 0 { uuid := fun _ => "secret" },
    .call 0 { uuid := fun _ => sampleId }, .call 0 {},
    .spawn (.dispatch sampleId 300), .call 1 { time := 1000 }, .call 1 {}, .call 1 {},
    .spawn (.progress sampleId (some "Bearer secret") sampleProgress), .call 2 {},
    .spawn (.result sampleId (some "Bearer secret") (.completed [])),
    .call 3 {}, .call 3 { time := 2000 }, .call 3 {}, .call 3 {}, .call 3 {}, .call 3 {},
    .call 3 {}, .call 3 {}]

/-- The calls that are left to the progress request. -/
def lateProgress : List (proxy httpRetryService).Move :=
  [.call 2 {}, .call 2 {}, .call 2 {}, .call 2 {}, .call 2 {}, .call 2 {}]

/-- The late progress request changes the row of the completed task, but not its outcome. -/
theorem completedRun_ends_once :
    ∃ c c' t t', Reaches (fun _ _ => True) (initial httpRetryService 0) c ∧
      Reaches (fun _ _ => True) c c' ∧ t ∈ c.store.tasks ∧ t' ∈ c'.store.tasks ∧
      t.progress ≠ t'.progress ∧ SameOutcome t t' ∧
      (terminalEvents c'.store t'.id).length ≤ 1 := by
  obtain ⟨c, hc, hcheck⟩ : ∃ c, Reaches (fun _ _ => True) (initial httpRetryService 0) c ∧
      ((c.store.tasks.any fun t => t.id == sampleId && t.status == .completed && t.progress == 0) &&
        (c.replay (fun _ _ => true) lateProgress).any fun c' =>
          c'.store.tasks.any fun t => t.id == sampleId && t.progress == 50) = true :=
    exists_reaches_of_replay (fun _ _ => true) completedRun _ (fun _ _ _ => trivial) (by decide)
  simp only [Bool.and_eq_true, List.any_eq_true, beq_iff_eq] at hcheck
  obtain ⟨⟨t, ht, ⟨hid, hs⟩, hp⟩, hlate⟩ := hcheck
  obtain ⟨c', hc', hcheck'⟩ := exists_reaches_of_replay (fun _ _ => true) lateProgress _
    (fun _ _ _ => trivial) hlate
  simp only [List.any_eq_true, Bool.and_eq_true, beq_iff_eq] at hcheck'
  obtain ⟨t', ht', hid', hp'⟩ := hcheck'
  have hout := (task_ends_once httpRetryService 0 c hc).2.1 c' hc' t ht (by rw [hs]; rfl) t' ht'
    (hid'.trans hid.symm)
  exact ⟨c, c', t, t', hc, hc', ht, ht', by rw [hp, hp']; decide, hout,
    (task_ends_once httpRetryService 0 c' (hc.trans hc')).2.2.1 t'.id⟩

/-- The run has no faults, and its completed task has its event. -/
theorem completedRun_has_event :
    ∃ c t e, Reaches (fun d m => faultFree d m = true ∧ recordsDispatchFailure d m = false)
        (initial httpRetryService 0) c ∧ c.Quiescent ∧ t ∈ c.store.tasks ∧
      t.status = .completed ∧ terminalEvents c.store t.id = [e] ∧
      e.eventType.ends = some .completed := by
  obtain ⟨c, hc, hcheck⟩ : ∃ c,
      Reaches (fun d m => faultFree d m = true ∧ recordsDispatchFailure d m = false)
        (initial httpRetryService 0) c ∧
      (c.isQuiescent && c.store.tasks.any fun t => t.status == .completed) = true :=
    exists_reaches_of_replay (fun d m => faultFree d m && !recordsDispatchFailure d m)
      (completedRun ++ lateProgress) _ (by simp) (by decide)
  simp only [Bool.and_eq_true, List.any_eq_true, beq_iff_eq] at hcheck
  obtain ⟨hquiet, t, ht, hs⟩ := hcheck
  have hquiet := Config.isQuiescent_iff.mp hquiet
  obtain ⟨e, hev, hends⟩ :=
    terminal_event_of_no_dispatch_failure httpRetryService 0 c hc hquiet t ht (by rw [hs]; rfl)
  exact ⟨c, t, e, hc, hquiet, ht, hs, hev, by rw [hends, hs]⟩

/-- A task is created and claimed, and the executor answers 404: the task is recorded `FAILED`. -/
def rejectedRun : List (proxy httpRetryService).Move :=
  [.spawn (.create sampleDto "http://proxy"), .call 0 {}, .call 0 {},
    .call 0 { uuid := fun _ => sampleId }, .call 0 {},
    .spawn (.dispatch sampleId 300), .call 1 { time := 1000 }, .call 1 {},
    .call 1 { http := .error { status := some 404, message := "Not Found" } },
    .call 1 { time := 2000 }, .call 1 {}]

/-- All operations of the run have returned without a fault, and the failed task has no event. -/
theorem dispatch_failure_has_no_event :
    ¬ ∀ (http : HttpClient) (clock : Timestamp) (c : (proxy http).Config),
      Reaches (fun d m => faultFree d m = true) (initial http clock) c → c.Quiescent →
      ∀ t ∈ c.store.tasks, t.status.isTerminal = true →
        ∃ e, terminalEvents c.store t.id = [e] ∧ e.eventType.ends = some t.status := by
  intro h
  obtain ⟨c, hc, hcheck⟩ : ∃ c,
      Reaches (fun d m => faultFree d m = true) (initial httpRetryService 0) c ∧
      (c.isQuiescent && c.store.events.isEmpty &&
        c.store.tasks.any fun t => t.status.isTerminal) = true :=
    exists_reaches_of_replay (fun d m => faultFree d m) rejectedRun _ (by simp) (by decide)
  simp only [Bool.and_eq_true, List.any_eq_true, List.isEmpty_iff] at hcheck
  obtain ⟨⟨hquiet, hev⟩, t, ht, hterm⟩ := hcheck
  obtain ⟨e, he, -⟩ := h _ _ c hc (Config.isQuiescent_iff.mp hquiet) t ht hterm
  simp [terminalEvents, hev] at he

end LongRequestProxy
