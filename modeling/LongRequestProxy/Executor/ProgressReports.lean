import LongRequestProxy.Executor.Answers
import LongRequestProxy.Executor.Recordings

/-!
# The progress column and the progress events

`ExecutorService.updateProgress` writes the progress of a task twice: into the column of its row,
and then in another transaction as an event. Nothing keeps two requests from doing this side by
side, or a request from ending between its writes. The column and the latest event agree unless the
request whose value the column has commits its event before another one, or not at all.

## Main definitions

* `Backend.latestProgress`: the value of the latest progress event.
* `pendingReport`: what a request has written to the column and not yet committed as an event.
* `unsettles`: the moves after which the value of the column will not be that of the latest event.

## Main results

* `free_of_runs`: numbers that are read under the lock of a task are free until the task ends.
* `progress_points`: the points of a progress request.
* `backed_of_runs`: the value of the column is that of the latest event, or is about to be.
* `progress_agrees`: without such moves column and log agree when no report is pending.
* `overlapping_reports_disagree`: two requests after which they do not.
-/

namespace LongRequestProxy

open Async Service Discipline Function

variable {http : HttpClient} {clock : Timestamp}
  {allow : (proxy http).Config → (proxy http).Move → Prop}

/-! ### Free numbers -/

/-- The task has a row that has not ended. -/
def IsOpen (σ : Backend) (i : String) : Prop :=
  ∃ t ∈ σ.tasks, t.id = i ∧ t.status.isTerminal = false

section Free

variable {s s' : (discipline http).Observed} {m : (proxy http).Move} {i : String}

theorem isOpen_of_move (h : Runs allow (observed http clock) s) (hm : s.move m = some s')
    (hi : i ∈ s.config.store.issued) (hopen : IsOpen s'.config.store i) :
    IsOpen s.config.store i := by
  obtain ⟨δ, hδ⟩ := ledger_of_reaches (h.reaches.mono fun _ _ _ => trivial)
  obtain ⟨t', ht', rfl, hopen⟩ := hopen
  obtain ⟨t, ht, hid, hsame⟩ | ⟨hnew, -⟩ :=
    (rowStep_of_move hδ (Observed.config_move hm)).2 t' ht'
  · refine ⟨t, ht, hid, ?_⟩
    by_contra hterm
    have hterm := Bool.eq_true_of_not_eq_false hterm
    rw [(hsame hterm).status, hterm] at hopen
    cases hopen
  · exact absurd hi hnew

/-- The commit of a transaction that has updated the row of a task ends the task. -/
theorem not_isOpen_of_commit (h : Runs allow (observed http clock) s) (hm : s.move m = some s')
    {p : ℕ} {o : Oracle} (hcall : s.config.callOf m = some (p, o, .txCommit))
    (hf : o.fault ≠ .failed) (hrow : i ∈ (s.locals p).tx.rows) : ¬ IsOpen s'.config.store i := by
  obtain ⟨δ, hδ⟩ := ledger_of_reaches (h.reaches.mono fun _ _ _ => trivial)
  have hstore : s'.config.store.tasks = (s.config.store.commit p).tasks := by
    obtain hσ | hσ := store_of_commit (Observed.config_move hm) hcall hf <;> rw [hσ]
    rfl
  rintro ⟨t, ht, rfl, hopen⟩
  rw [hstore] at ht
  rw [← ((tracked_of_runs h).tracks p).rows] at hrow
  rw [hδ.isTerminal_of_commit ht hrow] at hopen
  cases hopen

/-- The numbers that functions have read under the lock of an open task are free. -/
def FreeNumbers (s : (discipline http).Observed) : Prop :=
  ∀ p, ∀ y ∈ (s.locals p).tx.numbers, y.1 ∈ (s.locals p).tx.locks → IsOpen s.config.store y.1 →
    ∀ e ∈ s.config.store.events, e.taskId = y.1 → e.seq ≠ y.2

/-- A reply gives a function a number under a lock, or leaves it with those that it had. -/
theorem Summary.numbers_cases {w : Summary} {req : Request} {x : Await} {r : Reply x}
    {y : String × ℤ} (ha : w.Awaits req x) (hy : y ∈ (w.next x r).tx.numbers)
    (hlock : y.1 ∈ (w.next x r).tx.locks) :
    (y ∈ w.tx.numbers ∧ y.1 ∈ w.tx.locks ∧ x ≠ .txCommit) ∨
      ∃ id seq, x = .txNextSeq id ∧ HEq r (.ok seq : Reply (.txNextSeq id)) ∧ y = (id, seq) := by
  cases r with
  | error e => cases hy
  | ok v =>
    cases x with
    | txNextSeq id => exact .inr ⟨id, v, rfl, .rfl, List.mem_singleton.mp hy⟩
    | txAdvisoryLock id =>
      obtain ⟨_, -, -, htx⟩ := ha
      have hnone : w.tx.numbers = [] := by rw [htx]
      exact absurd (hnone ▸ hy) List.not_mem_nil
    | txNumberExpiryEvents ids =>
      obtain ⟨-, htx, -⟩ := ha
      have hnone : w.tx.locks = [] := by rw [htx]
      exact absurd (hnone ▸ hlock) List.not_mem_nil
    | txCommit => cases hy
    | txInsertEvent seq input => cases hy
    | txInsertExpiryEvents events => cases hy
    | updateTask id write => cases write <;> exact .inl ⟨hy, hlock, by simp⟩
    | txCancelTask id now => cases v <;> exact .inl ⟨hy, hlock, by simp⟩
    | _ => exact .inl ⟨hy, hlock, by simp⟩

/-- While a function holds the lock of a task, only a transaction that ends the task can commit an
event of it. -/
theorem eq_of_new_event (h : Runs allow (observed http clock) s) (hm : s.move m = some s') {p : ℕ}
    {e : TaskEventSelect} (hlock : e.taskId ∈ (s.locals p).tx.locks)
    (hopen : IsOpen s'.config.store e.taskId) (he : e ∈ s'.config.store.events)
    (hnew : e ∉ s.config.store.events) : ∃ o, s.config.callOf m = some (p, o, .txCommit) := by
  obtain ⟨q, o, hcall, hf, hmem⟩ := committed_of_new_event (Observed.config_move hm) he hnew
  rw [((tracked_of_runs h).tracks q).events] at hmem
  by_cases hqp : q = p
  · subst hqp
    exact ⟨o, hcall⟩
  · obtain hheld | hrow := (guards_of_runs h q).events e hmem
    · exact absurd hlock (locksApart_of_runs h hqp hheld)
    · exact absurd hopen (not_isOpen_of_commit h hm hcall hf hrow)

theorem freeNumbers_of_move (h : Runs allow (observed http clock) s) (hm : s.move m = some s')
    (hs : FreeNumbers s) : FreeNumbers s' := by
  intro p y hy hlock hopen e he hid
  have htracked := tracked_of_runs h
  -- a number that the function had before
  have hold : y ∈ (s.locals p).tx.numbers → y.1 ∈ (s.locals p).tx.locks →
      (∀ o, s.config.callOf m ≠ some (p, o, .txCommit)) → e.seq ≠ y.2 := by
    intro hy hlock hne
    by_cases hmem : e ∈ s.config.store.events
    · exact hs p y hy hlock (isOpen_of_move h hm (htracked.number_issued hy) hopen) e hmem hid
    · rw [← hid] at hlock hopen
      obtain ⟨o, hcall⟩ := eq_of_new_event h hm hlock hopen he hmem
      exact absurd hcall (hne o)
  obtain ⟨heq, hnone⟩ | ⟨o, req, x, k, r, rfl, hp, hx, heq⟩ | ⟨-, heq⟩ := Observed.locals_cases hm p
  · rw [heq] at hy hlock
    exact hold hy hlock fun o => hnone o _
  · rw [heq] at hy hlock
    have ha : (s.locals p).Awaits req x := (obeys_of_runs h).awaits hp
    obtain ⟨hy, hlock, hne⟩ | ⟨id, seq, rfl, hr, rfl⟩ := Summary.numbers_cases ha hy hlock
    · refine hold hy hlock fun o' hcall => ?_
      obtain ⟨-, _, _, hp'⟩ := Config.callOf_eq_some.mp hcall
      rw [hp] at hp'
      cases hp'
      exact hne rfl
    · obtain rfl := eq_of_heq hr
      obtain ⟨_, -, -, htx⟩ := ha
      have hx := exec_of_perform_ok hx
      have hsame : s'.config.store.events = s.config.store.events := by
        obtain hev | ⟨hcommit, -⟩ := exec_events_cases hx
        · exact hev
        · cases hcommit
      rw [hsame, ← htracked.committedEvents_eq (congrArg OpenTx.events htx)
        (congrArg OpenTx.cleared htx)] at he
      have hle := Backend.le_maxSeq he hid
      have hseq : s.config.store.maxSeq p id + 1 = seq := by
        simp only [exec, Option.some.injEq, Except.ok.injEq, Prod.mk.injEq] at hx
        exact hx.1
      rw [← hseq]
      exact Int.ne_of_lt (Int.lt_add_one_of_le hle)
  · rw [heq] at hy
    cases hy

/-- **Numbers stay free.** Only the end of a task takes a number away from a function that has read
it under the lock. -/
theorem free_of_runs (h : Runs allow (observed http clock) s) : FreeNumbers s :=
  h.invariant (fun _ _ _ hrun _ hm ht => freeNumbers_of_move hrun hm ht)
    fun p y hy => by cases hy

end Free

/-! ### The points of a progress request -/

/-- What holds at a point of a progress request. -/
inductive ProgressPoint (id : String) (dto : UpdateProgressDto) (log : History) :
    Prog Await Reply (Except JsError Response) → Prop
  | ret (a : Except JsError Response) : ProgressPoint id dto log (.ret a)
  /-- The read of the guard, and the publication. -/
  | quiet {x : Await} {k : Reply x → Prog Await Reply (Except JsError Response)}
      (hwrite : ∀ i n, x ≠ .updateTask i (.progress n)) (hevent : x.isEventStep = false) :
      ProgressPoint id dto log (.call x k)
  /-- The UPDATE. -/
  | update {k : Reply (.updateTask id (.progress dto.progress)) →
        Prog Await Reply (Except JsError Response)}
      (hnext : ∀ v, ∃ y k', k (.ok v) = .call y k' ∧ y.isEventStep = true) :
      ProgressPoint id dto log (.call _ k)
  /-- A call of the transaction of the event. -/
  | event {x : Await} {k : Reply x → Prog Await Reply (Except JsError Response)}
      (hx : x.isEventStep = true)
      (hnext : x ≠ .txCommit → ∀ v, ∃ y k', k (.ok v) = .call y k' ∧ y.isEventStep = true)
      (hinsert : ∀ seq input, x = .txInsertEvent seq input → input.taskId = id)
      (hcommit : x = .txCommit → ∃ e, log.summary.tx.events = [e] ∧ e.taskId = id ∧
        e.eventType = .progress ∧ e.payload = .obj [("progress", .num dto.progress 0)]) :
      ProgressPoint id dto log (.call x k)

theorem progress_points (http : HttpClient) (id : String) (authorization : Option String)
    (dto : UpdateProgressDto) :
    ((Request.progress id authorization dto).run http).run.Always Await.Possible
      (ProgressPoint id dto) [] := by
  obtain ⟨e, he⟩ | ⟨token, -, hbody⟩ :=
    callback_body http (.progress id authorization dto) rfl
  · rw [he]
    exact .ret _
  rw [hbody]
  refine ⟨.quiet (by simp) rfl, fun r hr => ?_⟩
  obtain e | row := r
  · exact .ret _
  change (Callback.afterRead _ token row).run.Always _ _ _
  unfold Callback.afterRead
  obtain ⟨e, he⟩ | ⟨t, -, rfl, -, -, -, -, hpass⟩ := CallbackAuthGuard.judge_cases id token row
  · rw [he]
    exact .ret _
  rw [hpass]
  obtain rfl : t.id = id := hr t rfl
  refine ⟨.update fun _ => ⟨_, _, rfl, rfl⟩, fun r hr => ?_⟩
  obtain e | row := r
  · exact .ret _
  refine ⟨.event rfl (fun _ _ => ⟨_, _, rfl, rfl⟩) (by simp) (by simp), fun r hr => ?_⟩
  obtain e | _ := r
  · exact .ret _
  refine ⟨.event rfl (fun _ _ => ⟨_, _, rfl, rfl⟩) (by simp) (by simp), fun r hr => ?_⟩
  obtain e | seq := r
  · exact .ret _
  refine ⟨.event rfl (fun _ _ => ⟨_, _, rfl, rfl⟩) (fun seq input heq => ?_) (by simp),
    fun r hr => ?_⟩
  · cases heq
    rfl
  obtain e | event := r
  · exact .ret _
  obtain ⟨eventId, createdAt, rfl⟩ := hr
  refine ⟨.event rfl (fun h => absurd rfl h) (by simp) (fun _ => ⟨_, rfl, rfl, rfl, rfl⟩),
    fun r hr => ?_⟩
  obtain e | _ := r
  · exact .ret _
  refine ⟨.quiet (by simp) rfl, fun r hr => ?_⟩
  obtain e | _ := r <;> exact .ret _

theorem progressPoint_of_runs {s : (history (proxy http)).Observed}
    (h : Runs allow (recorded http clock) s) {p : ℕ} {id : String} {authorization : Option String}
    {dto : UpdateProgressDto} {P : Prog Await Reply (Except JsError Response)}
    (hp : s.config.procs[p]? = some (.running (.progress id authorization dto) P)) :
    ProgressPoint id dto (s.locals p) P :=
  point_of_runs (fun _ _ _ _ _ _ hx => possible_of_perform hx)
    (progress_points http id authorization dto) h hp

/-! ### Pending reports -/

/-- The value that program `q` has written to the progress column of the task, and whose event it
has not yet committed. -/
def pendingReport (c : (proxy http).Config) (q : ℕ) (i : String) : Option ℤ :=
  match c.procs[q]? with
  | some (.running (.progress id _ dto) (.call x _)) =>
    if id == i && x.isEventStep then some dto.progress else none
  | _ => none

section Pending

variable {c c' : (proxy http).Config} {m : (proxy http).Move} {q : ℕ} {i : String} {n : ℤ}

theorem pendingReport_eq_some :
    pendingReport c q i = some n ↔ ∃ authorization dto x k,
      c.procs[q]? = some (.running (.progress i authorization dto) (.call x k)) ∧
        x.isEventStep = true ∧ dto.progress = n := by
  unfold pendingReport
  split
  · next id authorization dto x k hq =>
    rw [hq]
    constructor
    · intro h
      split at h
      · next hcond =>
        obtain ⟨hid, hx⟩ := Bool.and_eq_true_iff.mp hcond
        obtain rfl := beq_iff_eq.mp hid
        exact ⟨authorization, dto, x, k, rfl, hx, Option.some.inj h⟩
      · cases h
    · rintro ⟨_, _, _, _, heq, hx, rfl⟩
      cases heq
      rw [if_pos (by simpa using hx)]
  · next hnone =>
    refine iff_of_false (by simp) ?_
    rintro ⟨authorization, dto, x, k, hq, -⟩
    exact hnone _ _ _ _ _ hq

/-- The steps of others leave a report pending. -/
theorem pendingReport_of_move_of_ne (h : pendingReport c q i = some n) (hm : c.move m = some c')
    (hcall : ∀ o, m ≠ .call q o) (hcrash : m ≠ .crash q) : pendingReport c' q i = some n := by
  obtain ⟨authorization, dto, x, k, hq, hx, hn⟩ := pendingReport_eq_some.mp h
  exact pendingReport_eq_some.mpr ⟨authorization, dto, x, k,
    Config.proc_of_move_of_ne hq hm hcall hcrash, hx, hn⟩

theorem pendingReport_eq_none_of_quiescent (h : c.Quiescent) (q : ℕ) :
    pendingReport c q i = none := by
  rw [Option.eq_none_iff_forall_ne_some]
  intro n hn
  obtain ⟨authorization, dto, x, k, hq, -⟩ := pendingReport_eq_some.mp hn
  exact h q ⟨_, x, k, hq⟩

theorem pendingReport_lt (h : pendingReport c q i = some n) : q < c.procs.length := by
  obtain ⟨_, _, _, _, hq, -⟩ := pendingReport_eq_some.mp h
  exact (List.getElem?_eq_some_iff.mp hq).1

/-- A program other than `p` has a pending report with the value. -/
def isCarried (c : (proxy http).Config) (p : ℕ) (i : String) (n : ℤ) : Bool :=
  (List.range c.procs.length).any fun q => q != p && pendingReport c q i == some n

theorem isCarried_iff {p : ℕ} :
    isCarried c p i n = true ↔ ∃ q, q ≠ p ∧ pendingReport c q i = some n := by
  simp only [isCarried, List.any_eq_true, List.mem_range, Bool.and_eq_true, bne_iff_ne, ne_eq,
    beq_iff_eq]
  exact ⟨fun ⟨q, _, hq⟩ => ⟨q, hq⟩, fun ⟨q, hne, hq⟩ => ⟨q, pendingReport_lt hq, hne, hq⟩⟩

end Pending

/-! ### The latest progress event -/

/-- The number in the payload of a progress event. -/
def Json.progress? : Json → Option ℤ
  | .obj [(key, .num n 0)] => if key = "progress" then some n else none
  | _ => none

theorem Json.progress?_eq_some {j : Json} {n : ℤ} :
    j.progress? = some n ↔ j = .obj [("progress", .num n 0)] := by
  constructor
  · intro h
    unfold progress? at h
    split at h
    · next key k =>
      split at h
      · next hkey =>
        cases h
        rw [hkey]
      · cases h
    · cases h
  · rintro rfl
    rfl

namespace Backend

variable {σ σ' : Backend} {i : String}

/-- The progress events of a task, in the order of the log. -/
def progressLog (σ : Backend) (i : String) : List TaskEventSelect :=
  (σ.log i).filter fun e => e.eventType == .progress

/-- The value of the latest progress event; 0 without one. -/
def latestProgress (σ : Backend) (i : String) : Option ℤ :=
  (σ.progressLog i).getLast?.elim (some 0) fun e => e.payload.progress?

theorem latestProgress_of_log_eq (h : σ'.log i = σ.log i) :
    σ'.latestProgress i = σ.latestProgress i := by
  rw [latestProgress, latestProgress, progressLog, progressLog, h]

theorem latestProgress_of_nil (h : σ.log i = []) : σ.latestProgress i = some 0 := by
  rw [latestProgress, progressLog, h]
  rfl

theorem latestProgress_of_append {e : TaskEventSelect} (h : σ'.log i = σ.log i ++ [e])
    (he : e.eventType = .progress) : σ'.latestProgress i = e.payload.progress? := by
  rw [latestProgress, progressLog, h, List.filter_append,
    List.filter_cons_of_pos (by simpa using he)]
  simp

theorem latestProgress_of_append_of_ne {e : TaskEventSelect} (h : σ'.log i = σ.log i ++ [e])
    (he : e.eventType ≠ .progress) : σ'.latestProgress i = σ.latestProgress i := by
  rw [latestProgress, latestProgress, progressLog, progressLog, h, List.filter_append,
    List.filter_cons_of_neg (by simpa using he)]
  simp

end Backend

/-! ### The moves that unsettle the column -/

section Moves

variable (c : (proxy http).Config) (m : (proxy http).Move)

/-- The value is that of the latest progress event, or a program other than `p` has it pending. -/
def isBacked (p : ℕ) (i : String) (n : ℤ) : Bool :=
  c.store.latestProgress i == some n || isCarried c p i n

/-- The program that crashes with the move, or whose transaction is lost with its call. -/
def abandons : Option ℕ :=
  match m with
  | .crash p => some p
  | .call p o =>
    match c.nextCall p with
    | some .txCommit => if o.fault = .failed then some p else none
    | some _ => if o.fault = .none then none else some p
    | none => none
  | _ => none

/-- The move commits an event with another value than that of the row, which nobody has pending. -/
def commitsStale (t : TaskSelect) : Bool :=
  match c.callOf m with
  | some (p, o, .txCommit) =>
    o.fault != .failed && (pendingReport c p t.id).any fun n =>
      n != t.progress && !isCarried c p t.id t.progress
  | _ => false

/-- The request that has the value of the row pending ends without its event. -/
def dropsReport (t : TaskSelect) : Bool :=
  (abandons c m).any fun p =>
    pendingReport c p t.id == some t.progress && !isBacked c p t.id t.progress

/-- The request that writes a value to the row gets no reply, and so inserts no event. -/
def dropsWrite (t : TaskSelect) : Bool :=
  match c.callOf m with
  | some (p, o, .updateTask id (.progress n)) =>
    id == t.id && o.fault == .lostReply && !isBacked c p id n
  | _ => false

/-- After the move the value of a row that has not ended is neither that of the latest progress
event, nor pending. -/
def unsettles : Bool :=
  c.store.tasks.any fun t => !t.status.isTerminal &&
    (commitsStale c m t || dropsReport c m t || dropsWrite c m t)

variable {c m}

theorem of_unsettles_eq_false (h : unsettles c m = false) {t : TaskSelect} (ht : t ∈ c.store.tasks)
    (hopen : t.status.isTerminal = false) :
    commitsStale c m t = false ∧ dropsReport c m t = false ∧ dropsWrite c m t = false := by
  have := List.any_eq_false.mp h t ht
  simpa [hopen, and_assoc] using this

end Moves

/-! ### The invariant -/

variable {s s' : (history (proxy http)).Observed} {m : (proxy http).Move} {i : String} {n : ℤ}

/-- A report that is committed becomes the latest progress event. -/
theorem latestProgress_of_commit (h : Runs allow (recorded http clock) s) (hm : s.move m = some s')
    {p : ℕ} {o : Oracle} (hcall : s.config.callOf m = some (p, o, .txCommit))
    (hf : o.fault ≠ .failed) (hp : pendingReport s.config p i = some n)
    (hrow : s'.config.store.HasRow i) : s'.config.store.latestProgress i = some n := by
  obtain ⟨authorization, dto, x, k, hproc, -, rfl⟩ := pendingReport_eq_some.mp hp
  obtain ⟨-, req, k', hproc'⟩ := Config.callOf_eq_some.mp hcall
  rw [hproc] at hproc'
  cases hproc'
  have hcommit : ∃ e, (History.summary (s.locals p)).tx.events = [e] ∧ e.taskId = i ∧
      e.eventType = .progress ∧ e.payload = .obj [("progress", .num dto.progress 0)] := by
    cases progressPoint_of_runs h hproc with
    | quiet _ hevent => cases hevent
    | event _ _ _ hcommit => exact hcommit rfl
  obtain ⟨e, hev, hid, htype, hpayload⟩ := hcommit
  obtain ⟨-, hnone⟩ | ⟨e', he', -, hlog⟩ := log_of_commit (observed_of_recorded h)
    (move_summarised (discipline http) hm) hcall hf hrow
  · exact absurd hid (hnone e (hev ▸ List.mem_singleton_self e))
  · obtain rfl : e' = e := List.mem_singleton.mp (hev ▸ he')
    exact (Backend.latestProgress_of_append hlog htype).trans (Json.progress?_eq_some.mpr hpayload)

/-- What a move does to the latest progress event of a task that keeps its row. -/
theorem latestProgress_cases_of_move (h : Runs allow (recorded http clock) s)
    (hm : s.move m = some s') (hrow : s'.config.store.HasRow i) :
    s'.config.store.latestProgress i = s.config.store.latestProgress i ∨
      ∃ p o n, s.config.callOf m = some (p, o, .txCommit) ∧ o.fault ≠ .failed ∧
        pendingReport s.config p i = some n ∧ s'.config.store.latestProgress i = some n := by
  obtain hlog | ⟨p, o, hcall, hf, -⟩ := log_cases_of_move (Observed.config_move hm) i
  · exact .inl (Backend.latestProgress_of_log_eq hlog)
  have hobserved := observed_of_recorded h
  obtain ⟨hlog, -⟩ | ⟨e, he, hid, hlog⟩ := log_of_commit hobserved
    (move_summarised (discipline http) hm) hcall hf hrow
  · exact .inl (Backend.latestProgress_of_log_eq hlog)
  by_cases htype : e.eventType = .progress
  · obtain ⟨-, req, k, hp⟩ := Config.callOf_eq_some.mp hcall
    obtain ⟨authorization, dto, rfl⟩ :=
      request_of_hasReport hobserved hp (.inr ⟨e, he, hid, htype⟩)
    have hpending : pendingReport s.config p i = some dto.progress :=
      pendingReport_eq_some.mpr ⟨authorization, dto, _, k, hp, rfl, rfl⟩
    exact .inr ⟨p, o, _, hcall, hf, hpending, latestProgress_of_commit h hm hcall hf hpending hrow⟩
  · exact .inl (Backend.latestProgress_of_append_of_ne hlog htype)

/-- Postgres refuses no statement of a pending report of an open task: the number of its event is
free. -/
theorem exec_ne_error_of_isOpen (h : Runs allow (recorded http clock) s) {q : ℕ} {o : Oracle}
    {x : Await} {k : Reply x → Prog Await Reply (Except JsError Response)}
    {authorization : Option String} {dto : UpdateProgressDto}
    (hq : s.config.procs[q]? = some (.running (.progress i authorization dto) (.call x k)))
    (hx : x.isEventStep = true) (hopen : IsOpen s.config.store i) (e : JsError) :
    exec q o s.config.store x ≠ some (.error e) := by
  intro herror
  have hobserved := observed_of_recorded h
  have ha : Summary.Awaits (.progress i authorization dto)
      ((discipline http).summary (s.locals q)) x := (obeys_of_runs hobserved).awaits hq
  cases x with
  | txInsertEvent seq input =>
    have hid : input.taskId = i := by
      cases progressPoint_of_runs h hq with
      | quiet _ hevent => cases hevent
      | event _ _ hinsert _ => exact hinsert seq input rfl
    obtain ⟨-, e', he', hid', hseq⟩ := exec_txInsertEvent_error herror
    obtain ⟨-, -, htx⟩ := ha
    have hevents : s.config.store.committedEvents (s.config.store.tx q) = s.config.store.events :=
      (tracked_of_runs hobserved).committedEvents_eq (congrArg OpenTx.events htx)
        (congrArg OpenTx.cleared htx)
    have hnumber : (input.taskId, seq) ∈ ((discipline http).summary (s.locals q)).tx.numbers := by
      rw [htx]
      exact List.mem_singleton_self _
    have hlock : input.taskId ∈ ((discipline http).summary (s.locals q)).tx.locks := by
      rw [htx]
      exact List.mem_singleton_self _
    exact free_of_runs hobserved q _ hnumber hlock (hid ▸ hopen) e' (hevents ▸ he') hid' hseq
  | txAdvisoryLock id => cases isRefusable_of_exec_error herror
  | txNextSeq id => cases herror
  | txCommit => cases herror
  | _ => cases hx

/-- What a move does to a pending report of an open task: Postgres does not refuse its event. -/
theorem report_cases_of_move (h : Runs allow (recorded http clock) s) (hm : s.move m = some s')
    (hopen : IsOpen s.config.store i) {q : ℕ} (hq : pendingReport s.config q i = some n) :
    pendingReport s'.config q i = some n ∨
      (∃ o, s.config.callOf m = some (q, o, .txCommit) ∧ o.fault ≠ .failed) ∨
      abandons s.config m = some q := by
  by_cases hcrash : m = .crash q
  · exact .inr (.inr (by rw [hcrash]; rfl))
  by_cases hcall : ∃ o, m = .call q o
  swap
  · exact .inl (pendingReport_of_move_of_ne hq (Observed.config_move hm)
      (fun o heq => hcall ⟨o, heq⟩) hcrash)
  obtain ⟨o, rfl⟩ := hcall
  obtain ⟨authorization, dto, x, k, hproc, hx, rfl⟩ := pendingReport_eq_some.mp hq
  obtain ⟨_, _, _, r, hproc', hr, hafter, -⟩ := Observed.call_cases hm
  rw [hproc] at hproc'
  cases hproc'
  have hnext : s.config.nextCall q = some x := Config.nextCall_eq_some.mpr ⟨_, k, hproc⟩
  by_cases hcommit : x = .txCommit
  · subst hcommit
    by_cases hf : o.fault = .failed
    · exact .inr (.inr (by simp [abandons, hnext, hf]))
    · exact .inr (.inl ⟨o, Config.callOf_eq_some.mpr ⟨rfl, _, k, hproc⟩, hf⟩)
  by_cases hf : o.fault = .none
  swap
  · refine .inr (.inr ?_)
    simp only [abandons, hnext]
    cases x <;> first | exact absurd rfl hcommit | exact if_neg hf
  have hgoes : ∀ v, ∃ y k', k (.ok v) = .call y k' ∧ y.isEventStep = true := by
    cases progressPoint_of_runs h hproc with
    | quiet _ hevent =>
      rw [hx] at hevent
      cases hevent
    | update => cases hx
    | event _ hnext _ _ => exact hnext hcommit
  obtain ⟨v, rfl, -⟩ | ⟨e, rfl, herror, -⟩ := perform_cases_of_no_fault hf hr
  · obtain ⟨y, k', hk, hy⟩ := hgoes v
    rw [hk] at hafter
    exact .inl (pendingReport_eq_some.mpr ⟨authorization, dto, y, k', hafter, hy, rfl⟩)
  · exact absurd herror (exec_ne_error_of_isOpen h hproc hx hopen e)

theorem eq_of_abandons {c : (proxy http).Config} {q : ℕ} (h : abandons c m = some q) :
    m = .crash q ∨ ∃ o, m = .call q o := by
  unfold abandons at h
  split at h
  · cases h
    exact .inl rfl
  · next p o =>
    refine .inr ⟨o, ?_⟩
    split at h
    · split at h <;> cases h
      rfl
    · split at h <;> cases h
      rfl
    · cases h
  · cases h

/-- The value is that of the latest progress event of the task, or it is pending. -/
def Backed (c : (proxy http).Config) (i : String) (n : ℤ) : Prop :=
  c.store.latestProgress i = some n ∨ ∃ q, pendingReport c q i = some n

/-- What is backed by another program than the one that makes the move stays so. -/
theorem backed_of_isCarried (hm : s.move m = some s') {p : ℕ}
    (hp : m = .crash p ∨ ∃ o, m = .call p o) (h : isCarried s.config p i n = true) :
    Backed s'.config i n := by
  obtain ⟨q, hne, hq⟩ := isCarried_iff.mp h
  refine .inr ⟨q, pendingReport_of_move_of_ne hq (Observed.config_move hm) ?_ ?_⟩
  · rintro o rfl
    obtain hp | ⟨o', hp⟩ := hp <;> cases hp
    exact hne rfl
  · rintro rfl
    obtain hp | ⟨o', hp⟩ := hp <;> cases hp
    exact hne rfl

/-- The value of an open row stays that of the latest progress event, or pending. -/
theorem backed_of_move (h : Runs allow (recorded http clock) s)
    (hallow : unsettles s.config m = false) (hm : s.move m = some s') {t : TaskSelect}
    (ht : t ∈ s.config.store.tasks) (hopen : t.status.isTerminal = false)
    (hrow : s'.config.store.HasRow t.id) (hs : Backed s.config t.id t.progress) :
    Backed s'.config t.id t.progress := by
  obtain ⟨hstale, hdrops, -⟩ := of_unsettles_eq_false hallow ht hopen
  have hlatest : s.config.store.latestProgress t.id = some t.progress →
      Backed s'.config t.id t.progress := by
    intro hlatest
    obtain hsame | ⟨p, o, n, hcall, hf, hp, hnew⟩ := latestProgress_cases_of_move h hm hrow
    · exact .inl (hsame.trans hlatest)
    · by_cases hn : n = t.progress
      · exact .inl (hn ▸ hnew)
      · refine backed_of_isCarried hm (.inr ⟨o, (Config.callOf_eq_some.mp hcall).1⟩) ?_
        simpa [commitsStale, hcall, hf, hp, hn] using hstale
  obtain hnow | ⟨q, hq⟩ := hs
  · exact hlatest hnow
  · obtain hpending | ⟨o, hcall, hf⟩ | habandons :=
      report_cases_of_move h hm ⟨t, ht, rfl, hopen⟩ hq
    · exact .inr ⟨q, hpending⟩
    · exact .inl (latestProgress_of_commit h hm hcall hf hq hrow)
    · have hbacked : isBacked s.config q t.id t.progress = true := by
        simpa [dropsReport, habandons, hq] using hdrops
      obtain hnow | hcarried := Bool.or_eq_true_iff.mp hbacked
      · exact hlatest (beq_iff_eq.mp hnow)
      · exact backed_of_isCarried hm (eq_of_abandons habandons) hcarried

/-- A new task has no events. -/
theorem log_eq_nil_of_not_issued (h : Runs allow (recorded http clock) s)
    (hm : s.move m = some s') (hrow : s'.config.store.HasRow i) (hi : i ∉ s.config.store.issued) :
    s'.config.store.log i = [] := by
  have htracked : Tracked s.config.store fun p => (discipline http).summary (s.locals p) :=
    tracked_of_runs (observed_of_recorded h)
  have hnil : s.config.store.log i = [] := by
    refine List.filter_eq_nil_iff.mpr fun e he heq => hi ?_
    rw [← beq_iff_eq.mp heq]
    exact htracked.events_issued e he
  obtain hlog | ⟨p, o, hcall, hf, -⟩ := log_cases_of_move (Observed.config_move hm) i
  · exact hlog.trans hnil
  · obtain ⟨hlog, -⟩ | ⟨e, he, hid, -⟩ := log_of_commit (observed_of_recorded h)
      (move_summarised (discipline http) hm) hcall hf hrow
    · exact hlog.trans hnil
    · exact absurd (hid ▸ htracked.event_issued (p := p) he) hi

/-- An UPDATE of the progress column is reported, unless its reply gets lost. -/
theorem backed_of_write (h : Runs allow (recorded http clock) s)
    (hallow : unsettles s.config m = false) (hm : s.move m = some s') {p : ℕ} {o : Oracle}
    {t : TaskSelect} (ht : t ∈ s.config.store.tasks) (hopen : t.status.isTerminal = false)
    (hrow : s'.config.store.HasRow t.id)
    (hcall : s.config.callOf m = some (p, o, .updateTask t.id (.progress n)))
    (hreply : ∀ e, exec p o s.config.store (.updateTask t.id (.progress n)) ≠ some (.error e))
    (hf : o.fault ≠ .failed) : Backed s'.config t.id n := by
  obtain ⟨rfl, req, k, hp⟩ := Config.callOf_eq_some.mp hcall
  have hawaits : Summary.AwaitsWrite req ((discipline http).summary (s.locals p)) t.id
    (.progress n) := ((obeys_of_runs (observed_of_recorded h)).awaits hp).2
  obtain ⟨-, authorization, dto, rfl, rfl, -⟩ := hawaits
  obtain ⟨_, _, _, r, hp', hr, hafter, -⟩ := Observed.call_cases hm
  rw [hp] at hp'
  cases hp'
  obtain ⟨e, -, -, hfail | hx⟩ | ⟨v, rfl, -, -⟩ | ⟨v, σ, -, -, hlost, -⟩ := perform_cases hr
  · exact absurd hfail hf
  · exact absurd hx (hreply e)
  · have hnext : ∃ y k', k (.ok v) = .call y k' ∧ y.isEventStep = true := by
      cases progressPoint_of_runs h hp with
      | quiet hwrite _ => exact absurd rfl (hwrite _ _)
      | update hnext => exact hnext v
      | event hx _ _ _ => cases hx
    obtain ⟨y, k', hk, hy⟩ := hnext
    rw [hk] at hafter
    exact .inr ⟨p, pendingReport_eq_some.mpr ⟨authorization, dto, y, k', hafter, hy, rfl⟩⟩
  · obtain ⟨-, -, hdrops⟩ := of_unsettles_eq_false hallow ht hopen
    have hbacked : isBacked s.config p t.id dto.progress = true := by
      simpa [dropsWrite, hcall, hlost] using hdrops
    obtain hnow | hcarried := Bool.or_eq_true_iff.mp hbacked
    · obtain hsame | ⟨_, _, _, hcommit, -⟩ := latestProgress_cases_of_move h hm hrow
      · exact .inl (hsame.trans (beq_iff_eq.mp hnow))
      · rw [hcall] at hcommit
        cases hcommit
    · exact backed_of_isCarried hm (.inr ⟨o, rfl⟩) hcarried

theorem TaskWrite.progress_apply {w : TaskWrite} (hw : ∀ n, w ≠ .progress n) (t : TaskSelect) :
    (w.apply t).progress = t.progress := by
  cases w with
  | progress n => exact absurd rfl (hw n)
  | _ => rfl

/-- **The column is backed.** In a run without moves that unsettle it, the value of an open row is
that of the latest progress event, or a request is about to commit it. -/
theorem backed_of_runs (h : Runs (fun d m => unsettles d m = false) (recorded http clock) s) :
    ∀ t ∈ s.config.store.tasks, t.status.isTerminal = false →
      Backed s.config t.id t.progress := by
  refine h.invariant (I := fun s : (history (proxy http)).Observed =>
    ∀ t ∈ s.config.store.tasks, t.status.isTerminal = false → Backed s.config t.id t.progress) ?_
    (fun t ht => by cases ht)
  intro s m s' hruns hallow hm hs t' ht' hopen'
  have hrow : s'.config.store.HasRow t'.id := ⟨t', ht', rfl⟩
  by_cases hmem : t' ∈ s.config.store.tasks
  · exact backed_of_move hruns hallow hm hmem hopen' hrow (hs t' hmem hopen')
  obtain ⟨δ, hδ⟩ := ledger_of_reaches (hruns.reaches.mono fun _ _ _ => trivial)
  obtain hold | ⟨hnew, -, dto, now, token, id, createdAt, heq⟩ |
    ⟨p, o, w, hcall, hf, t, ht, hid, hmatch, happly⟩ | ⟨hterm, -⟩ :=
    row_cases_of_move hδ (Observed.config_move hm) ht'
  · exact absurd hold hmem
  · refine .inl ?_
    rw [Backend.latestProgress_of_nil (log_eq_nil_of_not_issued hruns hm hrow hnew), heq]
    rfl
  · have hopen : t.status.isTerminal = false := by
      by_contra hterm
      have hterm := Bool.eq_true_of_not_eq_false hterm
      have hsame := TaskWrite.sameOutcome_of_isTerminal hmatch hterm
      rw [happly, hsame.status, hterm] at hopen'
      cases hopen'
    rw [← hid] at hcall hrow ⊢
    by_cases hprogress : ∃ n, w = .progress n
    · obtain ⟨n, rfl⟩ := hprogress
      rw [show t'.progress = n by rw [happly]; rfl]
      refine backed_of_write hruns hallow hm ht hopen hrow hcall (fun e hx => hmem ?_) hf
      -- a statement that throws writes nothing
      obtain ⟨r, hr⟩ := Config.perform_of_callOf hcall (Observed.config_move hm)
      obtain ⟨_, -, hσ, -⟩ | ⟨v, -, hok, -⟩ | ⟨v, σ, -, hok, -⟩ := perform_cases hr
      · rwa [hσ] at ht'
      · rw [hx] at hok
        cases hok
      · rw [hx] at hok
        cases hok
    · have hsame : t'.progress = t.progress := by
        rw [happly]
        exact TaskWrite.progress_apply (fun n hw => hprogress ⟨n, hw⟩) t
      rw [hsame]
      exact backed_of_move hruns hallow hm ht hopen hrow (hs t ht hopen)
  · rw [hterm] at hopen'
    cases hopen'

/-- The event is a progress event of the task, and no progress event of the task has a higher
number. -/
def IsLatestProgress (c : (proxy http).Config) (i : String) (e : TaskEventSelect) : Prop :=
  e ∈ c.store.log i ∧ e.eventType = .progress ∧
    ∀ e' ∈ c.store.log i, e'.eventType = .progress → e'.seq ≤ e.seq

theorem latestProgress_of_isLatestProgress {c : (proxy http).Config} {e : TaskEventSelect}
    (hc : Reaches (fun _ _ => True) (initial http clock) c) (hrow : c.store.HasRow i)
    (he : IsLatestProgress c i e) : c.store.latestProgress i = e.payload.progress? := by
  obtain ⟨hmem, htype, hhighest⟩ := he
  have hordered : (c.store.progressLog i).Pairwise fun e e' => e.seq < e'.seq :=
    (Backend.pairwise_log (seqs_of_reaches hc hrow)).filter _
  have hprogress : e ∈ c.store.progressLog i := List.mem_filter.mpr ⟨hmem, by simpa using htype⟩
  rcases List.eq_nil_or_concat (c.store.progressLog i) with hnil | ⟨before, last, hlog⟩
  · rw [hnil] at hprogress
    cases hprogress
  · rw [List.concat_eq_append] at hlog
    have hlast : last ∈ c.store.progressLog i := by rw [hlog]; simp
    have heq : e = last := by
      rw [hlog, List.pairwise_append] at hordered
      rw [hlog] at hprogress
      rcases List.mem_append.mp hprogress with hbefore | hmem
      · have hlt := hordered.2.2 e hbefore last (List.mem_singleton_self last)
        obtain ⟨hlast, htype⟩ := List.mem_filter.mp hlast
        have hle := hhighest last hlast (by simpa using htype)
        omega
      · exact List.mem_singleton.mp hmem
    rw [Backend.latestProgress, hlog, heq]
    simp

/-- **Column and log agree.** In every run in which no move commits the event of a request whose
value has been overwritten after the event of the request whose value the column has, and in which
no such request ends without its event: when no progress request is between its two writes to a
`PROCESSING` task, the column has the value of the progress event with the highest number, and 0
while there is none. -/
theorem progress_agrees (http : HttpClient) (clock : Timestamp) (c : (proxy http).Config)
    (h : Reaches (fun d m => unsettles d m = false) (initial http clock) c) (t : TaskSelect)
    (ht : t ∈ c.store.tasks) (hstatus : t.status = .processing)
    (hnone : ∀ q, pendingReport c q t.id = none) :
    (∀ e, IsLatestProgress c t.id e → e.payload = .obj [("progress", .num t.progress 0)]) ∧
    ((∀ e ∈ c.store.log t.id, e.eventType ≠ .progress) → t.progress = 0) := by
  obtain ⟨γ, hγ⟩ := exists_recorded h
  have hlatest : c.store.latestProgress t.id = some t.progress := by
    obtain hlatest | ⟨q, hq⟩ := backed_of_runs hγ t ht (by rw [hstatus]; rfl)
    · exact hlatest
    · rw [show pendingReport c q t.id = none from hnone q] at hq
      cases hq
  refine ⟨fun e he => ?_, fun hnil => ?_⟩
  · rw [latestProgress_of_isLatestProgress (h.mono fun _ _ _ => trivial) ⟨t, ht, rfl⟩ he] at hlatest
    exact Json.progress?_eq_some.mp hlatest
  · have hempty : c.store.progressLog t.id = [] := List.filter_eq_nil_iff.mpr fun e he => by
      simpa using hnil e he
    rw [Backend.latestProgress, hempty] at hlatest
    exact (Option.some.inj hlatest).symm

/-! ### Example runs -/

/-- The test for the latest progress event. -/
def isLatestProgress (c : (proxy http).Config) (i : String) (e : TaskEventSelect) : Bool :=
  e.eventType == .progress &&
    (c.store.log i).all fun e' => e'.eventType != .progress || decide (e'.seq ≤ e.seq)

theorem isLatestProgress_iff {c : (proxy http).Config} {e : TaskEventSelect}
    (he : e ∈ c.store.log i) : isLatestProgress c i e = true ↔ IsLatestProgress c i e := by
  simp only [isLatestProgress, Bool.and_eq_true, beq_iff_eq, List.all_eq_true, Bool.or_eq_true,
    bne_iff_ne, ne_eq, decide_eq_true_eq, IsLatestProgress]
  exact ⟨fun ⟨htype, hle⟩ => ⟨he, htype, fun e' he' htype' => (hle e' he').resolve_left
    fun hne => hne htype'⟩, fun ⟨_, htype, hle⟩ => ⟨htype, fun e' he' =>
      (Decidable.em _).elim (fun htype' => .inr (hle e' he' htype')) .inl⟩⟩

/-- Two requests have written the progress of a claimed task, first program 2 and then program 3. -/
def overlappingReports : List (proxy httpRetryService).Move :=
  completedRun.take 9 ++
    [.spawn (.progress sampleId (some "Bearer secret") sampleProgress), .call 2 {}, .call 2 {},
      .spawn (.progress sampleId (some "Bearer secret") { progress := 80 }), .call 3 {}, .call 3 {}]

/-- The rest of a progress request, once it has written the column. -/
def reportOf (p : ℕ) : List (proxy httpRetryService).Move :=
  [.call p {}, .call p {}, .call p {}, .call p {}, .call p {}]

/-- The events come in the order of the writes, and the column agrees with the log. -/
theorem ordered_reports_agree :
    ∃ c, Reaches (fun d m => unsettles d m = false) (initial httpRetryService 0) c ∧
      ∃ t ∈ c.store.tasks, t.status = .processing ∧ t.progress = 80 ∧
        ∃ e, IsLatestProgress c t.id e ∧ e.payload = .obj [("progress", .num t.progress 0)] := by
  obtain ⟨c, hc, hcheck⟩ : ∃ c,
      Reaches (fun d m => unsettles d m = false) (initial httpRetryService 0) c ∧
      (c.isQuiescent && c.store.tasks.any fun t => t.status == .processing && t.progress == 80 &&
        (c.store.log t.id).any fun e => isLatestProgress c t.id e) = true :=
    exists_reaches_of_replay (fun d m => !unsettles d m)
      (overlappingReports ++ reportOf 2 ++ reportOf 3) _ (by simp) (by decide)
  simp only [Bool.and_eq_true, List.any_eq_true, beq_iff_eq] at hcheck
  obtain ⟨hquiescent, t, ht, ⟨hstatus, hprogress⟩, e, he, hlatest⟩ := hcheck
  have hlatest := (isLatestProgress_iff he).mp hlatest
  exact ⟨c, hc, t, ht, hstatus, hprogress, e, hlatest,
    (progress_agrees httpRetryService 0 c hc t ht hstatus
      (pendingReport_eq_none_of_quiescent (Config.isQuiescent_iff.mp hquiescent))).1 e hlatest⟩

/-- The request that has written last commits its event first: the column has 80 and the event with
the highest number 50. -/
theorem overlapping_reports_disagree :
    ¬ ∀ (http : HttpClient) (clock : Timestamp) (c : (proxy http).Config),
      Reaches (fun _ _ => True) (initial http clock) c → c.Quiescent →
      ∀ t ∈ c.store.tasks, t.status = .processing →
        ∀ e, IsLatestProgress c t.id e → e.payload = .obj [("progress", .num t.progress 0)] := by
  intro h
  obtain ⟨c, hc, hcheck⟩ : ∃ c, Reaches (fun _ _ => True) (initial httpRetryService 0) c ∧
      (c.isQuiescent && c.store.tasks.any fun t => t.status == .processing &&
        (c.store.log t.id).any fun e =>
          isLatestProgress c t.id e && e.payload.progress? != some t.progress) = true :=
    exists_reaches_of_replay (fun _ _ => true) (overlappingReports ++ reportOf 3 ++ reportOf 2) _
      (fun _ _ _ => trivial) (by decide)
  simp only [Bool.and_eq_true, List.any_eq_true, beq_iff_eq, bne_iff_ne] at hcheck
  obtain ⟨hquiescent, t, ht, hstatus, e, he, hlatest, hne⟩ := hcheck
  exact hne (Json.progress?_eq_some.mpr (h _ _ c hc (Config.isQuiescent_iff.mp hquiescent) t ht
    hstatus e ((isLatestProgress_iff he).mp hlatest)))

end LongRequestProxy
