import LongRequestProxy.Conduct.Histories
import LongRequestProxy.Conduct.Transactions

/-!
# The rollbacks of creations

A creation deletes its row when the enqueueing of the dispatch job fails, and only directly after
that. The job may have been stored all the same. As only the creation enqueues the job of its row,
and does so once, a creation that is neither before its job nor at the deletion will not delete the
row any more.

## Main definitions

* `isRollingBack`: a creation is about to delete its row.
* `rollbacks`: where creations enqueue and delete, as a discipline.
* `Kept`: the job of the task is stored, and no program is about to delete its row.

## Main results

* `awaitsRollback_of_runs`: a creation deletes its row directly after it has enqueued the job.
* `inserters_of_runs`: the function that inserts a row enqueues the dispatch jobs of the task.
* `kept_of_move`: no program will delete such a row by a rollback.
-/

namespace LongRequestProxy

open Async Service Discipline

variable {http : HttpClient} {clock : Timestamp}
  {allow : (proxy http).Config → (proxy http).Move → Prop}

/-! ### The discipline -/

/-- The function has not enqueued a job. -/
def Unposted (log : History) : Prop :=
  ∀ job r, (⟨.enqueue job, r⟩ : (x : Await) × Reply x) ∉ log

theorem Unposted.snoc {log : History} (h : Unposted log) {x : Await} (hx : ∀ job, x ≠ .enqueue job)
    (r : Reply x) : Unposted (log ++ [⟨x, r⟩]) := by
  intro job r' hmem
  rcases List.mem_append.mp hmem with hmem | hmem
  · exact h job r' hmem
  · cases List.mem_singleton.mp hmem
    exact hx job rfl

/-- Where a creation enqueues its job and deletes its row. -/
def AwaitsRollback (log : History) : Await → Prop
  | .enqueue _ => Unposted log
  | .deleteTask id => ∃ before n r, log = before ++ [⟨.enqueue (.dispatch id n), r⟩]
  | _ => True

/-- Creations enqueue once, and delete directly after that. -/
abbrev rollbacks (http : HttpClient) : Discipline (proxy http) where
  Local := History
  start := []
  next log x r := log ++ [⟨x, r⟩]
  awaits req log x := (∃ dto baseUrl, req = .create dto baseUrl) → AwaitsRollback log x
  returns _ _ _ := True
  possible := Await.Possible

/-- A function that keeps to these places, and returns with `Q`. -/
abbrev FollowsRollbacks (http : HttpClient) (req : Request) {α : Type} (Q : α → History → Prop)
    (P : Async α) (log : History) : Prop :=
  (rollbacks http).followsExcept req Q (fun _ _ => True) P log

section Creation

variable {req : Request} {log : History} {α β : Type}

theorem followsRollbacks_call {x : Await} {Q : x.Val → History → Prop} (hx : AwaitsRollback log x)
    (hQ : ∀ v, Q v (log ++ [⟨x, .ok v⟩])) : FollowsRollbacks http req Q (call x) log := by
  refine ⟨fun _ => hx, fun r _ => ?_⟩
  cases r with
  | ok v => exact hQ v
  | error e => trivial

theorem followsRollbacks_seq {P : Async α} {f : α → Async β} {M : α → History → Prop}
    {Q : β → History → Prop} (hP : FollowsRollbacks http req M P log)
    (hf : ∀ a log, M a log → FollowsRollbacks http req Q (f a) log) :
    FollowsRollbacks http req Q (P >>= f) log :=
  followsExcept_bind (followsExcept_mono hP hf fun _ _ h => h)

theorem followsRollbacks_tryCatch {P : Async α} {f : JsError → Async α} {Q : α → History → Prop}
    (hP : FollowsRollbacks http req Q P log)
    (hf : ∀ e log, FollowsRollbacks http req Q (f e) log) :
    FollowsRollbacks http req Q (tryCatch P f) log :=
  followsExcept_tryCatch (followsExcept_mono hP (fun _ _ h => h) fun e log _ => hf e log)

theorem followsRollbacks_releaseQuietly (key : Option String) :
    FollowsRollbacks http req (fun _ _ => True) (TasksService.releaseQuietly key) log := by
  cases key with
  | none => trivial
  | some key =>
    exact followsRollbacks_tryCatch (followsRollbacks_call trivial fun _ => trivial)
      fun _ _ => trivial

theorem followsRollbacks_release_throw (key : Option String) (e : JsError)
    {Q : α → History → Prop} :
    FollowsRollbacks http req Q (do TasksService.releaseQuietly key; throw e) log :=
  followsRollbacks_seq (followsRollbacks_releaseQuietly key) fun _ _ _ => trivial

theorem followsRollbacks_insertOrRelease (hlog : Unposted log) (dto : CreateTaskDto)
    (key : Option String) :
    FollowsRollbacks http req (fun _ => Unposted) (TasksService.insertOrRelease dto key) log := by
  refine followsRollbacks_tryCatch ?_ fun e log => followsRollbacks_release_throw key e
  refine followsExcept_bind (followsRollbacks_call trivial fun now => ?_)
  refine followsExcept_bind (followsRollbacks_call trivial fun token => ?_)
  refine followsRollbacks_call trivial fun t => ?_
  exact ((hlog.snoc (by simp) _).snoc (by simp) _).snoc (by simp) _

theorem followsRollbacks_enqueueOrRollback (hlog : Unposted log) (t : TaskSelect)
    (key : Option String) :
    FollowsRollbacks http req (fun _ _ => True) (TasksService.enqueueOrRollback t key) log := by
  refine followsExcept_tryCatch ⟨fun _ => hlog, fun r _ => ?_⟩
  cases r with
  | ok v => trivial
  | error e =>
    refine followsRollbacks_seq (M := fun _ _ => True) ?_ fun _ _ _ =>
      followsRollbacks_release_throw key e
    exact followsRollbacks_tryCatch (followsRollbacks_call ⟨log, _, _, rfl⟩ fun _ => trivial)
      fun _ _ => trivial

theorem followsRollbacks_createTask (hlog : Unposted log) (dto : CreateTaskDto) (baseUrl : String)
    (key : Option String) :
    FollowsRollbacks http req (fun _ _ => True) (TasksService.createTask dto baseUrl key) log := by
  refine followsRollbacks_seq (followsRollbacks_insertOrRelease hlog dto key) fun t log hlog => ?_
  refine followsRollbacks_seq (followsRollbacks_enqueueOrRollback hlog t key) fun _ log _ => ?_
  refine followsRollbacks_seq (M := fun _ _ => True) ?_ fun _ _ _ => trivial
  cases key with
  | none => trivial
  | some key =>
    exact followsRollbacks_tryCatch (followsRollbacks_call trivial fun _ => trivial)
      fun _ _ => trivial

theorem followsRollbacks_create (dto : CreateTaskDto) (baseUrl : String) :
    FollowsRollbacks http req (fun _ _ => True) (TasksService.create dto baseUrl) [] := by
  have hnil : Unposted [] := fun _ _ h => by cases h
  unfold TasksService.create
  split
  · exact followsRollbacks_createTask hnil dto baseUrl none
  · refine followsExcept_bind (followsExcept_bind (followsRollbacks_call trivial fun reply => ?_))
    refine (followsExcept_pure _).mpr ?_
    cases OccupySlotResult.ofReply reply with
    | acquired => exact followsRollbacks_createTask (hnil.snoc (by simp) _) dto baseUrl _
    | pending => trivial
    | duplicate taskId => trivial

end Creation

/-- The functions other than creations have no such places. -/
theorem follows_rollbacks_of_not_create {req : Request}
    (hreq : ∀ dto baseUrl, req ≠ .create dto baseUrl)
    (P : Prog Await Reply (Except JsError Response)) (log : History) :
    (rollbacks http).follows req (fun _ _ => True) P log := by
  induction P generalizing log with
  | ret a => trivial
  | call x k ih =>
    exact ⟨fun ⟨dto, baseUrl, heq⟩ => absurd heq (hreq dto baseUrl), fun r _ => ih r _⟩

theorem rollbacks_sound (http : HttpClient) : (rollbacks http).Sound where
  body req := by
    by_cases hreq : ∃ dto baseUrl, req = .create dto baseUrl
    · obtain ⟨dto, baseUrl, rfl⟩ := hreq
      have hcreate : FollowsRollbacks http (.create dto baseUrl) (fun _ _ => True)
          ((Request.create dto baseUrl).run http) [] :=
        followsRollbacks_seq (followsRollbacks_create dto baseUrl) fun _ _ _ => trivial
      exact follows_mono hcreate fun _ _ _ => trivial
    · exact follows_rollbacks_of_not_create (fun dto baseUrl heq => hreq ⟨dto, baseUrl, heq⟩) _ _
  reply _ _ _ _ _ _ h := possible_of_perform h

variable {s s' : (history (proxy http)).Observed} {m : (proxy http).Move} {p : ℕ}

/-- A creation deletes its row directly after it has enqueued the job, which it does once. -/
theorem awaitsRollback_of_runs (h : Runs allow (recorded http clock) s) {dto : CreateTaskDto}
    {baseUrl : String} {x : Await} {k : Reply x → Prog Await Reply (Except JsError Response)}
    (hp : s.config.procs[p]? = some (.running (.create dto baseUrl) (.call x k))) :
    AwaitsRollback (s.locals p) x := by
  have hobeys := (rollbacks_sound http).obeys (runs_summarised (rollbacks http) h)
    Observed.obeys_of_no_procs
  have hawaits : (rollbacks http).awaits _ ((rollbacks http).summary (s.locals p)) x :=
    hobeys.awaits hp
  rw [summary_remembering] at hawaits
  exact hawaits ⟨dto, baseUrl, rfl⟩

/-! ### The functions that insert rows -/

/-- The function has inserted the row of the task. -/
def Inserted (log : History) (i : String) : Prop :=
  ∃ dto now token t, (⟨.insertTask dto now token, .ok t⟩ : (x : Await) × Reply x) ∈ log ∧ t.id = i

theorem Summary.inserted_of_next {w : Summary} {x : Await} {r : Reply x} {t : TaskSelect}
    (h : (w.next x r).inserted = some t) :
    w.inserted = some t ∨ ∃ dto now token, x = .insertTask dto now token ∧
      HEq r (.ok t : Reply (.insertTask dto now token)) := by
  cases r with
  | error e => cases x <;> first | cases h | exact .inl h
  | ok v =>
    cases x with
    | insertTask dto now token =>
      obtain rfl : v = t := Option.some.inj h
      exact .inr ⟨dto, now, token, rfl, .rfl⟩
    | deleteTask id => cases h
    | updateTask id write => cases write <;> exact .inl h
    | txCancelTask id now => cases v <;> exact .inl h
    | _ => exact .inl h

/-- What a function knows of its insertion is in its history. -/
theorem inserted_of_summary {log : History} {t : TaskSelect}
    (h : ((discipline http).summary log).inserted = some t) : Inserted log t.id := by
  obtain ⟨⟨x, r⟩, hmem, dto, now, token, hx, hr⟩ := exists_mem_of_summary
    (D := discipline http) (K := fun w => w.inserted = some t) (by rintro ⟨⟩)
    (fun w x r => Summary.inserted_of_next) h
  obtain rfl : x = _ := hx
  obtain rfl := eq_of_heq hr
  exact ⟨dto, now, token, t, hmem, rfl⟩

/-- Only creations insert rows. -/
theorem create_of_inserted {s : (discipline http).Observed}
    (h : Runs allow (observed http clock) s) {req : Request}
    {P : Prog Await Reply (Except JsError Response)}
    (hp : s.config.procs[p]? = some (.running req P)) {t : TaskSelect}
    (ht : (s.locals p).inserted = some t) : ∃ dto baseUrl, req = .create dto baseUrl := by
  refine (discipline_sound http).summary_invariant
    (I := fun req (w : Summary) => ∀ t, w.inserted = some t → ∃ dto baseUrl,
      req = .create dto baseUrl) (fun _ _ h => by cases h) ?_ h observed_obeys rfl hp t ht
  intro req w x r ha _ hw t ht
  obtain hold | ⟨dto, now, token, rfl, -⟩ := Summary.inserted_of_next ht
  · exact hw t hold
  · obtain ⟨-, -, baseUrl, rfl⟩ := ha
    exact ⟨dto, baseUrl, rfl⟩

/-- The function that enqueues a dispatch job is the creation of the task, and has not enqueued
before. -/
theorem inserted_of_enqueue (h : Runs allow (recorded http clock) s) {req : Request} {i : String}
    {n : ℤ} {k : Reply (.enqueue (.dispatch i n)) → Prog Await Reply (Except JsError Response)}
    (hp : s.config.procs[p]? = some (.running req (.call (.enqueue (.dispatch i n)) k))) :
    Inserted (s.locals p) i ∧ Unposted (s.locals p) := by
  have hobserved := observed_of_recorded h
  have hawaits : Summary.AwaitsEnqueue req ((discipline http).summary (s.locals p))
    (.dispatch i n) := ((obeys_of_runs hobserved).awaits hp).2
  obtain ⟨t, ht, rfl, -⟩ := hawaits
  obtain ⟨dto, baseUrl, rfl⟩ := create_of_inserted hobserved hp ht
  exact ⟨inserted_of_summary ht, awaitsRollback_of_runs h hp⟩

/-- The function that deletes a row is the creation of the task, and has just enqueued its job. -/
theorem enqueued_of_deleteTask (h : Runs allow (recorded http clock) s) {req : Request} {i : String}
    {k : Reply (.deleteTask i) → Prog Await Reply (Except JsError Response)}
    (hp : s.config.procs[p]? = some (.running req (.call (.deleteTask i) k))) :
    ∃ before n r, s.locals p = before ++ [⟨.enqueue (.dispatch i n), r⟩] := by
  have hobserved := observed_of_recorded h
  have hawaits : Summary.Awaits req ((discipline http).summary (s.locals p)) (.deleteTask i) :=
    (obeys_of_runs hobserved).awaits hp
  obtain ⟨-, t, ht, -⟩ := hawaits
  obtain ⟨dto, baseUrl, rfl⟩ := create_of_inserted hobserved hp ht
  exact awaitsRollback_of_runs h hp

/-- The job dispatches the task. -/
def Job.Dispatches (job : Job) (i : String) : Prop := ∃ n, job = .dispatch i n

/-- What a move adds to the functions that have inserted a row: one that inserts it with the
move. -/
theorem inserted_of_move (hm : s.move m = some s') {i : String}
    (hp : Inserted (s'.locals p) i) :
    (Inserted (s.locals p) i ∧ s.locals p ⊆ s'.locals p) ∨
      (∃ o, m = .call p o) ∧ i ∉ s.config.store.issued ∧ i ∈ s'.config.store.issued := by
  obtain ⟨heq, -⟩ | ⟨o, req, x, k, r, rfl, -, hx, heq⟩ | ⟨-, heq⟩ := Observed.locals_cases hm p
  · rw [heq] at hp ⊢
    exact .inl ⟨hp, List.Subset.refl _⟩
  · rw [heq] at hp ⊢
    obtain ⟨dto, now, token, t, hmem, rfl⟩ := hp
    rcases List.mem_append.mp hmem with hmem | hmem
    · exact .inl ⟨⟨dto, now, token, t, hmem, rfl⟩, List.subset_append_left _ _⟩
    · cases List.mem_singleton.mp hmem
      obtain ⟨-, hnew, -, rfl, hσ⟩ := Backend.insertTask_ok (exec_of_perform_ok hx)
      refine .inr ⟨⟨o, rfl⟩, hnew, ?_⟩
      rw [hσ]
      exact List.mem_cons_self
  · rw [heq] at hp
    obtain ⟨_, _, _, _, hmem, -⟩ := hp
    cases hmem

/-- The function that inserts the row of a task owns the task, with its dispatch jobs. -/
theorem inserters_of_runs (h : Runs allow (recorded http clock) s) :
    Owners (fun s p i => Inserted (s.locals p) i) (fun σ i => i ∈ σ.issued) Job.Dispatches s := by
  refine h.invariant (fun t m t' hrun _ hm ht => ?_) ⟨?_, ?_, ?_⟩
  · refine owners_of_move hm (fun i p => inserted_of_move hm) (fun i hi => ?_) ?_ ht
    · exact issued_subset_of_move (Observed.config_move hm) hi
    · rintro i p req _ k ⟨n, rfl⟩ hp
      exact (inserted_of_enqueue hrun hp).1
  · rintro i p q ⟨_, _, _, _, hmem, -⟩
    cases hmem
  · rintro i p ⟨_, _, _, _, hmem, -⟩
    cases hmem
  · intro i job _ hmem
    cases hmem

/-! ### Creations that will not be rolled back -/

/-- Program `q` is about to delete the row of the task. -/
def isRollingBack (c : (proxy http).Config) (q : ℕ) (i : String) : Bool :=
  match c.nextCall q with
  | some (.deleteTask id) => id == i
  | _ => false

theorem isRollingBack_iff {c : (proxy http).Config} {q : ℕ} {i : String} :
    isRollingBack c q i = true ↔
      ∃ req k, c.procs[q]? = some (.running req (.call (.deleteTask i) k)) := by
  rw [← Config.nextCall_eq_some]
  unfold isRollingBack
  split
  · next id hnext => simp [hnext]
  · next hnone => exact iff_of_false Bool.false_ne_true fun hnext => hnone i hnext

/-- The dispatch job of the task is stored, and no program is about to delete its row. -/
structure Kept (c : (proxy http).Config) (i : String) : Prop where
  queued : ∃ n, .dispatch i n ∈ c.store.queue
  kept : ∀ q, isRollingBack c q i = false

/-- **Rollbacks come at once.** When the job of a task is stored and its creation is not about to
delete the row, then no program ever will. -/
theorem kept_of_move (h : Runs allow (recorded http clock) s) (hm : s.move m = some s') {i : String}
    (hk : Kept s.config i) : Kept s'.config i := by
  obtain ⟨n, hn⟩ := hk.queued
  refine ⟨⟨n, queue_subset_of_move (Observed.config_move hm) hn⟩, fun q => ?_⟩
  by_contra hrolling
  obtain ⟨req, k, hq⟩ := isRollingBack_iff.mp (Bool.eq_true_of_not_eq_false hrolling)
  have hruns : Runs (fun _ _ => True) (recorded http clock) s' :=
    (h.mono fun _ _ _ => trivial).tail ⟨m, trivial, hm⟩
  obtain ⟨before, n', r', hlog⟩ := enqueued_of_deleteTask hruns hq
  obtain ⟨hold, -⟩ | ⟨o, x, k', r, -, hold, -, -, heq⟩ | ⟨-, -, heq⟩ :=
    Observed.running_cases (history_obeys h) hm hq
  · have hrolling : isRollingBack s.config q i = true := isRollingBack_iff.mpr ⟨req, k, hold⟩
    rw [hk.kept q] at hrolling
    cases hrolling
  · -- the call that leads to the deletion is the first to enqueue the job, which is stored already
    have hlast := List.append_inj_right' (heq.symm.trans hlog) rfl
    cases List.singleton_inj.mp hlast
    obtain ⟨hinserted, hunposted⟩ := inserted_of_enqueue h hold
    obtain ⟨r₀, hmem⟩ := ((inserters_of_runs h).queued i (.dispatch i n) ⟨n, rfl⟩ hn).2 q hinserted
    exact hunposted _ r₀ hmem
  · rw [heq] at hlog
    exact absurd hlog (by simp)

end LongRequestProxy
