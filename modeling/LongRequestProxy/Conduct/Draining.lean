import LongRequestProxy.Conduct.Waiting
import LongRequestProxy.Store.PlainCalls

/-!
# Draining the system

From every state reached, whatever was lost or died on the way, the functions in flight can all be
brought to their end by calls that no fault hits, in any order of the locks and whatever the clock
and the executors say. No transaction is open then.

## Main definitions

* `Await.isInsert`: the call creates a task.
* `AnsweredBy world`: the move is a call that no fault hits, and that is answered as `world` has it.

## Main results

* `create_atMost`: a creation inserts at most one row.
* `functions_complete`: the functions in flight can be brought to their end.
-/

namespace LongRequestProxy

open Async Discipline Service Function

/-- The call creates a task. -/
def Await.isInsert : Await → Bool
  | insertTask .. => true
  | _ => false

/-! ### One row for each creation -/

theorem releaseQuietly_inserts (key : Option String) :
    (TasksService.releaseQuietly key).run.Uses fun x => x.isInsert = false := by
  cases key with
  | none => exact uses_pure ()
  | some key => exact uses_tryCatch (Uses.call rfl) fun _ => uses_pure ()

theorem insertOrRelease_atMost (dto : CreateTaskDto) (key : Option String) :
    (TasksService.insertOrRelease dto key).run.AtMost Await.isInsert 1 := by
  have hquiet : ∀ x : Await, x.isInsert = false → (call x).run.AtMost Await.isInsert 0 :=
    fun x hx => .of_uses (Uses.call hx) 0
  refine Prog.AtMost.tryCatch (n := 1) (m := 0) ?_ fun e => .of_uses
    (uses_bind (releaseQuietly_inserts key) fun _ => uses_throw e) 0
  refine Prog.AtMost.bindExcept (n := 0) (m := 1) (hquiet _ rfl) fun now => ?_
  exact Prog.AtMost.bindExcept (n := 0) (m := 1) (hquiet _ rfl) fun token =>
    ⟨0, rfl, fun _ => trivial⟩

theorem enqueueOrRollback_inserts (task : TaskSelect) (key : Option String) :
    (TasksService.enqueueOrRollback task key).run.Uses fun x => x.isInsert = false := by
  refine uses_tryCatch (Uses.call rfl) fun e => ?_
  exact uses_bind (uses_tryCatch (Uses.call rfl) fun _ => uses_pure ()) fun _ =>
    uses_bind (releaseQuietly_inserts key) fun _ => uses_throw e

theorem commitQuietly_inserts (key : Option String) (taskId : String) :
    (TasksService.commitQuietly key taskId).run.Uses fun x => x.isInsert = false := by
  cases key with
  | none => exact uses_pure ()
  | some key => exact uses_tryCatch (Uses.call rfl) fun _ => uses_pure ()

theorem createTask_atMost (dto : CreateTaskDto) (baseUrl : String) (key : Option String) :
    (TasksService.createTask dto baseUrl key).run.AtMost Await.isInsert 1 := by
  refine Prog.AtMost.bindExcept (n := 1) (m := 0) (insertOrRelease_atMost dto key) fun task =>
    .of_uses ?_ 0
  exact uses_bind (enqueueOrRollback_inserts task key) fun _ =>
    uses_bind (commitQuietly_inserts key task.id) fun _ => uses_pure _

/-- A creation inserts at most one row. -/
theorem create_atMost (dto : CreateTaskDto) (baseUrl : String) :
    (TasksService.create dto baseUrl).run.AtMost Await.isInsert 1 := by
  unfold TasksService.create
  split
  · exact createTask_atMost dto baseUrl none
  · next key _ =>
    refine Prog.AtMost.bindExcept (n := 0) (m := 1)
      (.of_uses (uses_bind (Uses.call rfl) fun _ => uses_pure _) 0) fun slot => ?_
    cases slot with
    | acquired => exact createTask_atMost dto baseUrl (some key)
    | pending => trivial
    | duplicate taskId => trivial

variable {http : HttpClient} {clock : Timestamp} {c d : (proxy http).Config}
  {allow : (proxy http).Config → (proxy http).Move → Prop}

/-- The function of the program may still insert a row. -/
def MayInsert (pr : (proxy http).Proc) : Prop :=
  ∃ req P, pr = .running req P ∧ (∃ dto baseUrl, req = .create dto baseUrl) ∧
    ¬ P.AtMost Await.isInsert 0

/-- A creation in flight inserts at most one row. -/
theorem atMost_of_reaches (h : Reaches allow (initial http clock) c) {p : ℕ} {dto : CreateTaskDto}
    {baseUrl : String} {P : Prog Await Reply (Except JsError Response)}
    (hp : c.procs[p]? = some (.running (.create dto baseUrl) P)) : P.AtMost Await.isInsert 1 := by
  refine Reaches.program_invariant (I := fun (req : Request) P =>
    ∀ dto baseUrl, req = .create dto baseUrl → P.AtMost Await.isInsert 1) ?_ ?_ h hp dto baseUrl rfl
  · rintro _ dto baseUrl rfl
    exact Prog.AtMost.bindExcept (n := 1) (m := 0) (create_atMost dto baseUrl) fun _ => trivial
  · rintro _ x k r hP dto baseUrl rfl
    have hcall := hP dto baseUrl rfl
    simp only [Prog.AtMost] at hcall
    split at hcall
    · obtain ⟨m, hm, hk⟩ := hcall
      exact (hk r).mono (by omega)
    · exact hcall r

/-! ### Draining -/

/-- The move is a call that no fault hits, and the clock, the jitter and the replies of the
executors are as `world` has them. -/
def AnsweredBy (world : (proxy http).Config → ℕ → Oracle) (c : (proxy http).Config)
    (m : (proxy http).Move) : Prop :=
  ∀ p o, m = .call p o → ∃ id, (world c p).Serves id o

open Classical in
/-- How many functions may still insert a row. -/
noncomputable def insertions (c : (proxy http).Config) : ℕ :=
  c.procs.countP fun pr => decide (MayInsert pr)

/-- What draining keeps: the state was reached, and enough ids are left for the creations in
flight. -/
def Drainable (clock : Timestamp) (c : (proxy http).Config) : Prop :=
  Reaches (fun _ _ => True) (initial http clock) c ∧ ∃ fresh : List String, fresh.Nodup ∧
    (∀ id ∈ fresh, isUuid id = true ∧ id ∉ c.store.issued) ∧ insertions c < fresh.length

theorem countP_set_le {α : Type} {P : α → Bool} {l : List α} {i : ℕ} {a b : α}
    (h : l[i]? = some a) (hab : P b = true → P a = true) :
    (l.set i b).countP P ≤ l.countP P := by
  obtain ⟨hlt, rfl⟩ := List.getElem?_eq_some_iff.mp h
  have hle := List.boole_getElem_le_countP (p := P) hlt
  rw [List.countP_set hlt]
  cases hb : P b with
  | false => simp
  | true =>
    simp only [hab hb, if_true] at hle ⊢
    omega

theorem countP_set_lt {α : Type} {P : α → Bool} {l : List α} {i : ℕ} {a b : α}
    (h : l[i]? = some a) (ha : P a = true) (hb : P b = false) :
    (l.set i b).countP P < l.countP P := by
  obtain ⟨hlt, rfl⟩ := List.getElem?_eq_some_iff.mp h
  have hle := List.boole_getElem_le_countP (p := P) hlt
  rw [List.countP_set hlt]
  simp only [ha, hb, if_true, Bool.false_eq_true, if_false] at hle ⊢
  omega

/-- An insertion leaves one function less that may insert a row, every other call no more. -/
theorem insertions_of_call (h : Reaches allow (initial http clock) c) {p : ℕ} {o : Oracle}
    {req : Request} {x : Await} {k : Reply x → Prog Await Reply (Except JsError Response)}
    (hp : c.procs[p]? = some (.running req (.call x k))) (hm : c.move (.call p o) = some d) :
    (x.isInsert = false ∧ insertions d ≤ insertions c) ∨
      (x.isInsert = true ∧ insertions d < insertions c) := by
  classical
  obtain ⟨γ, -, hobeys⟩ := exists_observed h
  obtain ⟨_, hspawn, -⟩ | ⟨q, o', req', y, k', r, s', hcall, hq, -, rfl⟩ | ⟨_, _, _, _, hcrash, -⟩ |
    ⟨_, _, hambient, -⟩ := Config.move_cases hm
  · cases hspawn
  · cases hcall
    rw [hp] at hq
    cases hq
    unfold insertions
    cases hx : x.isInsert with
    | false =>
      refine .inl ⟨rfl, countP_set_le hp fun hnew => ?_⟩
      obtain ⟨_, _, heq, hcreate, hP⟩ := of_decide_eq_true hnew
      cases heq
      refine decide_eq_true ⟨req, _, rfl, hcreate, fun hold => hP ?_⟩
      simp only [Prog.AtMost, hx, Bool.false_eq_true, if_false] at hold
      exact hold r
    | true =>
      obtain ⟨dto, now, token, rfl⟩ : ∃ dto now token, x = .insertTask dto now token := by
        cases x <;> first | exact ⟨_, _, _, rfl⟩ | cases hx
      obtain ⟨-, -, baseUrl, rfl⟩ := hobeys.awaits hp
      refine .inr ⟨rfl, countP_set_lt hp (decide_eq_true ⟨_, _, rfl, ⟨dto, baseUrl, rfl⟩, ?_⟩)
        (decide_eq_false ?_)⟩
      · rintro ⟨m, hm, -⟩
        cases hm
      · rintro ⟨_, _, heq, -, hP⟩
        cases heq
        obtain ⟨m, hm, hk⟩ := atMost_of_reaches h hp
        obtain rfl : m = 0 := by simpa using hm
        exact hP (hk r)
  · cases hcrash
  · cases hambient

/-- A call that no fault hits issues no id but that of the row that it inserts. -/
theorem issued_of_call {p : ℕ} {o w : Oracle} {id : String} {req : Request} {x : Await}
    {k : Reply x → Prog Await Reply (Except JsError Response)} (ho : w.Serves id o)
    (hp : c.procs[p]? = some (.running req (.call x k))) (hm : c.move (.call p o) = some d) :
    d.store.issued = c.store.issued ∨
      x.isInsert = true ∧ d.store.issued = id :: c.store.issued := by
  obtain ⟨r, hr⟩ := Config.perform_of_callOf (Config.callOf_eq_some.mpr ⟨rfl, req, k, hp⟩) hm
  obtain ⟨v, -, hx⟩ | ⟨e, -, -, hσ⟩ := perform_cases_of_no_fault ho.fault hr
  · obtain ⟨-, hi⟩ | ⟨_, _, _, rfl, -, -, hi⟩ | ⟨_, -, -, hi⟩ | ⟨_, _, -, -, hi⟩ | ⟨-, hσ⟩ :=
      exec_tasks_cases hx
    · exact .inl hi
    · exact .inr ⟨rfl, by rw [hi, ho.uuid]⟩
    · exact .inl hi
    · exact .inl hi
    · exact .inl (by rw [hσ]; rfl)
  · exact .inl (by rw [hσ]; rfl)

/-- Some function can go on, and the system can still be drained. -/
theorem Drainable.exists_call {world : (proxy http).Config → ℕ → Oracle}
    (h : Drainable clock c) (hc : ¬ c.Quiescent) :
    ∃ p o d, AnsweredBy world c (.call p o) ∧ c.move (.call p o) = some d ∧ Drainable clock d := by
  obtain ⟨hreach, fresh, hnodup, hfresh, hlen⟩ := h
  obtain ⟨id, fresh, rfl⟩ : ∃ id rest, fresh = id :: rest :=
    List.exists_cons_of_length_pos (by omega)
  obtain ⟨hid, hnew⟩ := hfresh id List.mem_cons_self
  obtain ⟨p, ⟨req, x, k, hp⟩, o, d, ho, hm⟩ := exists_ready_of_rank (rankOf c)
    (fun p => ∃ o d, (world c p).Serves id o ∧ c.move (.call p o) = some d)
    (fun p hp => (serves_or_waitsFor hreach hid hnew hp (world c p)).imp_right
      fun ⟨q, hq⟩ => ⟨q, rankOf_lt_of_waitsFor hreach hq⟩) hc
  have hanswer : AnsweredBy world c (.call p o) := fun p' o' heq => by
    cases heq
    exact ⟨id, ho⟩
  have hd : Reaches (fun _ _ => True) (initial http clock) d := hreach.tail ⟨_, trivial, hm⟩
  refine ⟨p, o, d, hanswer, hm, hd, ?_⟩
  obtain ⟨hx, hle⟩ | ⟨-, hlt⟩ := insertions_of_call hreach hp hm
  · refine ⟨id :: fresh, hnodup, ?_, by omega⟩
    obtain hi | ⟨hins, -⟩ := issued_of_call ho hp hm
    · rwa [hi]
    · rw [hx] at hins
      cases hins
  · refine ⟨fresh, (List.nodup_cons.mp hnodup).2, fun i hi => ?_, by simp at hlen; omega⟩
    obtain ⟨hi₁, hi₂⟩ := hfresh i (List.mem_cons_of_mem _ hi)
    refine ⟨hi₁, ?_⟩
    obtain heq | ⟨-, heq⟩ := issued_of_call ho hp hm
    · rwa [heq]
    · rw [heq, List.mem_cons, not_or]
      refine ⟨?_, hi₂⟩
      rintro rfl
      exact (List.nodup_cons.mp hnodup).1 hi

/-- When nothing is in flight no transaction is open. -/
theorem tx_eq_empty_of_quiescent (h : Reaches allow (initial http clock) c) (hc : c.Quiescent)
    (p : ℕ) : c.store.tx p = {} := by
  obtain ⟨γ, hγ, hobeys⟩ := exists_observed h
  refine ((tracked_of_runs hγ).tracks p).eq_empty ?_
  dsimp only
  by_cases hstart : γ p = {}
  · rw [hstart]
  · obtain ⟨req, x, k, hp, -⟩ | ⟨req, a, -, hret⟩ := hobeys.inFlight_or_returned hstart
    · exact absurd ⟨req, x, k, hp⟩ (hc p)
    · exact hret.1.tx

/-- All functions in flight are brought to their end. -/
theorem Drainable.drained (h : Drainable clock c) (world : (proxy http).Config → ℕ → Oracle) :
    ∃ c', Reaches (CallsOnly (AnsweredBy world)) c c' ∧ c'.Quiescent ∧ ∀ p, c'.store.tx p = {} := by
  obtain ⟨c', hreach, ⟨hc', -⟩, hquiet⟩ :=
    exists_quiescent (fun d hd hbusy => hd.exists_call hbusy) h
  exact ⟨c', hreach, hquiet, tx_eq_empty_of_quiescent hc' hquiet⟩

theorem drainable_of_length (h : Reaches allow (initial http clock) c) {fresh : List String}
    (hnodup : fresh.Nodup) (hfresh : ∀ id ∈ fresh, isUuid id = true ∧ id ∉ c.store.issued)
    (hlen : c.procs.length < fresh.length) : Drainable clock c :=
  ⟨h.mono fun _ _ _ => trivial, fresh, hnodup, hfresh, List.countP_le_length.trans_lt hlen⟩

end LongRequestProxy
