import LongRequestProxy.Delivery.EventLocks
import LongRequestProxy.Delivery.EventNumbers
import LongRequestProxy.Executor.Answers

/-!
# Webhook jobs

A result request that has ended its task enqueues the webhook job of the task itself, after the
write, the event and the publication. It is the only function that does: a dispatch failure and
the timeout sweeper end tasks without a webhook job.

## Main definitions

* `noFailure`: the moves without crashes and without faults of the servers.
* `Summary.Ends`: a result request whose write has ended the task.
* `endsUnannounced`: the moves that end a task with a webhook in another way.

## Main results

* `webhook_enqueued_once`: without such moves every completed or failed task with a webhook gets
  exactly one webhook job.
* `dispatch_failure_has_no_webhook`: a failed task that gets none.
-/

namespace LongRequestProxy

open Async Service Discipline Function

variable {http : HttpClient} {clock : Timestamp} {w : Summary} {req : Request} {x : Await}
  {i : String} {authorization : Option String} {dto : SubmitResultDto}

/-! ### Result requests that have ended their task -/

namespace Summary

/-- The write of the function has ended the task. -/
def Ends (w : Summary) (i : String) : Prop :=
  ∃ write row, w.updated = some ⟨i, write, some row⟩ ∧ write.ending ≠ none

/-- Only a write changes what a function knows of its write. -/
theorem updated_next (hx : ∀ id write, x ≠ .updateTask id write) (r : Reply x) :
    (w.next x r).updated = w.updated := by
  cases r with
  | error e => cases x <;> first | rfl | exact absurd rfl (hx _ _)
  | ok v =>
    cases x with
    | updateTask id write => exact absurd rfl (hx id write)
    | txCancelTask id now => cases v <;> rfl
    | _ => rfl

/-- A result request writes once. -/
theorem awaitsWrite_of_result {id : String} {write : TaskWrite}
    (h : w.AwaitsWrite (.result i authorization dto) id write) :
    id = i ∧ w.updated = none ∧ ∃ now, write = dto.write now := by
  cases write with
  | dispatchClaim now timeoutSeconds => cases h.1
  | dispatchFailure now error =>
    obtain ⟨_, _, hreq, -⟩ := h
    cases hreq
  | dispatchRevert =>
    obtain ⟨_, _, hreq, -⟩ := h
    cases hreq
  | submitCompleted now result =>
    obtain ⟨hnone, _, hreq, -⟩ := h
    cases hreq
    exact ⟨rfl, hnone, now, rfl⟩
  | submitFailed now error =>
    obtain ⟨hnone, _, hreq, -⟩ := h
    cases hreq
    exact ⟨rfl, hnone, now, rfl⟩
  | progress n =>
    obtain ⟨-, _, _, hreq, -⟩ := h
    cases hreq
  | cancel now => exact h.elim
  | expire now => exact h.elim

theorem ending_write_ne_none (dto : SubmitResultDto) (now : Timestamp) :
    (dto.write now).ending ≠ none := by
  cases dto <;> exact Option.some_ne_none _

/-- A write that ends a task is made by a result request. -/
theorem ends_of_next {r : Reply x} (h : (w.next x r).Ends i) :
    w.Ends i ∨ ∃ write row, x = .updateTask i write ∧
      HEq r (.ok (some row) : Reply (.updateTask i write)) ∧ write.ending ≠ none := by
  obtain ⟨write, row, hu, hends⟩ := h
  obtain hold | ⟨hx, hr⟩ := updated_of_next hu
  · exact .inl ⟨write, row, hold, hends⟩
  · exact .inr ⟨write, row, hx, hr, hends⟩

/-- What holds of a function of the request in view of the tasks that it has ended. -/
structure Announces (req : Request) (w : Summary) : Prop where
  /-- A task is ended by its result request, which has read it. -/
  request : ∀ i, w.Ends i → (∃ authorization dto, req = .result i authorization dto) ∧
    ∃ t, w.found = some t ∧ t.id = i
  /-- A result request writes no row in its transaction. -/
  rows : ∀ i authorization dto, req = .result i authorization dto → w.tx.rows = []
  /-- A result request has an event to insert only for the task that it has ended. -/
  due : ∀ i authorization dto, req = .result i authorization dto → ∀ y ∈ w.due, w.Ends y.1
  numbers : ∀ i authorization dto, req = .result i authorization dto →
    ∀ y ∈ w.tx.numbers, w.Ends y.1
  /-- A webhook job is enqueued by a function that has ended the task. -/
  hooks : ∀ i, .webhook i ∈ w.enqueued → w.Ends i

/-- A result request that has ended its task neither writes again nor reads it again. -/
theorem Ends.next (h : w.Ends i) (hw : w.Announces req) (ha : w.Awaits req x) (r : Reply x) :
    (w.next x r).Ends i ∧ (w.next x r).found = w.found := by
  obtain ⟨⟨authorization, dto, rfl⟩, t, ht, -⟩ := hw.request i h
  have hfind : ∀ id, x ≠ .findTask id := by
    rintro id rfl
    have hnone := ha.2 i authorization dto rfl
    rw [ht] at hnone
    cases hnone
  have hwrite : ∀ id write, x ≠ .updateTask id write := by
    rintro id write rfl
    obtain ⟨-, hnone, -⟩ := awaitsWrite_of_result ha.2
    obtain ⟨write, row, hu, -⟩ := h
    rw [hnone] at hu
    cases hu
  refine ⟨?_, found_next hfind r⟩
  obtain ⟨write, row, hu, hends⟩ := h
  exact ⟨write, row, (updated_next hwrite r).trans hu, hends⟩

theorem announces_start (req : Request) : Announces req {} where
  request := by
    rintro i ⟨_, _, hu, -⟩
    cases hu
  rows _ _ _ _ := rfl
  due _ _ _ _ := List.forall_mem_nil _
  numbers _ _ _ _ := List.forall_mem_nil _
  hooks _ h := by cases h

/-- In its transaction a result request never writes a row. -/
theorem rows_next (ha : w.Awaits (.result i authorization dto) x) (h : w.tx.rows = [])
    (r : Reply x) : (w.next x r).tx.rows = [] := by
  cases r with
  | error e => rfl
  | ok v =>
    cases x with
    | updateTask id write => cases write <;> exact h
    | txCancelTask id now => cases ha.2
    | txExpireTasks now limit =>
      obtain ⟨-, _, hreq⟩ := ha
      cases hreq
    | txCommit => rfl
    | _ => exact h

theorem due_next (ha : w.Awaits (.result i authorization dto) x) {r : Reply x}
    {y : String × TaskEventType} (hy : y ∈ (w.next x r).due) :
    y ∈ w.due ∨ (w.next x r).Ends y.1 := by
  cases r with
  | error e => cases hy
  | ok v =>
    cases x with
    | updateTask id write =>
      obtain ⟨rfl, -, now, rfl⟩ := awaitsWrite_of_result ha.2
      refine .inr ?_
      cases v with
      | none => cases dto <;> cases hy
      | some row =>
        cases dto <;> (cases List.mem_singleton.mp hy; exact ⟨_, row, rfl, Option.some_ne_none _⟩)
    | txCancelTask id now => cases ha.2
    | txExpireTasks now limit =>
      obtain ⟨-, _, hreq⟩ := ha
      cases hreq
    | txInsertEvent seq input => cases hy
    | txInsertExpiryEvents events => cases hy
    | _ => exact .inl hy

theorem numbers_next (ha : w.Awaits (.result i authorization dto) x) (h : w.tx.rows = [])
    {r : Reply x} {y : String × ℤ} (hy : y ∈ (w.next x r).tx.numbers) :
    y ∈ w.tx.numbers ∨ x = .txNextSeq y.1 := by
  cases r with
  | error e => cases hy
  | ok v =>
    cases x with
    | updateTask id write => cases write <;> exact .inl hy
    | txCancelTask id now => cases ha.2
    | txExpireTasks now limit =>
      obtain ⟨-, _, hreq⟩ := ha
      cases hreq
    | txNextSeq id =>
      rw [List.mem_singleton.mp hy]
      exact .inr rfl
    | txInsertEvent seq input => cases hy
    | txNumberExpiryEvents ids =>
      obtain ⟨hne, htx, -⟩ := ha
      rw [htx] at h
      exact absurd h hne
    | txInsertExpiryEvents events => cases hy
    | txCommit => cases hy
    | _ => exact .inl hy

theorem enqueued_next {r : Reply x} {job : Job} (h : job ∈ (w.next x r).enqueued) :
    job ∈ w.enqueued ∨ x = .enqueue job := by
  cases r with
  | error e => exact .inl h
  | ok v =>
    cases x with
    | enqueue job' =>
      rcases List.mem_cons.mp h with rfl | h
      · exact .inr rfl
      · exact .inl h
    | updateTask id write => cases write <;> exact .inl h
    | txCancelTask id now => cases v <;> exact .inl h
    | _ => exact .inl h

/-- What a function has enqueued stays enqueued. -/
theorem enqueued_subset_next (r : Reply x) : w.enqueued ⊆ (w.next x r).enqueued := by
  cases r with
  | error e => exact List.Subset.refl _
  | ok v =>
    cases x with
    | enqueue job => exact List.subset_cons_self _ _
    | updateTask id write => cases write <;> exact List.Subset.refl _
    | txCancelTask id now => cases v <;> exact List.Subset.refl _
    | _ => exact List.Subset.refl _

theorem announces_next {r : Reply x} (ha : w.Awaits req x) (h : w.Announces req) :
    (w.next x r).Announces req := by
  have hkeep : ∀ j, w.Ends j → (w.next x r).Ends j := fun j hj => (hj.next h ha r).1
  refine ⟨fun j hj => ?_, ?_, ?_, ?_, fun j hj => ?_⟩
  · by_cases hold : w.Ends j
    · rw [(hold.next h ha r).2]
      exact h.request j hold
    · obtain hold' | ⟨write, row, rfl, -, hends⟩ := ends_of_next hj
      · exact absurd hold' hold
      · -- the function of the write is a result request, which has passed the guard
        have hwrite : w.AwaitsWrite req j write := ha.2
        rw [found_next (by simp) r]
        cases write with
        | submitCompleted now result =>
          obtain ⟨-, authorization, rfl, t, -, -, ht, hid, -⟩ := hwrite
          exact ⟨⟨authorization, _, rfl⟩, t, ht, hid⟩
        | submitFailed now error =>
          obtain ⟨-, authorization, rfl, t, -, -, ht, hid, -⟩ := hwrite
          exact ⟨⟨authorization, _, rfl⟩, t, ht, hid⟩
        | dispatchFailure now error =>
          cases r with
          | ok v => exact absurd hj hold
          | error e =>
            obtain ⟨_, _, hu, -⟩ := hj
            cases hu
        | cancel now => exact hwrite.elim
        | expire now => exact hwrite.elim
        | _ => exact absurd rfl hends
  · rintro i authorization dto rfl
    exact rows_next ha (h.rows i authorization dto rfl) r
  · rintro i authorization dto rfl y hy
    obtain hold | hends := due_next ha hy
    · exact hkeep _ (h.due i authorization dto rfl y hold)
    · exact hends
  · rintro i authorization dto rfl y hy
    obtain hold | rfl := numbers_next ha (h.rows i authorization dto rfl) hy
    · exact hkeep _ (h.numbers i authorization dto rfl y hold)
    · obtain ⟨type, hdue, -⟩ := ha
      exact hkeep _ (h.due i authorization dto rfl (y.1, type)
        (hdue ▸ List.mem_singleton_self _))
  · obtain hold | rfl := enqueued_next hj
    · exact hkeep j (h.hooks j hold)
    · obtain ⟨-, -, authorization, dto, t, now, u, -, -, -, hu⟩ := ha
      exact hkeep j ⟨_, u, hu, ending_write_ne_none dto now⟩

end Summary

/-! ### Runs without failures -/

/-- No process crashes, and every remote call reaches its server and is answered. -/
def noFailure (_ : (proxy http).Config) (m : (proxy http).Move) : Bool :=
  match m with
  | .crash _ => false
  | .call _ o => o.fault == .none
  | _ => true

variable {allow : (proxy http).Config → (proxy http).Move → Prop}
  {s s' : (discipline http).Observed} {m : (proxy http).Move}

/-- **Everything that a move without a failure can do.** Only a statement that Postgres refuses
throws. -/
theorem noFailure_cases (hs : s.Obeys) (hm : s.move m = some s')
    (hallow : noFailure s.config m = true) :
    (s'.locals = s.locals ∧ ∃ time, s'.config.store = { s.config.store with clock := time }) ∨
    ∃ p o req x k r, m = .call p o ∧ s.config.procs[p]? = some (.running req (.call x k)) ∧
      (s.locals p).Awaits req x ∧ x.Possible r ∧
      s'.locals = update s.locals p ((s.locals p).next x r) ∧
      ((∃ v, r = .ok v ∧ exec p o s.config.store x = some (.ok (v, s'.config.store))) ∨
        ∃ e, r = .error e ∧ exec p o s.config.store x = some (.error e) ∧
          s'.config.store = s.config.store.rollback p) := by
  obtain ⟨req, -, -, rfl⟩ | ⟨p, o, req, x, k, r, σ, rfl, hp, hx, rfl⟩ | ⟨p, req, x, k, rfl, -, -⟩ |
    ⟨time, σ, -, hx, rfl⟩ := Observed.move_cases hm
  · exact .inl ⟨rfl, s.config.store.clock, rfl⟩
  · exact .inr ⟨p, o, req, x, k, r, rfl, hp, hs.awaits hp, possible_of_perform hx, rfl,
      perform_cases_of_no_fault (by simpa [noFailure] using hallow) hx⟩
  · cases hallow
  · simp only [proxy, Backend.tick] at hx
    split at hx
    · cases hx
      exact .inl ⟨rfl, time, rfl⟩
    · cases hx

/-! ### The functions that end tasks -/

theorem announces_of_running (h : Runs allow (observed http clock) s) {p : ℕ}
    {P : Prog Await Reply (Except JsError Response)}
    (hp : s.config.procs[p]? = some (.running req P)) : (s.locals p).Announces req :=
  (discipline_sound http).summary_invariant (I := fun req (w : Summary) => w.Announces req)
    Summary.announces_start (fun _ _ _ _ ha _ hw => Summary.announces_next ha hw) h observed_obeys
    rfl hp

/-- A task is ended by a running result request. -/
theorem running_of_ends (h : Runs allow (observed http clock) s) {p : ℕ}
    (hends : (s.locals p).Ends i) :
    ∃ authorization dto P, s.config.procs[p]? = some (.running (.result i authorization dto) P) ∧
      (s.locals p).Announces (.result i authorization dto) := by
  have hne : s.locals p ≠ {} := by
    intro heq
    obtain ⟨_, _, hu, -⟩ := hends
    rw [heq] at hu
    cases hu
  obtain ⟨req, P, hp⟩ := (obeys_of_runs h).exists_running hne
  have hannounces := announces_of_running h hp
  obtain ⟨⟨authorization, dto, rfl⟩, -⟩ := hannounces.request i hends
  exact ⟨authorization, dto, P, hp, hannounces⟩

/-- A webhook job is enqueued by a function that has ended the task. -/
theorem ends_of_enqueued (h : Runs allow (observed http clock) s) {p : ℕ}
    (hjob : .webhook i ∈ (s.locals p).enqueued) : (s.locals p).Ends i := by
  have hne : s.locals p ≠ {} := by
    intro heq
    rw [heq] at hjob
    cases hjob
  obtain ⟨req, P, hp⟩ := (obeys_of_runs h).exists_running hne
  exact (announces_of_running h hp).hooks i hjob

/-- A function that has ended a task keeps this, and the row that it has read. -/
theorem ends_of_call (h : Runs allow (observed http clock) s) {p : ℕ} {r : Reply x}
    {k : Reply x → Prog Await Reply (Except JsError Response)}
    (hp : s.config.procs[p]? = some (.running req (.call x k))) {q : ℕ}
    (hq : (s.locals q).Ends i) :
    (update s.locals p ((s.locals p).next x r) q).Ends i ∧
      (update s.locals p ((s.locals p).next x r) q).found = (s.locals q).found := by
  by_cases hqp : q = p
  · subst hqp
    rw [update_self]
    exact hq.next (announces_of_running h hp) ((obeys_of_runs h).awaits hp) r
  · rw [update_of_ne hqp]
    exact ⟨hq, rfl⟩

/-- The numbers of a function that has ended their task are read under its advisory lock. -/
theorem lock_of_number (h : Runs allow (observed http clock) s) {p : ℕ} {y : String × ℤ}
    (hy : y ∈ (s.locals p).tx.numbers) (hends : (s.locals p).Ends y.1) :
    y.1 ∈ (s.locals p).tx.locks := by
  obtain ⟨authorization, dto, P, -, hannounces⟩ := running_of_ends h hends
  obtain hlock | hrow := (guards_of_runs h p).numbers y hy
  · exact hlock
  · rw [hannounces.rows _ _ _ rfl] at hrow
    cases hrow

/-- What holds of the functions that have ended their tasks and of the jobs that they enqueue. -/
structure Announced (σ : Backend) (γ : ℕ → Summary) : Prop where
  /-- A task is ended by one function. -/
  once : ∀ i p q, (γ p).Ends i → (γ q).Ends i → p = q
  ended : ∀ i p, (γ p).Ends i → i ∈ σ.issued ∧ ∀ t ∈ σ.tasks, t.id = i → t.status.isTerminal = true
  /-- The number that the function has read for its event is free. -/
  free : ∀ p, ∀ y ∈ (γ p).tx.numbers, (γ p).Ends y.1 → ∀ e ∈ σ.events, e.taskId = y.1 → e.seq ≠ y.2
  queued : ∀ i p, .webhook i ∈ (γ p).enqueued → .webhook i ∈ σ.queue
  posted : ∀ i, .webhook i ∈ σ.queue → ∃ p, .webhook i ∈ (γ p).enqueued
  single : ∀ i, σ.queue.count (.webhook i) ≤ 1

namespace Announced

variable {σ σ' : Backend} {γ γ' : ℕ → Summary}

theorem initial : Announced { clock := clock } fun _ => {} where
  once := by
    rintro i p q ⟨_, _, hu, -⟩
    cases hu
  ended := by
    rintro i p ⟨_, _, hu, -⟩
    cases hu
  free _ _ hy := by cases hy
  queued _ _ h := by cases h
  posted _ h := by cases h
  single _ := Nat.zero_le 1

end Announced

/-- The row that a write ends, and that the reply names, was open before and is ended now. -/
theorem ended_of_write (h : Runs allow (observed http clock) s) {σ' : Backend} {p : ℕ} {o : Oracle}
    {write : TaskWrite} {row : TaskSelect} (hends : write.ending ≠ none)
    (hx : exec p o s.config.store (.updateTask i write) = some (.ok (some row, σ'))) :
    (∃ t ∈ s.config.store.tasks, t.id = i ∧ t.status.isTerminal = false) ∧
      i ∈ s.config.store.issued ∧ ∀ t ∈ σ'.tasks, t.id = i → t.status.isTerminal = true := by
  obtain ⟨st, hst⟩ := Option.ne_none_iff_exists'.mp hends
  have hids := (tracked_of_runs h).rowIds
  obtain ⟨r, hr, rfl, hm, rfl, rfl⟩ := Backend.updateTask_some hx
  refine ⟨⟨r, hr, rfl, TaskWrite.not_isTerminal_of_ending hst hm⟩, hids.issued r hr,
    fun t ht hid => ?_⟩
  obtain ⟨r', hr', ⟨hw, rfl⟩ | ⟨hw, rfl⟩⟩ := Table.mem_update.mp ht
  · obtain ⟨-, -, hset⟩ := TaskWrite.of_where hw
    rw [hset, TaskWrite.status_apply_of_ending hst r']
    exact TaskWrite.isTerminal_of_ending hst
  · obtain rfl := Table.eq_of_key_eq hids.nodup hr' hr hid
    rw [show (write.stmt t.id).where_ t = true from hm] at hw
    cases hw

/-- Tasks that have ended stay ended. -/
theorem ended_of_move (h : Runs allow (observed http clock) s) (hm : s.move m = some s')
    (hi : i ∈ s.config.store.issued)
    (hended : ∀ t ∈ s.config.store.tasks, t.id = i → t.status.isTerminal = true) :
    i ∈ s'.config.store.issued ∧
      ∀ t ∈ s'.config.store.tasks, t.id = i → t.status.isTerminal = true := by
  obtain ⟨δ, hδ⟩ := ledger_of_reaches (h.reaches.mono fun _ _ _ => trivial)
  obtain ⟨hissued, hrows⟩ := rowStep_of_move hδ (Observed.config_move hm)
  refine ⟨hissued hi, fun t ht hid => ?_⟩
  obtain ⟨r, hr, hrid, hsame⟩ | ⟨hnew, -⟩ := hrows t ht
  · have hterm := hended r hr (hrid.trans hid)
    rwa [(hsame hterm).status]
  · exact absurd (hid ▸ hi) hnew

section Call

variable {p : ℕ} {o : Oracle} {k : Reply x → Prog Await Reply (Except JsError Response)}
  {r : Reply x} {σ' : Backend} {v : x.Val}

/-- A task that has been ended by a function after a call was so before, or the call is the
function's own write. -/
theorem ends_cases {q : ℕ} (hx : ∀ v, r = .ok v → exec p o s.config.store x = some (.ok (v, σ')))
    (hq : (update s.locals p ((s.locals p).next x r) q).Ends i) :
    (s.locals q).Ends i ∨ q = p ∧ ∃ write row, x = .updateTask i write ∧ write.ending ≠ none ∧
      exec p o s.config.store (.updateTask i write) = some (.ok (some row, σ')) := by
  by_cases hqp : q = p
  · subst hqp
    rw [update_self] at hq
    obtain hold | ⟨write, row, rfl, hr, hends⟩ := Summary.ends_of_next hq
    · exact .inl hold
    · exact .inr ⟨rfl, write, row, rfl, hends, hx _ (eq_of_heq hr)⟩
  · rw [update_of_ne hqp] at hq
    exact .inl hq

/-- A number that is read under the advisory lock of a task that has ended stays free. -/
theorem free_of_call (h : Runs allow (observed http clock) s)
    (hs : Announced s.config.store s.locals)
    (hp : s.config.procs[p]? = some (.running req (.call x k)))
    (hx : exec p o s.config.store x = some (.ok (v, σ'))) {q : ℕ} {y : String × ℤ}
    (hy : y ∈ (update s.locals p ((s.locals p).afterValue x v) q).tx.numbers)
    (hends : (s.locals q).Ends y.1) : ∀ e ∈ σ'.events, e.taskId = y.1 → e.seq ≠ y.2 := by
  have ha : (s.locals p).Awaits req x := (obeys_of_runs h).awaits hp
  obtain hev | ⟨rfl, rfl⟩ := exec_events_cases hx
  · rw [hev]
    by_cases hqp : q = p
    · subst hqp
      rw [update_self] at hy
      obtain ⟨authorization, dto, P, hrun, hannounces⟩ := running_of_ends h hends
      rw [hp] at hrun
      cases hrun
      obtain hold | rfl := Summary.numbers_next (r := .ok v) ha (hannounces.rows _ _ _ rfl) hy
      · exact hs.free q y hold hends
      · obtain ⟨_, -, -, htx⟩ := ha
        cases hx
        rw [List.mem_singleton.mp hy]
        intro e he hid
        rw [← (tracked_of_runs h).committedEvents_eq (congrArg OpenTx.events htx)
          (congrArg OpenTx.cleared htx)] at he
        exact Int.ne_of_lt (Int.lt_add_one_of_le (Backend.le_maxSeq he hid))
    · rw [update_of_ne hqp] at hy
      exact hs.free q y hy hends
  · by_cases hqp : q = p
    · subst hqp
      rw [update_self] at hy
      cases hy
    · rw [update_of_ne hqp] at hy
      intro e he hid
      obtain ⟨he, -⟩ | he := Backend.mem_commit_events.mp he
      · exact hs.free q y hy hends e he hid
      · -- the committing transaction would belong to a row that has not ended
        have hlock := lock_of_number h hy hends
        rw [← hid] at hlock hends
        obtain ⟨t, ht, htid, hopen⟩ := exists_row_of_event h (Ne.symm hqp) hlock he
        rw [(hs.ended _ q hends).2 t ht htid] at hopen
        cases hopen

end Call

/-- A webhook job that is enqueued is the only one of its task. -/
theorem queue_of_call (h : Runs allow (observed http clock) s)
    (hs : Announced s.config.store s.locals) {p : ℕ} {o : Oracle} {v : x.Val} {σ' : Backend}
    (ha : (s.locals p).Awaits req x)
    (hx : exec p o s.config.store x = some (.ok (v, σ'))) (i : String) :
    (σ'.queue.count (.webhook i) ≤ 1) ∧
      (.webhook i ∈ s.config.store.queue → .webhook i ∈ σ'.queue) ∧
      (.webhook i ∈ σ'.queue → .webhook i ∈ s.config.store.queue ∨ x = .enqueue (.webhook i)) := by
  obtain hq | ⟨job, rfl, hq⟩ := exec_queue_cases hx
  · rw [hq]
    exact ⟨hs.single i, id, .inl⟩
  · rw [hq]
    refine ⟨?_, List.mem_append_left _, fun hmem => ?_⟩
    · by_cases hjob : job = .webhook i
      · subst hjob
        obtain ⟨-, hnone, authorization, dto, t, now, u, -, -, -, hu⟩ := ha
        have hends : (s.locals p).Ends i := ⟨_, u, hu, Summary.ending_write_ne_none dto now⟩
        -- a job in the queue would be of this function, which has enqueued none
        have hnot : .webhook i ∉ s.config.store.queue := by
          intro hmem
          obtain ⟨q, hq⟩ := hs.posted i hmem
          rw [hs.once i q p (ends_of_enqueued h hq) hends, hnone] at hq
          cases hq
        rw [List.count_append, List.count_eq_zero_of_not_mem hnot, List.count_singleton_self]
      · rw [List.count_append, List.count_singleton, if_neg (by simpa using hjob), Nat.add_zero]
        exact hs.single i
    · rcases List.mem_append.mp hmem with hmem | hmem
      · exact .inl hmem
      · exact .inr (congrArg Await.enqueue (List.mem_singleton.mp hmem).symm)

/-- **Step lemma.** Moves without failures keep all of this. -/
theorem announced_of_move (h : Runs allow (observed http clock) s)
    (hallow : noFailure s.config m = true) (hm : s.move m = some s')
    (hs : Announced s.config.store s.locals) : Announced s'.config.store s'.locals := by
  obtain ⟨hlocals, time, hσ⟩ | ⟨p, o, req, x, k, r, rfl, hp, ha, hr, hlocals, hreply⟩ :=
    noFailure_cases (obeys_of_runs h) hm hallow
  · rw [hlocals, hσ]
    exact ⟨hs.once, hs.ended, hs.free, hs.queued, hs.posted, hs.single⟩
  have hok : ∀ v, r = .ok v → exec p o s.config.store x = some (.ok (v, s'.config.store)) := by
    rintro v rfl
    obtain ⟨v', hv, hx⟩ | ⟨e, he, -⟩ := hreply
    · cases hv
      exact hx
    · cases he
  have hends : ∀ {i q}, (s'.locals q).Ends i → (s.locals q).Ends i ∨ q = p ∧
      ∃ write row, x = .updateTask i write ∧ write.ending ≠ none ∧
        exec p o s.config.store (.updateTask i write) = some (.ok (some row, s'.config.store)) := by
    intro i q hq
    rw [hlocals] at hq
    exact ends_cases hok hq
  have hopen : ∀ {i write row}, write.ending ≠ none →
      exec p o s.config.store (.updateTask i write) = some (.ok (some row, s'.config.store)) →
      ∀ q, ¬ (s.locals q).Ends i := by
    intro i write row hne hx q hq
    obtain ⟨⟨t, ht, hid, hopen⟩, -⟩ := ended_of_write h hne hx
    rw [(hs.ended i q hq).2 t ht hid] at hopen
    cases hopen
  have hjobs : ∀ {i q}, .webhook i ∈ (s'.locals q).enqueued →
      .webhook i ∈ (s.locals q).enqueued ∨ q = p ∧ x = .enqueue (.webhook i) := by
    intro i q hq
    rw [hlocals] at hq
    by_cases hqp : q = p
    · subst hqp
      rw [update_self] at hq
      exact (Summary.enqueued_next hq).imp_right fun hx => ⟨rfl, hx⟩
    · rw [update_of_ne hqp] at hq
      exact .inl hq
  have hkeeps : ∀ {i q}, .webhook i ∈ (s.locals q).enqueued →
      .webhook i ∈ (s'.locals q).enqueued := by
    intro i q hq
    rw [hlocals]
    by_cases hqp : q = p
    · subst hqp
      rw [update_self]
      exact Summary.enqueued_subset_next r hq
    · rwa [update_of_ne hqp]
  have hqueue : ∀ i, s'.config.store.queue.count (.webhook i) ≤ 1 ∧
      (.webhook i ∈ s.config.store.queue → .webhook i ∈ s'.config.store.queue) ∧
      (.webhook i ∈ s'.config.store.queue → .webhook i ∈ s.config.store.queue ∨
        x = .enqueue (.webhook i) ∧ ∃ v, r = .ok v) := by
    intro i
    obtain ⟨v, hr, hx⟩ | ⟨e, -, -, hσ⟩ := hreply
    · obtain ⟨hcount, hold, hnew⟩ := queue_of_call h hs ha hx i
      exact ⟨hcount, hold, fun hmem => (hnew hmem).imp_right fun hcall => ⟨hcall, v, hr⟩⟩
    · rw [hσ]
      exact ⟨hs.single i, id, .inl⟩
  refine ⟨fun i q q' hq hq' => ?_, fun i q hq => ?_, fun q y hy hq => ?_, fun i q hq => ?_,
    fun i hi => ?_, fun i => ?_⟩
  · obtain hold | ⟨rfl, write, row, -, hne, hx⟩ := hends hq
    · obtain hold' | ⟨-, write, row, -, hne, hx⟩ := hends hq'
      · exact hs.once i q q' hold hold'
      · exact absurd hold (hopen hne hx q)
    · obtain hold' | ⟨rfl, -⟩ := hends hq'
      · exact absurd hold' (hopen hne hx q')
      · rfl
  · obtain hold | ⟨rfl, write, row, -, hne, hx⟩ := hends hq
    · obtain ⟨hissued, hended⟩ := hs.ended i q hold
      exact ended_of_move h hm hissued hended
    · obtain ⟨-, hissued, hended⟩ := ended_of_write h hne hx
      exact ⟨issued_subset_of_exec hx hissued, hended⟩
  · obtain ⟨v, rfl, hx⟩ | ⟨e, rfl, -, hσ⟩ := hreply
    · obtain hold | ⟨rfl, write, row, rfl, hne, -⟩ := hends hq
      · rw [hlocals] at hy
        exact free_of_call h hs hp hx hy hold
      · -- before its write the function has no number
        have hnone : (s.locals q).tx.numbers = [] := congrArg OpenTx.numbers ha.1.tx
        rw [hlocals, update_self] at hy
        have hold : y ∈ (s.locals q).tx.numbers := by cases write <;> exact hy
        rw [hnone] at hold
        cases hold
    · rw [hlocals] at hy hq
      by_cases hqp : q = p
      · subst hqp
        rw [update_self] at hy
        cases hy
      · rw [update_of_ne hqp] at hy hq
        rw [hσ]
        exact hs.free q y hy hq
  · obtain hold | ⟨rfl, rfl⟩ := hjobs hq
    · exact (hqueue i).2.1 (hs.queued i q hold)
    · obtain ⟨v, -, hx⟩ | ⟨e, -, hx, -⟩ := hreply
      · have hσ : { s.config.store with queue := s.config.store.queue ++ [.webhook i] } =
            s'.config.store := congrArg Prod.snd (Except.ok.inj (Option.some.inj hx))
        rw [← hσ]
        exact List.mem_append_right _ (List.mem_singleton_self _)
      · cases hx
  · obtain hold | ⟨rfl, v, rfl⟩ := (hqueue i).2.2 hi
    · obtain ⟨q, hq⟩ := hs.posted i hold
      exact ⟨q, hkeeps hq⟩
    · refine ⟨p, ?_⟩
      rw [hlocals, update_self]
      exact List.mem_cons_self
  · exact (hqueue i).1

/-- Without failures only the write of a result request can be refused. -/
theorem eq_updateTask_of_error (h : Runs allow (observed http clock) s)
    (hs : Announced s.config.store s.locals) {p : ℕ} {o : Oracle} {e : JsError}
    (hannounces : (s.locals p).Announces (.result i authorization dto))
    (ha : (s.locals p).Awaits (.result i authorization dto) x)
    (hx : exec p o s.config.store x = some (.error e)) : ∃ id write, x = .updateTask id write := by
  have hrefusable := isRefusable_of_exec_error hx
  have hrows := hannounces.rows i authorization dto rfl
  cases x with
  | updateTask id write => exact ⟨id, write, rfl⟩
  | txInsertEvent seq input =>
    obtain ⟨-, -, htx⟩ := ha
    obtain ⟨-, e', he', hid, hseq⟩ := exec_txInsertEvent_error hx
    rw [(tracked_of_runs h).committedEvents_eq (congrArg OpenTx.events htx)
      (congrArg OpenTx.cleared htx)] at he'
    have hnumber : (input.taskId, seq) ∈ (s.locals p).tx.numbers := by
      rw [htx]
      exact List.mem_singleton_self _
    exact absurd hseq (hs.free p _ hnumber (hannounces.numbers i authorization dto rfl _ hnumber)
      e' he' hid)
  | txInsertExpiryEvents events =>
    rw [ha.1] at hrows
    obtain ⟨-, e', he', -⟩ := Backend.txInsertEvents_error hx
    rw [List.map_eq_nil_iff.mp hrows] at he'
    cases he'
  | insertTask dto' now token =>
    obtain ⟨-, -, _, hreq⟩ := ha
    cases hreq
  | txCancelTask id now => cases ha.2
  | txExpireTasks now limit =>
    obtain ⟨-, _, hreq⟩ := ha
    cases hreq
  | _ => cases hrefusable

/-! ### Result requests whose calls succeed -/

/-- The functions of the program, as far as no call but their writes throws: one that has ended
its task returns a value. -/
abbrev succeeding (http : HttpClient) : Discipline (proxy http) where
  Local := Summary
  start := {}
  next := Summary.next
  awaits _ _ _ := True
  returns _ answer w := (∃ i, w.Ends i) → ∃ response, answer = .ok response
  possible x r := (∃ v, r = .ok v) ∨ ∃ id write, x = .updateTask id write

section Succeeding

variable {E : JsError → Summary → Prop}

theorem succeeds_call {Q : x.Val → Summary → Prop} (hx : ∀ id write, x ≠ .updateTask id write)
    (hQ : ∀ v, Q v (w.afterValue x v)) : (succeeding http).followsExcept req Q E (call x) w := by
  refine ⟨trivial, fun r hr => ?_⟩
  obtain ⟨v, rfl⟩ | ⟨id, write, hupdate⟩ := hr
  · exact hQ v
  · exact absurd hupdate (hx id write)

theorem succeeds_insertEvent {input : InsertEventInput} {Q : TaskEventSelect → Summary → Prop}
    (hQ : ∀ e w, Q e w) : (succeeding http).followsExcept req Q E
      (EventsRepository.insertEvent input) w := by
  refine followsExcept_bind (followsExcept_bind (succeeds_call (by simp) fun _ =>
    followsExcept_bind (succeeds_call (by simp) fun _ => succeeds_call (by simp) fun e => ?_)))
  exact followsExcept_bind (succeeds_call (by simp) fun _ => hQ e _)

theorem succeeds_canActivate {Q : TaskSelect → Summary → Prop} (hQ : ∀ t w, Q t w) :
    (succeeding http).followsExcept req Q (fun _ w => w.updated = none)
      (CallbackAuthGuard.canActivate i authorization) {} := by
  unfold CallbackAuthGuard.canActivate
  split
  · rfl
  split
  · rfl
  refine followsExcept_bind (succeeds_call (by simp) fun row => ?_)
  cases row with
  | none => rfl
  | some t =>
    dsimp only
    split
    · rfl
    split
    · rfl
    split
    · rfl
    · exact hQ t _

/-- Once the write has returned a row, nothing throws. -/
theorem succeeds_submitResult {t : TaskSelect} :
    (succeeding http).followsExcept req (fun _ _ => True) (fun _ w => w.updated = none)
      (ExecutorService.submitResult t dto) w := by
  refine followsExcept_bind (succeeds_call (by simp) fun now => followsExcept_bind ?_)
  refine ⟨trivial, fun r _ => ?_⟩
  cases r with
  | error e => rfl
  | ok row =>
    cases row with
    | none => trivial
    | some t' =>
      refine followsExcept_bind (succeeds_insertEvent fun e w => followsExcept_bind
        (succeeds_call (by simp) fun _ => ?_))
      split
      · exact succeeds_call (by simp) fun _ => trivial
      · trivial

/-- A result request that has ended its task returns a value. -/
theorem succeeds_result (id : String) (authorization : Option String) (dto : SubmitResultDto) :
    (succeeding http).follows (.result id authorization dto)
      ((succeeding http).returns (.result id authorization dto))
      ((Request.result id authorization dto).run http).run {} := by
  have hnone : ∀ e : JsError, ∀ w : Summary, w.updated = none →
      (succeeding http).returns (.result id authorization dto) (.error e) w := by
    rintro e w hw ⟨i, _, _, hu, -⟩
    rw [hw] at hu
    cases hu
  have hrun : (succeeding http).followsExcept (.result id authorization dto)
      (fun _ _ => True) (fun _ w => w.updated = none)
      ((Request.result id authorization dto).run http) {} := by
    refine followsExcept_bind (succeeds_canActivate fun t w => ?_)
    exact followsExcept_bind (followsExcept_mono succeeds_submitResult (fun _ _ _ => trivial)
      fun _ _ he => he)
  refine follows_mono hrun fun answer w hw => ?_
  cases answer with
  | ok response => exact fun _ => ⟨response, rfl⟩
  | error e => exact hnone e w hw

end Succeeding

/-- The result requests of the configuration are ones whose calls succeed. -/
def Succeeds (s : (discipline http).Observed) : Prop :=
  ∀ p i authorization dto P, s.config.procs[p]? = some (.running (.result i authorization dto) P) →
    (succeeding http).follows (.result i authorization dto)
      ((succeeding http).returns (.result i authorization dto)) P (s.locals p)

theorem succeeds_of_move (h : Runs allow (observed http clock) s)
    (hallow : noFailure s.config m = true) (hm : s.move m = some s')
    (hs : Announced s.config.store s.locals) (hsucceeds : Succeeds s) : Succeeds s' := by
  intro p i authorization dto P hP
  have hobeys := obeys_of_runs h
  obtain ⟨hold, heq, -⟩ | ⟨o, x, k, r, rfl, hold, hx, rfl, heq⟩ | ⟨-, rfl, heq⟩ :=
    Observed.running_cases hobeys hm hP
  · rw [heq]
    exact hsucceeds p i authorization dto P hold
  · rw [heq]
    refine (hsucceeds p i authorization dto _ hold).2 r ?_
    obtain ⟨v, rfl, -⟩ | ⟨e, -, hx, -⟩ :=
      perform_cases_of_no_fault (by simpa [noFailure] using hallow) hx
    · exact .inl ⟨v, rfl⟩
    · exact .inr (eq_updateTask_of_error h hs (announces_of_running h hold) (hobeys.awaits hold) hx)
  · rw [heq]
    exact succeeds_result i authorization dto

/-! ### Every end has its function -/

/-- The move ends the task, which has a webhook, by a dispatch failure or by a transaction that
does not cancel it. -/
def endsUnannounced (i : String) (c : (proxy http).Config) (m : (proxy http).Move) : Bool :=
  match c.callOf m with
  | some (_, _, .updateTask id w) => id == i && w.isDispatchFailure &&
    c.store.tasks.any fun t => t.id == i && w.Matches t && truthy t.webhookUrl
  | some (p, _, .txCommit) =>
    (c.store.tx p).tasks.any fun t => t.id == i && t.status != .cancelled && truthy t.webhookUrl
  | _ => false

/-- The webhook of a task, as its rows and its readers know it, is a function of its id. -/
theorem exists_webhookUrl (h : Runs allow (observed http clock) s) :
    ∃ f : String → Option String, s.config.store.Fixed (·.webhookUrl) f ∧
      ∀ p t, (s.locals p).found = some t → t.webhookUrl = f t.id := by
  have hall : ∃ f : String → Option String, s.config.store.Fixed (·.webhookUrl) f ∧
      ∀ p t, (s.locals p).found = some t →
        t.id ∈ s.config.store.issued ∧ t.webhookUrl = f t.id := by
    refine runs_invariant (J := fun σ γ => ∃ f : String → Option String,
      σ.Fixed (·.webhookUrl) f ∧
        ∀ p t, (γ p).found = some t → t.id ∈ σ.issued ∧ t.webhookUrl = f t.id) ?_ ?_ ?_ h ?_
    · rintro t p o req x k v σ' - - - - - - ⟨f, hf, hfound⟩ hx
      obtain ⟨f', hf', hsame⟩ := exec_fixed (fun _ _ => rfl) hx hf
      refine ⟨f', hf', fun q u hu => ?_⟩
      have hold : ∀ q, (t.locals q).found = some u →
          u.id ∈ σ'.issued ∧ u.webhookUrl = f' u.id := fun q hq => by
        obtain ⟨hissued, hurl⟩ := hfound q u hq
        exact ⟨issued_subset_of_exec hx hissued, hurl.trans (hsame _ hissued).symm⟩
      by_cases hqp : q = p
      · subst hqp
        rw [update_self] at hu
        by_cases hfind : ∃ id, x = .findTask id
        · obtain ⟨id, rfl⟩ := hfind
          cases hx
          exact hf'.committed u (List.mem_of_find?_eq_some hu)
        · refine hold q ?_
          rw [← Summary.found_next (fun id hid => hfind ⟨id, hid⟩) (.ok v)]
          exact hu
      · rw [update_of_ne hqp] at hu
        exact hold q hu
    · rintro σ γ p w ⟨f, hf, hfound⟩ hw
      refine ⟨f, hf.rollback p, fun q u hu => ?_⟩
      by_cases hqp : q = p
      · subst hqp
        rw [update_self] at hu
        obtain hnone | hsame := hw.found
        · rw [hnone] at hu
          cases hu
        · exact hfound q u (hsame ▸ hu)
      · rw [update_of_ne hqp] at hu
        exact hfound q u hu
    · rintro σ γ time ⟨f, hf, hfound⟩
      exact ⟨f, hf.of_frame rfl rfl, hfound⟩
    · refine ⟨fun _ => none, ⟨by simp, by simp [Backend.tx]⟩, ?_⟩
      intro p t ht
      cases ht
  obtain ⟨f, hf, hfound⟩ := hall
  exact ⟨f, hf, fun p t ht => (hfound p t ht).2⟩

/-- A completed or failed task with a webhook was ended by its result request. -/
def HasEnder (s : (discipline http).Observed) (i : String) : Prop :=
  ∀ t ∈ s.config.store.tasks, t.id = i → (t.status = .completed ∨ t.status = .failed) →
    truthy t.webhookUrl = true → ∃ p, (s.locals p).Ends i

theorem hasEnder_of_move (h : Runs allow (observed http clock) s)
    (hallow : noFailure s.config m = true) (hannounced : endsUnannounced i s.config m = false)
    (hm : s.move m = some s') (hs : HasEnder s i) : HasEnder s' i := by
  intro t ht hid hstatus hurl
  obtain ⟨hlocals, time, hσ⟩ | ⟨p, o, req, x, k, r, rfl, hp, ha, -, hlocals, hreply⟩ :=
    noFailure_cases (obeys_of_runs h) hm hallow
  · rw [hlocals]
    rw [hσ] at ht
    exact hs t ht hid hstatus hurl
  have hcall : s.config.callOf (.call p o) = some (p, o, x) :=
    Config.callOf_eq_some.mpr ⟨rfl, req, k, hp⟩
  have hold : ∀ u ∈ s.config.store.tasks, u.id = i → (u.status = .completed ∨ u.status = .failed) →
      u.webhookUrl = t.webhookUrl → ∃ q, (s'.locals q).Ends i := by
    intro u hu huid hustatus huurl
    obtain ⟨q, hq⟩ := hs u hu huid hustatus (huurl ▸ hurl)
    rw [hlocals]
    exact ⟨q, (ends_of_call h hp hq).1⟩
  obtain ⟨v, rfl, hx⟩ | ⟨e, -, -, hσ⟩ := hreply
  · obtain ⟨hts, -⟩ | ⟨dto, now, token, -, -, hts, -⟩ | ⟨id, -, hts, -⟩ | ⟨id, w, rfl, hts, -⟩ |
      ⟨rfl, hσ⟩ := exec_tasks_cases hx
    · exact hold t (hts ▸ ht) hid hstatus rfl
    · rw [hts] at ht
      rcases List.mem_append.mp ht with ht | ht
      · exact hold t ht hid hstatus rfl
      · rw [List.mem_singleton.mp ht] at hstatus
        obtain hpending | hpending := hstatus <;> cases hpending
    · rw [hts] at ht
      exact hold t (List.mem_filter.mp ht).1 hid hstatus rfl
    · rw [hts] at ht
      obtain ⟨u, hu, ⟨hw, rfl⟩ | ⟨-, rfl⟩⟩ := Table.mem_update.mp ht
      · obtain ⟨rfl, hmatch, hset⟩ := TaskWrite.of_where hw
        rw [hset] at hstatus
        have hid : u.id = i := hid
        have hwrite : (s.locals p).AwaitsWrite req u.id w := ha.2
        have hsubmit : ∀ now, (∃ dto : SubmitResultDto, w = dto.write now) →
            ∃ q, (s'.locals q).Ends i := by
          rintro now ⟨dto, rfl⟩
          obtain ⟨-, -, hnone⟩ | ⟨r, -, -, -, -, -, hv, -⟩ := Backend.updateTask_ok hx
          · rw [hnone u hu] at hw
            cases hw
          · refine ⟨p, ?_⟩
            rw [hlocals, update_self]
            cases hv
            subst hid
            cases dto <;> exact ⟨_, _, rfl, Option.some_ne_none _⟩
        cases w with
        | submitCompleted now result => exact hsubmit now ⟨.completed result, rfl⟩
        | submitFailed now error => exact hsubmit now ⟨.failed error, rfl⟩
        | progress n => exact hold u hu hid hstatus rfl
        | dispatchFailure now error =>
          have hends : endsUnannounced i s.config (.call p o) = true := by
            simp only [endsUnannounced, hcall, TaskWrite.isDispatchFailure, Bool.and_true,
              Bool.and_eq_true, beq_iff_eq, List.any_eq_true]
            exact ⟨hid, u, hu, ⟨hid, hmatch⟩, hurl⟩
          rw [hannounced] at hends
          cases hends
        | dispatchClaim now timeoutSeconds => obtain hst | hst := hstatus <;> cases hst
        | dispatchRevert => obtain hst | hst := hstatus <;> cases hst
        | cancel now => exact hwrite.elim
        | expire now => exact hwrite.elim
      · exact hold t hu hid hstatus rfl
    · obtain ⟨δ, hδ⟩ := ledger_of_reaches (h.reaches.mono fun _ _ _ => trivial)
      rw [hσ] at ht
      obtain ⟨u, hu, huid, -, ⟨rfl, -⟩ | ⟨hmem, -⟩⟩ := hδ.commit_row ht
      · exact hold t hu hid hstatus rfl
      · rw [← hδ.tx p] at hmem
        have hends : endsUnannounced i s.config (.call p o) = true := by
          simp only [endsUnannounced, hcall, List.any_eq_true, Bool.and_eq_true, beq_iff_eq,
            bne_iff_ne]
          refine ⟨t, hmem, ⟨hid, fun hcancelled => ?_⟩, hurl⟩
          rw [hcancelled] at hstatus
          obtain hst | hst := hstatus <;> cases hst
        rw [hannounced] at hends
        cases hends
  · rw [hσ] at ht
    exact hold t ht hid hstatus rfl

/-! ### The results -/

/-- The runs without failures in which the task is not ended unannounced. -/
abbrev Announcing (i : String) (d : (proxy http).Config) (m : (proxy http).Move) : Prop :=
  noFailure d m = true ∧ endsUnannounced i d m = false

theorem announced_of_runs (h : Runs (Announcing i) (observed http clock) s) :
    Announced s.config.store s.locals ∧ Succeeds s ∧ HasEnder s i := by
  refine h.invariant (I := fun s : (discipline http).Observed =>
    Announced s.config.store s.locals ∧ Succeeds s ∧ HasEnder s i) ?_ ⟨.initial, ?_, ?_⟩
  · rintro t m t' hrun ⟨hallow, hends⟩ hm ⟨hannounced, hsucceeds, hender⟩
    exact ⟨announced_of_move hrun hallow hm hannounced,
      succeeds_of_move hrun hallow hm hannounced hsucceeds,
      hasEnder_of_move hrun hallow hends hm hender⟩
  · intro p i authorization dto P hp
    cases hp
  · intro t ht
    cases ht

/-- Along a run without failures a function that has ended a task keeps this. -/
theorem ends_of_runs (h : Runs (Announcing i) (observed http clock) s)
    (h' : Runs (Announcing i) s s') {p : ℕ} (hp : (s.locals p).Ends i) :
    (s'.locals p).Ends i ∧ (s'.locals p).found = (s.locals p).found := by
  refine h'.invariant (I := fun t : (discipline http).Observed =>
    (t.locals p).Ends i ∧ (t.locals p).found = (s.locals p).found) ?_ ⟨hp, rfl⟩
  rintro t m t' hrun ⟨hallow, -⟩ hm ⟨hends, hfound⟩
  have hruns : Runs (Announcing i) (observed http clock) t := Relation.ReflTransGen.trans h hrun
  obtain ⟨hlocals, -⟩ | ⟨q, o, req, x, k, r, -, hq, -, -, hlocals, -⟩ :=
    noFailure_cases (obeys_of_runs hruns) hm hallow
  · rw [hlocals]
    exact ⟨hends, hfound⟩
  · rw [hlocals]
    obtain ⟨hends', hfound'⟩ := ends_of_call hruns (r := r) hq hends
    exact ⟨hends', hfound'.trans hfound⟩

/-- A function that has ended a task with a webhook, and has returned, has enqueued the job. -/
theorem enqueued_of_returned (h : Runs (Announcing i) (observed http clock) s) {p : ℕ}
    (hp : (s.locals p).Ends i) {t : TaskSelect} (ht : (s.locals p).found = some t)
    (hurl : truthy t.webhookUrl = true) (hquiet : s.config.Quiescent) :
    .webhook i ∈ (s.locals p).enqueued := by
  obtain ⟨-, hsucceeds, -⟩ := announced_of_runs h
  obtain ⟨authorization, dto, P, hrun, -⟩ := running_of_ends h hp
  cases P with
  | call x k => exact absurd ⟨_, x, k, hrun⟩ (hquiet p)
  | ret answer =>
    obtain ⟨response, rfl⟩ := hsucceeds p i authorization dto _ hrun ⟨i, hp⟩
    obtain ⟨-, t', now, row, ht', hu, hjob⟩ :
      (s.locals p).Returns (.result i authorization dto) (.ok response) :=
      (obeys_of_runs h).returns hrun
    obtain ⟨write, row', hu', -⟩ := hp
    rw [ht] at ht'
    cases ht'
    rw [hu] at hu'
    cases hu'
    exact hjob (Option.some_ne_none _) hurl

/-- **One webhook job for each ended task.** In every run without failures in which the task is
ended neither by a dispatch failure nor by a sweep, at most one webhook job of the task is
enqueued, and once all functions have returned exactly one if the task has reached `COMPLETED` or
`FAILED` with a webhook. -/
theorem webhook_enqueued_once (http : HttpClient) (clock : Timestamp) (i : String)
    (c c' : (proxy http).Config) (h : Reaches (Announcing i) (initial http clock) c)
    (h' : Reaches (Announcing i) c c') :
    c'.store.queue.count (.webhook i) ≤ 1 ∧
      ∀ t ∈ c.store.tasks, t.id = i → (t.status = .completed ∨ t.status = .failed) →
        truthy t.webhookUrl = true → c'.Quiescent → c'.store.queue.count (.webhook i) = 1 := by
  obtain ⟨γ, hγ, -⟩ := exists_observed h
  obtain ⟨γ', hγ'⟩ := exists_runs (D := discipline http) ⟨c, γ⟩ h'
  have hruns : Runs (Announcing i) (observed http clock) ⟨c', γ'⟩ :=
    Relation.ReflTransGen.trans hγ hγ'
  obtain ⟨hannounced', -⟩ := announced_of_runs hruns
  refine ⟨hannounced'.single i, fun t ht hid hstatus hurl hquiet => ?_⟩
  obtain ⟨-, -, hender⟩ := announced_of_runs hγ
  obtain ⟨p, hp⟩ := hender t ht hid hstatus hurl
  obtain ⟨_, _, _, -, hannounces⟩ := running_of_ends hγ hp
  obtain ⟨-, t₀, ht₀, hid₀⟩ := hannounces.request i hp
  obtain ⟨f, hf, hfound⟩ := exists_webhookUrl hγ
  have hurl₀ : t₀.webhookUrl = t.webhookUrl := by
    obtain ⟨-, ht⟩ := hf.committed t ht
    exact (hfound p t₀ ht₀).trans ((congrArg f (hid₀.trans hid.symm)).trans ht.symm)
  obtain ⟨hp', hfound'⟩ := ends_of_runs hγ hγ' hp
  have hjob := enqueued_of_returned hruns hp' (hfound'.trans ht₀) (hurl₀ ▸ hurl) hquiet
  have hmem := hannounced'.queued i p hjob
  have := List.count_pos_iff.mpr hmem
  exact Nat.le_antisymm (hannounced'.single i) this

/-! ### Example runs -/

/-- A creation request with a webhook. -/
def hookedDto : CreateTaskDto := { sampleDto with webhookUrl := some "http://client" }

/-- A task with a webhook is created and claimed, and the executor completes it. -/
def hookedRun : List (proxy httpRetryService).Move :=
  .spawn (.create hookedDto "http://proxy") :: (completedRun.drop 1).take 8 ++
    [.spawn (.result sampleId (some "Bearer secret") (.completed [])),
      .call 2 {}, .call 2 { time := 2000 }, .call 2 {}, .call 2 {}, .call 2 {}, .call 2 {},
      .call 2 {}, .call 2 {}, .call 2 {}]

theorem hookedRun_webhook :
    ∃ c : (proxy httpRetryService).Config, (∃ t ∈ c.store.tasks, t.id = sampleId ∧
      t.status = .completed ∧ truthy t.webhookUrl = true) ∧ c.Quiescent ∧
      c.store.queue.count (.webhook sampleId) = 1 := by
  obtain ⟨c, hc, hcheck⟩ : ∃ c, Reaches (Announcing sampleId) (initial httpRetryService 0) c ∧
      (c.isQuiescent && c.store.tasks.any fun t =>
        t.id == sampleId && t.status == .completed && truthy t.webhookUrl) = true :=
    exists_reaches_of_replay (fun d m => noFailure d m && !endsUnannounced sampleId d m) hookedRun _
      (by simp [Announcing]) (by decide)
  simp only [Bool.and_eq_true, List.any_eq_true, beq_iff_eq] at hcheck
  obtain ⟨hquiet, t, ht, ⟨hid, hstatus⟩, hurl⟩ := hcheck
  have hquiet := Config.isQuiescent_iff.mp hquiet
  exact ⟨c, ⟨t, ht, hid, hstatus, hurl⟩, hquiet,
    (webhook_enqueued_once httpRetryService 0 sampleId c c hc .refl).2 t ht hid (.inl hstatus) hurl
      hquiet⟩

/-- A task whose dispatch the executor rejects is `FAILED`, and its webhook is not called. -/
theorem dispatch_failure_has_no_webhook :
    ¬ ∀ (http : HttpClient) (clock : Timestamp) (i : String) (c c' : (proxy http).Config),
      Reaches (fun d m => noFailure d m = true) (initial http clock) c →
      Reaches (fun d m => noFailure d m = true) c c' →
      c'.store.queue.count (.webhook i) ≤ 1 ∧
        ∀ t ∈ c.store.tasks, t.id = i → (t.status = .completed ∨ t.status = .failed) →
          truthy t.webhookUrl = true → c'.Quiescent → c'.store.queue.count (.webhook i) = 1 := by
  intro h
  obtain ⟨c, hc, hcheck⟩ : ∃ c,
      Reaches (fun d m => noFailure d m = true) (initial httpRetryService 0) c ∧
      (c.isQuiescent && c.store.queue.count (.webhook sampleId) == 0 &&
        c.store.tasks.any fun t => t.id == sampleId && t.status == .failed &&
          truthy t.webhookUrl) = true :=
    exists_reaches_of_replay noFailure (.spawn (.create hookedDto "http://proxy") ::
      rejectedRun.tail) _ (by simp) (by decide)
  simp only [Bool.and_eq_true, List.any_eq_true, beq_iff_eq] at hcheck
  obtain ⟨⟨hquiet, hcount⟩, t, ht, ⟨hid, hstatus⟩, hurl⟩ := hcheck
  have honce := (h _ _ sampleId c c hc .refl).2 t ht hid (.inr hstatus) hurl
    (Config.isQuiescent_iff.mp hquiet)
  rw [hcount] at honce
  exact absurd honce (by decide)

end LongRequestProxy
