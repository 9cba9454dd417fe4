import LongRequestProxy.Delivery.TaskEndings
import LongRequestProxy.Conduct.Transactions

/-!
# The locks under which events are inserted

`insertEventInTx` inserts the event of a task under the advisory lock of the task. The sweeper
does not take that lock: it inserts the events of the rows that it has just updated, whose row
locks it holds. Two programs can therefore insert events of one task side by side only while the
sweeper, or a cancellation, is about to end the task.

## Main definitions

* `Summary.Guards`: the events of a transaction are of tasks that it has locked.
* `LocksApart`: no two programs hold the advisory lock of one task.

## Main results

* `guards_of_runs`, `locksApart_of_runs`: both hold in every state reached.
* `exists_row_of_event`: who else can insert an event while a program holds the lock.
-/

namespace LongRequestProxy

open Async Discipline Function

variable {http : HttpClient} {clock : Timestamp} {w : Summary} {req : Request} {c : Await}
  {allow : (proxy http).Config → (proxy http).Move → Prop} {s : (discipline http).Observed}

/-! ### Every event has its lock -/

namespace Summary

/-- The open transaction holds the advisory lock, or a row version, of every task for which it has
read a number or inserted an event. -/
structure Guards (w : Summary) : Prop where
  numbers : ∀ x ∈ w.tx.numbers, x.1 ∈ w.tx.locks ∨ x.1 ∈ w.tx.rows
  events : ∀ e ∈ w.tx.events, e.taskId ∈ w.tx.locks ∨ e.taskId ∈ w.tx.rows

theorem guards_of_nil (hnumbers : w.tx.numbers = []) (hevents : w.tx.events = []) : w.Guards :=
  ⟨by simp [hnumbers], by simp [hevents]⟩

theorem guards_afterValue {v : c.Val} (ha : w.Awaits req c) (hv : c.PossibleValue v)
    (h : w.Guards) : (w.afterValue c v).Guards := by
  cases c with
  | updateTask id write => cases write <;> exact ⟨h.numbers, h.events⟩
  | txCancelTask id now =>
    obtain ⟨⟨htx, -⟩, -⟩ := ha
    cases v with
    | none => exact h
    | some t => exact guards_of_nil (congrArg OpenTx.numbers htx) (congrArg OpenTx.events htx)
  | txExpireTasks now limit =>
    obtain ⟨⟨htx, -⟩, -⟩ := ha
    exact guards_of_nil (congrArg OpenTx.numbers htx) (congrArg OpenTx.events htx)
  | txAdvisoryLock id =>
    obtain ⟨_, -, -, htx⟩ := ha
    exact guards_of_nil (congrArg OpenTx.numbers htx) (congrArg OpenTx.events htx)
  | txNextSeq id =>
    obtain ⟨_, -, -, htx⟩ := ha
    have hlocks : w.tx.locks = [id] := congrArg OpenTx.locks htx
    refine ⟨fun x hx => .inl ?_, fun e he => ?_⟩
    · rw [List.mem_singleton.mp hx]
      exact hlocks ▸ List.mem_singleton_self id
    · have hevents : w.tx.events = [] := congrArg OpenTx.events htx
      exact h.events e he
  | txInsertEvent seq input =>
    obtain ⟨-, -, htx⟩ := ha
    have hlocks : w.tx.locks = [input.taskId] := congrArg OpenTx.locks htx
    obtain ⟨_, _, rfl⟩ := hv
    refine ⟨List.forall_mem_nil _, fun e he => .inl ?_⟩
    rw [List.mem_singleton.mp he]
    exact hlocks ▸ List.mem_singleton_self input.taskId
  | txNumberExpiryEvents ids =>
    obtain ⟨-, htx, -⟩ := ha
    have hrows : w.tx.rows = ids := congrArg OpenTx.rows htx
    refine ⟨fun x hx => .inr ?_, h.events⟩
    obtain ⟨e, he, rfl⟩ := List.mem_map.mp hx
    have hmem := List.mem_map_of_mem (f := fun e : TaskEventSelect => (e.taskId, e.eventType)) he
    rw [show v.map (fun e => (e.taskId, e.eventType)) = _ from hv] at hmem
    obtain ⟨id, hid, heq⟩ := List.mem_map.mp hmem
    have hid' : id = e.taskId := congrArg Prod.fst heq
    have hmem : e.taskId ∈ w.tx.rows := by rwa [hrows, ← hid']
    exact hmem
  | txInsertExpiryEvents events =>
    obtain ⟨htx, -, -⟩ := ha
    have hrows : w.tx.rows = events.map (·.taskId) := congrArg OpenTx.rows htx
    have hv : v = events := hv
    refine ⟨List.forall_mem_nil _, fun e he => .inr ?_⟩
    have hmem : e.taskId ∈ w.tx.rows := by
      rw [hrows, ← hv]
      exact List.mem_map_of_mem he
    exact hmem
  | txCommit => exact guards_of_nil rfl rfl
  | _ => exact ⟨h.numbers, h.events⟩

/-- Only `txAdvisoryLock` takes a lock. -/
theorem locks_afterValue (hc : ∀ id, c ≠ .txAdvisoryLock id) (v : c.Val) :
    (w.afterValue c v).tx.locks ⊆ w.tx.locks := by
  cases c with
  | txAdvisoryLock id => exact absurd rfl (hc id)
  | updateTask id write => cases write <;> exact List.Subset.refl _
  | txCancelTask id now => cases v <;> exact List.Subset.refl _
  | txCommit => exact List.nil_subset _
  | _ => exact List.Subset.refl _

end Summary

/-- Along every run the events of a transaction are of tasks that it has locked. -/
theorem guards_of_runs (h : Runs allow (observed http clock) s) (p : ℕ) : (s.locals p).Guards := by
  refine runs_invariant (J := fun _ γ => ∀ p, (γ p).Guards) ?_ ?_ (fun _ _ _ hJ => hJ) h
    (fun _ => Summary.guards_of_nil rfl rfl) p
  · intro t p o req x k v σ' _ _ _ ha _ hv hJ _
    exact (forall_update_iff t.locals fun _ w => Summary.Guards w).mpr
      ⟨Summary.guards_afterValue ha hv (hJ p), fun q _ => hJ q⟩
  · intro σ γ p w hJ hw
    refine (forall_update_iff γ fun _ w => Summary.Guards w).mpr ⟨?_, fun q _ => hJ q⟩
    exact Summary.guards_of_nil (congrArg OpenTx.numbers hw.tx) (congrArg OpenTx.events hw.tx)

/-! ### Advisory locks exclude each other -/

/-- No two programs hold the advisory lock of one task. -/
def LocksApart (γ : ℕ → Summary) : Prop :=
  Pairwise fun p q => List.Disjoint (γ p).tx.locks (γ q).tx.locks

/-- Along every run advisory locks exclude each other. -/
theorem locksApart_of_runs (h : Runs allow (observed http clock) s) : LocksApart s.locals := by
  have hupdate : ∀ (γ : ℕ → Summary) (p : ℕ) (w : Summary), LocksApart γ →
      (∀ q, q ≠ p → List.Disjoint w.tx.locks (γ q).tx.locks) → LocksApart (update γ p w) :=
    fun γ p w hγ hw => Protocol.pairwise_update
      (R := fun w w' : Summary => List.Disjoint w.tx.locks w'.tx.locks)
      (fun _ _ hdisj _ hi hmem => hdisj hmem hi) hγ hw
  refine runs_invariant (J := fun _ γ => LocksApart γ) ?_ ?_ (fun _ _ _ hJ => hJ) h
    (fun p q _ i hi => by cases hi)
  · intro t p o req x k v σ' hrun _ _ ha _ _ hJ hx
    refine hupdate _ p _ hJ fun q hq => ?_
    by_cases hlock : ∃ id, x = .txAdvisoryLock id
    · obtain ⟨id, rfl⟩ := hlock
      obtain ⟨hfree, -⟩ := Backend.txAdvisoryLock_ok hx
      intro i hi hmem
      rw [List.mem_singleton.mp hi, ← ((tracked_of_runs hrun).tracks q).locks] at hmem
      exact hfree q hq hmem
    · have hsub := Summary.locks_afterValue (w := t.locals p) (fun id heq => hlock ⟨id, heq⟩) v
      exact fun i hi => hJ hq.symm (hsub hi)
  · intro σ γ p w hJ hw
    refine hupdate _ p _ hJ fun q _ i hi => ?_
    rw [congrArg OpenTx.locks hw.tx] at hi
    cases hi

/-- While a program holds the advisory lock of a task, another transaction can have an event of
the task only as the event of a row that it is about to end. -/
theorem exists_row_of_event (h : Runs allow (observed http clock) s) {p q : ℕ} (hpq : q ≠ p)
    {e : TaskEventSelect} (hlock : e.taskId ∈ (s.locals p).tx.locks)
    (he : e ∈ (s.config.store.tx q).events) :
    ∃ t ∈ s.config.store.tasks, t.id = e.taskId ∧ t.status.isTerminal = false := by
  have htracks := (tracked_of_runs h).tracks q
  obtain ⟨δ, hδ⟩ := ledger_of_reaches (h.reaches.mono fun _ _ _ => trivial)
  rw [htracks.events] at he
  obtain hheld | hrow := (guards_of_runs h q).events e he
  · exact absurd hlock (locksApart_of_runs h hpq hheld)
  · rw [← htracks.rows] at hrow
    exact hδ.exists_open_of_written hrow

end LongRequestProxy
