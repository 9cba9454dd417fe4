import LongRequestProxy.Data.Table
import LongRequestProxy.Delivery.Schema
import Mathlib.Data.List.AList

/-!
# Postgres, Redis and the queues

The state that the API and the worker processes share: the committed rows of the two tables, the
open transactions, the keys of Redis, the jobs of the queues, and the messages published so far.

An open transaction holds the row versions that it has written and not yet committed. It locks
the rows that it has updated or deleted, and its advisory locks, until it ends; nobody else sees
what it wrote.

Three fields are records that no program reads: `writer` of a Redis entry, `acquired` and
`inserted` say which program wrote an entry, took an idempotency slot and inserted a row.

## Main definitions

* `RedisEntry`, `Job`, `Tx`, `Backend`.
* `Backend.tx`, `Backend.setTx`, `Backend.rollback`, `Backend.commit`: the open transaction of a
  program and how it ends.
* `Backend.otherTx`: a condition on the open transactions of the other programs, such as a lock.
* `Backend.lookup`: the live entry under a Redis key.

## Main results

* `Backend.otherTx_eq_false`: what no other open transaction holds.
* `Backend.mem_commit_tasks`, `Backend.mem_commit_events`: the rows after a commit.
-/

namespace LongRequestProxy

/-- The value of a Redis key, with the instant at which it expires, if any. -/
structure RedisEntry where
  value : String
  expireAt : Option Timestamp
  writer : ℕ

/-- The entry has not expired. -/
def RedisEntry.alive (now : Timestamp) (e : RedisEntry) : Bool :=
  e.expireAt.all fun t => decide (now < t)

/-- The jobs of the three queues. -/
inductive Job : Type
  | dispatch (taskId : String) (timeoutSeconds : ℤ)
  | webhook (taskId : String)
  | cancel (taskId : String)
  deriving DecidableEq, Repr

/-- The number of times that BullMQ starts the job; 3 is the default of `BullMqAdapter`. -/
def Job.attempts : Job → ℕ
  | dispatch .. => 1
  | webhook _ | cancel _ => 3

/-- What an open transaction has done so far. -/
structure Tx where
  /-- The new versions of updated rows. -/
  tasks : List TaskSelect := []
  /-- The ids of deleted rows. -/
  deletedTasks : List String := []
  /-- The inserted events. -/
  events : List TaskEventSelect := []
  /-- The task and the number of the deleted events. -/
  deletedEvents : List (String × ℤ) := []
  /-- The tasks whose advisory lock the transaction holds. -/
  locks : List String := []

namespace Tx

/-- The transaction holds the lock of the row `id`. -/
def locksTask (t : Tx) (id : String) : Bool :=
  t.tasks.any (fun r => r.id == id) || t.deletedTasks.contains id

/-- The version of a committed row that the transaction leaves. -/
def newest (t : Tx) (r : TaskSelect) : TaskSelect :=
  (t.tasks.find? fun r' => r'.id == r.id).getD r

/-- The transaction deletes the event. -/
def deletesEvent (t : Tx) (e : TaskEventSelect) : Bool :=
  t.deletedEvents.contains (e.taskId, e.seq)

theorem newest_cases (t : Tx) (r : TaskSelect) :
    (t.newest r ∈ t.tasks ∧ (t.newest r).id = r.id) ∨
      (t.newest r = r ∧ ∀ r' ∈ t.tasks, r'.id ≠ r.id) := by
  unfold newest
  cases hf : t.tasks.find? fun r' => r'.id == r.id with
  | none => exact .inr ⟨rfl, fun r' hr' => by simpa using List.find?_eq_none.mp hf r' hr'⟩
  | some r' =>
    exact .inl ⟨List.mem_of_find?_eq_some hf, by simpa using List.find?_some hf⟩

@[simp] theorem newest_id (t : Tx) (r : TaskSelect) : (t.newest r).id = r.id := by
  obtain ⟨-, h⟩ | ⟨h, -⟩ := t.newest_cases r
  · exact h
  · rw [h]

end Tx

/-- The shared state. -/
structure Backend where
  /-- The committed rows of `tasks`. -/
  tasks : List TaskSelect := []
  /-- The committed rows of `task_events`. -/
  events : List TaskEventSelect := []
  /-- The open transactions, each under the number of its program. -/
  txs : AList fun _ : ℕ => Tx := ∅
  redis : String → Option RedisEntry := fun _ => none
  queue : List Job := []
  /-- The messages published, with their channels, in the order of publication. -/
  published : List (String × TaskEventSelect) := []
  /-- The clock of Postgres and Redis. -/
  clock : Timestamp := 0
  /-- The task ids generated so far. -/
  issued : List String := []
  /-- The idempotency slots taken: by whom, under which key, until when. -/
  acquired : List (ℕ × String × Timestamp) := []
  /-- The tasks inserted: by whom, under which id. -/
  inserted : List (ℕ × String) := []

namespace Backend

variable (σ : Backend) (p q : ℕ)

/-! ### Open transactions -/

/-- The open transaction of a program. -/
def tx : Tx := (σ.txs.lookup p).getD {}

/-- Continue the open transaction of a program. -/
def setTx (t : Tx) : Backend := { σ with txs := σ.txs.insert p t }

/-- Abort the open transaction of a program. -/
def rollback : Backend := { σ with txs := σ.txs.erase p }

/-- The rows of `tasks` after a transaction `t` has committed. -/
def committedTasks (t : Tx) : List TaskSelect :=
  (σ.tasks.filter fun r => !t.deletedTasks.contains r.id).map t.newest

/-- The rows of `task_events` as a transaction `t` sees them, and leaves them when it commits. -/
def committedEvents (t : Tx) : List TaskEventSelect :=
  σ.events.filter (fun e => !t.deletesEvent e) ++ t.events

/-- Commit the open transaction of a program. -/
def commit : Backend :=
  { σ with
    tasks := σ.committedTasks (σ.tx p)
    events := σ.committedEvents (σ.tx p)
    txs := σ.txs.erase p }

/-- The open transaction of some other program satisfies `P`. -/
def otherTx (P : Tx → Bool) : Bool :=
  σ.txs.entries.any fun x => x.1 != p && P x.2

@[simp] theorem rollback_tasks : (σ.rollback p).tasks = σ.tasks := rfl

@[simp] theorem rollback_clock : (σ.rollback p).clock = σ.clock := rfl

@[simp] theorem rollback_issued : (σ.rollback p).issued = σ.issued := rfl

@[simp] theorem tx_setTx_self (t : Tx) : (σ.setTx p t).tx p = t := by
  simp [tx, setTx]

@[simp] theorem tx_rollback_self : (σ.rollback p).tx p = {} := by
  simp [tx, rollback]

@[simp] theorem tx_commit_self : (σ.commit p).tx p = {} := by
  simp [tx, commit]

variable {σ p q}

theorem tx_setTx_of_ne (h : q ≠ p) (t : Tx) : (σ.setTx p t).tx q = σ.tx q := by
  simp [tx, setTx, AList.lookup_insert_ne h]

theorem tx_rollback_of_ne (h : q ≠ p) : (σ.rollback p).tx q = σ.tx q := by
  simp [tx, rollback, AList.lookup_erase_ne h]

theorem tx_commit_of_ne (h : q ≠ p) : (σ.commit p).tx q = σ.tx q := by
  simp [tx, commit, AList.lookup_erase_ne h]

/-- What holds of some other open transaction. -/
theorem exists_of_otherTx {P : Tx → Bool} (h : σ.otherTx p P = true) :
    ∃ q, q ≠ p ∧ P (σ.tx q) = true := by
  obtain ⟨⟨q, t⟩, hmem, ht⟩ := List.any_eq_true.mp h
  simp only [Bool.and_eq_true, bne_iff_ne] at ht
  refine ⟨q, ht.1, ?_⟩
  have hlookup : σ.txs.lookup q = some t := AList.mem_lookup_iff.mpr hmem
  rw [tx, hlookup]
  exact ht.2

/-- What no other open transaction holds is not held by the transaction of any other program. -/
theorem otherTx_eq_false {P : Tx → Bool} (h : σ.otherTx p P = false) (h0 : P {} = false)
    (hq : q ≠ p) : P (σ.tx q) = false := by
  unfold tx
  cases hl : σ.txs.lookup q with
  | none => exact h0
  | some t =>
    have hmem := AList.mem_lookup_iff.mp (Option.mem_def.mpr hl)
    have := List.any_eq_false.mp h _ hmem
    simpa [hq] using this

theorem mem_commit_tasks {r : TaskSelect} :
    r ∈ (σ.commit p).tasks ↔
      ∃ r₀ ∈ σ.tasks, r₀.id ∉ (σ.tx p).deletedTasks ∧ (σ.tx p).newest r₀ = r := by
  simp [commit, committedTasks, and_assoc]

theorem mem_commit_events {e : TaskEventSelect} :
    e ∈ (σ.commit p).events ↔
      (e ∈ σ.events ∧ (e.taskId, e.seq) ∉ (σ.tx p).deletedEvents) ∨ e ∈ (σ.tx p).events := by
  simp [commit, committedEvents, Tx.deletesEvent]

/-! ### Redis -/

variable (σ)

/-- The entry under a key that has not expired. -/
def lookup (key : String) : Option RedisEntry :=
  (σ.redis key).filter (RedisEntry.alive σ.clock)

/-- Replace the entry under a key. -/
def setKey (key : String) (e : Option RedisEntry) : Backend :=
  { σ with redis := Function.update σ.redis key e }

variable {σ}

@[simp] theorem lookup_rollback (p : ℕ) (key : String) :
    (σ.rollback p).lookup key = σ.lookup key := rfl

@[simp] theorem setKey_tasks (key : String) (e : Option RedisEntry) :
    (σ.setKey key e).tasks = σ.tasks := rfl

@[simp] theorem setKey_clock (key : String) (e : Option RedisEntry) :
    (σ.setKey key e).clock = σ.clock := rfl

@[simp] theorem setKey_issued (key : String) (e : Option RedisEntry) :
    (σ.setKey key e).issued = σ.issued := rfl

@[simp] theorem redis_setKey_self (key : String) (e : Option RedisEntry) :
    (σ.setKey key e).redis key = e := by
  simp [setKey]

theorem redis_setKey_of_ne {k key : String} (hk : k ≠ key) (e : Option RedisEntry) :
    (σ.setKey key e).redis k = σ.redis k := by
  simp [setKey, Function.update_of_ne hk]

theorem lookup_setKey_self (key : String) (e : Option RedisEntry) :
    (σ.setKey key e).lookup key = e.filter (RedisEntry.alive σ.clock) := by
  simp [lookup, setKey]

theorem lookup_setKey_of_ne {k key : String} (hk : k ≠ key) (e : Option RedisEntry) :
    (σ.setKey key e).lookup k = σ.lookup k := by
  simp [lookup, setKey, Function.update_of_ne hk]

theorem lookup_eq_some_iff {key : String} {e : RedisEntry} :
    σ.lookup key = some e ↔ σ.redis key = some e ∧ e.alive σ.clock = true := by
  simp [lookup, Option.filter_eq_some_iff]

end Backend

end LongRequestProxy
