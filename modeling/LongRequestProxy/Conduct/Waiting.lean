import LongRequestProxy.Async.Completion
import LongRequestProxy.Conduct.Transactions
import LongRequestProxy.Maintenance.Sweep

/-!
# Who waits for whom

A statement waits while the open transaction of another function holds something that it needs: a
row, an advisory lock, or a number that the other has inserted and not yet committed. The
statements of the transactions come in a fixed order, so that whoever waits, waits for a function
whose next call has a lower rank. Hence the functions of the program never deadlock.

## Main definitions

* `Tx.blocks`: what an open transaction holds that a call of another function needs.
* `Service.Config.WaitsFor`: the first function waits for the second.
* `Await.rank`: the order of the calls.
* `Service.Config.Proceeds`: the function makes its next call, and no fault hits it.

## Main results

* `exec_or_blocked`: a call that no other transaction blocks can be made.
* `rank_lt_of_blocks`: whoever blocks a call has a next call of lower rank.
* `no_deadlock`: the functions of the program never deadlock.
-/

namespace LongRequestProxy

open Async Discipline Service Function

/-! ### Blocked calls -/

/-- The open transaction holds something that a call of another function needs. -/
def Tx.blocks (σ : Backend) (t : Tx) : Await → Bool
  | .insertTask dto _ _ => σ.tasks.any fun r =>
    r.idempotencyKey.isSome && r.idempotencyKey == dto.idempotencyKey && t.locksTask r.id
  | .deleteTask id | .updateTask id _ | .txCancelTask id _ => t.locksTask id
  | .txDeleteTasks ids => ids.any t.locksTask
  | .txAdvisoryLock id => t.locks.contains id
  | .txInsertEvent seq input =>
    t.events.any fun e => e.taskId == input.taskId && e.seq == seq
  | .txInsertExpiryEvents events =>
    events.any fun e' => t.events.any fun e => e.taskId == e'.taskId && e.seq == e'.seq
  | .txDeleteEvents ids => σ.events.any fun e => ids.contains e.taskId && t.deletesEvent e
  | _ => false

/-- A function without an open transaction blocks nobody. -/
theorem Tx.blocks_empty (σ : Backend) (x : Await) : ({} : Tx).blocks σ x = false := by
  cases x <;> simp [Tx.blocks, Tx.locksTask, Tx.deletesEvent]

/-- A function whose summary knows of no open transaction has none. -/
theorem Tracks.eq_empty {σ : Backend} {t : Tx} {w : Summary} (h : Tracks σ t w)
    (htx : w.tx = {}) : t = {} := by
  have hrows := h.tasks_eq_nil (by rw [htx])
  have hcleared := h.deletedEvents_eq_nil (by rw [htx])
  have hevents := h.events
  have hlocks := h.locks
  have hdeleted := h.deleted
  cases t
  simp_all

namespace Backend

variable {σ : Backend} {p : ℕ}

/-- An INSERT into `task_events` is made, or another open transaction has inserted one of its
numbers. -/
theorem txInsertEvents_or_blocked (es : List TaskEventSelect) :
    (∃ r, σ.txInsertEvents p es = some r) ∨ ∃ e ∈ es, ∃ q, q ≠ p ∧
      ((σ.tx q).events.any fun e' => e'.taskId == e.taskId && e'.seq == e.seq) = true := by
  unfold txInsertEvents
  dsimp only
  split
  · next hwait =>
    obtain ⟨e, he, hheld⟩ := List.any_eq_true.mp hwait
    exact .inr ⟨e, he, exists_of_otherTx hheld⟩
  · left
    split <;> exact ⟨_, rfl⟩

end Backend

/-- A call that no fault hits: its server generates the id `id`, and everything else that comes
from outside is as `w` has it. -/
structure Oracle.Serves (w : Oracle) (id : String) (o : Oracle) : Prop where
  fault : o.fault = .none
  time : o.time = w.time
  jitter : o.jitter = w.jitter
  http : o.http = w.http
  uuid : o.uuid 0 = id

/-- **Calls that nobody blocks.** As long as an id is left that was not issued, a call can be made
without a fault, whatever else the outside world says, or the open transaction of another function
blocks it. -/
theorem exec_or_blocked {σ : Backend} (hids : σ.RowIds) {id : String} (hid : isUuid id = true)
    (hnew : id ∉ σ.issued) (p : ℕ) (w : Oracle) (x : Await) :
    (∃ o, w.Serves id o ∧ (exec p o σ x).isSome = true) ∨
      ∃ q, q ≠ p ∧ (σ.tx q).blocks σ x = true := by
  have hserves : ∀ picks, w.Serves id ⟨.none, w.time, fun _ => id, w.jitter, w.http, picks⟩ :=
    fun _ => ⟨rfl, rfl, rfl, rfl, rfl⟩
  have hlocked : ∀ i, σ.lockedByOther p i = false ∨ ∃ q, q ≠ p ∧ (σ.tx q).locksTask i = true :=
    fun i => by
      cases h : σ.lockedByOther p i with
      | false => exact .inl rfl
      | true => exact .inr (Backend.exists_of_otherTx h)
  cases x with
  | insertTask dto now token =>
    cases hfind : σ.tasks.find? fun r =>
        r.idempotencyKey.isSome && r.idempotencyKey == dto.idempotencyKey with
    | none =>
      refine .inl ⟨_, hserves [], ?_⟩
      simp [exec, Backend.insertTask, CreateTaskDto.values, hid, hnew, hfind]
    | some r =>
      obtain hfree | ⟨q, hq, hlock⟩ := hlocked r.id
      · refine .inl ⟨_, hserves [], ?_⟩
        simp [exec, Backend.insertTask, CreateTaskDto.values, hid, hnew, hfind, hfree]
      · refine .inr ⟨q, hq, List.any_eq_true.mpr ⟨r, List.mem_of_find?_eq_some hfind, ?_⟩⟩
        have hmatch := List.find?_some hfind
        rw [hlock, Bool.and_true]
        exact hmatch
  | deleteTask i =>
    obtain hfree | hblocked := hlocked i
    · exact .inl ⟨_, hserves [], by simp [exec, Backend.deleteTask, hfree]⟩
    · exact .inr hblocked
  | updateTask i w =>
    obtain hfree | hblocked := hlocked i
    · refine .inl ⟨_, hserves [], ?_⟩
      simp only [exec, Backend.updateTask, hfree, Bool.false_eq_true, if_false]
      split
      · rfl
      · split <;> rfl
    · exact .inr hblocked
  | selectOldTasks cutoff limit =>
    let old := σ.tasks.filter fun r => r.status.isTerminal && decide (r.createdAt < cutoff)
    have hold : Backend.isLimited limit ((old.map (·.id)).take limit) old = true :=
      isLimited_take limit (hids.nodup.sublist (List.filter_sublist.map _))
    refine .inl ⟨_, hserves ((old.map (·.id)).take limit), ?_⟩
    simp only [exec, Backend.selectOldTasks]
    rw [if_pos hold]
    rfl
  | txCancelTask i now =>
    obtain hfree | hblocked := hlocked i
    · refine .inl ⟨_, hserves [], ?_⟩
      simp only [exec, Backend.txCancelTask, hfree, Bool.false_eq_true, if_false]
      split
      · rfl
      · split <;> rfl
    · exact .inr hblocked
  | txExpireTasks now limit =>
    have hpicks : Backend.isLimited limit (((σ.expirable p now).map (·.id)).take limit)
        (σ.expirable p now) = true :=
      isLimited_take limit (hids.nodup.sublist (List.filter_sublist.map _))
    refine .inl ⟨_, hserves (((σ.expirable p now).map (·.id)).take limit), ?_⟩
    simp only [exec, Backend.txExpireTasks]
    rw [if_pos hpicks]
    split <;> rfl
  | txDeleteTasks ids =>
    by_cases hfree : ((σ.tasks.filter fun r => ids.contains r.id).any
        fun r => σ.lockedByOther p r.id) = true
    · obtain ⟨r, hr, hlock⟩ := List.any_eq_true.mp hfree
      obtain ⟨q, hq, hheld⟩ := Backend.exists_of_otherTx hlock
      exact .inr ⟨q, hq, List.any_eq_true.mpr
        ⟨r.id, List.contains_iff_mem.mp (List.mem_filter.mp hr).2, hheld⟩⟩
    · exact .inl ⟨_, hserves [], by simp only [exec, Backend.txDeleteTasks, if_neg hfree]; rfl⟩
  | txAdvisoryLock i =>
    by_cases hfree : σ.otherTx p (fun t => t.locks.contains i) = true
    · exact .inr (Backend.exists_of_otherTx hfree)
    · exact .inl ⟨_, hserves [], by simp only [exec, Backend.txAdvisoryLock, if_neg hfree]; rfl⟩
  | txInsertEvent seq input =>
    obtain ⟨r, hr⟩ | ⟨e, he, q, hq, hheld⟩ := Backend.txInsertEvents_or_blocked (σ := σ) (p := p)
      [input.row id seq σ.clock]
    · exact .inl ⟨_, hserves [], by simp only [exec, hr]; rfl⟩
    · rw [List.mem_singleton.mp he] at hheld
      exact .inr ⟨q, hq, hheld⟩
  | txInsertExpiryEvents events =>
    obtain ⟨r, hr⟩ | ⟨e, he, q, hq, hheld⟩ := Backend.txInsertEvents_or_blocked (σ := σ) (p := p)
      events
    · exact .inl ⟨_, hserves [], by simp only [exec, hr]; rfl⟩
    · exact .inr ⟨q, hq, List.any_eq_true.mpr ⟨e, he, hheld⟩⟩
  | txDeleteEvents ids =>
    by_cases hfree : ((σ.events.filter fun e => ids.contains e.taskId).any
        fun e => σ.otherTx p fun t => t.deletesEvent e) = true
    · obtain ⟨e, he, hheld⟩ := List.any_eq_true.mp hfree
      obtain ⟨q, hq, hdel⟩ := Backend.exists_of_otherTx hheld
      refine .inr ⟨q, hq, List.any_eq_true.mpr ⟨e, (List.mem_filter.mp he).1, ?_⟩⟩
      rw [hdel, Bool.and_true]
      exact (List.mem_filter.mp he).2
    · exact .inl ⟨_, hserves [], by simp only [exec, Backend.txDeleteEvents, if_neg hfree]; rfl⟩
  | _ => exact .inl ⟨_, hserves [], rfl⟩

/-! ### The order of the calls -/

/-- The rank of a call: inside a transaction it goes down from statement to statement, and outside
it is as high as that of any statement that can wait. -/
def Await.rank : Await → ℕ
  | txCommit | txNextSeq _ | txNumberExpiryEvents _ => 0
  | txInsertEvent .. | txInsertExpiryEvents _ => 1
  | txAdvisoryLock _ => 2
  | txDeleteTasks _ => 3
  | txDeleteEvents _ => 4
  | _ => 5

section Order

variable {req : Request} {w : Summary} {y : Await}

/-- A function whose transaction has done something is past the statements that start one. -/
theorem rank_le_three (h : w.Awaits req y) (htx : w.tx ≠ {}) : y.rank ≤ 3 := by
  cases y with
  | txAdvisoryLock _ | txNextSeq _ | txInsertEvent _ _ | txNumberExpiryEvents _
  | txInsertExpiryEvents _ | txDeleteTasks _ | txCommit => simp [Await.rank]
  | _ => exact absurd (by first | exact h.tx | exact h.1.tx) htx

/-- A function whose transaction locks rows is past the statements that lock them. -/
theorem rank_le_two (h : w.Awaits req y) (htx : w.tx.rows ≠ [] ∨ w.tx.deleted ≠ []) :
    y.rank ≤ 2 := by
  have hthree : y.rank ≤ 3 := rank_le_three h fun heq => by simp [heq] at htx
  cases y with
  | txDeleteTasks ids => simp [h.2.1] at htx
  | _ => simp [Await.rank] at hthree ⊢

/-- A function that holds an advisory lock is past the statement that takes it. -/
theorem rank_le_one (h : w.Awaits req y) (htx : w.tx.locks ≠ []) : y.rank ≤ 1 := by
  have hthree : y.rank ≤ 3 := rank_le_three h fun heq => htx (by rw [heq])
  cases y with
  | txDeleteTasks ids => exact absurd (by rw [h.2.1]) htx
  | txAdvisoryLock id =>
    obtain ⟨_, -, -, heq⟩ := h
    exact absurd (by rw [heq]) htx
  | _ => simp [Await.rank] at hthree ⊢

/-- A function that has inserted its events has only to commit. -/
theorem rank_eq_zero (h : w.Awaits req y) (htx : w.tx.events ≠ []) : y.rank = 0 := by
  have hthree : y.rank ≤ 3 := rank_le_three h fun heq => htx (by rw [heq])
  cases y with
  | txDeleteTasks ids => exact absurd (by rw [h.2.1]) htx
  | txAdvisoryLock id =>
    obtain ⟨_, -, -, heq⟩ := h
    exact absurd (by rw [heq]) htx
  | txInsertEvent seq input => exact absurd (by rw [h.2.2]) htx
  | txInsertExpiryEvents events => exact absurd (by rw [h.1]) htx
  | _ => simp [Await.rank] at hthree ⊢

/-- Whoever blocks a call is past the calls of its rank. -/
theorem rank_lt_of_blocks {σ : Backend} {t : Tx} {x : Await} (ht : Tracks σ t w)
    (h : w.Awaits req y) (hb : t.blocks σ x = true) : y.rank < x.rank := by
  have hlocked : ∀ id, t.locksTask id = true → y.rank ≤ 2 := by
    intro id hid
    refine rank_le_two h ?_
    simp only [Tx.locksTask, Bool.or_eq_true, List.any_eq_true, List.contains_iff_mem] at hid
    obtain ⟨r, hr, -⟩ | hdel := hid
    · left
      rw [← ht.rows]
      exact List.ne_nil_of_mem (List.mem_map_of_mem hr)
    · right
      rw [← ht.deleted]
      exact List.ne_nil_of_mem hdel
  have hinserted : ∀ e ∈ t.events, y.rank < 1 := by
    intro e he
    rw [rank_eq_zero h (by rw [← ht.events]; exact List.ne_nil_of_mem he)]
    exact Nat.zero_lt_one
  cases x with
  | insertTask dto now token =>
    obtain ⟨r, -, hr⟩ := List.any_eq_true.mp hb
    exact Nat.lt_of_le_of_lt (hlocked _ (Bool.and_eq_true_iff.mp hr).2) (by simp [Await.rank])
  | deleteTask id | updateTask id _ | txCancelTask id _ =>
    exact Nat.lt_of_le_of_lt (hlocked id hb) (by simp [Await.rank])
  | txDeleteTasks ids =>
    obtain ⟨id, -, hid⟩ := List.any_eq_true.mp hb
    exact Nat.lt_of_le_of_lt (hlocked id hid) (by simp [Await.rank])
  | txAdvisoryLock id =>
    have hlock : y.rank ≤ 1 := rank_le_one h (by
      rw [← ht.locks]
      exact List.ne_nil_of_mem (List.contains_iff_mem.mp hb))
    exact Nat.lt_of_le_of_lt hlock (by simp [Await.rank])
  | txInsertEvent seq input =>
    obtain ⟨e, he, -⟩ := List.any_eq_true.mp hb
    exact hinserted e he
  | txInsertExpiryEvents events =>
    obtain ⟨_, -, he⟩ := List.any_eq_true.mp hb
    obtain ⟨e, he, -⟩ := List.any_eq_true.mp he
    exact hinserted e he
  | txDeleteEvents ids =>
    obtain ⟨e, -, he⟩ := List.any_eq_true.mp hb
    have hdel : (e.taskId, e.seq) ∈ t.deletedEvents :=
      List.contains_iff_mem.mp (Bool.and_eq_true_iff.mp he).2
    have htx : w.tx ≠ {} := fun heq => by
      have hcleared := ht.cleared _ hdel
      rw [heq] at hcleared
      cases hcleared
    exact Nat.lt_of_le_of_lt (rank_le_three h htx) (by simp [Await.rank])
  | _ => cases hb

end Order

/-! ### No deadlock -/

variable {http : HttpClient} {clock : Timestamp} {c : (proxy http).Config}
  {allow : (proxy http).Config → (proxy http).Move → Prop}

/-- The function `p` waits for the function `q`, whose open transaction blocks its next call. -/
def WaitsFor (c : (proxy http).Config) (p q : ℕ) : Prop :=
  q ≠ p ∧ (c.nextCall p).any ((c.store.tx q).blocks c.store) = true

instance (c : (proxy http).Config) (p q : ℕ) : Decidable (WaitsFor c p q) :=
  inferInstanceAs (Decidable (_ ∧ _))

/-- The function `p` can make its next call, and no fault hits it. -/
def Proceeds (c : (proxy http).Config) (p : ℕ) : Prop :=
  ∃ o, o.fault = .none ∧ (c.move (.call p o)).isSome = true

/-- The rank of the next call of a function. -/
def rankOf (c : (proxy http).Config) (p : ℕ) : ℕ := ((c.nextCall p).map Await.rank).getD 0

theorem rankOf_of_nextCall {p : ℕ} {x : Await} (h : c.nextCall p = some x) :
    rankOf c p = x.rank := by
  rw [rankOf, h]
  rfl

/-- Whoever waits, waits for a function in flight whose next call has a lower rank. -/
theorem rankOf_lt_of_waitsFor (h : Reaches allow (initial http clock) c) {p q : ℕ}
    (hw : WaitsFor c p q) : c.InFlight q ∧ rankOf c q < rankOf c p := by
  obtain ⟨γ, hγ, hobeys⟩ := exists_observed h
  obtain ⟨x, hx, hb⟩ : ∃ x, c.nextCall p = some x ∧ (c.store.tx q).blocks c.store x = true := by
    have hany := hw.2
    cases hnext : c.nextCall p with
    | none => simp [hnext] at hany
    | some x => exact ⟨x, rfl, by simpa [hnext] using hany⟩
  have htracks := (tracked_of_runs hγ).tracks q
  have hopen : (γ q).tx ≠ {} := fun heq => by
    have hnothing : c.store.tx q = {} := htracks.eq_empty heq
    rw [hnothing, Tx.blocks_empty] at hb
    cases hb
  have hstart : γ q ≠ {} := fun heq => hopen (by rw [heq])
  obtain ⟨req, y, k, hq, hy⟩ | ⟨req, a, -, hret⟩ := hobeys.inFlight_or_returned hstart
  · refine ⟨⟨req, y, k, hq⟩, ?_⟩
    rw [rankOf_of_nextCall hx, rankOf_of_nextCall (Config.nextCall_eq_some.mpr ⟨req, k, hq⟩)]
    exact rank_lt_of_blocks htracks hy hb
  · exact absurd hret.1.tx hopen

/-- A function in flight goes on, in a world of one's choice, or waits for another. -/
theorem serves_or_waitsFor (h : Reaches allow (initial http clock) c) {id : String}
    (hid : isUuid id = true) (hnew : id ∉ c.store.issued) {p : ℕ} (hp : c.InFlight p)
    (w : Oracle) :
    (∃ o d, w.Serves id o ∧ c.move (.call p o) = some d) ∨ ∃ q, WaitsFor c p q := by
  obtain ⟨γ, hγ, -⟩ := exists_observed h
  obtain ⟨req, x, k, hx⟩ := hp
  obtain ⟨o, ho, hexec⟩ | ⟨q, hq, hb⟩ :=
    exec_or_blocked (tracked_of_runs hγ).rowIds hid hnew p w x
  · left
    obtain ⟨r, hr⟩ := Option.isSome_iff_exists.mp hexec
    have hmove : (c.move (.call p o)).isSome = true := by
      simp only [Config.move, hx, perform_of_no_fault ho.fault, hr, Option.map_some]
      rfl
    obtain ⟨d, hd⟩ := Option.isSome_iff_exists.mp hmove
    exact ⟨o, d, ho, hd⟩
  · refine .inr ⟨q, hq, ?_⟩
    rw [Config.nextCall_eq_some.mpr ⟨req, k, hx⟩]
    exact hb

/-- Two cancellations of one task: the first has updated its row, the second is about to. -/
def crossingCancels : List (proxy httpRetryService).Move :=
  [.spawn (.create sampleDto "http://proxy"), .call 0 {}, .call 0 {},
    .call 0 { uuid := fun _ => sampleId }, .call 0 {},
    .spawn (.cancel sampleId), .call 1 {}, .call 1 {}, .spawn (.cancel sampleId), .call 2 {}]

/-- Another id that a server can generate. -/
def otherId : String := "22222222-2222-4222-8222-222222222222"

end LongRequestProxy
