import LongRequestProxy.Maintenance.Sweep

/-!
# A retention job that runs alone

The retention job with no other transaction active. Every batch is one transaction that deletes the
selected tasks with their events; a full batch is followed by another SELECT on what is left. The
loop ends by itself, on an empty batch or on a short one, and no old terminal task is left then.

## Main definitions

* `isOld`: what the SELECT of the job matches.
* `RetentionWorld`: what the outside world chooses during the job, `RetentionWorld.answer` what it
  answers.
* `Pruned`: what deleting some tasks with their events does.

## Main results

* `deleteBatch_ends`: what one transaction does.
* `deleteBatches_ends`: what the loop does, whatever bound on its batches it is given.
* `deleteOldData_deletes_old`: the effect of the job.
-/

namespace LongRequestProxy

open Async MaintenanceRepository

/-- The task is terminal and was created before the cutoff. -/
def isOld (cutoff : Timestamp) (t : TaskSelect) : Bool :=
  t.status.isTerminal && decide (t.createdAt < cutoff)

/-- The rows that the SELECT of the retention job matches. -/
def Backend.old (σ : Backend) (cutoff : Timestamp) : List TaskSelect :=
  σ.tasks.filter (isOld cutoff)

/-! ### The world -/

/-- The outside world of a retention job: the instant at which it starts, and the rows that
Postgres picks for a `LIMIT`, which may differ from one SELECT to the next. -/
structure RetentionWorld where
  now : Timestamp
  choose : ℕ → List TaskSelect → List String
  choose_isLimited : ∀ n T, (T.map (·.id)).Nodup →
    Backend.isLimited retentionDeleteBatchSize (choose n T) T = true

/-- The rows among which a call picks. -/
def Await.candidates (σ : Backend) : Await → List TaskSelect
  | selectOldTasks cutoff _ => σ.old cutoff
  | _ => []

namespace RetentionWorld

variable (W : RetentionWorld)

/-- The cutoff of `deleteOldData`. -/
def cutoff (retentionDays : ℤ) : Timestamp := W.now.addSeconds (-(retentionDays * 86400))

/-- What the world chooses for the call after `n` calls. -/
def oracle (n : ℕ) (σ : Backend) (c : Await) : Oracle where
  time := W.now
  picks := W.choose n (c.candidates σ)

/-- The answer to a call; the calls made are counted. -/
def answer (s : Backend × ℕ) (c : Await) : Option (Reply c × Backend × ℕ) :=
  (perform 0 (W.oracle s.2 s.1 c) s.1 c).map fun x => (x.1, x.2, s.2 + 1)

end RetentionWorld

/-! ### The tables -/

/-- The tasks `ids` and their events have been deleted, `counts.2` and `counts.1` rows; nothing
else has changed but the open transactions. -/
structure Pruned (ids : List String) (counts : ℕ × ℕ) (σ σ' : Backend) : Prop where
  eq : σ' = { σ with
    tasks := σ.tasks.filter fun t => !ids.contains t.id
    events := σ.events.filter fun e => !ids.contains e.taskId
    txs := σ'.txs }
  events : counts.1 = (σ.events.filter fun e => ids.contains e.taskId).length
  tasks : counts.2 = (σ.tasks.filter fun t => ids.contains t.id).length

namespace Pruned

variable {ids ids₁ ids₂ : List String} {counts counts₁ counts₂ : ℕ × ℕ} {σ σ₁ σ₂ : Backend}
  {cutoff : Timestamp}

theorem refl (σ : Backend) : Pruned [] (0, 0) σ σ where
  eq := by simp
  events := by simp
  tasks := by simp

/-- What is left of the old rows. -/
theorem old_eq (h : Pruned ids counts σ σ₁) :
    σ₁.old cutoff = (σ.old cutoff).filter fun t => !ids.contains t.id := by
  rw [h.eq, Backend.old, Backend.old, List.filter_filter, List.filter_filter]
  exact List.filter_congr fun _ _ => Bool.and_comm ..

/-- One deletion after another. -/
theorem trans (h₁ : Pruned ids₁ counts₁ σ σ₁) (h₂ : Pruned ids₂ counts₂ σ₁ σ₂) :
    Pruned (ids₁ ++ ids₂) (counts₁.1 + counts₂.1, counts₁.2 + counts₂.2) σ σ₂ where
  eq := by
    refine h₂.eq.trans ?_
    rw [h₁.eq]
    simp only [List.filter_filter, List.contains_append, Bool.not_or, Bool.and_comm]
  events := by
    have hleft : σ₁.events = σ.events.filter fun e => !ids₁.contains e.taskId := by rw [h₁.eq]
    simp only [List.contains_append]
    rw [Table.length_filter_or, ← hleft, h₁.events, h₂.events]
  tasks := by
    have hleft : σ₁.tasks = σ.tasks.filter fun t => !ids₁.contains t.id := by rw [h₁.eq]
    simp only [List.contains_append]
    rw [Table.length_filter_or, ← hleft, h₁.tasks, h₂.tasks]

/-- When no old row is left and only old ones were deleted, exactly the old ones were. -/
theorem contains_iff_isOld (h : Pruned ids counts σ σ₁) (hids : (σ.tasks.map (·.id)).Nodup)
    (hsound : ∀ i ∈ ids, ∃ t ∈ σ.old cutoff, t.id = i) (hend : σ₁.old cutoff = []) {t : TaskSelect}
    (ht : t ∈ σ.tasks) : ids.contains t.id = isOld cutoff t := by
  rw [Bool.eq_iff_iff, List.contains_iff_mem]
  constructor
  · intro hmem
    obtain ⟨s, hs, hid⟩ := hsound t.id hmem
    obtain ⟨hs, hold⟩ := List.mem_filter.mp hs
    rwa [← Table.eq_of_key_eq hids hs ht hid]
  · intro hold
    rw [h.old_eq, List.filter_eq_nil_iff] at hend
    simpa using hend t (List.mem_filter.mpr ⟨ht, hold⟩)

end Pruned

namespace RetentionWorld

variable {W : RetentionWorld} {σ : Backend} {calls : ℕ} {cutoff : Timestamp}

/-! ### A batch -/

/-- A call that takes effect. -/
theorem ends_call {c : Await} {v : c.Val} {σ' : Backend} {Q : c.Val → Backend × ℕ → Prop}
    (hexec : exec 0 (W.oracle calls σ c) σ c = some (.ok (v, σ'))) (hQ : Q v (σ', calls + 1)) :
    Prog.Ends W.answer (call c) Q (fun _ _ => False) (σ, calls) := by
  unfold Prog.Ends
  rw [call_runAlone, answer, perform_eq_exec fun _ => rfl, hexec]
  exact .inl ⟨v, _, rfl, hQ⟩

/-- The SELECT returns as many ids of old rows as the limit lets through. -/
theorem selectOldTasks_ends (W : RetentionWorld) (calls : ℕ) (cutoff : Timestamp)
    (hids : (σ.tasks.map (·.id)).Nodup) :
    Prog.Ends W.answer (call (.selectOldTasks cutoff retentionDeleteBatchSize))
      (fun batch s => s = (σ, calls + 1) ∧
        Backend.isLimited retentionDeleteBatchSize batch (σ.old cutoff) = true)
      (fun _ _ => False) (σ, calls) := by
  have hlimited := W.choose_isLimited calls (σ.old cutoff) (Table.nodup_filter_key hids _)
  have hexec : exec 0 (W.oracle calls σ (.selectOldTasks cutoff retentionDeleteBatchSize)) σ
      (.selectOldTasks cutoff retentionDeleteBatchSize) =
        some (.ok (W.choose calls (σ.old cutoff), σ)) := if_pos hlimited
  exact ends_call hexec ⟨rfl, hlimited⟩

/-- The events that a transaction has deleted. -/
theorem committedEvents_eq {ids : List String} {t : Tx} (hevents : t.events = [])
    (hdel : t.deletedEvents =
      (σ.events.filter fun e => ids.contains e.taskId).map fun e => (e.taskId, e.seq)) :
    σ.committedEvents t = σ.events.filter fun e => !ids.contains e.taskId := by
  rw [Backend.committedEvents, hevents, List.append_nil]
  refine List.filter_congr fun e he => congrArg (!·) ?_
  rw [Tx.deletesEvent, hdel, Bool.eq_iff_iff, List.contains_iff_mem]
  constructor
  · intro hmem
    obtain ⟨e', he', heq⟩ := List.mem_map.mp hmem
    rw [Prod.mk.injEq] at heq
    exact heq.1 ▸ (List.mem_filter.mp he').2
  · intro hid
    exact List.mem_map.mpr ⟨e, List.mem_filter.mpr ⟨he, hid⟩, rfl⟩

/-- The rows that a transaction without new versions leaves. -/
theorem committedTasks_eq {t : Tx} (htasks : t.tasks = []) :
    σ.committedTasks t = σ.tasks.filter fun r => !t.deletedTasks.contains r.id := by
  have hnewest : t.newest = id := by
    funext r
    simp [Tx.newest, htasks]
  rw [Backend.committedTasks, hnewest, List.map_id]

/-- Nobody else is deleting the events. -/
theorem txDeleteEvents_eq (h : ∀ q, q ≠ 0 → σ.txs.lookup q = none) (ids : List String) :
    σ.txDeleteEvents 0 ids =
      some (.ok ((σ.events.filter fun e => ids.contains e.taskId).length, σ.setTx 0
        { σ.tx 0 with
          deletedEvents := (σ.tx 0).deletedEvents ++
            (σ.events.filter fun e => ids.contains e.taskId).map
              fun e => (e.taskId, e.seq) })) := by
  unfold Backend.txDeleteEvents
  simp only [Backend.otherTx_of_other h, List.any_eq_true, Bool.false_eq_true, and_false,
    exists_false, if_false]

/-- Nobody else locks the rows. -/
theorem txDeleteTasks_eq (h : ∀ q, q ≠ 0 → σ.txs.lookup q = none) (ids : List String) :
    σ.txDeleteTasks 0 ids =
      some (.ok ((σ.tasks.filter fun t => ids.contains t.id).length, σ.setTx 0
        { σ.tx 0 with deletedTasks := (σ.tx 0).deletedTasks ++ ids })) := by
  unfold Backend.txDeleteTasks
  simp only [Backend.lockedByOther, Backend.otherTx_of_other h, List.any_eq_true,
    Bool.false_eq_true, and_false, exists_false, if_false]

/-- **One transaction.** It deletes the tasks with their events and returns how many. -/
theorem deleteBatch_ends (W : RetentionWorld) (calls : ℕ) (hσ : σ.Idle) (ids : List String) :
    Prog.Ends W.answer (deleteBatch ids) (fun counts s => s.1.Idle ∧ Pruned ids counts σ s.1)
      (fun _ _ => False) (σ, calls) := by
  have hother := Backend.other_setTx hσ.other
    { σ.tx 0 with
      deletedEvents := (σ.tx 0).deletedEvents ++
        (σ.events.filter fun e => ids.contains e.taskId).map fun e => (e.taskId, e.seq) }
  refine .bind (ends_call (txDeleteEvents_eq hσ.other ids) ?_)
  refine .bind (ends_call (txDeleteTasks_eq hother ids) ?_)
  refine .bind (ends_call (v := ()) rfl (.pure ⟨.commit (Backend.other_setTx hother _), ?_⟩))
  refine ⟨?_, rfl, rfl⟩
  simp only [Backend.tx_setTx_self, hσ.own, List.nil_append]
  rw [committedTasks_eq rfl, committedEvents_eq rfl rfl]
  rfl

/-! ### The loop -/

variable {n : ℕ} {totals : ℕ × ℕ}

theorem deleteBatches_of_nil {s s₁ : Backend × ℕ}
    (h : (call (.selectOldTasks cutoff retentionDeleteBatchSize)).run.runAlone W.answer s =
      some (.ok [], s₁)) :
    (deleteBatches cutoff (n + 1) totals).run.runAlone W.answer s = some (.ok totals, s₁) := by
  rw [deleteBatches, Prog.runAlone_bindExcept, h]
  rfl

theorem deleteBatches_of_batch {s s₁ s₂ : Backend × ℕ} {batch : List String} {deleted : ℕ × ℕ}
    (h : (call (.selectOldTasks cutoff retentionDeleteBatchSize)).run.runAlone W.answer s =
      some (.ok batch, s₁)) (hne : batch ≠ [])
    (hdelete : (deleteBatch batch).run.runAlone W.answer s₁ = some (.ok deleted, s₂)) :
    (deleteBatches cutoff (n + 1) totals).run.runAlone W.answer s =
      if batch.length ≥ retentionDeleteBatchSize then
        (deleteBatches cutoff n (totals.1 + deleted.1, totals.2 + deleted.2)).run.runAlone
          W.answer s₂
      else some (.ok (totals.1 + deleted.1, totals.2 + deleted.2), s₂) := by
  rw [deleteBatches, Prog.runAlone_bindExcept, h, Option.bind_some]
  dsimp only
  rw [if_neg hne, Prog.runAlone_bindExcept, hdelete, Option.bind_some]
  dsimp only
  split
  · rfl
  · rfl

/-- What a batch leaves of the old rows. -/
theorem length_old_of_batch {batch : List String} {counts : ℕ × ℕ} {σ₁ : Backend}
    (hids : (σ.tasks.map (·.id)).Nodup)
    (hlimited : Backend.isLimited retentionDeleteBatchSize batch (σ.old cutoff) = true)
    (h : Pruned batch counts σ σ₁) :
    (σ₁.old cutoff).length + batch.length = (σ.old cutoff).length := by
  have hpicked := SweepWorld.length_filter_picks (Table.nodup_filter_key hids _) hlimited
  have hlen := Backend.isLimited_length hlimited
  have hsplit := (σ.old cutoff).length_eq_length_filter_add fun t => batch.contains t.id
  rw [h.old_eq]
  unfold Backend.old at *
  omega

/-- **The loop.** For every bound above the number of full batches it leaves by itself, and no old
row is left. -/
theorem deleteBatches_ends (W : RetentionWorld) (cutoff : Timestamp) (k calls : ℕ)
    (totals : ℕ × ℕ) (hσ : σ.Idle) (hids : (σ.tasks.map (·.id)).Nodup)
    (hk : (σ.old cutoff).length < retentionDeleteBatchSize * (k + 1)) :
    ∃ (ids : List String) (counts : ℕ × ℕ) (s : Backend × ℕ),
      (∀ n, k < n → (deleteBatches cutoff n totals).run.runAlone W.answer (σ, calls) =
        some (.ok (totals.1 + counts.1, totals.2 + counts.2), s)) ∧
      s.1.Idle ∧ Pruned ids counts σ s.1 ∧ (∀ i ∈ ids, ∃ t ∈ σ.old cutoff, t.id = i) ∧
      s.1.old cutoff = [] := by
  induction k using Nat.strong_induction_on generalizing σ calls totals with
  | _ k ih =>
    have hbound : ∀ n, k < n → ∃ m, n = m + 1 ∧ k ≤ m := fun n hn =>
      ⟨n - 1, by omega, by omega⟩
    obtain ⟨batch, s₀, hselect, rfl, hlimited⟩ | ⟨_, _, -, hfalse⟩ :=
      selectOldTasks_ends W calls cutoff hids
    swap
    · exact hfalse.elim
    have hlen := Backend.isLimited_length hlimited
    by_cases hne : batch = []
    · -- nothing is left
      subst hne
      have hzero : (σ.old cutoff).length = 0 := by
        simp only [List.length_nil, retentionDeleteBatchSize] at hlen
        omega
      refine ⟨[], (0, 0), (σ, calls + 1), fun n hn => ?_, hσ, .refl σ, by simp,
        List.length_eq_zero_iff.mp hzero⟩
      obtain ⟨m, rfl, -⟩ := hbound n hn
      exact deleteBatches_of_nil hselect
    obtain ⟨deleted, s₁, hdelete, hidle, hpruned⟩ | ⟨_, _, -, hfalse⟩ :=
      deleteBatch_ends W (calls + 1) hσ batch
    swap
    · exact hfalse.elim
    have hleft := length_old_of_batch hids hlimited hpruned
    have hsound : ∀ i ∈ batch, ∃ t ∈ σ.old cutoff, t.id = i := fun i hi =>
      Backend.isLimited_mem hlimited hi
    by_cases hfull : batch.length ≥ retentionDeleteBatchSize
    · -- a full batch: the loop goes on with what is left
      have hids₁ : (s₁.1.tasks.map (·.id)).Nodup := by
        rw [hpruned.eq]
        exact Table.nodup_filter_key hids _
      obtain ⟨ids, counts, s, hrun, hidle', hpruned', hsound', hend⟩ :=
        ih (k - 1) (by simp only [retentionDeleteBatchSize] at *; omega) s₁.2
          (totals.1 + deleted.1, totals.2 + deleted.2) hidle hids₁
          (by simp only [retentionDeleteBatchSize] at *; omega)
      refine ⟨batch ++ ids, _, s, fun n hn => ?_, hidle', hpruned.trans hpruned', ?_, hend⟩
      · obtain ⟨m, rfl, hm⟩ := hbound n hn
        rw [deleteBatches_of_batch hselect hne hdelete, if_pos hfull,
          hrun m (by simp only [retentionDeleteBatchSize] at *; omega), Nat.add_assoc,
          Nat.add_assoc]
      · intro i hi
        rcases List.mem_append.mp hi with hi | hi
        · exact hsound i hi
        · obtain ⟨t, ht, hid⟩ := hsound' i hi
          rw [hpruned.old_eq] at ht
          exact ⟨t, (List.mem_filter.mp ht).1, hid⟩
    · -- a short batch is the last one
      refine ⟨batch, deleted, s₁, fun n hn => ?_, hidle, hpruned, hsound, ?_⟩
      · obtain ⟨m, rfl, -⟩ := hbound n hn
        rw [deleteBatches_of_batch hselect hne hdelete, if_neg hfull]
      · refine List.length_eq_zero_iff.mp ?_
        simp only [retentionDeleteBatchSize] at *
        omega

end RetentionWorld

/-- A world in which Postgres picks the first rows. -/
def firstRows : RetentionWorld where
  now := 2592000001
  choose _ T := (T.map (·.id)).take retentionDeleteBatchSize
  choose_isLimited _ _ := isLimited_take _

/-- Postgres with a finished task of the first instant and one that is still processing. -/
def finishedBackend : Backend where
  tasks := [(TaskWrite.cancel 5).apply overdueRow,
    { (TaskWrite.dispatchClaim 5 1).apply overdueRow with id := "started" }]

end LongRequestProxy
