import LongRequestProxy.Async.Alone
import LongRequestProxy.Delivery.EventNumbers

/-!
# A sweep that runs alone

The timeout sweeper with no other transaction active and a clock that stands still. Every batch
takes effect as a whole or not at all, and the loop ends: it has failed every overdue task once
and appended one event to its log, or one of its batches has thrown.

## Main definitions

* `SweepWorld`: what the outside world chooses during a sweep, `SweepWorld.answer` what it answers.
* `Backend.Idle`: no transaction is open.
* `Swept`: what some batches have done to the tables.

## Main results

* `expireBatch_ends`: what one batch does.
* `process_ends`: what the sweep does, whatever bound on its batches it is given.
* `sweep_fails_overdue`: the effect of a sweep.
-/

namespace LongRequestProxy

open Async

/-! ### The world -/

/-- The outside world of a sweep: the clock stands still, Postgres picks the rows of a `LIMIT` and
generates ids, and a call to a server may fail. -/
structure SweepWorld where
  now : Timestamp
  choose : List TaskSelect → List String
  uuid : ℕ → ℕ → String
  fails : ℕ → Bool
  choose_isLimited : ∀ T, (T.map (·.id)).Nodup →
    Backend.isLimited TimeoutSweeperProcessor.sweepBatchSize (choose T) T = true

namespace SweepWorld

variable (W : SweepWorld)

/-- What the world chooses for the call after `n` calls. -/
def oracle (n : ℕ) (σ : Backend) : Oracle where
  fault := if W.fails n then .failed else .none
  time := W.now
  uuid := W.uuid n
  picks := W.choose (σ.expirable 0 W.now)

/-- The answer to a call; the calls made are recorded. -/
def answer (s : Backend × List Await) (c : Await) : Option (Reply c × Backend × List Await) :=
  (perform 0 (W.oracle s.2.length s.1) s.1 c).map fun x => (x.1, x.2, s.2 ++ [c])

end SweepWorld

/-- What a call publishes. -/
def Await.publication? : Await → Option (String × TaskEventSelect)
  | publish channel event => some (channel, event)
  | _ => none

/-! ### The tables -/

namespace Backend

variable (σ : Backend)

/-- No transaction is open. -/
structure Idle : Prop where
  own : σ.tx 0 = {}
  other : ∀ q, q ≠ 0 → σ.txs.lookup q = none

/-- The highest number of the events of a task, 0 if there are none. -/
def lastSeq (i : String) : ℤ := (σ.seqs i).max?.getD 0

/-- The overdue rows. -/
def overdue (now : Timestamp) : List TaskSelect := σ.tasks.filter (isOverdue now)

variable {σ} {p : ℕ} {t : Tx}

theorem otherTx_of_other (h : ∀ q, q ≠ 0 → σ.txs.lookup q = none) (P : Tx → Bool) :
    σ.otherTx 0 P = false := by
  refine List.any_eq_false.mpr fun x hx => ?_
  have hmem : x.2 ∈ σ.txs.lookup x.1 := AList.mem_lookup_iff.mpr hx
  by_cases hx0 : x.1 = 0
  · simp [hx0]
  · rw [h x.1 hx0] at hmem
    cases hmem

theorem Idle.rollback (h : ∀ q, q ≠ 0 → σ.txs.lookup q = none) : (σ.rollback 0).Idle :=
  ⟨tx_rollback_self .., fun q hq => (AList.lookup_erase_ne hq).trans (h q hq)⟩

theorem Idle.commit (h : ∀ q, q ≠ 0 → σ.txs.lookup q = none) : (σ.commit 0).Idle :=
  ⟨tx_commit_self .., fun q hq => (AList.lookup_erase_ne hq).trans (h q hq)⟩

theorem other_setTx (h : ∀ q, q ≠ 0 → σ.txs.lookup q = none) (t : Tx) :
    ∀ q, q ≠ 0 → (σ.setTx 0 t).txs.lookup q = none :=
  fun q hq => (AList.lookup_insert_ne hq).trans (h q hq)

end Backend

/-- Some batches have failed overdue tasks of `σ` and appended their events `es`. -/
structure Swept (now : Timestamp) (σ σ' : Backend) (es : List TaskEventSelect) : Prop where
  once : (es.map (·.taskId)).Nodup
  overdue : ∀ e ∈ es, ∃ t ∈ σ.overdue now, t.id = e.taskId
  tasks : σ'.tasks = Table.update (fun t => (es.map (·.taskId)).contains t.id)
    (TaskWrite.expire now).apply σ.tasks
  events : σ'.events = σ.events ++ es
  entries : ∀ e ∈ es, e.seq = σ.lastSeq e.taskId + 1 ∧ e.eventType = .failed ∧
    e.payload = .obj [("error", timeoutError.json)] ∧ e.createdAt = σ.clock
  clock : σ'.clock = σ.clock

theorem Swept.refl (now : Timestamp) {σ σ' : Backend} (ht : σ'.tasks = σ.tasks)
    (he : σ'.events = σ.events) (hc : σ'.clock = σ.clock) : Swept now σ σ' [] where
  once := List.nodup_nil
  overdue := by simp
  tasks := by simp [Table.update, ht]
  events := by simp [he]
  entries := by simp
  clock := hc

namespace Swept

variable {now : Timestamp} {σ σ₁ σ₂ : Backend} {es es₁ es₂ : List TaskEventSelect}

theorem ids_eq (h : Swept now σ σ₁ es) : σ₁.tasks.map (·.id) = σ.tasks.map (·.id) := by
  rw [h.tasks]
  exact Table.map_key_update fun _ => rfl

/-- What is still overdue. -/
theorem overdue_eq (h : Swept now σ σ₁ es) :
    σ₁.overdue now = (σ.overdue now).filter fun t => !(es.map (·.taskId)).contains t.id := by
  have hexpired : ∀ t, isOverdue now ((TaskWrite.expire now).apply t) = false := fun _ => rfl
  rw [Backend.overdue, Backend.overdue, h.tasks, Table.update]
  generalize es.map (·.taskId) = ids
  induction σ.tasks with
  | nil => rfl
  | cons t T ih =>
    rw [List.map_cons]
    by_cases hmem : ids.contains t.id = true
    · rw [if_pos hmem, List.filter_cons_of_neg (by simp [hexpired]), ih]
      by_cases hover : isOverdue now t = true
      · rw [List.filter_cons_of_pos hover, List.filter_cons_of_neg (by simpa using hmem)]
      · rw [List.filter_cons_of_neg hover]
    · rw [if_neg hmem]
      by_cases hover : isOverdue now t = true
      · rw [List.filter_cons_of_pos hover, List.filter_cons_of_pos hover,
          List.filter_cons_of_pos (by simpa using hmem), ih]
      · rw [List.filter_cons_of_neg hover, List.filter_cons_of_neg hover, ih]

/-- A batch that has stored an event leaves fewer overdue rows. -/
theorem length_overdue_lt (h : Swept now σ σ₁ es) (hne : es ≠ []) :
    (σ₁.overdue now).length < (σ.overdue now).length := by
  obtain ⟨e, es, rfl⟩ := List.exists_cons_of_ne_nil hne
  obtain ⟨t, ht, hid⟩ := h.overdue e List.mem_cons_self
  rw [h.overdue_eq, List.length_filter_lt_length_iff_exists]
  exact ⟨t, ht, by simp [hid]⟩

/-- The numbers of the other tasks' events are as before. -/
theorem lastSeq_eq (h : Swept now σ σ₁ es) {i : String} (hi : i ∉ es.map (·.taskId)) :
    σ₁.lastSeq i = σ.lastSeq i := by
  have hnone : es.filter (fun e => e.taskId == i) = [] := by
    refine List.filter_eq_nil_iff.mpr fun e he heq => hi ?_
    rw [← beq_iff_eq.mp heq]
    exact List.mem_map_of_mem he
  rw [Backend.lastSeq, Backend.lastSeq, Backend.seqs, Backend.seqs, Backend.log, Backend.log,
    h.events, List.filter_append, hnone, List.append_nil]

/-- Batches one after another fail different tasks. -/
theorem trans (h₁ : Swept now σ σ₁ es₁) (h₂ : Swept now σ₁ σ₂ es₂) :
    Swept now σ σ₂ (es₁ ++ es₂) := by
  have hfresh : ∀ e ∈ es₂,
      e.taskId ∉ es₁.map (·.taskId) ∧ ∃ t ∈ σ.overdue now, t.id = e.taskId := by
    intro e he
    obtain ⟨t, ht, hid⟩ := h₂.overdue e he
    rw [h₁.overdue_eq, List.mem_filter] at ht
    exact ⟨by simpa [hid] using ht.2, t, ht.1, hid⟩
  refine ⟨?_, ?_, ?_, ?_, ?_, h₂.clock.trans h₁.clock⟩
  · rw [List.map_append]
    refine h₁.once.append h₂.once fun i hi₁ hi₂ => ?_
    obtain ⟨e, he, rfl⟩ := List.mem_map.mp hi₂
    exact (hfresh e he).1 hi₁
  · intro e he
    rcases List.mem_append.mp he with he | he
    · exact h₁.overdue e he
    · exact (hfresh e he).2
  · have hdisjoint : ∀ r : TaskSelect, (es₁.map (·.taskId)).contains r.id = true →
        (es₂.map (·.taskId)).contains ((TaskWrite.expire now).apply r).id = false := by
      intro r hr
      rw [TaskWrite.apply_id, ← Bool.not_eq_true, List.contains_iff_mem]
      intro hr₂
      obtain ⟨e, he, hid⟩ := List.mem_map.mp hr₂
      exact (hfresh e he).1 (hid ▸ List.contains_iff_mem.mp hr)
    rw [h₂.tasks, h₁.tasks, Table.update_update hdisjoint, List.map_append]
    simp only [List.contains_append]
  · rw [h₂.events, h₁.events, List.append_assoc]
  · intro e he
    rcases List.mem_append.mp he with he | he
    · exact h₁.entries e he
    · rw [← h₁.lastSeq_eq (hfresh e he).1, ← h₁.clock]
      exact h₂.entries e he

/-- When nothing is overdue any more, every overdue row was failed. -/
theorem tasks_eq_of_exhausted (h : Swept now σ σ₁ es) (hids : (σ.tasks.map (·.id)).Nodup)
    (hend : σ₁.overdue now = []) :
    σ₁.tasks = Table.update (isOverdue now) (TaskWrite.expire now).apply σ.tasks ∧
      (es.map (·.taskId)).Perm ((σ.overdue now).map (·.id)) := by
  have hmem : ∀ t ∈ σ.tasks, t.id ∈ es.map (·.taskId) ↔ isOverdue now t = true := by
    intro t ht
    constructor
    · intro hid
      obtain ⟨e, he, heq⟩ := List.mem_map.mp hid
      obtain ⟨s, hs, hsid⟩ := h.overdue e he
      obtain ⟨hs, hover⟩ := List.mem_filter.mp hs
      rwa [← Table.eq_of_key_eq hids hs ht (hsid.trans heq)]
    · intro hover
      rw [h.overdue_eq, List.filter_eq_nil_iff] at hend
      simpa using hend t (List.mem_filter.mpr ⟨ht, hover⟩)
  constructor
  · rw [h.tasks, Table.update, Table.update]
    refine List.map_congr_left fun t ht => if_congr ?_ rfl rfl
    simpa using hmem t ht
  · refine (List.perm_ext_iff_of_nodup h.once (Table.nodup_filter_key hids _)).mpr fun i => ?_
    constructor
    · intro hi
      obtain ⟨e, he, rfl⟩ := List.mem_map.mp hi
      obtain ⟨t, ht, hid⟩ := h.overdue e he
      exact hid ▸ List.mem_map_of_mem ht
    · intro hi
      obtain ⟨t, ht, rfl⟩ := List.mem_map.mp hi
      obtain ⟨ht, hover⟩ := List.mem_filter.mp ht
      exact (hmem t ht).mpr hover

end Swept

namespace SweepWorld

open TimeoutSweeperProcessor

variable {W : SweepWorld} {σ : Backend} {n : ℕ}

/-! ### The statements of a batch -/

/-- Rows that are picked from a table with unique ids. -/
theorem length_filter_picks {limit : ℕ} {picks : List String} {T : List TaskSelect}
    (hT : (T.map (·.id)).Nodup) (h : Backend.isLimited limit picks T = true) :
    (T.filter fun t => picks.contains t.id).length = min limit T.length := by
  have hmem : ∀ id ∈ picks, ∃ t ∈ T, t.id = id := fun id hid => Backend.isLimited_mem h hid
  simp only [Backend.isLimited, Bool.and_eq_true, decide_eq_true_eq, beq_iff_eq] at h
  obtain ⟨⟨hnodup, -⟩, hlen⟩ := h
  rw [← hlen, ← List.length_map (f := (·.id))]
  refine List.Perm.length_eq ?_
  refine (List.perm_ext_iff_of_nodup (hT.sublist (List.filter_sublist.map _)) hnodup).mpr ?_
  intro id
  simp only [List.mem_map, List.mem_filter, List.contains_eq_mem, decide_eq_true_eq]
  constructor
  · rintro ⟨t, ⟨-, hid⟩, rfl⟩
    exact hid
  · intro hid
    obtain ⟨t, ht, rfl⟩ := hmem id hid
    exact ⟨t, ⟨ht, hid⟩, rfl⟩

/-- The UPDATE of a batch: it picks as many overdue rows as the limit lets through, and is refused
or leaves their new versions in the transaction. -/
theorem txExpireTasks_cases (hσ : σ.Idle) (hids : (σ.tasks.map (·.id)).Nodup) :
    ∃ selected : List TaskSelect, selected.Sublist (σ.overdue W.now) ∧
      selected.length = min sweepBatchSize (σ.overdue W.now).length ∧
      (σ.txExpireTasks 0 W.now TimeoutSweeperProcessor.sweepBatchSize
          (W.choose (σ.expirable 0 W.now)) =
          some (.error (.checkViolation "tasks_valid_state_data")) ∨
        σ.txExpireTasks 0 W.now TimeoutSweeperProcessor.sweepBatchSize
          (W.choose (σ.expirable 0 W.now)) =
          some (.ok (selected.map (·.id),
            σ.setTx 0 { tasks := selected.map (TaskWrite.expire W.now).apply }))) := by
  have hcand : σ.expirable 0 W.now = σ.overdue W.now := by
    refine List.filter_congr fun t _ => ?_
    rw [Backend.lockedByOther, Backend.otherTx_of_other hσ.other, Bool.not_false, Bool.and_true]
  have hnodup : ((σ.overdue W.now).map (·.id)).Nodup :=
    hids.sublist (List.filter_sublist.map _)
  have hlimited := W.choose_isLimited _ hnodup
  refine ⟨_, List.filter_sublist, length_filter_picks hnodup hlimited, ?_⟩
  rw [hcand]
  unfold Backend.txExpireTasks
  rw [hcand]
  dsimp only
  rw [if_pos hlimited]
  split
  · exact .inl rfl
  · next rows hrows =>
    obtain ⟨-, rfl⟩ := sweepUpdate_eq_some hrows
    refine .inr ?_
    rw [hσ.own, List.map_map]
    rfl

/-- The rows after the commit of a batch. -/
theorem committedTasks_eq {selected : List TaskSelect} {t : Tx}
    (hids : (σ.tasks.map (·.id)).Nodup) (hsub : selected.Sublist σ.tasks)
    (htasks : t.tasks = selected.map (TaskWrite.expire W.now).apply) (hdel : t.deletedTasks = []) :
    σ.committedTasks t = Table.update (fun r => (selected.map (·.id)).contains r.id)
      (TaskWrite.expire W.now).apply σ.tasks := by
  have hkeep : σ.tasks.filter (fun r => !t.deletedTasks.contains r.id) = σ.tasks := by simp [hdel]
  rw [Backend.committedTasks, hkeep, Table.update]
  refine List.map_congr_left fun r hr => ?_
  obtain ⟨hnew, hid⟩ | ⟨hold, hnone⟩ := t.newest_cases r
  · rw [htasks] at hnew
    obtain ⟨s, hs, heq⟩ := List.mem_map.mp hnew
    have hsid : s.id = r.id := by rw [← hid, ← heq]; rfl
    obtain rfl := Table.eq_of_key_eq hids (hsub.subset hs) hr hsid
    rw [if_pos (by simpa using ⟨s, hs, rfl⟩), heq]
  · rw [hold, if_neg]
    intro hmem
    obtain ⟨s, hs, hid⟩ : ∃ s ∈ selected, s.id = r.id := by simpa using hmem
    exact hnone ((TaskWrite.expire W.now).apply s) (htasks ▸ List.mem_map_of_mem hs) hid

/-! ### A batch -/

variable {calls : List Await}

/-- The messages that some calls publish. -/
def publications (calls : List Await) : List (String × TaskEventSelect) :=
  calls.filterMap Await.publication?

theorem publications_append (calls calls' : List Await) :
    publications (calls ++ calls') = publications calls ++ publications calls' :=
  List.filterMap_append

/-- A call: it fails if it goes to a server, or does what its server does. -/
theorem ends_call {c : Await} {Q : c.Val → Backend × List Await → Prop}
    {E : JsError → Backend × List Await → Prop}
    (hfail : c.isRemote = true → W.fails calls.length = true →
      E .unavailable (σ.rollback 0, calls ++ [c]))
    (hexec : (∃ v σ', exec 0 (W.oracle calls.length σ) σ c = some (.ok (v, σ')) ∧
        Q v (σ', calls ++ [c])) ∨
      ∃ e, exec 0 (W.oracle calls.length σ) σ c = some (.error e) ∧
        E e (σ.rollback 0, calls ++ [c])) :
    Prog.Ends W.answer (call c) Q E (σ, calls) := by
  unfold Prog.Ends
  rw [call_runAlone, answer]
  by_cases hf : c.isRemote = true ∧ W.fails calls.length = true
  · rw [perform_of_failed hf.1 (by simp [oracle, hf.2])]
    exact .inr ⟨.unavailable, _, rfl, hfail hf.1 hf.2⟩
  · have hfault : c.isRemote = true → (W.oracle calls.length σ).fault = .none := by
      intro hc
      simpa [oracle] using fun hfails => hf ⟨hc, hfails⟩
    obtain ⟨v, σ', hx, hQ⟩ | ⟨e, hx, hE⟩ := hexec
    · rw [perform_eq_exec hfault, hx]
      exact .inl ⟨v, _, rfl, hQ⟩
    · rw [perform_eq_exec hfault, hx]
      exact .inr ⟨e, _, rfl, hE⟩

/-- The state within a batch that started in `σ`: its transaction is `t`, and nothing is
committed. -/
structure Within (σ : Backend) (t : Tx) (σ₁ : Backend) : Prop where
  tx : σ₁.tx 0 = t
  other : ∀ q, q ≠ 0 → σ₁.txs.lookup q = none
  tasks : σ₁.tasks = σ.tasks
  events : σ₁.events = σ.events
  clock : σ₁.clock = σ.clock
  published : σ₁.published = σ.published

/-- What holds when a batch ends: no transaction is open, the events `es` were stored for the tasks
that were failed, and nothing was published. -/
structure Batched (now : Timestamp) (σ : Backend) (calls : List Await) (es : List TaskEventSelect)
    (s : Backend × List Await) : Prop where
  idle : s.1.Idle
  swept : Swept now σ s.1 es
  published : s.1.published = σ.published
  announced : publications s.2 = publications calls

theorem Within.start (h : σ.Idle) : Within σ {} σ := ⟨h.own, h.other, rfl, rfl, rfl, rfl⟩

theorem Within.setTx {t t' : Tx} {σ₁ : Backend} (h : Within σ t σ₁) :
    Within σ t' (σ₁.setTx 0 t') :=
  ⟨Backend.tx_setTx_self .., Backend.other_setTx h.other _, h.tasks, h.events, h.clock, h.published⟩

/-- A batch that throws has changed nothing. -/
theorem Within.batched {t : Tx} {σ₁ : Backend} (h : Within σ t σ₁) {calls' : List Await}
    (hcalls : publications calls' = publications calls) :
    Batched W.now σ calls [] (σ₁.rollback 0, calls') :=
  ⟨.rollback h.other, .refl _ h.tasks h.events h.clock, h.published, hcalls⟩

/-- The numbers that a transaction without events reads. -/
theorem Within.maxSeq {t : Tx} {σ₁ : Backend} (h : Within σ t σ₁) (hev : t.events = [])
    (hdel : t.deletedEvents = []) (i : String) : σ₁.maxSeq 0 i = σ.lastSeq i := by
  have hsees : σ₁.committedEvents (σ₁.tx 0) = σ.events := by
    simp [Backend.committedEvents, h.tx, hev, Tx.deletesEvent, hdel, h.events]
  rw [Backend.maxSeq, hsees]
  rfl

/-- Events that are numbered behind everything that the transaction sees are inserted. -/
theorem Within.txInsertEvents {t : Tx} {σ₁ : Backend} (h : Within σ t σ₁)
    {es : List TaskEventSelect} (hes : ∀ e ∈ es, e.seq = σ₁.maxSeq 0 e.taskId + 1) :
    ∃ σ₂, σ₁.txInsertEvents 0 es = some (.ok (es, σ₂)) ∧
      Within σ { t with events := t.events ++ es } σ₂ := by
  refine ⟨_, ?_, h.setTx⟩
  unfold Backend.txInsertEvents
  dsimp only
  rw [if_neg, if_neg, h.tx]
  · simp only [List.any_eq_true, Bool.and_eq_true, beq_iff_eq, not_exists, not_and]
    intro e he e' he' hid hseq
    have hle := Backend.le_maxSeq he' hid
    have := hes e he
    omega
  · simp only [Backend.otherTx_of_other h.other, List.any_eq_true, Bool.false_eq_true, and_false,
      exists_false, not_false_eq_true]

/-- The events of a batch. -/
theorem expiryEvents_facts {t : Tx} {σ₁ : Backend} (h : Within σ t σ₁) (hev : t.events = [])
    (hdel : t.deletedEvents = []) (ids : List String) (uuid : ℕ → String) :
    let es := ids.zipIdx.map fun x => expiryEvent σ₁ 0 (uuid x.2) x.1
    es.map (·.taskId) = ids ∧ ∀ e ∈ es, e.seq = σ.lastSeq e.taskId + 1 ∧ e.eventType = .failed ∧
      e.payload = .obj [("error", timeoutError.json)] ∧ e.createdAt = σ.clock := by
  refine ⟨?_, fun e he => ?_⟩
  · rw [List.map_map]
    exact List.zipIdx_map_fst ..
  · obtain ⟨x, -, rfl⟩ := List.mem_map.mp he
    refine ⟨?_, rfl, rfl, h.clock⟩
    change σ₁.maxSeq 0 x.1 + 1 = σ.lastSeq x.1 + 1
    rw [h.maxSeq hev hdel]

/-- The commit of a batch. -/
theorem Within.commit {t : Tx} {σ₁ : Backend} {selected : List TaskSelect} (h : Within σ t σ₁)
    (hids : (σ.tasks.map (·.id)).Nodup) (hsub : selected.Sublist (σ.overdue W.now))
    (htasks : t.tasks = selected.map (TaskWrite.expire W.now).apply)
    (hdel : t.deletedTasks = []) (hcleared : t.deletedEvents = [])
    (hes : t.events.map (·.taskId) = selected.map (·.id))
    (hentries : ∀ e ∈ t.events, e.seq = σ.lastSeq e.taskId + 1 ∧ e.eventType = .failed ∧
      e.payload = .obj [("error", timeoutError.json)] ∧ e.createdAt = σ.clock)
    {calls' : List Await} (hcalls : publications calls' = publications calls) :
    Batched W.now σ calls t.events (σ₁.commit 0, calls') := by
  have hsub' : selected.Sublist σ.tasks := hsub.trans List.filter_sublist
  refine ⟨.commit h.other, ⟨?_, fun e he => ?_, ?_, ?_, hentries, h.clock⟩, h.published, hcalls⟩
  · rw [hes]
    exact hids.sublist (hsub'.map _)
  · have hid : e.taskId ∈ selected.map (·.id) := hes ▸ List.mem_map_of_mem he
    obtain ⟨r, hr, heq⟩ := List.mem_map.mp hid
    exact ⟨r, hsub.subset hr, heq⟩
  · change σ₁.committedTasks (σ₁.tx 0) = _
    rw [h.tx, hes, committedTasks_eq (W := W) (by rwa [h.tasks]) (by rwa [h.tasks]) htasks hdel,
      h.tasks]
  · change σ₁.committedEvents (σ₁.tx 0) = _
    simp [Backend.committedEvents, h.tx, Tx.deletesEvent, hcleared, h.events]

/-- **One batch.** It takes effect as a whole, on as many overdue tasks as its limit lets through,
or it throws and has changed nothing. -/
theorem expireBatch_ends (calls : List Await) (hσ : σ.Idle) (hids : (σ.tasks.map (·.id)).Nodup) :
    Prog.Ends W.answer
      (MaintenanceRepository.expireTimedOutTasksBatch TimeoutSweeperProcessor.sweepBatchSize)
      (fun r s => Batched W.now σ calls r.2 s ∧ r.1 = r.2.length ∧
        r.2.length = min sweepBatchSize (σ.overdue W.now).length)
      (fun _ s => Batched W.now σ calls [] s) (σ, calls) := by
  have hstart := Within.start hσ
  refine .bind (ends_call (fun h _ => by cases h) (.inl ⟨W.now, σ, rfl, ?_⟩))
  obtain ⟨selected, hsub, hlen, hrefused | hupdated⟩ := txExpireTasks_cases (W := W) hσ hids
  · -- Postgres refuses the batch
    exact .bind (ends_call (fun _ _ => hstart.batched (by simp [publications, Await.publication?]))
      (.inr ⟨_, hrefused, hstart.batched (by simp [publications, Await.publication?])⟩))
  refine .bind (ends_call (fun _ _ => hstart.batched (by simp [publications, Await.publication?]))
    (.inl ⟨_, _, hupdated, ?_⟩))
  have h₁ : Within σ _ (σ.setTx 0 { tasks := selected.map (TaskWrite.expire W.now).apply }) :=
    hstart.setTx
  split
  · next hnil =>
    have hselected : selected = [] := List.map_eq_nil_iff.mp hnil
    refine .bind (ends_call (fun _ _ => h₁.batched (by simp [publications, Await.publication?]))
      (.inl ⟨(), _, rfl, ?_⟩))
    refine .pure ⟨h₁.commit (W := W) hids hsub rfl rfl rfl (by rw [hnil]; rfl) (by simp)
      (by simp [publications, Await.publication?]), rfl, ?_⟩
    rw [← hlen, hselected]
    rfl
  · next hne =>
    obtain ⟨hes, hentries⟩ := expiryEvents_facts h₁ rfl rfl (selected.map (·.id))
      (W.uuid (calls ++ [Await.now] ++ [Await.txExpireTasks W.now sweepBatchSize]).length)
    refine .bind (ends_call (fun _ _ => h₁.batched (by simp [publications, Await.publication?]))
      (.inl ⟨_, _, rfl, ?_⟩))
    obtain ⟨σ₂, hinsert, h₂⟩ := h₁.txInsertEvents fun e he => by
      rw [h₁.maxSeq rfl rfl]
      exact (hentries e he).1
    refine .bind (ends_call (fun _ _ => h₁.batched (by simp [publications, Await.publication?]))
      (.inl ⟨_, _, hinsert, ?_⟩))
    refine .bind (ends_call (fun _ _ => h₂.batched (by simp [publications, Await.publication?]))
      (.inl ⟨(), _, rfl, ?_⟩))
    refine .pure ⟨h₂.commit (W := W) hids hsub rfl rfl rfl hes hentries ?_, ?_, ?_⟩
    · simp [publications, Await.publication?]
    · simp
    · rw [← hlen]
      simp

/-! ### The loop -/

/-- The messages that announce some events. -/
def messages (es : List TaskEventSelect) : List (String × TaskEventSelect) :=
  es.map fun e => (taskChannel e.taskId, e)

/-- Publishing the events of a batch: a message that Redis does not take is given up. -/
theorem publishAll_ends (calls : List Await) (hσ : σ.Idle) (es : List TaskEventSelect) :
    Prog.Ends W.answer (publishAll es)
      (fun _ s => s.1.Idle ∧ s.1.tasks = σ.tasks ∧ s.1.events = σ.events ∧ s.1.clock = σ.clock ∧
        publications s.2 = publications calls ++ messages es ∧
        ((∀ n, W.fails n = false) → s.1.published = σ.published ++ messages es))
      (fun _ _ => False) (σ, calls) := by
  induction es generalizing σ calls with
  | nil => exact .pure ⟨hσ, rfl, rfl, rfl, by simp [messages], fun _ => by simp [messages]⟩
  | cons e es ih =>
    have hcall : publications (calls ++ [.publish (taskChannel e.taskId) e]) =
        publications calls ++ messages [e] := publications_append ..
    refine .bind (.tryCatch (ends_call (fun _ hfails => .pure ?_) (.inl ⟨(), _, rfl, ?_⟩)))
    · refine (ih _ (.rollback hσ.other)).mono ?_ fun _ _ h => h
      rintro - s ⟨hidle, ht, he, hc, hp, -⟩
      refine ⟨hidle, ht, he, hc, ?_, fun hnone => by simp [hnone] at hfails⟩
      rw [hp, hcall, List.append_assoc]
      rfl
    · have hidle' : ({ σ with published := σ.published ++ messages [e] } : Backend).Idle :=
        ⟨hσ.own, hσ.other⟩
      refine (ih _ hidle').mono ?_ fun _ _ h => h
      rintro - s ⟨hidle, ht, he, hc, hp, hpub⟩
      refine ⟨hidle, ht, he, hc, ?_, fun hnone => ?_⟩
      · rw [hp, hcall, List.append_assoc]
        rfl
      · rw [hpub hnone, List.append_assoc]
        rfl

/-- What holds after some batches, whose events are `batches`, that started in `σ`. -/
structure Sweeping (W : SweepWorld) (σ : Backend) (calls : List Await)
    (batches : List (List TaskEventSelect)) (s : Backend × List Await) : Prop where
  idle : s.1.Idle
  sizes : ∀ b ∈ batches, b ≠ [] ∧ b.length ≤ sweepBatchSize
  swept : Swept W.now σ s.1 batches.flatten
  announced : publications s.2 = publications calls ++ messages batches.flatten
  published : (∀ n, W.fails n = false) → s.1.published = σ.published ++ messages batches.flatten

/-- The last batch, which finds nothing or throws. -/
theorem Batched.sweeping {s : Backend × List Await} (h : Batched W.now σ calls [] s) :
    Sweeping W σ calls [] s where
  idle := h.idle
  sizes := by simp
  swept := h.swept
  announced := by simp [h.announced, messages]
  published := fun _ => by simp [h.published, messages]

theorem process_of_error {s s' : Backend × List Await} {e : JsError}
    (h : (MaintenanceRepository.expireTimedOutTasksBatch sweepBatchSize).run.runAlone W.answer s =
      some (.error e, s')) :
    (process (n + 1)).run.runAlone W.answer s = some (.error e, s') := by
  rw [process, Prog.runAlone_bindExcept, h]
  rfl

theorem process_of_none {s s' : Backend × List Await} {batch : ℕ × List TaskEventSelect}
    (h : (MaintenanceRepository.expireTimedOutTasksBatch sweepBatchSize).run.runAlone W.answer s =
      some (.ok batch, s')) (hnone : batch.1 = 0) :
    (process (n + 1)).run.runAlone W.answer s = some (.ok (), s') := by
  rw [process, Prog.runAlone_bindExcept, h, Option.bind_some]
  dsimp only
  rw [if_pos hnone]
  rfl

theorem process_of_batch {s s₁ s₂ : Backend × List Await} {batch : ℕ × List TaskEventSelect}
    (h : (MaintenanceRepository.expireTimedOutTasksBatch sweepBatchSize).run.runAlone W.answer s =
      some (.ok batch, s₁)) (hsome : batch.1 ≠ 0)
    (hpublish : (publishAll batch.2).run.runAlone W.answer s₁ = some (.ok (), s₂)) :
    (process (n + 1)).run.runAlone W.answer s = (process n).run.runAlone W.answer s₂ := by
  rw [process, Prog.runAlone_bindExcept, h, Option.bind_some]
  dsimp only
  rw [if_neg hsome, Prog.runAlone_bindExcept, hpublish]
  rfl

/-- A batch before some others. -/
theorem Sweeping.cons {es : List TaskEventSelect} {s₁ s₂ s : Backend × List Await}
    {batches : List (List TaskEventSelect)} (hbatch : Batched W.now σ calls es s₁) (hne : es ≠ [])
    (hsize : es.length ≤ sweepBatchSize) (ht : s₂.1.tasks = s₁.1.tasks)
    (he : s₂.1.events = s₁.1.events) (hc : s₂.1.clock = s₁.1.clock)
    (hp : publications s₂.2 = publications s₁.2 ++ messages es)
    (hpub : (∀ n, W.fails n = false) → s₂.1.published = s₁.1.published ++ messages es)
    (h : Sweeping W s₂.1 s₂.2 batches s) : Sweeping W σ calls (es :: batches) s where
  idle := h.idle
  sizes := by simpa using ⟨⟨hne, hsize⟩, h.sizes⟩
  swept := by
    have hswept : Swept W.now σ s₂.1 es :=
      { hbatch.swept with
        tasks := ht.trans hbatch.swept.tasks
        events := he.trans hbatch.swept.events
        clock := hc.trans hbatch.swept.clock }
    exact hswept.trans h.swept
  announced := by
    rw [h.announced, hp, hbatch.announced, List.append_assoc, messages, messages,
      List.flatten_cons, messages, List.map_append]
  published hnone := by
    rw [h.published hnone, hpub hnone, hbatch.published, List.append_assoc, messages, messages,
      List.flatten_cons, messages, List.map_append]

/-- **The sweep.** For every bound above the number of overdue rows the loop leaves by itself. -/
theorem process_ends (k : ℕ) (calls : List Await) (hσ : σ.Idle) (hids : (σ.tasks.map (·.id)).Nodup)
    (hk : (σ.overdue W.now).length ≤ k) :
    ∃ (r : Except JsError Unit) (s : Backend × List Await) (batches : List (List TaskEventSelect)),
      (∀ n, k < n → (process n).run.runAlone W.answer (σ, calls) = some (r, s)) ∧
        Sweeping W σ calls batches s ∧ (r = .ok () → s.1.overdue W.now = []) ∧
        ∀ e, r = .error e → ∃ s₁,
          (process batches.length).run.runAlone W.answer (σ, calls) = some (.ok (), s₁) ∧
          (MaintenanceRepository.expireTimedOutTasksBatch sweepBatchSize).run.runAlone W.answer s₁ =
            some (.error e, s) ∧ s.1.tasks = s₁.1.tasks ∧ s.1.events = s₁.1.events := by
  induction k using Nat.strong_induction_on generalizing σ calls with
  | _ k ih =>
    have hbound : ∀ n, k < n → ∃ m, n = m + 1 ∧ k ≤ m := fun n hn =>
      ⟨n - 1, by omega, by omega⟩
    obtain ⟨batch, s₁, hrun, hbatch, hcount, hlen⟩ | ⟨e, s₁, hrun, hbatch⟩ :=
      expireBatch_ends (W := W) calls hσ hids
    · by_cases hnone : batch.1 = 0
      · -- the last batch has found nothing
        have hes : batch.2 = [] := List.length_eq_zero_iff.mp (hcount ▸ hnone)
        rw [hes] at hbatch hlen
        refine ⟨.ok (), s₁, [], fun n hn => ?_, hbatch.sweeping, fun _ => ?_,
          fun e he => by cases he⟩
        · obtain ⟨m, rfl, -⟩ := hbound n hn
          exact process_of_none hrun hnone
        · have hzero : (σ.overdue W.now).length = 0 := by
            simp only [sweepBatchSize, List.length_nil] at hlen
            omega
          rw [hbatch.swept.overdue_eq, List.length_eq_zero_iff.mp hzero, List.filter_nil]
      · have hne : batch.2 ≠ [] := fun hes => hnone (by rw [hcount, hes]; rfl)
        obtain ⟨⟨⟩, s₂, hpublish, hidle, ht, he, hc, hp, hpub⟩ | ⟨_, _, -, hfalse⟩ :=
          publishAll_ends (W := W) s₁.2 hbatch.idle batch.2
        · have hfewer := hbatch.swept.length_overdue_lt hne
          have hover : s₂.1.overdue W.now = s₁.1.overdue W.now := by
            rw [Backend.overdue, Backend.overdue, ht]
          have hids₂ : (s₂.1.tasks.map (·.id)).Nodup := by rwa [ht, hbatch.swept.ids_eq]
          obtain ⟨r, s, batches, hprocess, hsweeping, hok, herror⟩ :=
            ih (k - 1) (by omega) s₂.2 hidle hids₂ (by rw [hover]; omega)
          refine ⟨r, s, batch.2 :: batches, fun n hn => ?_,
            .cons hbatch hne (hlen ▸ min_le_left ..) ht he hc hp hpub hsweeping, hok,
            fun e hr => ?_⟩
          · obtain ⟨m, rfl, hm⟩ := hbound n hn
            rw [process_of_batch hrun hnone hpublish]
            exact hprocess m (by omega)
          · obtain ⟨s₃, hearlier, hfailed⟩ := herror e hr
            exact ⟨s₃, (process_of_batch hrun hnone hpublish).trans hearlier, hfailed⟩
        · exact hfalse.elim
    · -- the first batch has thrown
      refine ⟨.error e, s₁, [], fun n hn => ?_, hbatch.sweeping, fun h => (by cases h),
        fun e' he => ?_⟩
      · obtain ⟨m, rfl, -⟩ := hbound n hn
        exact process_of_error hrun
      · cases he
        refine ⟨(σ, calls), rfl, hrun, ?_, ?_⟩
        · simpa [Table.update] using hbatch.swept.tasks
        · simpa using hbatch.swept.events

end SweepWorld

/-- A limit lets the first rows through. -/
theorem isLimited_take (limit : ℕ) {T : List TaskSelect} (hT : (T.map (·.id)).Nodup) :
    Backend.isLimited limit ((T.map (·.id)).take limit) T = true := by
  simp only [Backend.isLimited, Bool.and_eq_true, decide_eq_true_eq, List.all_eq_true, beq_iff_eq,
    List.length_take, List.length_map, List.any_eq_true]
  refine ⟨⟨hT.sublist (List.take_sublist ..), fun i hi => ?_⟩, trivial⟩
  simpa using (List.take_sublist ..).subset hi

/-- A world in which no call fails. -/
def quietWorld : SweepWorld where
  now := 2000
  choose T := (T.map (·.id)).take TimeoutSweeperProcessor.sweepBatchSize
  uuid n k := toString n ++ "-" ++ toString k
  fails _ := false
  choose_isLimited _ := isLimited_take _

/-- Postgres with a task that was dispatched at instant 5 and had one second. -/
def startedBackend : Backend where
  tasks := [(TaskWrite.dispatchClaim 5 1).apply overdueRow]

end LongRequestProxy
