import LongRequestProxy.Delivery.LastEvent

/-!
# Events of deleted tasks

Two statements delete rows of `tasks`: the transaction of the retention job, which deletes the
events of the same tasks first, and the rollback of a creation. No foreign key relates the events
to the rows, and no insert looks at the row. So an event becomes an orphan when it was stored
before the deletion and is not deleted with the row, or when a callback that has got past the row
inserts it afterwards.

## Main definitions

* `deletion`, `leavesEvents`, `orphans`: the deletions that leave an event behind.
* `Summary.MayInsert`: the tasks for which a function can still insert events.

## Main results

* `lost_row_of_move`: how a row is lost.
* `events_have_rows`: without such deletions every event refers to a row.
* `rollback_leaves_event`: a creation whose rollback leaves an event behind.
-/

namespace LongRequestProxy

open Async Discipline Service Function

variable {http : HttpClient} {clock : Timestamp} {c c' : (proxy http).Config} {i : String}
  {w : Summary} {req : Request} {x : Await} {m : (proxy http).Move}

/-! ### Deletions -/

/-- The tasks whose rows the move deletes, with the program that makes it. -/
def deletion (c : (proxy http).Config) (m : (proxy http).Move) : Option (ℕ × List String) :=
  match c.callOf m with
  | some (p, o, .deleteTask id) => if o.fault = .failed then none else some (p, [id])
  | some (p, o, .txCommit) =>
    if o.fault = .failed then none else some (p, (c.store.tx p).deletedTasks)
  | _ => none

/-- The call is a step towards the insertion of an event of the task. -/
def Await.insertsFor (i : String) : Await → Bool
  | txAdvisoryLock id | txNextSeq id => id == i
  | txInsertEvent _ input => input.taskId == i
  | txNumberExpiryEvents ids => ids.contains i
  | txInsertExpiryEvents events => events.any fun e => e.taskId == i
  | _ => false

/-- Program `q` is about to insert an event of the task, or to commit it. -/
def isInserting (c : (proxy http).Config) (q : ℕ) (i : String) : Bool :=
  match c.nextCall q with
  | some .txCommit => (c.store.tx q).events.any fun e => e.taskId == i
  | some x => x.insertsFor i
  | none => false

/-- An event of the task is stored that the transaction of program `p` does not delete, or some
program can still insert one. -/
def leavesEvents (c : (proxy http).Config) (p : ℕ) (i : String) : Bool :=
  (c.store.log i).any (fun e => !(c.store.tx p).deletesEvent e) ||
    (List.range c.procs.length).any fun q => isReporting c q i || isInserting c q i

/-- The move deletes the row of a task and leaves events of it. -/
def orphans (c : (proxy http).Config) (m : (proxy http).Move) : Bool :=
  (deletion c m).any fun d => d.2.any fun i =>
    (c.store.tasks.any fun t => t.id == i) && leavesEvents c d.1 i

theorem leavesEvents_eq_false {p : ℕ} (h : orphans c m = false) {ids : List String}
    (hdel : deletion c m = some (p, ids)) (hi : i ∈ ids) (hrow : c.store.HasRow i) :
    leavesEvents c p i = false := by
  by_contra hleaves
  obtain ⟨t, ht, hid⟩ := hrow
  have horphans : orphans c m = true := by
    simp only [orphans, hdel, Option.any_some, List.any_eq_true, Bool.and_eq_true, beq_iff_eq]
    exact ⟨i, hi, ⟨t, ht, hid⟩, by simpa using hleaves⟩
  rw [h] at horphans
  cases horphans

/-- A deletion that leaves no events: what is stored is deleted, and nobody inserts. -/
theorem of_leavesEvents_eq_false {p : ℕ} (h : leavesEvents c p i = false) :
    (∀ e ∈ c.store.log i, (c.store.tx p).deletesEvent e = true) ∧
      ∀ q, c.InFlight q → isReporting c q i = false ∧ isInserting c q i = false := by
  simp only [leavesEvents, Bool.or_eq_false_iff, List.any_eq_false, List.mem_range,
    Bool.not_eq_true, Bool.not_eq_false'] at h
  refine ⟨h.1, fun q ⟨_, _, _, hq⟩ => ?_⟩
  exact h.2 q (List.getElem?_eq_some_iff.mp hq).1

/-- **How a row is lost.** -/
theorem lost_row_of_move (hm : c.move m = some c') (hrow : c.store.HasRow i)
    (hlost : ¬ c'.store.HasRow i) :
    ∃ p o x ids, c.callOf m = some (p, o, x) ∧ deletion c m = some (p, ids) ∧ i ∈ ids ∧
      (x = .deleteTask i ∨ x = .txCommit ∧ c'.store.events = (c.store.commit p).events) := by
  obtain ⟨t, ht, hid⟩ := hrow
  obtain ⟨time, hσ⟩ | ⟨p, hσ⟩ | ⟨p, o, req, x, k, v, σ, rfl, hp, hf, hx, hσ⟩ :=
    store_cases_of_move hm
  · exact absurd ⟨t, by rw [hσ]; exact ht, hid⟩ hlost
  · exact absurd ⟨t, by rw [hσ]; exact ht, hid⟩ hlost
  · have hlost : ¬ σ.HasRow i := by
      obtain hσ | hσ := hσ <;> rwa [hσ] at hlost
    have hcall : c.callOf (.call p o) = some (p, o, x) :=
      Config.callOf_eq_some.mpr ⟨rfl, req, k, hp⟩
    obtain ⟨hts, -⟩ | ⟨dto, now, token, -, -, hts, -⟩ | ⟨id, rfl, hts, -⟩ |
      ⟨id, w, -, hts, -⟩ | ⟨rfl, rfl⟩ := exec_tasks_cases hx
    · exact absurd ⟨t, hts ▸ ht, hid⟩ hlost
    · exact absurd ⟨t, by rw [hts]; exact List.mem_append_left _ ht, hid⟩ hlost
    · have heq : id = i := by
        by_contra hne
        refine hlost ⟨t, ?_, hid⟩
        rw [hts]
        exact List.mem_filter.mpr ⟨ht, by simpa [hid] using Ne.symm hne⟩
      subst heq
      exact ⟨p, o, _, [id], hcall, by simp [deletion, hcall, hf rfl], List.mem_singleton_self _,
        .inl rfl⟩
    · have hids : σ.tasks.map (·.id) = c.store.tasks.map (·.id) := by
        rw [hts]
        exact Table.map_key_update fun r => rfl
      have hmem : i ∈ σ.tasks.map (·.id) := hids ▸ hid ▸ List.mem_map_of_mem ht
      obtain ⟨r, hr, hrid⟩ := List.mem_map.mp hmem
      exact absurd ⟨r, hr, hrid⟩ hlost
    · have hdel : i ∈ (c.store.tx p).deletedTasks := by
        by_contra hnot
        exact hlost ⟨_, Backend.mem_commit_tasks.mpr ⟨t, ht, by rwa [hid], rfl⟩,
          (Tx.newest_id _ t).trans hid⟩
      refine ⟨p, o, _, _, hcall, by simp [deletion, hcall, hf rfl], hdel, .inr ⟨rfl, ?_⟩⟩
      obtain hσ | hσ := hσ <;> rw [hσ]
      rfl

/-! ### Functions that can still insert -/

namespace Summary

/-- The function can still insert an event of the task without asking for the task again. -/
def MayInsert (req : Request) (w : Summary) (i : String) : Prop :=
  w.WillReport req i ∨ (∃ type, (i, type) ∈ w.due) ∨ ∃ e ∈ w.tx.events, e.taskId = i

theorem not_mayInsert_start : ¬ Summary.MayInsert req {} i := by
  rintro (⟨-, ⟨t, ht, -⟩, -⟩ | ⟨type, hdue⟩ | ⟨e, he, -⟩)
  · cases ht
  · cases hdue
  · cases he

/-- A function that has an event to insert is doing so. -/
theorem insertsFor_of_mem_due (ha : w.Awaits req x) {type : TaskEventType}
    (hdue : (i, type) ∈ w.due) : x.insertsFor i = true := by
  have hnil : w.due = [] → x.insertsFor i = true := by
    intro hnil
    rw [hnil] at hdue
    cases hdue
  have hwriting : ∀ {id type' tx}, w.Writing id type' tx → id = i := by
    rintro id type' tx ⟨hdue', -⟩
    rw [hdue'] at hdue
    cases List.mem_singleton.mp hdue
    rfl
  cases x with
  | txAdvisoryLock id =>
    obtain ⟨_, hw⟩ := ha
    exact beq_iff_eq.mpr (hwriting hw)
  | txNextSeq id =>
    obtain ⟨_, hw⟩ := ha
    exact beq_iff_eq.mpr (hwriting hw)
  | txInsertEvent seq input => exact beq_iff_eq.mpr (hwriting ha)
  | txNumberExpiryEvents ids =>
    obtain ⟨-, -, hdue'⟩ := ha
    rw [hdue'] at hdue
    obtain ⟨id, hid, heq⟩ := List.mem_map.mp hdue
    cases heq
    exact List.contains_iff_mem.mpr hid
  | txInsertExpiryEvents events =>
    obtain ⟨-, hdue', -⟩ := ha
    rw [hdue'] at hdue
    obtain ⟨e, he, heq⟩ := List.mem_map.mp hdue
    exact List.any_eq_true.mpr ⟨e, he, beq_iff_eq.mpr (congrArg Prod.fst heq)⟩
  | txDeleteTasks ids => exact hnil ha.2.2
  | txCommit => exact hnil ha.1
  | now | randomUUID | redisOccupy | redisSetKeepTtl | redisDel | selectOldTasks =>
    exact hnil (show w.Settled from ha).due
  | _ => exact hnil ha.1.due

/-- A function that has inserted events commits them. -/
theorem eq_txCommit_of_mem_events (ha : w.Awaits req x) {e : TaskEventSelect}
    (he : e ∈ w.tx.events) : x = .txCommit := by
  have htx : ∀ {tx : OpenTx}, w.tx = tx → tx.events = [] → x = .txCommit := by
    rintro tx rfl hnil
    rw [hnil] at he
    cases he
  cases x with
  | txAdvisoryLock id =>
    obtain ⟨_, -, -, hw⟩ := ha
    exact htx hw rfl
  | txNextSeq id =>
    obtain ⟨_, -, -, hw⟩ := ha
    exact htx hw rfl
  | txInsertEvent seq input => exact htx ha.2.2 rfl
  | txNumberExpiryEvents ids => exact htx ha.2.1 rfl
  | txInsertExpiryEvents events => exact htx ha.1 rfl
  | txDeleteTasks ids => exact htx ha.2.1 rfl
  | txCommit => rfl
  | now | randomUUID | redisOccupy | redisSetKeepTtl | redisDel | selectOldTasks =>
    exact htx (show w.Settled from ha).tx rfl
  | _ => exact htx ha.1.tx rfl

/-- A function gets to insert an event of a task when it has seen the row. -/
theorem mayInsert_of_exec {p : ℕ} {o : Oracle} {σ σ' : Backend} {v : x.Val} (ha : w.Awaits req x)
    (hv : x.PossibleValue v) (hx : exec p o σ x = some (.ok (v, σ')))
    (h : (w.afterValue x v).MayInsert req i) :
    (w.MayInsert req i ∧ ∀ id, x ≠ .findTask id) ∨
      (σ.HasRow i ∧ x ≠ .txCommit ∧ ∀ id, x ≠ .deleteTask id) := by
  have hwill : (∀ id, x ≠ .findTask id) → (w.afterValue x v).WillReport req i →
      w.MayInsert req i ∧ ∀ id, x ≠ .findTask id := fun hfind h =>
    ⟨.inl (willReport_of_next (r := .ok v) ha hfind h), hfind⟩
  cases x with
  | findTask id =>
    obtain ⟨-, ⟨t, ht, hid, -⟩, -⟩ | ⟨type, hdue⟩ | ⟨e, he, -⟩ := h
    · cases hx
      exact .inr ⟨⟨t, List.mem_of_find?_eq_some ht, hid⟩, by simp, by simp⟩
    · rw [show (w.afterValue (.findTask id) v).due = w.due from rfl, ha.1.due] at hdue
      cases hdue
    · rw [show (w.afterValue (.findTask id) v).tx = w.tx from rfl, ha.1.tx] at he
      cases he
  | updateTask id write =>
    obtain hrep | ⟨type, hdue⟩ | hev := h
    · exact .inl (hwill (by simp) hrep)
    · have hold : (i, type) ∈ w.due → w.MayInsert req i ∧ ∀ id', Await.updateTask id write ≠
          .findTask id' := fun hdue => ⟨.inr (.inl ⟨type, hdue⟩), by simp⟩
      have hrow : ∀ t, v = some t → σ.HasRow id := by
        rintro t rfl
        obtain ⟨r, hr, hid, -⟩ := Backend.updateTask_some hx
        exact ⟨r, hr, hid⟩
      cases write with
      | progress n =>
        cases List.mem_singleton.mp hdue
        exact .inl ⟨.inl (willReport_of_awaitsWrite ha.2), by simp⟩
      | submitCompleted now result =>
        cases v with
        | none => cases hdue
        | some t =>
          cases List.mem_singleton.mp hdue
          exact .inr ⟨hrow t rfl, by simp, by simp⟩
      | submitFailed now error =>
        cases v with
        | none => cases hdue
        | some t =>
          cases List.mem_singleton.mp hdue
          exact .inr ⟨hrow t rfl, by simp, by simp⟩
      | _ => exact .inl (hold hdue)
    · have htx : (w.afterValue (.updateTask id write) v).tx = w.tx := by cases write <;> rfl
      rw [htx] at hev
      exact .inl ⟨.inr (.inr hev), by simp⟩
  | txCancelTask id now =>
    obtain ⟨rfl, -⟩ | ⟨r, hr, rfl, -, -, -, rfl, -⟩ := Backend.txCancelTask_ok hx
    · exact .inl ⟨h, by simp⟩
    · obtain hrep | ⟨type, hdue⟩ | hev := h
      · exact .inl (hwill (by simp) hrep)
      · cases List.mem_singleton.mp hdue
        exact .inr ⟨⟨r, hr, rfl⟩, by simp, by simp⟩
      · exact .inl ⟨.inr (.inr hev), by simp⟩
  | txExpireTasks now limit =>
    obtain ⟨sel, hsub, -, rfl, -⟩ := Backend.txExpireTasks_ok hx
    obtain hrep | ⟨type, hdue⟩ | hev := h
    · exact .inl (hwill (by simp) hrep)
    · obtain ⟨id, hid, heq⟩ := List.mem_map.mp hdue
      obtain ⟨r, hr, rfl⟩ := List.mem_map.mp hid
      cases heq
      exact .inr ⟨⟨r, hsub.subset hr, rfl⟩, by simp, by simp⟩
    · exact .inl ⟨.inr (.inr hev), by simp⟩
  | txInsertEvent seq input =>
    obtain hrep | ⟨type, hdue⟩ | ⟨e, he, hid⟩ := h
    · exact .inl (hwill (by simp) hrep)
    · cases hdue
    · obtain rfl := List.mem_singleton.mp he
      obtain ⟨eid, createdAt, rfl⟩ := hv
      refine .inl ⟨.inr (.inl ⟨input.eventType, ?_⟩), by simp⟩
      rw [ha.1, ← hid]
      exact List.mem_singleton_self _
  | txInsertExpiryEvents events =>
    obtain hrep | ⟨type, hdue⟩ | ⟨e, he, hid⟩ := h
    · exact .inl (hwill (by simp) hrep)
    · cases hdue
    · have hv : v = events := hv
      refine .inl ⟨.inr (.inl ⟨e.eventType, ?_⟩), by simp⟩
      rw [ha.2.1, ← hid]
      exact List.mem_map_of_mem (hv ▸ he)
  | txCommit =>
    obtain hrep | hdue | ⟨e, he, -⟩ := h
    · exact .inl (hwill (by simp) hrep)
    · exact .inl ⟨.inr (.inl hdue), by simp⟩
    · cases he
  | _ =>
    obtain hrep | hrest := h
    · exact .inl (hwill (by simp) hrep)
    · exact .inl ⟨.inr hrest, by simp⟩

theorem mayInsert_of_afterError (e : JsError) (ha : w.Awaits req x)
    (h : (w.afterError x).MayInsert req i) : w.MayInsert req i ∧ ∀ id, x ≠ .findTask id := by
  obtain hrep | ⟨type, hdue⟩ | ⟨e, he, -⟩ := h
  · by_cases hfind : ∃ id, x = .findTask id
    · obtain ⟨id, rfl⟩ := hfind
      obtain ⟨-, ⟨t, ht, -⟩, -⟩ := hrep
      cases ht
    · have hfind : ∀ id, x ≠ .findTask id := fun id hid => hfind ⟨id, hid⟩
      exact ⟨.inl (willReport_of_next (r := .error e) ha hfind hrep), hfind⟩
  · cases hdue
  · cases he

end Summary

/-! ### The invariant -/

variable {s s' : (discipline http).Observed}

/-- Nobody can insert an event of a task whose deletion leaves no events. -/
theorem not_mayInsert_of_leavesEvents (hs : s.Obeys) (ht : Tracked s.config.store s.locals)
    {p q : ℕ} (h : leavesEvents s.config p i = false)
    {k : Reply x → Prog Await Reply (Except JsError Response)}
    (hq : s.config.procs[q]? = some (.running req (.call x k))) (hfind : ∀ id, x ≠ .findTask id) :
    ¬ (s.locals q).MayInsert req i := by
  have ha : (s.locals q).Awaits req x := hs.awaits hq
  have hnext : s.config.nextCall q = some x := Config.nextCall_eq_some.mpr ⟨req, k, hq⟩
  obtain ⟨hreport, hinsert⟩ := (of_leavesEvents_eq_false h).2 q ⟨req, x, k, hq⟩
  rintro (hwill | ⟨type, hdue⟩ | ⟨e, he, hid⟩)
  · obtain ⟨authorization, dto, rfl⟩ := hwill.1
    have hreport : x.isReport = false := by simpa [isReporting, hq] using hreport
    cases x with
    | findTask id => exact hfind id rfl
    | publish channel event => exact Summary.not_mayReport_of_publish ha (.inl hwill)
    | _ => cases hreport
  · have hinserts := Summary.insertsFor_of_mem_due ha hdue
    have hne : x ≠ .txCommit := by
      rintro rfl
      cases hinserts
    have : isInserting s.config q i = true := by
      simp only [isInserting, hnext]
      exact hinserts
    rw [hinsert] at this
    cases this
  · obtain rfl := Summary.eq_txCommit_of_mem_events ha he
    have : isInserting s.config q i = true := by
      simp only [isInserting, hnext, (ht.tracks q).events, List.any_eq_true]
      exact ⟨e, he, beq_iff_eq.mpr hid⟩
    rw [hinsert] at this
    cases this

/-- Every event refers to a row, and so does every event that a function can still insert. -/
structure Rooted (s : (discipline http).Observed) : Prop where
  events : ∀ e ∈ s.config.store.events, s.config.store.HasRow e.taskId
  writers : ∀ q req x k i, s.config.procs[q]? = some (.running req (.call x k)) →
    (∀ id, x ≠ .findTask id) → (s.locals q).MayInsert req i → s.config.store.HasRow i

/-- A deletion that leaves no events removes the events of the task. -/
theorem not_mem_events_of_lost_row {allow : (proxy http).Config → (proxy http).Move → Prop}
    (h : Runs allow (observed http clock) s) (hallow : orphans s.config m = false)
    (hm : s.move m = some s') (hrow : s.config.store.HasRow i)
    (hlost : ¬ s'.config.store.HasRow i) {e : TaskEventSelect} (he : e ∈ s.config.store.log i) :
    e ∉ s'.config.store.events := by
  have htracked := tracked_of_runs h
  obtain ⟨p, o, x, ids, hcall, hdel, hi, hx⟩ :=
    lost_row_of_move (Observed.config_move hm) hrow hlost
  have hleaves := leavesEvents_eq_false hallow hdel hi hrow
  have hdeletes := (of_leavesEvents_eq_false hleaves).1 e he
  have hdeletes : (e.taskId, e.seq) ∈ (s.config.store.tx p).deletedEvents :=
    List.contains_iff_mem.mp hdeletes
  obtain ⟨-, req, k, hp⟩ := Config.callOf_eq_some.mp hcall
  have ha : (s.locals p).Awaits req x := (obeys_of_runs h).awaits hp
  obtain rfl | ⟨rfl, hev⟩ := hx
  · rw [(htracked.tracks p).deletedEvents_eq_nil (by rw [ha.1.tx])] at hdeletes
    cases hdeletes
  · rw [hev, Backend.mem_commit_events]
    rintro (⟨-, hkept⟩ | hadded)
    · exact hkept hdeletes
    · refine not_mayInsert_of_leavesEvents (obeys_of_runs h) htracked hleaves hp (by simp)
        (.inr (.inr ⟨e, ?_, (Backend.mem_log.mp he).2⟩))
      rwa [(htracked.tracks p).events] at hadded

theorem rooted_of_move {allow : (proxy http).Config → (proxy http).Move → Prop}
    (h : Runs allow (observed http clock) s) (hallow : orphans s.config m = false)
    (hm : s.move m = some s') (hs : Rooted s) : Rooted s' := by
  have hobeys := obeys_of_runs h
  have htracked := tracked_of_runs h
  -- a function that can insert an event of a task keeps its row from being deleted
  have hkeeps : ∀ q req x k i, s.config.procs[q]? = some (.running req (.call x k)) →
      (∀ id, x ≠ .findTask id) → (s.locals q).MayInsert req i → s'.config.store.HasRow i := by
    intro q req x k i hq hfind hmay
    by_contra hlost
    have hrow := hs.writers q req x k i hq hfind hmay
    obtain ⟨p, o, y, ids, -, hdel, hi, -⟩ :=
      lost_row_of_move (Observed.config_move hm) hrow hlost
    exact not_mayInsert_of_leavesEvents hobeys htracked
      (leavesEvents_eq_false hallow hdel hi hrow) hq hfind hmay
  constructor
  · intro e he
    by_cases hold : e ∈ s.config.store.events
    · by_contra hlost
      exact not_mem_events_of_lost_row h hallow hm (hs.events e hold) hlost
        (Backend.mem_log.mpr ⟨hold, rfl⟩) he
    · obtain ⟨p, o, hcall, -, hmem⟩ := committed_of_new_event (Observed.config_move hm) he hold
      obtain ⟨-, req, k, hp⟩ := Config.callOf_eq_some.mp hcall
      rw [(htracked.tracks p).events] at hmem
      exact hkeeps p req _ k _ hp (by simp) (.inr (.inr ⟨e, hmem, rfl⟩))
  · intro q req x k i hq hfind hmay
    obtain ⟨hq₀, hw, -⟩ | ⟨o, x₀, k₀, r, rfl, hq₀, hx, -, hw⟩ | ⟨-, -, hw⟩ :=
      Observed.running_cases hobeys hm hq
    · rw [hw] at hmay
      exact hkeeps q req x k i hq₀ hfind hmay
    · rw [hw] at hmay
      have ha : (s.locals q).Awaits req x₀ := hobeys.awaits hq₀
      obtain ⟨hold, hfind₀⟩ | ⟨hrow, hne⟩ : ((s.locals q).MayInsert req i ∧
          ∀ id, x₀ ≠ .findTask id) ∨ (s.config.store.HasRow i ∧ x₀ ≠ .txCommit ∧
          ∀ id, x₀ ≠ .deleteTask id) := by
        cases r with
        | ok v =>
          obtain ⟨_, hr, -⟩ | ⟨v', hr, hx, -⟩ | ⟨_, _, hr, -⟩ := perform_cases hx
          · cases hr
          · cases hr
            exact Summary.mayInsert_of_exec ha (possibleValue_of_exec hx) hx hmay
          · cases hr
        | error e => exact .inl (Summary.mayInsert_of_afterError e ha hmay)
      · exact hkeeps q req x₀ k₀ i hq₀ hfind₀ hold
      · by_contra hlost
        obtain ⟨p, o', y, ids, hcall, -, -, hy⟩ :=
          lost_row_of_move (Observed.config_move hm) hrow hlost
        rw [Config.callOf_eq_some.mpr ⟨rfl, req, k₀, hq₀⟩] at hcall
        cases hcall
        obtain rfl | ⟨rfl, -⟩ := hy
        · exact hne.2 i rfl
        · exact hne.1 rfl
    · rw [hw] at hmay
      exact absurd hmay Summary.not_mayInsert_start

/-- **Every event has its row.** In every run in which no row is deleted while an event of its
task is stored and not deleted with it, or is still to be inserted by a callback: every row of
`task_events` refers to a row of `tasks`. -/
theorem events_have_rows (http : HttpClient) (clock : Timestamp) (c : (proxy http).Config)
    (h : Reaches (fun d m => orphans d m = false) (initial http clock) c) :
    ∀ e ∈ c.store.events, c.store.HasRow e.taskId := by
  obtain ⟨γ, hγ, -⟩ := exists_observed h
  refine (hγ.invariant (I := Rooted) (fun t m t' hrun ha hm ht => rooted_of_move hrun ha hm ht)
    ⟨?_, ?_⟩).events
  · intro e he
    cases he
  · intro q req x k i hq
    cases hq

/-! ### Example runs -/

/-- The retention job deletes the completed task with its two events. -/
def retainedRun : List (proxy httpRetryService).Move :=
  reportedRun ++ [.spawn (.retain 30 1), .call 4 { time := 3000000000 },
    .call 4 { picks := [sampleId] }, .call 4 {}, .call 4 {}, .call 4 {}]

/-- Before the retention job has run the two events have their row, and then they are gone. -/
theorem reportedRun_events_have_rows :
    ∃ c c', Reaches (fun d m => orphans d m = false) (initial httpRetryService 0) c ∧
      c.store.events.length = 2 ∧ (∀ e ∈ c.store.events, c.store.HasRow e.taskId) ∧
      Reaches (fun d m => orphans d m = false) (initial httpRetryService 0) c' ∧
      c'.store.tasks = [] ∧ ∀ e ∈ c'.store.events, c'.store.HasRow e.taskId := by
  obtain ⟨c, hc, hcheck⟩ : ∃ c,
      Reaches (fun d m => orphans d m = false) (initial httpRetryService 0) c ∧
      (c.store.events.length == 2) = true :=
    exists_reaches_of_replay (fun d m => !orphans d m) reportedRun _ (by simp) (by decide)
  obtain ⟨c', hc', hcheck'⟩ : ∃ c',
      Reaches (fun d m => orphans d m = false) (initial httpRetryService 0) c' ∧
      c'.store.tasks.isEmpty = true :=
    exists_reaches_of_replay (fun d m => !orphans d m) retainedRun _ (by simp) (by decide)
  exact ⟨c, c', hc, beq_iff_eq.mp hcheck, events_have_rows httpRetryService 0 c hc, hc',
    List.isEmpty_iff.mp hcheck', events_have_rows httpRetryService 0 c' hc'⟩

/-- The reply to the enqueueing of a task gets lost. Its job is delivered, the executor reports
progress, and then the creation is rolled back. -/
def rollbackRun : List (proxy httpRetryService).Move :=
  [.spawn (.create sampleDto "http://proxy"), .call 0 {}, .call 0 { uuid := fun _ => "secret" },
    .call 0 { uuid := fun _ => sampleId }, .call 0 { fault := .lostReply },
    .spawn (.dispatch sampleId 300), .call 1 { time := 1000 }, .call 1 {},
    .spawn (.progress sampleId (some "Bearer secret") sampleProgress), .call 2 {}, .call 2 {},
    .call 2 {}, .call 2 {}, .call 2 {}, .call 2 {}, .call 2 {}, .call 0 {}]

/-- The rollback of the creation leaves the progress event behind. -/
theorem rollback_leaves_event :
    ¬ ∀ (http : HttpClient) (clock : Timestamp) (c : (proxy http).Config),
      Reaches (fun _ _ => True) (initial http clock) c →
      ∀ e ∈ c.store.events, c.store.HasRow e.taskId := by
  intro h
  obtain ⟨c, hc, hcheck⟩ : ∃ c, Reaches (fun _ _ => True) (initial httpRetryService 0) c ∧
      (c.store.tasks.isEmpty && !c.store.events.isEmpty) = true :=
    exists_reaches_of_replay (fun _ _ => true) rollbackRun _ (fun _ _ _ => trivial) (by decide)
  simp only [Bool.and_eq_true, Bool.not_eq_true', List.isEmpty_iff, List.isEmpty_eq_false_iff]
    at hcheck
  obtain ⟨e, he⟩ := List.exists_mem_of_ne_nil _ hcheck.2
  obtain ⟨t, ht, -⟩ := h _ _ c hc e he
  rw [hcheck.1] at ht
  cases ht

end LongRequestProxy
