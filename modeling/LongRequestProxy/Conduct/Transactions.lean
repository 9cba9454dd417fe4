import LongRequestProxy.Conduct.Runs
import LongRequestProxy.Tasks.Rows

/-!
# The summaries are true

What the summary of a function says about its open transaction is what that transaction has done,
and every id that the summary mentions was issued.

## Main definitions

* `Summary.mentions`: the ids that a summary knows.
* `Tracks`, `Tracked`: the summary of one function, and of all functions, is true.

## Main results

* `tracked_of_runs`: in every state reached the summaries are true.
-/

namespace LongRequestProxy

open Async Discipline Service Function

variable {http : HttpClient} {clock : Timestamp} {σ σ' : Backend} {γ : ℕ → Summary} {p : ℕ}
  {w w' : Summary} {t : Tx}

/-- The ids of tasks that the summary knows. -/
def Summary.mentions (w : Summary) : List String :=
  w.found.toList.map (·.id) ++ w.due.map (·.1) ++ w.tx.rows ++ w.tx.numbers.map (·.1) ++
    w.tx.events.map (·.taskId) ++ w.owed.map (·.taskId)

theorem Summary.mem_mentions {i : String} :
    i ∈ w.mentions ↔ (∃ t, w.found = some t ∧ t.id = i) ∨ (∃ x ∈ w.due, x.1 = i) ∨
      i ∈ w.tx.rows ∨ (∃ x ∈ w.tx.numbers, x.1 = i) ∨ (∃ e ∈ w.tx.events, e.taskId = i) ∨
        ∃ e ∈ w.owed, e.taskId = i := by
  simp only [Summary.mentions, List.mem_append, List.mem_map, Option.mem_toList, or_assoc]

/-- The summary is true of the open transaction. -/
structure Tracks (σ : Backend) (t : Tx) (w : Summary) : Prop where
  rows : t.tasks.map (·.id) = w.tx.rows
  events : t.events = w.tx.events
  locks : t.locks = w.tx.locks
  deleted : t.deletedTasks = w.tx.deleted
  cleared : ∀ x ∈ t.deletedEvents, x.1 ∈ w.tx.cleared
  rows_nodup : w.tx.rows.Nodup
  issued : ∀ i ∈ w.mentions, i ∈ σ.issued

/-- The summaries of all functions are true. -/
structure Tracked (σ : Backend) (γ : ℕ → Summary) : Prop where
  rowIds : σ.RowIds
  events_issued : ∀ e ∈ σ.events, e.taskId ∈ σ.issued
  tracks : ∀ p, Tracks σ (σ.tx p) (γ p)

theorem Tracks.mono (h : Tracks σ t w) (hi : σ.issued ⊆ σ'.issued) : Tracks σ' t w :=
  { h with issued := fun i hmem => hi (h.issued i hmem) }

/-- A program without an open transaction. -/
theorem Tracks.of_settled (htx : w.tx = {}) (hissued : ∀ i ∈ w.mentions, i ∈ σ.issued) :
    Tracks σ {} w := by
  refine ⟨?_, ?_, ?_, ?_, by simp, ?_, hissued⟩ <;> simp [htx]

/-- Without an open transaction nothing is written. -/
theorem Tracks.tasks_eq_nil (h : Tracks σ t w) (htx : w.tx.rows = []) : t.tasks = [] :=
  List.map_eq_nil_iff.mp (h.rows.trans htx)

theorem Tracks.deletedEvents_eq_nil (h : Tracks σ t w) (htx : w.tx.cleared = []) :
    t.deletedEvents = [] := by
  refine List.eq_nil_iff_forall_not_mem.mpr fun x hx => ?_
  have := h.cleared x hx
  rw [htx] at this
  cases this

namespace Tracked

theorem initial : Tracked { clock := clock } fun _ => {} where
  rowIds := ⟨List.nodup_nil, by simp⟩
  events_issued := by simp
  tracks p := by
    have htx : Backend.tx { clock := clock } p = {} := by simp [Backend.tx]
    rw [htx]
    exact .of_settled rfl (by simp [Summary.mentions])

/-- The summary of one function changes, with its open transaction. -/
theorem of_self (h : Tracked σ γ) (hrows : σ'.RowIds) (hi : σ.issued ⊆ σ'.issued)
    (hev : ∀ e ∈ σ'.events, e.taskId ∈ σ'.issued) (hother : ∀ q, q ≠ p → σ'.tx q = σ.tx q)
    (hself : Tracks σ' (σ'.tx p) w) : Tracked σ' (update γ p w) := by
  refine ⟨hrows, hev, (forall_update_iff γ fun q w => Tracks σ' (σ'.tx q) w).mpr
    ⟨hself, fun q hq => ?_⟩⟩
  rw [hother q hq]
  exact (h.tracks q).mono hi

/-- An aborted transaction leaves nothing behind. -/
theorem rollback (h : Tracked σ γ) (hw : (γ p).Remains w) :
    Tracked (σ.rollback p) (update γ p w) := by
  refine h.of_self ⟨h.rowIds.nodup, h.rowIds.issued⟩ (List.Subset.refl _) h.events_issued
    (fun q hq => Backend.tx_rollback_of_ne hq) ?_
  rw [Backend.tx_rollback_self]
  refine .of_settled hw.tx fun i hi => (h.tracks p).issued i (Summary.mem_mentions.mpr ?_)
  rw [Summary.mem_mentions, hw.tx, hw.due] at hi
  obtain ⟨t, ht, hid⟩ | ⟨_, hx, -⟩ | hx | ⟨_, hx, -⟩ | ⟨_, hx, -⟩ | ⟨e, he, hid⟩ := hi
  · obtain hnone | hsame := hw.found
    · rw [hnone] at ht
      cases ht
    · exact .inl ⟨t, hsame ▸ ht, hid⟩
  · cases hx
  · cases hx
  · cases hx
  · cases hx
  · exact .inr (.inr (.inr (.inr (.inr ⟨e, hw.owed.subset he, hid⟩))))

/-- A call that changes no transaction and tells its function at most about issued ids. -/
theorem of_call (h : Tracked σ γ) (hrows : σ'.RowIds) (hi : σ.issued ⊆ σ'.issued)
    (hev : σ'.events = σ.events) (htxs : ∀ q, σ'.tx q = σ.tx q) (hw : w.tx = (γ p).tx)
    (hmentions : ∀ i ∈ w.mentions, i ∈ (γ p).mentions ∨ i ∈ σ'.issued) :
    Tracked σ' (update γ p w) := by
  refine h.of_self hrows hi (by rw [hev]; exact fun e he => hi (h.events_issued e he))
    (fun q _ => htxs q) ?_
  rw [htxs p]
  obtain ⟨hrows, hevents, hlocks, hdeleted, hcleared, hnodup, hissued⟩ := h.tracks p
  rw [← hw] at hrows hevents hlocks hdeleted hcleared hnodup
  refine ⟨hrows, hevents, hlocks, hdeleted, hcleared, hnodup, fun i hmem => ?_⟩
  obtain hold | hnew := hmentions i hmem
  · exact hi (hissued i hold)
  · exact hnew

/-- The open transaction of a function goes on, and its summary with it. -/
theorem setTx (h : Tracked σ γ) (hself : Tracks σ t w) : Tracked (σ.setTx p t) (update γ p w) :=
  h.of_self ⟨h.rowIds.nodup, h.rowIds.issued⟩ (List.Subset.refl _) h.events_issued
    (fun q hq => Backend.tx_setTx_of_ne hq t) (by
      rw [Backend.tx_setTx_self]
      exact hself.mono (List.Subset.refl _))

theorem tick (h : Tracked σ γ) {time : Timestamp} : Tracked { σ with clock := time } γ :=
  ⟨⟨h.rowIds.nodup, h.rowIds.issued⟩, h.events_issued, fun p =>
    (h.tracks p).mono (List.Subset.refl _)⟩

/-- A commit keeps the summaries true. -/
theorem commit (h : Tracked σ γ) :
    Tracked (σ.commit p) (update γ p ((γ p).afterValue .txCommit ())) := by
  have hsub : ∀ e ∈ (σ.commit p).events, e.taskId ∈ σ.issued := by
    intro e he
    obtain ⟨he, -⟩ | he := Backend.mem_commit_events.mp he
    · exact h.events_issued e he
    · rw [(h.tracks p).events] at he
      exact (h.tracks p).issued _ (Summary.mem_mentions.mpr
        (.inr (.inr (.inr (.inr (.inl ⟨e, he, rfl⟩))))))
  refine h.of_self (h.rowIds.of_sublist Backend.commit_ids_sublist (List.Subset.refl _)).1
    (List.Subset.refl _) hsub (fun q hq => Backend.tx_commit_of_ne hq) ?_
  rw [Backend.tx_commit_self]
  refine .of_settled rfl fun i hi => (h.tracks p).issued i (Summary.mem_mentions.mpr ?_)
  obtain hi | hi | hi | ⟨_, hx, -⟩ | ⟨_, hx, -⟩ | ⟨e, he, hid⟩ := Summary.mem_mentions.mp hi
  · exact .inl hi
  · exact .inr (.inl hi)
  · cases hi
  · cases hx
  · cases hx
  · rcases List.mem_append.mp he with he | he
    · exact .inr (.inr (.inr (.inr (.inr ⟨e, he, hid⟩))))
    · exact .inr (.inr (.inr (.inr (.inl ⟨e, he, hid⟩))))

end Tracked

/-- Every call keeps the summaries true. -/
theorem tracked_exec {req : Request} {o : Oracle} {c : Await} {v : c.Val} (h : Tracked σ γ)
    (ha : (γ p).Awaits req c) (hv : c.PossibleValue v)
    (hx : exec p o σ c = some (.ok (v, σ'))) :
    Tracked σ' (update γ p ((γ p).afterValue c v)) := by
  have hrows := (exec_rowIds hx h.rowIds).1
  have hi := issued_subset_of_exec hx
  -- calls that change neither transactions nor events
  have hcall : (∀ q, σ'.tx q = σ.tx q) → σ'.events = σ.events →
      ((γ p).afterValue c v).tx = (γ p).tx →
      (∀ i ∈ ((γ p).afterValue c v).mentions, i ∈ (γ p).mentions ∨ i ∈ σ'.issued) →
      Tracked σ' (update γ p ((γ p).afterValue c v)) := fun htxs hev hw hm =>
    h.of_call hrows hi hev htxs hw hm
  have hp := h.tracks p
  have hdues : ∀ x ∈ (γ p).due, x.1 ∈ σ.issued := fun x hx =>
    hp.issued _ (Summary.mem_mentions.mpr (.inr (.inl ⟨x, hx, rfl⟩)))
  have hrowIds : ∀ i ∈ (γ p).tx.rows, i ∈ σ.issued := fun i hi =>
    hp.issued _ (Summary.mem_mentions.mpr (.inr (.inr (.inl hi))))
  -- what a statement of the transaction adds to the ids that its function knows
  have hmentions : ∀ {due : List (String × TaskEventType)} {tx : OpenTx},
      (∀ x ∈ due, x.1 ∈ σ.issued) → (∀ i ∈ tx.rows, i ∈ σ.issued) →
      (∀ i ∈ tx.numbers.map (·.1) ++ tx.events.map (·.taskId), i ∈ σ.issued) →
      ∀ i ∈ Summary.mentions { γ p with due := due, tx := tx }, i ∈ σ.issued := by
    intro due tx hdue htx hev i hi
    obtain hm | ⟨x, hx, rfl⟩ | hm | ⟨x, hx, rfl⟩ | ⟨e, he, rfl⟩ | hm := Summary.mem_mentions.mp hi
    · exact hp.issued i (Summary.mem_mentions.mpr (.inl hm))
    · exact hdue x hx
    · exact htx i hm
    · exact hev _ (List.mem_append_left _ (List.mem_map_of_mem hx))
    · exact hev _ (List.mem_append_right _ (List.mem_map_of_mem (f := (·.taskId)) he))
    · exact hp.issued i (Summary.mem_mentions.mpr (.inr (.inr (.inr (.inr (.inr hm))))))
  cases c with
  | redisOccupy key value ttl =>
    refine hcall ?_ ?_ rfl fun _ => .inl <;> simp only [exec, Backend.occupy] at hx <;>
      split at hx <;> cases hx <;> intros <;> rfl
  | findTask id =>
    cases hx
    refine hcall (fun _ => rfl) rfl rfl fun i hi => ?_
    obtain ⟨t, ht, rfl⟩ | hold := Summary.mem_mentions.mp hi
    · exact .inr (h.rowIds.issued t (List.mem_of_find?_eq_some ht))
    · exact .inl (Summary.mem_mentions.mpr (.inr hold))
  | insertTask dto now token =>
    obtain ⟨-, -, -, -, rfl⟩ := Backend.insertTask_ok hx
    exact hcall (fun _ => rfl) rfl rfl fun _ => .inl
  | deleteTask id =>
    obtain ⟨-, rfl⟩ := Backend.deleteTask_ok hx
    exact hcall (fun _ => rfl) rfl rfl fun _ => .inl
  | updateTask id write =>
    obtain ⟨htxs, hev⟩ : (∀ q, σ'.tx q = σ.tx q) ∧ σ'.events = σ.events := by
      obtain ⟨-, rfl, -⟩ | ⟨-, -, -, -, -, -, -, rfl⟩ := Backend.updateTask_ok hx
      · exact ⟨fun _ => rfl, rfl⟩
      · exact ⟨fun _ => rfl, rfl⟩
    have hpassed : ∀ authorization, (γ p).Passed id authorization → id ∈ (γ p).mentions := by
      rintro authorization ⟨t, -, -, ht, hid, -⟩
      exact Summary.mem_mentions.mpr (.inl ⟨t, ht, hid⟩)
    have hdue : ∀ type : Option TaskEventType, id ∈ (γ p).mentions →
        ∀ i ∈ Summary.mentions
          { γ p with
            updated := some ⟨id, write, v⟩
            due := (type.map fun type => (id, type)).toList },
        i ∈ (γ p).mentions := by
      intro type hid i hmem
      obtain hm | ⟨x, hx, rfl⟩ | hm := Summary.mem_mentions.mp hmem
      · exact Summary.mem_mentions.mpr (.inl hm)
      · cases type with
        | none => cases hx
        | some type =>
          rw [List.mem_singleton.mp hx]
          exact hid
      · exact Summary.mem_mentions.mpr (.inr (.inr hm))
    cases write with
    | submitCompleted now result =>
      obtain ⟨-, -, authorization, -, hp⟩ := ha
      exact hcall htxs hev rfl fun i hi => .inl (hdue _ (hpassed _ hp) i hi)
    | submitFailed now error =>
      obtain ⟨-, -, authorization, -, hp⟩ := ha
      exact hcall htxs hev rfl fun i hi => .inl (hdue _ (hpassed _ hp) i hi)
    | progress n =>
      obtain ⟨-, -, authorization, dto, -, -, hp⟩ := ha
      exact hcall htxs hev rfl fun i hi => .inl (hdue (some .progress) (hpassed _ hp) i hi)
    | _ => exact hcall htxs hev rfl fun _ => .inl
  | selectOldTasks cutoff limit =>
    obtain ⟨rfl, -⟩ := Backend.selectOldTasks_ok hx
    exact hcall (fun _ => rfl) rfl rfl fun _ => .inl
  | publish channel event =>
    cases hx
    refine hcall (fun _ => rfl) rfl rfl fun i hi => .inl (Summary.mem_mentions.mpr ?_)
    obtain hm | hm | hm | hm | hm | ⟨e, he, hid⟩ := Summary.mem_mentions.mp hi
    · exact .inl hm
    · exact .inr (.inl hm)
    · exact .inr (.inr (.inl hm))
    · exact .inr (.inr (.inr (.inl hm)))
    · exact .inr (.inr (.inr (.inr (.inl hm))))
    · exact .inr (.inr (.inr (.inr (.inr ⟨e, List.mem_of_mem_tail he, hid⟩))))
  | txCancelTask id now =>
    obtain ⟨rfl, rfl⟩ | ⟨r, hr, rfl, -, -, -, rfl, rfl⟩ := Backend.txCancelTask_ok hx
    · exact hcall (fun _ => rfl) rfl rfl fun _ => .inl
    · obtain ⟨⟨htx, hdue⟩, -⟩ := ha
      have htasks := hp.tasks_eq_nil (by rw [htx])
      refine h.setTx ⟨?_, hp.events, hp.locks, hp.deleted, hp.cleared, List.nodup_singleton _, ?_⟩
      · rw [htasks]
        rfl
      · refine hmentions ?_ ?_ (by simp [htx])
        · intro x hx
          rw [List.mem_singleton.mp hx]
          exact h.rowIds.issued r hr
        · intro i hi
          rw [List.mem_singleton.mp hi]
          exact h.rowIds.issued r hr
  | txExpireTasks now limit =>
    obtain ⟨sel, hsub, -, rfl, rfl⟩ := Backend.txExpireTasks_ok hx
    obtain ⟨⟨htx, hdue⟩, -⟩ := ha
    have hids : ∀ i ∈ sel.map (·.id), i ∈ σ.issued := by
      intro i hi
      obtain ⟨r, hr, rfl⟩ := List.mem_map.mp hi
      exact h.rowIds.issued r (hsub.subset hr)
    refine h.setTx ⟨?_, hp.events, hp.locks, hp.deleted, hp.cleared,
      h.rowIds.nodup.sublist (hsub.map _), ?_⟩
    · rw [hp.tasks_eq_nil (by rw [htx]), List.nil_append, List.map_map]
      rfl
    · refine hmentions (fun x hx => ?_) hids (by simp [htx])
      obtain ⟨i, hi, rfl⟩ := List.mem_map.mp hx
      exact hids i hi
  | txDeleteTasks ids =>
    obtain ⟨-, rfl⟩ := Backend.txDeleteTasks_ok hx
    obtain ⟨-, htx, hdue⟩ := ha
    refine h.setTx ⟨hp.rows, hp.events, hp.locks, ?_, hp.cleared, hp.rows_nodup, hp.issued⟩
    dsimp only
    rw [hp.deleted, htx]
    rfl
  | txAdvisoryLock id =>
    obtain ⟨-, rfl⟩ := Backend.txAdvisoryLock_ok hx
    obtain ⟨_, -, -, htx⟩ := ha
    refine h.setTx ⟨hp.rows, hp.events, ?_, hp.deleted, hp.cleared, hp.rows_nodup, hp.issued⟩
    dsimp only
    rw [hp.locks, htx]
    rfl
  | txNextSeq id =>
    cases hx
    obtain ⟨_, hdue, hrows', htx⟩ := ha
    refine h.of_self h.rowIds (List.Subset.refl _) h.events_issued (fun _ _ => rfl)
      ⟨hp.rows, hp.events, hp.locks, hp.deleted, hp.cleared, hp.rows_nodup, ?_⟩
    refine hmentions (fun x hx => hdues x hx) (fun i hi => hrowIds i hi) fun i hi => ?_
    have hev : (γ p).tx.events = [] := by rw [htx]
    simp only [hev, List.map_nil, List.append_nil, List.map_singleton,
      List.mem_singleton] at hi
    exact hdues (i, _) (by rw [hdue, hi]; exact List.mem_singleton_self _)
  | txInsertEvent seq input =>
    obtain ⟨hv, hx⟩ := exec_txInsertEvent_ok hx
    obtain ⟨-, -, rfl⟩ := Backend.txInsertEvents_ok hx
    obtain ⟨hdue, hrows', htx⟩ := ha
    refine h.setTx ⟨hp.rows, ?_, hp.locks, hp.deleted, hp.cleared, hp.rows_nodup, ?_⟩
    · dsimp only
      rw [hp.events, htx]
      rfl
    · refine hmentions (by simp) (fun i hi => hrowIds i hi) fun i hi => ?_
      simp only [List.map_nil, List.nil_append, List.map_singleton, List.mem_singleton] at hi
      refine hdues (i, _) (by rw [hdue, hi, hv]; exact List.mem_singleton_self _)
  | txNumberExpiryEvents ids =>
    cases hx
    obtain ⟨-, htx, hdue⟩ := ha
    refine h.of_self h.rowIds (List.Subset.refl _) h.events_issued (fun _ _ => rfl)
      ⟨hp.rows, hp.events, hp.locks, hp.deleted, hp.cleared, hp.rows_nodup, ?_⟩
    refine hmentions (fun x hx => hdues x hx) (fun i hi => hrowIds i hi) fun i hi => ?_
    have hev : (γ p).tx.events = [] := by rw [htx]
    simp only [hev, List.map_nil, List.append_nil, List.map_map] at hi
    obtain ⟨x, hx, rfl⟩ := List.mem_map.mp hi
    refine hrowIds x.1 ?_
    rw [htx]
    exact (List.mem_zipIdx hx).2.2 ▸ List.getElem_mem _
  | txInsertExpiryEvents events =>
    obtain ⟨-, -, rfl⟩ := Backend.txInsertEvents_ok hx
    have hv : v = events := hv
    obtain ⟨htx, hdue, -⟩ := ha
    refine h.setTx ⟨hp.rows, ?_, hp.locks, hp.deleted, hp.cleared, hp.rows_nodup, ?_⟩
    · dsimp only
      rw [hp.events, htx]
      exact hv.symm
    · refine hmentions (by simp) (fun i hi => hrowIds i hi) fun i hi => ?_
      rw [hv] at hi
      refine hrowIds i ?_
      rw [htx]
      exact hi
  | txDeleteEvents ids =>
    obtain rfl := Backend.txDeleteEvents_ok hx
    obtain ⟨⟨htx, hdue⟩, -⟩ := ha
    refine h.setTx ⟨hp.rows, hp.events, hp.locks, hp.deleted, ?_, hp.rows_nodup, hp.issued⟩
    rw [hp.deletedEvents_eq_nil (by rw [htx])]
    intro x hmem
    obtain ⟨e, he, rfl⟩ := List.mem_map.mp hmem
    exact List.contains_iff_mem.mp (List.mem_filter.mp he).2
  | txCommit =>
    cases hx
    exact h.commit
  | _ =>
    cases hx
    exact hcall (fun _ => rfl) rfl rfl fun _ => .inl

/-- **The summaries are true** in every state reached. -/
theorem tracked_of_runs {allow : (proxy http).Config → (proxy http).Move → Prop}
    {s : (discipline http).Observed} (h : Runs allow (observed http clock) s) :
    Tracked s.config.store s.locals :=
  runs_invariant (fun _ _ _ _ _ _ _ _ _ _ _ ha _ hv ht hx => tracked_exec ht ha hv hx)
    (fun _ _ _ _ ht hw => ht.rollback hw)
    (fun _ _ _ ht => ht.tick) h Tracked.initial

end LongRequestProxy
