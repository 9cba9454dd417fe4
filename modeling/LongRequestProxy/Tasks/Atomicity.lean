import LongRequestProxy.Tasks.Budget

/-!
# Rows are written atomically

Some transactions update many rows and commit later, while other functions read and write the same
rows. What such a transaction has written is nevertheless, until it commits, the guarded write of
the row that is committed at that moment: nobody changes the row in between. So no update is lost,
and every move of the system changes every row by at most one guarded write.

## Main definitions

* `TaskWrite.InTransaction`: the writes that are made inside transactions.
* `Backend.UpToDate`: what the open transactions have written are guarded writes of the rows.

## Main results

* `upToDate_of_reaches`: they are, in every state reached.
* `row_of_move`: where a row comes from, and where it goes.
-/

namespace LongRequestProxy

open Async Discipline Service Function

/-- The writes that are made inside transactions. -/
def TaskWrite.InTransaction (w : TaskWrite) : Prop := ∃ now, w = .cancel now ∨ w = .expire now

/-- The row version is a guarded write of the committed row `r`. -/
def TaskSelect.IsWriteOf (u r : TaskSelect) : Prop :=
  ∃ w : TaskWrite, w.InTransaction ∧ w.Matches r = true ∧ SatisfiesChecks (w.apply r) = true ∧
    u = w.apply r

theorem TaskSelect.IsWriteOf.id_eq {u r : TaskSelect} (h : u.IsWriteOf r) : u.id = r.id := by
  obtain ⟨w, -, -, -, rfl⟩ := h
  exact w.apply_id r

namespace Backend

/-- What the open transactions have written are guarded writes of the committed rows. -/
def UpToDate (σ : Backend) : Prop :=
  ∀ p, ∀ u ∈ (σ.tx p).tasks, ∃ r ∈ σ.tasks, u.IsWriteOf r

variable {σ σ' : Backend} {p : ℕ}

/-- The rows that a call of `p` replaces or deletes are not those that others have written. -/
theorem UpToDate.of_rows (h : σ.UpToDate) (hother : ∀ q, q ≠ p → σ'.tx q = σ.tx q)
    (hrows : ∀ q, q ≠ p → ∀ u ∈ (σ.tx q).tasks, ∀ r ∈ σ.tasks, r.id = u.id → r ∈ σ'.tasks)
    (hself : ∀ u ∈ (σ'.tx p).tasks, ∃ r ∈ σ'.tasks, u.IsWriteOf r) : σ'.UpToDate := by
  intro q u hu
  by_cases hq : q = p
  · subst hq
    exact hself u hu
  · rw [hother q hq] at hu
    obtain ⟨r, hr, hwrite⟩ := h q u hu
    exact ⟨r, hrows q hq u hu r hr hwrite.id_eq.symm, hwrite⟩

/-- The rows stay, and the transaction of `p` gets guarded writes of them. -/
theorem UpToDate.of_tx (h : σ.UpToDate) (ht : σ'.tasks = σ.tasks)
    (hother : ∀ q, q ≠ p → σ'.tx q = σ.tx q)
    (hself : ∀ u ∈ (σ'.tx p).tasks, u ∈ (σ.tx p).tasks ∨ ∃ r ∈ σ.tasks, u.IsWriteOf r) :
    σ'.UpToDate := by
  refine h.of_rows hother (fun q _ u _ r hr _ => ht ▸ hr) fun u hu => ?_
  rw [ht]
  obtain hold | hnew := hself u hu
  · exact h p u hold
  · exact hnew

theorem UpToDate.rollback (h : σ.UpToDate) (p : ℕ) : (σ.rollback p).UpToDate :=
  h.of_tx (p := p) rfl (fun _ hq => tx_rollback_of_ne hq) (by simp)

/-- A commit leaves the rows alone that other transactions have written. -/
theorem UpToDate.commit {strict : Bool} {δ : ℕ → Duty} (h : σ.UpToDate) (hδ : Ledger strict σ δ) :
    (σ.commit p).UpToDate := by
  refine h.of_rows (fun q hq => tx_commit_of_ne hq) (fun q hq u hu r hr hid => ?_) (by simp)
  rw [hδ.tx q] at hu
  obtain ⟨hfree, hdel⟩ := hδ.locked q p hq u hu
  rw [← hδ.tx p] at hfree hdel
  refine mem_commit_tasks.mpr ⟨r, hr, hid ▸ hdel, ?_⟩
  obtain ⟨hmem, hnewest⟩ | ⟨heq, -⟩ := (σ.tx p).newest_cases r
  · exact absurd (hnewest.trans hid) (hfree _ hmem)
  · exact heq

end Backend

/-- What a call adds to its transaction are guarded writes of the committed rows. -/
theorem isWriteOf_of_exec {p : ℕ} {o : Oracle} {σ σ' : Backend} {x : Await} {v : x.Val}
    (hids : σ.RowIds) (hx : exec p o σ x = some (.ok (v, σ'))) {u : TaskSelect}
    (hu : u ∈ (σ'.tx p).tasks) :
    u ∈ (σ.tx p).tasks ∨ (σ'.tasks = σ.tasks ∧ ∃ r ∈ σ.tasks, u.IsWriteOf r) := by
  obtain hold | ⟨t, ht, ⟨time, rfl, rfl⟩ | ⟨time, limit, rfl, hover, hchecks, rfl⟩⟩ :=
    mem_written_of_exec hx hu
  · exact .inl hold
  · obtain ⟨-, rfl⟩ | ⟨r, hr, hid, hmatch, -, hchecks, -, rfl⟩ := Backend.txCancelTask_ok hx
    · exact .inl hu
    · obtain rfl := Table.eq_of_key_eq hids.nodup hr ht hid
      exact .inr ⟨rfl, r, hr, _, ⟨time, .inl rfl⟩, hmatch, hchecks, rfl⟩
  · obtain ⟨-, -, -, -, rfl⟩ := Backend.txExpireTasks_ok hx
    exact .inr ⟨rfl, t, ht, _, ⟨time, .inr rfl⟩, (TaskWrite.matches_iff _ t).mpr hover, hchecks,
      rfl⟩

/-- **No row changes under a transaction that has written it.** Every call keeps what the open
transactions have written up to date. -/
theorem upToDate_exec {strict : Bool} {req : Request} {p : ℕ} {o : Oracle} {σ σ' : Backend}
    {δ : ℕ → Duty} {w : Summary} {x : Await} {v : x.Val} (hδ : Ledger strict σ δ)
    (hids : σ.RowIds) (ht : Tracks σ (σ.tx p) w) (ha : w.Awaits req x)
    (hx : exec p o σ x = some (.ok (v, σ'))) (h : σ.UpToDate) : σ'.UpToDate := by
  have hother : ∀ q, q ≠ p → σ'.tx q = σ.tx q := fun q hq => exec_tx_of_ne hx hq
  -- outside transactions there is nothing to keep up to date but what others have written
  have hsettled : w.Settled → (∀ q, q ≠ p → ∀ u ∈ (σ.tx q).tasks, ∀ r ∈ σ.tasks, r.id = u.id →
      r ∈ σ'.tasks) → σ'.UpToDate := fun hw hrows => by
    refine h.of_rows hother hrows fun u hu => ?_
    obtain hold | ⟨htasks, hnew⟩ := isWriteOf_of_exec hids hx hu
    · rw [ht.tasks_eq_nil (by rw [hw.tx])] at hold
      cases hold
    · rwa [htasks]
  obtain ⟨htasks, -⟩ | ⟨dto, now, token, rfl, -, htasks, -⟩ | ⟨id, rfl, htasks, -⟩ |
    ⟨id, w, rfl, htasks, -⟩ | ⟨rfl, rfl⟩ := exec_tasks_cases hx
  · exact h.of_tx htasks hother fun u hu => (isWriteOf_of_exec hids hx hu).imp_right And.right
  · refine hsettled ha.1 fun q _ u _ r hr _ => ?_
    rw [htasks]
    exact List.mem_append_left _ hr
  · refine hsettled ha.1 fun q hq u hu r hr hid => ?_
    rw [htasks]
    refine List.mem_filter.mpr ⟨hr, bne_iff_ne.mpr fun heq => ?_⟩
    have hfree := (Backend.deleteTask_ok hx).1 r hr heq
    exact (Backend.not_held_of_lockedByOther hfree hq).1 u hu (hid.symm.trans heq)
  · refine hsettled ha.1 fun q hq u hu r hr hid => ?_
    obtain ⟨-, rfl, -⟩ | ⟨-, -, -, -, hfree, -, -, -⟩ := Backend.updateTask_ok hx
    · exact hr
    · rw [htasks]
      refine Table.mem_update.mpr ⟨r, hr, .inr ⟨?_, rfl⟩⟩
      by_contra hwhere
      have hrid : r.id = id := TaskWrite.id_of_where (by simpa using hwhere)
      exact (Backend.not_held_of_lockedByOther hfree hq).1 u hu (hid.symm.trans hrid)
  · exact h.commit hδ

variable {http : HttpClient} {clock : Timestamp} {c c' : (proxy http).Config}
  {m : (proxy http).Move} {allow : (proxy http).Config → (proxy http).Move → Prop}

/-- **Writes are up to date.** In every state reached, whatever an open transaction has written is
a guarded write of the row that is committed now. -/
theorem upToDate_of_reaches (h : Reaches allow (initial http clock) c) : c.store.UpToDate := by
  obtain ⟨γ, hγ, -⟩ := exists_observed h
  refine runs_invariant (J := fun σ _ => σ.UpToDate) ?_ (fun σ _ p _ hσ _ => hσ.rollback p)
    (fun _ _ _ hσ => hσ) hγ (by simp [Backend.UpToDate, Backend.tx])
  intro t p o req x k v σ' hrun _ _ ha _ _ ht hx
  obtain ⟨δ, hδ⟩ := ledger_of_reaches (hrun.reaches.mono fun _ _ _ => trivial)
  have htracked := tracked_of_runs hrun
  exact upToDate_exec hδ htracked.rowIds (htracked.tracks p) ha hx ht

/-! ### What one move does to a row -/

/-- The move makes the write to the row of the task, or it commits a transaction that has. -/
def Writes (c : (proxy http).Config) (m : (proxy http).Move) (id : String) (w : TaskWrite) : Prop :=
  w.InTransaction ∨ ∃ p o, c.callOf m = some (p, o, .updateTask id w) ∧ o.fault ≠ .failed

/-- The row was there before the move, or it is new, or the move has made a guarded write of the
row that was there. -/
inductive RowOrigin (c : (proxy http).Config) (m : (proxy http).Move) (t : TaskSelect) : Prop
  | same (ht : t ∈ c.store.tasks)
  | created (dto : CreateTaskDto) (now : Timestamp) (token id : String) (createdAt : Timestamp)
      (hnew : id ∉ c.store.issued) (ht : t = (dto.values now token).row id createdAt)
  | written (w : TaskWrite) (r : TaskSelect) (hr : r ∈ c.store.tasks) (hw : Writes c m r.id w)
      (hm : w.Matches r = true) (hc : SatisfiesChecks (w.apply r) = true) (ht : t = w.apply r)

/-- **Rows are written atomically.** A move changes a row by one guarded write of it, if at all,
however many rows and statements its transaction has. -/
theorem row_of_move (h : Reaches allow (initial http clock) c) (hm : c.move m = some c')
    {t' : TaskSelect} (ht' : t' ∈ c'.store.tasks) : RowOrigin c m t' := by
  obtain ⟨δ, hδ⟩ := ledger_of_reaches (h.mono fun _ _ _ => trivial)
  obtain ⟨time, hσ⟩ | ⟨p, hσ⟩ | ⟨p, o, req, x, k, v, σ, rfl, hp, hf, hx, hσ⟩ :=
    store_cases_of_move hm
  · rw [hσ] at ht'
    exact .same ht'
  · rw [hσ] at ht'
    exact .same ht'
  have hmem : t' ∈ σ.tasks := by
    obtain hσ | hσ := hσ <;> rw [hσ] at ht' <;> exact ht'
  obtain ⟨ht, -⟩ | ⟨dto, now, token, -, hnew, ht, hi⟩ | ⟨id, -, ht, -⟩ | ⟨id, w, rfl, ht, -⟩ |
    ⟨-, rfl⟩ := exec_tasks_cases hx
  · exact .same (ht ▸ hmem)
  · rw [ht] at hmem
    rcases List.mem_append.mp hmem with hmem | hmem
    · exact .same hmem
    · exact .created dto now token _ _ hnew (List.mem_singleton.mp hmem)
  · rw [ht] at hmem
    exact .same (List.mem_filter.mp hmem).1
  · obtain ⟨-, rfl, -⟩ | ⟨-, -, -, -, -, hchecks, -, -⟩ := Backend.updateTask_ok hx
    · exact .same hmem
    · rw [ht] at hmem
      obtain ⟨r, hr, ⟨hw, rfl⟩ | ⟨-, rfl⟩⟩ := Table.mem_update.mp hmem
      · obtain ⟨rfl, hmatch, hset⟩ := TaskWrite.of_where hw
        rw [hset]
        exact .written w r hr (.inr ⟨p, o, Config.callOf_eq_some.mpr ⟨rfl, req, k, hp⟩, hf rfl⟩)
          hmatch (hchecks r hr rfl hmatch) rfl
      · exact .same hr
  · obtain ⟨r, hr, hrid, -, ⟨rfl, -⟩ | ⟨hwritten, -⟩⟩ := hδ.commit_row hmem
    · exact .same hr
    · rw [← hδ.tx p] at hwritten
      obtain ⟨s, hs, w, hw, hmatch, hchecks, rfl⟩ := upToDate_of_reaches h p t' hwritten
      exact .written w s hs (.inl hw) hmatch hchecks rfl

end LongRequestProxy
