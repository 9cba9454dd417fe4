import LongRequestProxy.System

/-!
# Invariants of the rows of `tasks`

A property of single rows that holds of every created row and that every write of the program
preserves holds of every row in every reachable state, of the versions that open transactions
have written included. In particular every row has a row history: the histories of
`Tasks/RowHistory.lean` are what the system can make of a row.

## Main results

* `reaches_everyRow`: the rule.
* `exec_keyed`: no call changes the key that an id stands for.
* `exec_rowIds`: rows get issued ids, and ids are not issued twice.
* `reaches_rowHistory`: every row of a reachable state has a row history.
-/

namespace LongRequestProxy

open Async Service

namespace Backend

variable {σ σ' : Backend} {p : ℕ} {P : TaskSelect → Prop}

/-- `P` holds of every committed row and of every version that an open transaction has written. -/
structure EveryRow (P : TaskSelect → Prop) (σ : Backend) : Prop where
  committed : ∀ t ∈ σ.tasks, P t
  written : ∀ p, ∀ t ∈ (σ.tx p).tasks, P t

theorem EveryRow.of_frame (h : σ.EveryRow P) (ht : σ'.tasks = σ.tasks) (hx : σ'.txs = σ.txs) :
    σ'.EveryRow P :=
  ⟨ht ▸ h.committed, by simpa [tx, hx] using h.written⟩

theorem EveryRow.mono {Q : TaskSelect → Prop} (h : σ.EveryRow P) (hPQ : ∀ t, P t → Q t) :
    σ.EveryRow Q :=
  ⟨fun t ht => hPQ t (h.committed t ht), fun p t ht => hPQ t (h.written p t ht)⟩

theorem EveryRow.rollback (h : σ.EveryRow P) (p : ℕ) : (σ.rollback p).EveryRow P := by
  refine ⟨h.committed, fun q t ht => ?_⟩
  by_cases hq : q = p
  · subst hq
    simp at ht
  · rw [tx_rollback_of_ne hq] at ht
    exact h.written q t ht

theorem EveryRow.setTx (h : σ.EveryRow P) {t : Tx} (ht : ∀ r ∈ t.tasks, P r) :
    (σ.setTx p t).EveryRow P := by
  refine ⟨h.committed, fun q r hr => ?_⟩
  by_cases hq : q = p
  · subst hq
    rw [tx_setTx_self] at hr
    exact ht r hr
  · rw [tx_setTx_of_ne hq] at hr
    exact h.written q r hr

theorem EveryRow.commit (h : σ.EveryRow P) (p : ℕ) : (σ.commit p).EveryRow P := by
  constructor
  · intro t ht
    obtain ⟨r, hr, -, rfl⟩ := mem_commit_tasks.mp ht
    obtain ⟨hmem, -⟩ | ⟨heq, -⟩ := (σ.tx p).newest_cases r
    · exact h.written p _ hmem
    · rw [heq]
      exact h.committed r hr
  · intro q t ht
    by_cases hq : q = p
    · subst hq
      simp at ht
    · rw [tx_commit_of_ne hq] at ht
      exact h.written q t ht

end Backend

/-- A call keeps a property of rows that holds of the created rows and that the writes of this
call preserve. -/
theorem exec_everyRow {p : ℕ} {o : Oracle} {σ σ' : Backend} {c : Await} {v : c.Val}
    {P : TaskSelect → Prop}
    (hcreate : ∀ dto now token, c = .insertTask dto now token →
      P ((dto.values now token).row (o.uuid 0) σ.clock))
    (hwrite : ∀ id w, c = .updateTask id w → ∀ t ∈ σ.tasks, t.id = id → P t →
      w.Matches t = true → SatisfiesChecks (w.apply t) = true → P (w.apply t))
    (htx : ∀ w : TaskWrite, (∃ now, w = .cancel now ∨ w = .expire now) → ∀ t, P t →
      w.Matches t = true → SatisfiesChecks (w.apply t) = true → P (w.apply t))
    (h : exec p o σ c = some (.ok (v, σ'))) (hσ : σ.EveryRow P) : σ'.EveryRow P := by
  cases c with
  | redisOccupy key value ttl =>
    simp only [exec, Backend.occupy] at h
    split at h <;> cases h
    · exact hσ
    · exact hσ.of_frame rfl rfl
  | insertTask dto now token =>
    obtain ⟨-, -, -, -, rfl⟩ := Backend.insertTask_ok h
    refine ⟨fun t ht => ?_, hσ.written⟩
    rcases List.mem_append.mp ht with ht | ht
    · exact hσ.committed t ht
    · rw [List.mem_singleton.mp ht]
      exact hcreate dto now token rfl
  | deleteTask id =>
    obtain ⟨-, rfl⟩ := Backend.deleteTask_ok h
    exact ⟨fun t ht => hσ.committed t (List.mem_filter.mp ht).1, hσ.written⟩
  | updateTask id w =>
    obtain ⟨-, rfl, -⟩ | ⟨-, -, -, -, -, hc, -, rfl⟩ := Backend.updateTask_ok h
    · exact hσ
    · refine ⟨fun t ht => ?_, hσ.written⟩
      obtain ⟨r, hr, ⟨hm, rfl⟩ | ⟨-, rfl⟩⟩ := Table.mem_update.mp ht
      · obtain rfl := TaskWrite.id_of_where hm
        exact hwrite _ w rfl r hr rfl (hσ.committed r hr) hm (hc r hr rfl hm)
      · exact hσ.committed _ hr
  | selectOldTasks cutoff limit =>
    obtain ⟨rfl, -⟩ := Backend.selectOldTasks_ok h
    exact hσ
  | txCancelTask id now =>
    obtain ⟨-, rfl⟩ | ⟨r, hr, -, hm, -, hc, -, rfl⟩ := Backend.txCancelTask_ok h
    · exact hσ
    · refine hσ.setTx fun t ht => ?_
      rcases List.mem_append.mp ht with ht | ht
      · exact hσ.written p t ht
      · rw [List.mem_singleton.mp ht]
        exact htx _ ⟨now, .inl rfl⟩ r (hσ.committed r hr) hm hc
  | txExpireTasks now limit =>
    obtain ⟨sel, hsub, hsel, -, rfl⟩ := Backend.txExpireTasks_ok h
    refine hσ.setTx fun t ht => ?_
    rcases List.mem_append.mp ht with ht | ht
    · exact hσ.written p t ht
    · obtain ⟨r, hr, rfl⟩ := List.mem_map.mp ht
      exact htx _ ⟨now, .inr rfl⟩ r (hσ.committed r (hsub.subset hr))
        ((TaskWrite.matches_iff _ r).mpr (hsel r hr).1) (hsel r hr).2.2
  | txDeleteTasks ids =>
    obtain ⟨-, rfl⟩ := Backend.txDeleteTasks_ok h
    exact hσ.setTx (hσ.written p)
  | txAdvisoryLock id =>
    obtain ⟨-, rfl⟩ := Backend.txAdvisoryLock_ok h
    exact hσ.setTx (hσ.written p)
  | txInsertEvent seq input =>
    obtain ⟨-, h⟩ := exec_txInsertEvent_ok h
    obtain ⟨-, -, rfl⟩ := Backend.txInsertEvents_ok h
    exact hσ.setTx (hσ.written p)
  | txInsertExpiryEvents events =>
    obtain ⟨-, -, rfl⟩ := Backend.txInsertEvents_ok h
    exact hσ.setTx (hσ.written p)
  | txDeleteEvents ids =>
    obtain rfl := Backend.txDeleteEvents_ok h
    exact hσ.setTx (hσ.written p)
  | txCommit =>
    cases h
    exact hσ.commit p
  | _ =>
    cases h
    exact hσ.of_frame rfl rfl

/-! ### Columns that no write changes -/

/-- The column is a function of the id, in every version of every row, and the ids were issued. -/
def Backend.Fixed {β : Type} (σ : Backend) (column : TaskSelect → β) (f : String → β) : Prop :=
  σ.EveryRow fun r => r.id ∈ σ.issued ∧ column r = f r.id

/-- A column that the writes of the program leave alone stays a function of the id. -/
theorem exec_fixed {β : Type} {column : TaskSelect → β} {f : String → β}
    (hcol : ∀ (w : TaskWrite) t, column (w.apply t) = column t) {p : ℕ} {o : Oracle}
    {σ σ' : Backend} {c : Await} {v : c.Val} (h : exec p o σ c = some (.ok (v, σ')))
    (hσ : σ.Fixed column f) : ∃ f', σ'.Fixed column f' ∧ ∀ i ∈ σ.issued, f' i = f i := by
  have hsub := issued_subset_of_exec h
  by_cases hc : ∃ dto now token, c = .insertTask dto now token
  · obtain ⟨dto, now, token, rfl⟩ := hc
    obtain ⟨-, hnew, -, -, hσ'⟩ := Backend.insertTask_ok h
    have hold : ∀ i ∈ σ.issued, Function.update f (o.uuid 0)
        (column ((dto.values now token).row (o.uuid 0) σ.clock)) i = f i := fun i hi =>
      Function.update_of_ne (fun heq : i = o.uuid 0 => hnew (heq ▸ hi)) _ _
    refine ⟨_, exec_everyRow ?_ ?_ ?_ h (hσ.mono fun r hr => ⟨hsub hr.1, ?_⟩), hold⟩
    · intro dto now token hcall
      cases hcall
      refine ⟨by rw [hσ']; exact List.mem_cons_self, ?_⟩
      exact (Function.update_self (o.uuid 0) _ f).symm
    · intro id w hcall
      cases hcall
    · exact fun w _ t ht _ _ => ⟨ht.1, (hcol w t).trans ht.2⟩
    · rw [hr.2, hold r.id hr.1]
  · refine ⟨f, exec_everyRow (fun dto now token hcall => absurd ⟨dto, now, token, hcall⟩ hc)
      ?_ ?_ h (hσ.mono fun r hr => ⟨hsub hr.1, hr.2⟩), fun _ _ => rfl⟩
    · exact fun id w _ t _ _ ht _ _ => ⟨ht.1, (hcol w t).trans ht.2⟩
    · exact fun w _ t ht _ _ => ⟨ht.1, (hcol w t).trans ht.2⟩

/-! ### The key of a row -/

/-- What identifies a row to the creations: its id and its key. -/
def TaskSelect.idKey (r : TaskSelect) : String × Option String := (r.id, r.idempotencyKey)

/-- The id of a row was issued once and determines its key, in every version of the row. -/
def Backend.Keyed (σ : Backend) : Prop :=
  ∃ keyOf : String → Option String, σ.EveryRow fun r =>
    r.id ∈ σ.issued ∧ r.idempotencyKey = keyOf r.id

namespace Backend

variable {σ σ' : Backend} {p : ℕ}

theorem Keyed.of_frame (h : σ.Keyed) (ht : σ'.tasks = σ.tasks) (hx : σ'.txs = σ.txs)
    (hi : σ'.issued = σ.issued) : σ'.Keyed := by
  obtain ⟨keyOf, h⟩ := h
  refine ⟨keyOf, EveryRow.of_frame ?_ ht hx⟩
  rwa [hi]

theorem Keyed.rollback (h : σ.Keyed) (p : ℕ) : (σ.rollback p).Keyed := by
  obtain ⟨keyOf, h⟩ := h
  exact ⟨keyOf, h.rollback p⟩

theorem Keyed.idempotencyKey_eq (h : σ.Keyed) {r r' : TaskSelect} (hr : r ∈ σ.tasks)
    (hr' : r' ∈ σ.tasks) (hid : r.id = r'.id) : r.idempotencyKey = r'.idempotencyKey := by
  obtain ⟨keyOf, h⟩ := h
  rw [(h.committed r hr).2, (h.committed r' hr').2, hid]

/-- A commit leaves ids and keys as they are, except those of the deleted rows. -/
theorem Keyed.commit_idKey (h : σ.Keyed) :
    (σ.commit p).tasks.map TaskSelect.idKey =
      (σ.tasks.filter fun r => !(σ.tx p).deletedTasks.contains r.id).map TaskSelect.idKey := by
  obtain ⟨keyOf, h⟩ := h
  rw [commit, committedTasks, List.map_map]
  refine List.map_congr_left fun r hr => ?_
  obtain ⟨hmem, hid⟩ | ⟨heq, -⟩ := (σ.tx p).newest_cases r
  · have hnew := (h.written p _ hmem).2
    have hold := (h.committed r (List.mem_filter.mp hr).1).2
    exact Prod.ext hid (hnew.trans ((congrArg keyOf hid).trans hold.symm))
  · exact congrArg TaskSelect.idKey heq

end Backend

theorem exec_keyed {p : ℕ} {o : Oracle} {σ σ' : Backend} {c : Await} {v : c.Val}
    (h : exec p o σ c = some (.ok (v, σ'))) (hσ : σ.Keyed) : σ'.Keyed := by
  obtain ⟨keyOf, hσ⟩ := hσ
  have hfixed : σ.Fixed (·.idempotencyKey) keyOf := hσ
  obtain ⟨keyOf', hσ', -⟩ := exec_fixed (fun _ _ => rfl) h hfixed
  exact ⟨keyOf', hσ'⟩

/-! ### The ids of the rows -/

namespace Backend

/-- The task `i` has a row. -/
def HasRow (σ : Backend) (i : String) : Prop := ∃ t ∈ σ.tasks, t.id = i

/-- The ids of the rows are distinct, and were issued. -/
structure RowIds (σ : Backend) : Prop where
  nodup : (σ.tasks.map (·.id)).Nodup
  issued : ∀ t ∈ σ.tasks, t.id ∈ σ.issued

variable {σ σ' : Backend} {p : ℕ}

theorem RowIds.of_sublist (h : σ.RowIds) (hids : (σ'.tasks.map (·.id)).Sublist (σ.tasks.map (·.id)))
    (hi : σ.issued ⊆ σ'.issued) :
    σ'.RowIds ∧ ∀ i ∈ σ.issued, σ'.HasRow i → σ.HasRow i := by
  have hrow : ∀ i, σ'.HasRow i → σ.HasRow i := fun i ⟨t, ht, hid⟩ =>
    List.mem_map.mp (hids.subset (List.mem_map.mpr ⟨t, ht, hid⟩))
  refine ⟨⟨h.nodup.sublist hids, fun t ht => ?_⟩, fun i _ => hrow i⟩
  obtain ⟨r, hr, hid⟩ := hrow t.id ⟨t, ht, rfl⟩
  exact hi (hid ▸ h.issued r hr)

theorem commit_ids_sublist :
    ((σ.commit p).tasks.map (·.id)).Sublist (σ.tasks.map (·.id)) := by
  have hmap : (σ.commit p).tasks.map (·.id) =
      (σ.tasks.filter fun r => !(σ.tx p).deletedTasks.contains r.id).map (·.id) := by
    simp [commit, committedTasks, Function.comp_def]
  rw [hmap]
  exact List.filter_sublist.map _

end Backend

/-- Rows get issued ids, and a task without a row gets one only when its id is issued. -/
theorem exec_rowIds {p : ℕ} {o : Oracle} {σ σ' : Backend} {c : Await} {v : c.Val}
    (h : exec p o σ c = some (.ok (v, σ'))) (hσ : σ.RowIds) :
    σ'.RowIds ∧ ∀ i ∈ σ.issued, σ'.HasRow i → σ.HasRow i := by
  have hi := issued_subset_of_exec h
  obtain ⟨ht, -⟩ | ⟨dto, now, token, -, hnew, ht, hi'⟩ | ⟨id, -, ht, -⟩ | ⟨id, w, -, ht, -⟩ |
    ⟨-, rfl⟩ := exec_tasks_cases h
  · exact hσ.of_sublist (by rw [ht]) hi
  · constructor
    · refine ⟨?_, fun t hmem => ?_⟩
      · rw [ht]
        refine Table.nodup_append_key hσ.nodup fun r hr heq => hnew ?_
        have hid : r.id = o.uuid 0 := heq
        exact hid ▸ hσ.issued r hr
      · rw [ht] at hmem
        rcases List.mem_append.mp hmem with hmem | hmem
        · exact hi (hσ.issued t hmem)
        · rw [List.mem_singleton.mp hmem, hi']
          exact List.mem_cons_self
    · rintro i hissued ⟨t, hmem, rfl⟩
      rw [ht] at hmem
      rcases List.mem_append.mp hmem with hmem | hmem
      · exact ⟨t, hmem, rfl⟩
      · rw [List.mem_singleton.mp hmem] at hissued
        exact absurd hissued hnew
  · exact hσ.of_sublist (by rw [ht]; exact List.filter_sublist.map _) hi
  · refine hσ.of_sublist ?_ hi
    have hids : (Table.update (w.stmt id).where_ (w.stmt id).set.apply σ.tasks).map (·.id) =
        σ.tasks.map (·.id) := Table.map_key_update fun _ => rfl
    rw [ht, hids]
  · exact hσ.of_sublist Backend.commit_ids_sublist hi

/-! ### Writes that take effect -/

/-- A write other than an expiry that finds its row, and is not hit by a fault before it, is
made: no CHECK constraint stands in its way. -/
theorem apply_mem_of_updateTask {p : ℕ} {o : Oracle} {σ σ' : Backend} {w : TaskWrite}
    {t : TaskSelect} {r : Reply (.updateTask t.id w)} (hσ : σ.EveryRow RowHistory)
    (hw : ¬ w.IsExpiry) (ht : t ∈ σ.tasks) (hm : w.Matches t = true) (hf : o.fault ≠ .failed)
    (h : perform p o σ (.updateTask t.id w) = some (r, σ')) : w.apply t ∈ σ'.tasks := by
  have hmem : ∀ {v σ₁}, σ.updateTask p t.id w = some (.ok (v, σ₁)) → w.apply t ∈ σ₁.tasks := by
    intro v σ₁ hx
    obtain ⟨-, -, hnone⟩ | ⟨-, -, -, -, -, -, -, rfl⟩ := Backend.updateTask_ok hx
    · exact absurd hm (by simpa [TaskWrite.Matches] using hnone t ht)
    · exact Table.mem_update.mpr ⟨t, ht, .inl ⟨hm, rfl⟩⟩
  obtain ⟨e, -, rfl, hfail | hx⟩ | ⟨v, -, hx, -⟩ | ⟨v, σ₁, -, hx, -, rfl⟩ := perform_cases h
  · exact absurd hfail hf
  · obtain ⟨r, hr, -, hmr, hcr⟩ := Backend.updateTask_error hx
    have hc := (TaskWrite.satisfiesChecks_apply_iff (hσ.committed r hr).satisfiesChecks hmr).mpr
      fun hexp => hw hexp.1
    rw [hc] at hcr
    cases hcr
  · exact hmem hx
  · have := hmem hx
    exact this

variable {http : HttpClient} {clock : Timestamp} {c : (proxy http).Config}

/-- The move is an UPDATE of the given kind that takes effect and finds its row. -/
def makesWrite (kind : TaskWrite → Bool) (c : (proxy http).Config) (m : (proxy http).Move) :
    Bool :=
  match c.callOf m with
  | some (_, o, .updateTask id w) =>
    kind w && o.fault != .failed && c.store.tasks.any fun t => t.id == id && w.Matches t
  | _ => false

theorem makesWrite_iff {kind : TaskWrite → Bool} {m : (proxy http).Move} :
    makesWrite kind c m = true ↔ ∃ p o w, ∃ t ∈ c.store.tasks,
      c.callOf m = some (p, o, .updateTask t.id w) ∧ kind w = true ∧ o.fault ≠ .failed ∧
        w.Matches t = true := by
  unfold makesWrite
  split
  · next p o id w heq =>
    simp only [heq, Bool.and_eq_true, bne_iff_ne, ne_eq, List.any_eq_true, beq_iff_eq]
    constructor
    · rintro ⟨⟨hk, hf⟩, t, ht, rfl, hm⟩
      exact ⟨p, o, w, t, ht, rfl, hk, hf, hm⟩
    · rintro ⟨_, _, _, t, ht, hx, hk, hf, hm⟩
      cases hx
      exact ⟨⟨hk, hf⟩, t, ht, rfl, hm⟩
  · next hne =>
    exact iff_of_false Bool.false_ne_true fun ⟨p, o, w, t, _, h, _⟩ => hne p o t.id w h

/-- **Rule for rows.** A property of rows that holds of every created row and that every
permitted write preserves holds of every row of every reachable state. -/
theorem reaches_everyRow {allow : (proxy http).Config → (proxy http).Move → Prop}
    {P : TaskSelect → Prop}
    (hcreate : ∀ (dto : CreateTaskDto) now token id createdAt,
      P ((dto.values now token).row id createdAt))
    (hwrite : ∀ (d : (proxy http).Config) m p o id w, allow d m →
      d.callOf m = some (p, o, .updateTask id w) → o.fault ≠ .failed →
      ∀ t ∈ d.store.tasks, t.id = id → P t → w.Matches t = true →
      SatisfiesChecks (w.apply t) = true → P (w.apply t))
    (htx : ∀ w : TaskWrite, (∃ now, w = .cancel now ∨ w = .expire now) → ∀ t, P t →
      w.Matches t = true → SatisfiesChecks (w.apply t) = true → P (w.apply t))
    (h : Reaches allow (initial http clock) c) : c.store.EveryRow P := by
  refine Reaches.store_invariant (I := fun σ => Backend.EveryRow P σ) ?_
    (fun p σ hσ => hσ.rollback p) ?_ h ⟨by simp [initial], by simp [initial, Backend.tx]⟩
  · intro d m p o x r s' ha hp hd hs
    obtain ⟨e, -, rfl, -⟩ | ⟨v, -, hx, hf⟩ | ⟨v, σ₁, -, hx, hf, rfl⟩ := perform_cases hs
    · exact hd.rollback p
    · refine exec_everyRow (fun dto now token _ => hcreate dto now token _ _)
        (fun id w hw => ?_) htx hx hd
      subst hw
      exact hwrite d m p o id w ha hp (hf rfl)
    · refine (exec_everyRow (fun dto now token _ => hcreate dto now token _ _)
        (fun id w hw => ?_) htx hx hd).rollback p
      subst hw
      exact hwrite d m p o id w ha hp (by simp [hf])
  · intro d t s' _ hd hs
    simp only [proxy, Backend.tick] at hs
    split at hs
    · cases hs
      exact hd.of_frame rfl rfl
    · cases hs

/-- Every row of a reachable state has a row history. -/
theorem reaches_rowHistory (h : Reaches (fun _ _ => True) (initial http clock) c) :
    c.store.EveryRow RowHistory :=
  reaches_everyRow .created (fun _ _ _ _ _ w _ _ _ _ _ _ ht hm hc => .write w ht hm hc)
    (fun w _ _ ht hm hc => .write w ht hm hc) h

end LongRequestProxy
