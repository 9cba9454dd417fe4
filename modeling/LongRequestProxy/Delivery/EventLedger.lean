import LongRequestProxy.Store.Rules

/-!
# Who may write the terminal event of a task

A task ends in one of two ways. In a transaction that updates the row and inserts the event
together, nothing is left to do after the commit. When the row is updated first and the event
inserted in a later transaction, the program *owes* the event in between: it alone may write it.
The ledger is the invariant that relates the rows, the events, what each open transaction has
written, and what each program owes.

## Main definitions

* `Duty`: what a program owes and what its open transaction has written.
* `Ledger strict`: the invariant. With `strict` every ended task has its event, or some program
  owes it; without, a program may fail before it writes the event that it owes.
* `Duty.Settled`: a transaction that may commit, and leaves nothing owed.

## Main results

* `Ledger.of_tx`: statements inside a transaction, and transactions that end without effect.
* `Ledger.insertTask`, `Ledger.deleteTask`, `Ledger.updateTask`: statements outside transactions.
* `Ledger.commit`: the commit of a settled transaction.
-/

namespace LongRequestProxy

open Function

/-- Two events are not both terminal events of one task. -/
def NotBothTerminal (e e' : TaskEventSelect) : Prop :=
  e.ends ≠ none → e'.ends ≠ none → e.taskId ≠ e'.taskId

theorem NotBothTerminal.symm {e e' : TaskEventSelect} (h : NotBothTerminal e e') :
    NotBothTerminal e' e :=
  fun he' he ht => h he he' ht.symm

theorem TaskEventSelect.isTerminal_of_ends {e : TaskEventSelect} {s : TaskStatus}
    (h : e.ends = some s) : s.isTerminal = true :=
  (TaskEventType.isTerminal_of_ends h).2

/-- The terminal event that a program owes, and what its open transaction has written. -/
structure Duty where
  owed : Option (String × TaskStatus) := none
  tx : Tx := {}

/-- What holds between the rows, the events and the duty of one program. -/
structure Duty.Valid (d : Duty) (σ : Backend) : Prop where
  /-- An owed event reports how the task has ended, and nobody has written it. -/
  owed : ∀ i s, d.owed = some (i, s) → s.isTerminal = true ∧ i ∈ σ.issued ∧
    (∀ t ∈ σ.tasks, t.id = i → t.status = s) ∧ ∀ e ∈ σ.events, e.ends ≠ none → e.taskId ≠ i
  /-- A row version that a transaction has written ends a task that has not ended yet. -/
  written : ∀ t ∈ d.tx.tasks, t.status.isTerminal = true ∧
    ∃ r ∈ σ.tasks, r.id = t.id ∧ r.status.isTerminal = false
  written_ids : (d.tx.tasks.map (·.id)).Nodup
  /-- A terminal event in a transaction goes with such a row version, or is owed. -/
  added : ∀ e ∈ d.tx.events, ∀ s, e.ends = some s →
    (∃ t ∈ d.tx.tasks, t.id = e.taskId ∧ t.status = s) ∨ d.owed = some (e.taskId, s)
  added_once : d.tx.events.Pairwise NotBothTerminal

/-- The invariant of the rows, the events and the duties of all programs. -/
structure Ledger (strict : Bool) (σ : Backend) (γ : ℕ → Duty) : Prop where
  tx : ∀ p, σ.tx p = (γ p).tx
  ids : (σ.tasks.map (·.id)).Nodup
  issued : ∀ t ∈ σ.tasks, t.id ∈ σ.issued
  events_issued : ∀ e ∈ σ.events, e.ends ≠ none → e.taskId ∈ σ.issued
  events_once : σ.events.Pairwise NotBothTerminal
  events_match : ∀ e ∈ σ.events, ∀ s, e.ends = some s →
    ∀ t ∈ σ.tasks, t.id = e.taskId → t.status = s
  valid : ∀ p, (γ p).Valid σ
  owed_once : ∀ p q i s s', (γ p).owed = some (i, s) → (γ q).owed = some (i, s') → p = q
  /-- A row is locked by one transaction at a time. -/
  locked : ∀ p q, p ≠ q → ∀ t ∈ (γ p).tx.tasks,
    (∀ u ∈ (γ q).tx.tasks, u.id ≠ t.id) ∧ t.id ∉ (γ q).tx.deletedTasks
  complete : strict = true → ∀ t ∈ σ.tasks, t.status.isTerminal = true →
    (∃ e ∈ σ.events, e.taskId = t.id ∧ e.ends = some t.status) ∨
      ∃ p, (γ p).owed = some (t.id, t.status)

variable {strict : Bool} {σ σ' : Backend} {γ : ℕ → Duty} {p : ℕ} {d : Duty}

namespace Ledger

/-- The ledger of a state in which nothing has happened. -/
theorem initial (clock : Timestamp) : Ledger strict { clock := clock } fun _ => {} where
  tx p := by simp [Backend.tx]
  ids := List.nodup_nil
  issued := by simp
  events_issued := by simp
  events_once := .nil
  events_match := by simp
  valid p := ⟨by simp, by simp, by simp, by simp, by simp⟩
  owed_once := by simp
  locked := by simp
  complete := by simp

/-- The event that a program owes cannot be owed, or be in a transaction, elsewhere: the task of
an owed event has ended. -/
theorem not_written_of_owed (h : Ledger strict σ γ) {q : ℕ} {i : String} {s : TaskStatus}
    (ho : (γ p).owed = some (i, s)) {t : TaskSelect} (ht : t ∈ (γ q).tx.tasks) : t.id ≠ i := by
  rintro rfl
  obtain ⟨hs, -, hrows, -⟩ := (h.valid p).owed _ s ho
  obtain ⟨-, r, hr, hid, hnot⟩ := (h.valid q).written t ht
  rw [hrows r hr hid, hs] at hnot
  cases hnot

/-- A change of the state that no part of the ledger looks at. -/
theorem of_frame (h : Ledger strict σ γ) (ht : σ'.tasks = σ.tasks) (he : σ'.events = σ.events)
    (hi : σ'.issued = σ.issued) (hx : σ'.txs = σ.txs) : Ledger strict σ' γ := by
  obtain ⟨ts, es, xs, _, _, _, _, is, _, _⟩ := σ
  obtain ⟨ts', es', xs', _, _, _, _, is', _, _⟩ := σ'
  obtain rfl : ts' = ts := ht
  obtain rfl : es' = es := he
  obtain rfl : is' = is := hi
  obtain rfl : xs' = xs := hx
  exact ⟨h.tx, h.ids, h.issued, h.events_issued, h.events_once, h.events_match,
    fun p => ⟨(h.valid p).owed, (h.valid p).written, (h.valid p).written_ids, (h.valid p).added,
      (h.valid p).added_once⟩, h.owed_once, h.locked, h.complete⟩

/-! ### Inside a transaction -/

/-- The open transaction of one program changes, and with it the program's duty; the tables stay
as they are. -/
theorem of_tx (h : Ledger strict σ γ) (ht : σ'.tasks = σ.tasks) (he : σ'.events = σ.events)
    (hi : σ'.issued = σ.issued) (hself : σ'.tx p = d.tx)
    (hother : ∀ q, q ≠ p → σ'.tx q = σ.tx q) (hvalid : d.Valid σ)
    (howed : ∀ i s, d.owed = some (i, s) → (γ p).owed = some (i, s))
    (hdrop : strict = true → d.owed = (γ p).owed)
    (hmine : ∀ q, q ≠ p → ∀ t ∈ d.tx.tasks,
      (∀ u ∈ (γ q).tx.tasks, u.id ≠ t.id) ∧ t.id ∉ (γ q).tx.deletedTasks)
    (htheirs : ∀ q, q ≠ p → ∀ t ∈ (γ q).tx.tasks, t.id ∉ d.tx.deletedTasks) :
    Ledger strict σ' (update γ p d) := by
  have hframe : ∀ d : Duty, d.Valid σ → d.Valid σ' := fun d hd =>
    ⟨by rw [ht, he, hi]; exact hd.owed, by rw [ht]; exact hd.written, hd.written_ids, hd.added,
      hd.added_once⟩
  have howner : ∀ q i s, (update γ p d q).owed = some (i, s) → (γ q).owed = some (i, s) := by
    intro q i s hq
    by_cases hqp : q = p
    · subst hqp
      rw [update_self] at hq
      exact howed i s hq
    · rwa [update_of_ne hqp] at hq
  refine ⟨?_, ht ▸ h.ids, by rw [ht, hi]; exact h.issued, by rw [he, hi]; exact h.events_issued,
    he ▸ h.events_once, by rw [he, ht]; exact h.events_match, ?_, ?_, ?_, ?_⟩
  · refine (forall_update_iff γ fun q d => σ'.tx q = d.tx).mpr ⟨hself, fun q hq => ?_⟩
    rw [hother q hq, h.tx q]
  · exact (forall_update_iff γ fun q d => d.Valid σ').mpr
      ⟨hframe d hvalid, fun q _ => hframe _ (h.valid q)⟩
  · intro q q' i s s' hq hq'
    exact h.owed_once q q' i s s' (howner q i s hq) (howner q' i s' hq')
  · intro q q' hne t hmem
    by_cases hq : q = p
    · subst hq
      rw [update_self] at hmem
      rw [update_of_ne hne.symm]
      exact hmine q' hne.symm t hmem
    · rw [update_of_ne hq] at hmem
      by_cases hq' : q' = p
      · subst hq'
        rw [update_self]
        exact ⟨fun u hu hid => (hmine q hq u hu).1 t hmem hid.symm, htheirs q hq t hmem⟩
      · rw [update_of_ne hq']
        exact h.locked q q' hne t hmem
  · intro hs t htm hterm
    rw [ht] at htm
    rw [he]
    obtain hev | ⟨q, hq⟩ := h.complete hs t htm hterm
    · exact .inl hev
    · refine .inr ⟨q, ?_⟩
      by_cases hqp : q = p
      · subst hqp
        rw [update_self, hdrop hs, hq]
      · rw [update_of_ne hqp, hq]

/-- A program whose transaction is aborted gives up what it owes, unless the ledger is strict. -/
theorem rollback (h : Ledger false σ γ) (p : ℕ) : Ledger false (σ.rollback p) (update γ p {}) :=
  h.of_tx rfl rfl rfl (by simp) (fun q hq => Backend.tx_rollback_of_ne hq)
    ⟨by simp, by simp, by simp, by simp, by simp⟩ (by simp) (by simp) (by simp) (by simp)

/-- The open transaction writes nothing new to `tasks` and locks nothing. -/
theorem setTx (h : Ledger strict σ γ) {t : Tx} (htasks : t.tasks = (γ p).tx.tasks)
    (hdel : ∀ q, q ≠ p → ∀ r ∈ (γ q).tx.tasks, r.id ∉ t.deletedTasks)
    (hadded : ∀ e ∈ t.events, ∀ s, e.ends = some s →
      (∃ t ∈ (γ p).tx.tasks, t.id = e.taskId ∧ t.status = s) ∨
        (γ p).owed = some (e.taskId, s))
    (honce : t.events.Pairwise NotBothTerminal) :
    Ledger strict (σ.setTx p t) (update γ p { owed := (γ p).owed, tx := t }) := by
  refine h.of_tx rfl rfl rfl (by simp) (fun q hq => Backend.tx_setTx_of_ne hq t)
    ⟨(h.valid p).owed, ?_, ?_, ?_, honce⟩ (by simp) (by simp) ?_ hdel
  · simpa only [htasks] using (h.valid p).written
  · simpa only [htasks] using (h.valid p).written_ids
  · simpa only [htasks] using hadded
  · simpa only [htasks] using fun q hq => h.locked p q hq.symm

/-- The first statement of a transaction updates rows that nobody else locks, and ends their
tasks. -/
theorem setTx_tasks (h : Ledger strict σ γ) (hd : γ p = {}) {rows : List TaskSelect}
    (hids : (rows.map (·.id)).Nodup)
    (hrows : ∀ t ∈ rows, t.status.isTerminal = true ∧ σ.lockedByOther p t.id = false ∧
      ∃ r ∈ σ.tasks, r.id = t.id ∧ r.status.isTerminal = false) :
    Ledger strict (σ.setTx p { tasks := rows }) (update γ p { tx := { tasks := rows } }) := by
  refine h.of_tx rfl rfl rfl (by simp) (fun q hq => Backend.tx_setTx_of_ne hq _)
    ⟨by simp, fun t ht => ⟨(hrows t ht).1, (hrows t ht).2.2⟩, hids, by simp, by simp⟩ (by simp)
    (by simp [hd]) (fun q hq t ht => ?_) (by simp)
  have hheld := Backend.not_held_of_lockedByOther (hrows t ht).2.1 hq
  rwa [h.tx q] at hheld

/-! ### Outside transactions -/

/-- A new row has a new id, which no event and no duty mentions. -/
theorem insertTask (h : Ledger strict σ γ) {v : TaskInsert} {id : String}
    {t : TaskSelect} (hx : σ.insertTask p v id = some (.ok (t, σ'))) : Ledger strict σ' γ := by
  obtain ⟨-, hnew, -, -, rfl⟩ := Backend.insertTask_ok hx
  have hrow : ∀ t, t ∈ σ.tasks ++ [v.row id σ.clock] → t ∈ σ.tasks ∨ t = v.row id σ.clock := by
    simp
  refine ⟨h.tx, Table.nodup_append_key h.ids fun r hr (hid : r.id = id) =>
      hnew (hid ▸ h.issued r hr), ?_,
    fun e he ht => List.mem_cons_of_mem _ (h.events_issued e he ht), h.events_once, ?_, ?_,
    h.owed_once, h.locked, ?_⟩
  · intro t ht
    obtain ht | rfl := hrow t ht
    · exact List.mem_cons_of_mem _ (h.issued t ht)
    · exact List.mem_cons_self
  · intro e he s hs t ht hid
    obtain ht | rfl := hrow t ht
    · exact h.events_match e he s hs t ht hid
    · have hid : id = e.taskId := hid
      exact absurd (hid ▸ h.events_issued e he (by simp [hs])) hnew
  · intro q
    refine ⟨fun i s ho => ?_, fun t ht => ?_, (h.valid q).written_ids, (h.valid q).added,
      (h.valid q).added_once⟩
    · obtain ⟨hs, hi, hrows, hev⟩ := (h.valid q).owed i s ho
      refine ⟨hs, List.mem_cons_of_mem _ hi, fun t ht hid => ?_, hev⟩
      obtain ht | rfl := hrow t ht
      · exact hrows t ht hid
      · have hid : id = i := hid
        exact absurd (hid ▸ hi) hnew
    · obtain ⟨hterm, r, hr, hid, hnot⟩ := (h.valid q).written t ht
      exact ⟨hterm, r, List.mem_append_left _ hr, hid, hnot⟩
  · intro hs t ht hterm
    obtain ht | rfl := hrow t ht
    · exact h.complete hs t ht hterm
    · cases hterm

/-- Rows that no transaction has written may be deleted. -/
theorem deleteTask (h : Ledger strict σ γ) (hd : γ p = {}) {id : String} {u : Unit}
    (hx : σ.deleteTask p id = some (.ok (u, σ'))) : Ledger strict σ' γ := by
  obtain ⟨hlock, rfl⟩ := Backend.deleteTask_ok hx
  have hsub : ∀ t, t ∈ σ.tasks.filter (fun r => r.id != id) → t ∈ σ.tasks :=
    fun t ht => (List.mem_filter.mp ht).1
  refine ⟨h.tx, Table.nodup_filter_key h.ids _, fun t ht => h.issued t (hsub t ht),
    h.events_issued, h.events_once, fun e he s hs t ht => h.events_match e he s hs t (hsub t ht),
    fun q => ⟨fun i s ho => ?_, fun t ht => ?_, (h.valid q).written_ids, (h.valid q).added,
      (h.valid q).added_once⟩, h.owed_once, h.locked,
    fun hs t ht hterm => h.complete hs t (hsub t ht) hterm⟩
  · obtain ⟨hs, hi, hrows, hev⟩ := (h.valid q).owed i s ho
    exact ⟨hs, hi, fun t ht => hrows t (hsub t ht), hev⟩
  · obtain ⟨hterm, r, hr, hid, hnot⟩ := (h.valid q).written t ht
    refine ⟨hterm, r, List.mem_filter.mpr ⟨hr, ?_⟩, hid, hnot⟩
    by_cases hq : q = p
    · subst hq
      simp [hd] at ht
    · rw [← h.tx q] at ht
      rw [hid, bne_iff_ne]
      rintro hti
      exact (Backend.not_held_of_lockedByOther (hlock r hr (hid.trans hti)) hq).1 t ht hti

/-- A committed update of the rows with one id. The tasks that it ends are owed their event. -/
theorem updateRows (h : Ledger strict σ γ) (hd : γ p = {}) {id : String} {m : TaskSelect → Bool}
    {f : TaskSelect → TaskSelect} {owed : Option (String × TaskStatus)}
    (hm : ∀ r, m r = true → r.id = id) (hid : ∀ r, (f r).id = r.id)
    (hlock : σ.lockedByOther p id = false)
    (hkeep : ∀ r ∈ σ.tasks, m r = true → r.status.isTerminal = true → (f r).status = r.status)
    (howed : ∀ i s, owed = some (i, s) → i = id ∧ s.isTerminal = true ∧
      ∃ r ∈ σ.tasks, m r = true ∧ r.status.isTerminal = false ∧ (f r).status = s)
    (hends : strict = true → ∀ r ∈ σ.tasks, m r = true → r.status.isTerminal = false →
      (f r).status.isTerminal = true → owed = some (r.id, (f r).status)) :
    Ledger strict { σ with tasks := Table.update m f σ.tasks }
      (update γ p { owed := owed }) := by
  -- the row that the ledger speaks about, before and after the update
  have hrow : ∀ t ∈ Table.update m f σ.tasks, ∃ r ∈ σ.tasks, r.id = t.id ∧
      (t = r ∧ m r = false ∨ t = f r ∧ m r = true) := by
    intro t ht
    obtain ⟨r, hr, ⟨hmr, rfl⟩ | ⟨hmr, rfl⟩⟩ := Table.mem_update.mp ht
    · exact ⟨r, hr, (hid r).symm, .inr ⟨rfl, hmr⟩⟩
    · exact ⟨_, hr, rfl, .inl ⟨rfl, hmr⟩⟩
  have hended : ∀ t ∈ Table.update m f σ.tasks, ∀ s, s.isTerminal = true →
      (∀ r ∈ σ.tasks, r.id = t.id → r.status = s) → t.status = s := by
    intro t ht s hs hall
    obtain ⟨r, hr, hrid, ⟨rfl, -⟩ | ⟨rfl, hmr⟩⟩ := hrow t ht
    · exact hall _ hr rfl
    · have hrs := hall r hr hrid
      rw [hkeep r hr hmr (hrs ▸ hs), hrs]
  have hother : ∀ q, q ≠ p → ∀ s, (γ q).owed ≠ some (id, s) ∨ owed = none := by
    intro q _ s
    by_cases ho : owed = none
    · exact .inr ho
    · obtain ⟨⟨i, s'⟩, hs'⟩ := Option.ne_none_iff_exists'.mp ho
      obtain ⟨rfl, -, r, hr, hmr, hnot, -⟩ := howed i s' hs'
      refine .inl fun hq => ?_
      obtain ⟨hs, -, hrows, -⟩ := (h.valid q).owed _ s hq
      rw [hrows r hr (hm r hmr), hs] at hnot
      cases hnot
  refine ⟨?_, ?_, ?_, h.events_issued, h.events_once, ?_, ?_, ?_, ?_, ?_⟩
  · refine (forall_update_iff γ fun q d => σ.tx q = d.tx).mpr ⟨?_, fun q _ => h.tx q⟩
    rw [h.tx p, hd]
  · rw [Table.map_key_update hid]
    exact h.ids
  · intro t ht
    obtain ⟨r, hr, hrid, -⟩ := hrow t ht
    exact hrid ▸ h.issued r hr
  · intro e he s hs t ht hte
    exact hended t ht s (e.isTerminal_of_ends hs) fun r hr hrid =>
      h.events_match e he s hs r hr (hrid.trans hte)
  · refine (forall_update_iff γ fun q d => d.Valid _).mpr ⟨?_, fun q hq => ?_⟩
    · refine ⟨fun i s ho => ?_, by simp, by simp, by simp, by simp⟩
      obtain ⟨rfl, hs, r₀, hr₀, hm₀, hnot, hf₀⟩ := howed i s ho
      refine ⟨hs, hm r₀ hm₀ ▸ h.issued r₀ hr₀, fun t ht htid => ?_, fun e he hne heid => ?_⟩
      · obtain ⟨r, hr, hrid, hcase⟩ := hrow t ht
        obtain rfl : r = r₀ := Table.eq_of_key_eq h.ids hr hr₀ (by rw [hrid, htid, hm r₀ hm₀])
        obtain ⟨-, hmr⟩ | ⟨rfl, -⟩ := hcase
        · rw [hm₀] at hmr
          cases hmr
        · exact hf₀
      · obtain ⟨s', hs'⟩ := Option.ne_none_iff_exists'.mp hne
        rw [h.events_match e he s' hs' r₀ hr₀ ((hm r₀ hm₀).trans heid.symm),
          e.isTerminal_of_ends hs'] at hnot
        cases hnot
    · refine ⟨fun i s ho => ?_, fun t ht => ?_, (h.valid q).written_ids, (h.valid q).added,
        (h.valid q).added_once⟩
      · obtain ⟨hs, hi, hrows, hev⟩ := (h.valid q).owed i s ho
        exact ⟨hs, hi, fun t ht htid => hended t ht s hs fun r hr hrid =>
          hrows r hr (hrid.trans htid), hev⟩
      · obtain ⟨hterm, r, hr, hrid, hnot⟩ := (h.valid q).written t ht
        refine ⟨hterm, r, Table.mem_update.mpr ⟨r, hr, .inr ⟨?_, rfl⟩⟩, hrid, hnot⟩
        -- the row is locked by `q`, so the update does not match it
        by_contra hmr
        rw [← h.tx q] at ht
        exact (Backend.not_held_of_lockedByOther hlock hq).1 t ht
          (hrid.symm.trans (hm r (by simpa using hmr)))
  · intro q q' i s s' hq hq'
    by_cases hqp : q = p <;> by_cases hqp' : q' = p
    · rw [hqp, hqp']
    · subst hqp
      rw [update_self] at hq
      rw [update_of_ne hqp'] at hq'
      obtain ⟨rfl, -⟩ := howed i s hq
      obtain hne | hnone := hother q' hqp' s'
      · exact absurd hq' hne
      · simp [hnone] at hq
    · subst hqp'
      rw [update_self] at hq'
      rw [update_of_ne hqp] at hq
      obtain ⟨rfl, -⟩ := howed i s' hq'
      obtain hne | hnone := hother q hqp s
      · exact absurd hq hne
      · simp [hnone] at hq'
    · rw [update_of_ne hqp] at hq
      rw [update_of_ne hqp'] at hq'
      exact h.owed_once q q' i s s' hq hq'
  · intro q q' hne t ht
    by_cases hqp : q = p
    · subst hqp
      simp at ht
    · rw [update_of_ne hqp] at ht
      by_cases hqp' : q' = p
      · subst hqp'
        simp
      · rw [update_of_ne hqp']
        exact h.locked q q' hne t ht
  · intro hs t ht hterm
    obtain ⟨r, hr, hrid, hcase⟩ := hrow t ht
    have hold : r.status.isTerminal = true → t.status = r.status →
        (∃ e ∈ σ.events, e.taskId = t.id ∧ e.ends = some t.status) ∨
          ∃ q, (update γ p { owed := owed } q).owed = some (t.id, t.status) := by
      intro hrt hst
      rw [← hrid, hst]
      obtain hev | ⟨q, hq⟩ := h.complete hs r hr hrt
      · exact .inl hev
      · refine .inr ⟨q, ?_⟩
        by_cases hqp : q = p
        · subst hqp
          simp [hd] at hq
        · rwa [update_of_ne hqp]
    obtain ⟨rfl, -⟩ | ⟨rfl, hmr⟩ := hcase
    · exact hold hterm rfl
    · by_cases hrt : r.status.isTerminal = true
      · exact hold hrt (hkeep r hr hmr hrt)
      · refine .inr ⟨p, ?_⟩
        rw [update_self, hid]
        exact hends hs r hr hmr (by simpa using hrt) hterm

/-- A write of the program outside transactions matches nothing, or the task that it ends is owed
its event. -/
theorem updateTask (h : Ledger strict σ γ) (hd : γ p = {}) {id : String} {w : TaskWrite}
    {t : Option TaskSelect} (hx : σ.updateTask p id w = some (.ok (t, σ'))) :
    (t = none ∧ σ' = σ) ∨ ((∃ r ∈ σ.tasks, r.id = id ∧ w.Matches r = true) ∧ t ≠ none ∧
      Ledger strict σ' (update γ p { owed := w.ending.map fun s => (id, s) })) := by
  obtain ⟨rfl, rfl, -⟩ | ⟨r, hr, rfl, hm, hlock, -, rfl, rfl⟩ := Backend.updateTask_ok hx
  · exact .inl ⟨rfl, rfl⟩
  · refine .inr ⟨⟨r, hr, rfl, hm⟩, by simp, h.updateRows hd (fun _ => TaskWrite.id_of_where)
      (fun _ => rfl) hlock (fun r' _ hr' hterm => ?_) (fun i s ho => ?_)
      fun _ r' _ hr' hnot hterm => ?_⟩
    · obtain ⟨-, hm', hset⟩ := TaskWrite.of_where hr'
      rw [hset]
      exact (TaskWrite.sameOutcome_of_isTerminal hm' hterm).status
    · obtain ⟨s', hs', heq⟩ := Option.map_eq_some_iff.mp ho
      cases heq
      exact ⟨rfl, TaskWrite.isTerminal_of_ending hs', r, hr, hm,
        TaskWrite.not_isTerminal_of_ending hs' hm, TaskWrite.status_apply_of_ending hs' r⟩
    · obtain ⟨hid, -, hset⟩ := TaskWrite.of_where hr'
      rw [hset] at hterm ⊢
      cases hs : w.ending with
      | none =>
        rw [TaskWrite.isTerminal_apply_of_ending_eq_none hs hnot] at hterm
        cases hterm
      | some st =>
        rw [TaskWrite.status_apply_of_ending hs, hid]
        rfl

/-- Outside the strict ledger a program may forget what it owes. -/
theorem forget {owed : Option (String × TaskStatus)}
    (h : Ledger false σ (update γ p { owed := owed })) : Ledger false σ (update γ p {}) := by
  have htx : σ.tx p = {} := by rw [h.tx p, update_self]
  have hforget := h.of_tx (p := p) (d := {}) rfl rfl rfl htx (fun _ _ => rfl)
    ⟨by simp, by simp, by simp, by simp, by simp⟩ (by simp) (by simp) (by simp) (by simp)
  rwa [update_idem] at hforget

end Ledger

/-! ### Commits -/

/-- The transaction may commit, and nothing is owed afterwards: the event of every task that it
ends is with it, and so is the owed event; whose events it deletes, it deletes. -/
structure Duty.Settled (d : Duty) : Prop where
  ended : ∀ t ∈ d.tx.tasks, ∃ e ∈ d.tx.events, e.taskId = t.id ∧ e.ends = some t.status
  paid : ∀ i s, d.owed = some (i, s) → ∃ e ∈ d.tx.events, e.taskId = i ∧ e.ends = some s
  cleared : ∀ x ∈ d.tx.deletedEvents, x.1 ∈ d.tx.deletedTasks

namespace Ledger

/-- A committed row that a transaction leaves as it is, or the new version that it commits. -/
theorem commit_row (h : Ledger strict σ γ) {t : TaskSelect} (ht : t ∈ (σ.commit p).tasks) :
    ∃ r ∈ σ.tasks, r.id = t.id ∧ t.id ∉ (γ p).tx.deletedTasks ∧
      ((t = r ∧ ∀ u ∈ (γ p).tx.tasks, u.id ≠ t.id) ∨
        (t ∈ (γ p).tx.tasks ∧ r.status.isTerminal = false)) := by
  obtain ⟨r, hr, hdel, rfl⟩ := Backend.mem_commit_tasks.mp ht
  rw [h.tx p] at hdel ⊢
  refine ⟨r, hr, (Tx.newest_id _ r).symm, by rwa [Tx.newest_id], ?_⟩
  obtain ⟨hmem, hid⟩ | ⟨heq, hne⟩ := (γ p).tx.newest_cases r
  · obtain ⟨-, r', hr', hid', hnot⟩ := (h.valid p).written _ hmem
    obtain rfl := Table.eq_of_key_eq h.ids hr' hr (hid'.trans hid)
    exact .inr ⟨hmem, hnot⟩
  · rw [heq]
    exact .inl ⟨rfl, hne⟩

/-- A task that has ended before a commit keeps its row. -/
theorem commit_ended (h : Ledger strict σ γ) {t : TaskSelect} {s : TaskStatus}
    (ht : t ∈ (σ.commit p).tasks) (hs : s.isTerminal = true)
    (hall : ∀ r ∈ σ.tasks, r.id = t.id → r.status = s) : t.status = s := by
  obtain ⟨r, hr, hrid, -, ⟨rfl, -⟩ | ⟨-, hnot⟩⟩ := h.commit_row ht
  · exact hall _ hr rfl
  · rw [hall r hr hrid, hs] at hnot
    cases hnot

/-- The row of a task that a transaction has updated has not ended. -/
theorem exists_open_of_written (h : Ledger strict σ γ) {i : String}
    (hi : i ∈ (σ.tx p).tasks.map (·.id)) :
    ∃ r ∈ σ.tasks, r.id = i ∧ r.status.isTerminal = false := by
  obtain ⟨u, hu, rfl⟩ := List.mem_map.mp hi
  rw [h.tx p] at hu
  obtain ⟨-, r, hr, hrid, hopen⟩ := (h.valid p).written u hu
  exact ⟨r, hr, hrid, hopen⟩

/-- The commit of a transaction that has updated the row of a task ends the task. -/
theorem isTerminal_of_commit (h : Ledger strict σ γ) {t : TaskSelect}
    (ht : t ∈ (σ.commit p).tasks) (hi : t.id ∈ (σ.tx p).tasks.map (·.id)) :
    t.status.isTerminal = true := by
  obtain ⟨u, hu, hid⟩ := List.mem_map.mp hi
  rw [h.tx p] at hu
  obtain ⟨r, -, -, -, ⟨-, hnone⟩ | ⟨hmem, -⟩⟩ := h.commit_row ht
  · exact absurd hid (hnone u hu)
  · exact ((h.valid p).written t hmem).1

/-- A terminal event that a transaction has written is of a task without one. -/
theorem added_new (h : Ledger strict σ γ) {e e' : TaskEventSelect} (he : e ∈ σ.events)
    (he' : e' ∈ (γ p).tx.events) : NotBothTerminal e e' := by
  intro hne hne' htask
  obtain ⟨s, hs⟩ := Option.ne_none_iff_exists'.mp hne
  obtain ⟨s', hs'⟩ := Option.ne_none_iff_exists'.mp hne'
  obtain ⟨t, ht, hid, -⟩ | ho := (h.valid p).added e' he' s' hs'
  · obtain ⟨-, r, hr, hrid, hnot⟩ := (h.valid p).written t ht
    rw [h.events_match e he s hs r hr (by rw [hrid, hid, htask]), e.isTerminal_of_ends hs] at hnot
    cases hnot
  · exact ((h.valid p).owed _ s' ho).2.2.2 e he hne htask

/-- **Commits keep the ledger.** A settled transaction commits and owes nothing. -/
theorem commit (h : Ledger strict σ γ) (hset : (γ p).Settled) :
    Ledger strict (σ.commit p) (update γ p {}) := by
  have hevent : ∀ e, e ∈ (σ.commit p).events → e ∈ σ.events ∨ e ∈ (γ p).tx.events := by
    intro e he
    obtain ⟨he, -⟩ | he := Backend.mem_commit_events.mp he
    · exact .inl he
    · exact .inr (h.tx p ▸ he)
  have hissued : ∀ e ∈ (γ p).tx.events, e.ends ≠ none → e.taskId ∈ σ.issued := by
    intro e he hne
    obtain ⟨s, hs⟩ := Option.ne_none_iff_exists'.mp hne
    obtain ⟨t, ht, hid, -⟩ | ho := (h.valid p).added e he s hs
    · obtain ⟨-, r, hr, hrid, -⟩ := (h.valid p).written t ht
      exact hid ▸ hrid ▸ h.issued r hr
    · exact ((h.valid p).owed _ s ho).2.1
  refine ⟨?_, ?_, ?_, ?_, ?_, ?_, ?_, ?_, ?_, ?_⟩
  · refine (forall_update_iff γ fun q d => (σ.commit p).tx q = d.tx).mpr ⟨by simp, fun q hq => ?_⟩
    rw [Backend.tx_commit_of_ne hq, h.tx q]
  · have hmap : (σ.commit p).tasks.map (·.id) =
        (σ.tasks.filter fun r => !(σ.tx p).deletedTasks.contains r.id).map (·.id) := by
      simp [Backend.commit, Backend.committedTasks, Function.comp_def]
    rw [hmap]
    exact Table.nodup_filter_key h.ids _
  · intro t ht
    obtain ⟨r, hr, hrid, -⟩ := h.commit_row ht
    exact hrid ▸ h.issued r hr
  · intro e he hne
    obtain he | he := hevent e he
    · exact h.events_issued e he hne
    · exact hissued e he hne
  · refine List.pairwise_append.mpr ⟨h.events_once.sublist List.filter_sublist, ?_, ?_⟩
    · rw [h.tx p]
      exact (h.valid p).added_once
    · intro e he e' he'
      rw [h.tx p] at he'
      exact h.added_new (List.mem_filter.mp he).1 he'
  · intro e he s hs t ht hid
    obtain he | he := hevent e he
    · exact h.commit_ended ht (e.isTerminal_of_ends hs) fun r hr hrid =>
        h.events_match e he s hs r hr (hrid.trans hid)
    · obtain ⟨u, hu, huid, hus⟩ | ho := (h.valid p).added e he s hs
      · obtain ⟨r, hr, hrid, -, ⟨rfl, hne⟩ | ⟨hmem, -⟩⟩ := h.commit_row ht
        · exact absurd (huid.trans hid.symm) (hne u hu)
        · rw [Table.eq_of_key_eq (h.valid p).written_ids hmem hu (hid.trans huid.symm)]
          exact hus
      · obtain ⟨hterm, -, hrows, -⟩ := (h.valid p).owed _ s ho
        exact h.commit_ended ht hterm fun r hr hrid => hrows r hr (hrid.trans hid)
  · refine (forall_update_iff γ fun q d => d.Valid (σ.commit p)).mpr
      ⟨⟨by simp, by simp, by simp, by simp, by simp⟩, fun q hq => ?_⟩
    refine ⟨fun i s ho => ?_, fun t ht => ?_, (h.valid q).written_ids, (h.valid q).added,
      (h.valid q).added_once⟩
    · obtain ⟨hterm, hi, hrows, hev⟩ := (h.valid q).owed i s ho
      refine ⟨hterm, hi, fun t ht hid => h.commit_ended ht hterm fun r hr hrid =>
        hrows r hr (hrid.trans hid), fun e he hne hid => ?_⟩
      obtain he | he := hevent e he
      · exact hev e he hne hid
      · obtain ⟨s', hs'⟩ := Option.ne_none_iff_exists'.mp hne
        obtain ⟨t, ht, htid, -⟩ | ho' := (h.valid p).added e he s' hs'
        · exact h.not_written_of_owed ho ht (htid.trans hid)
        · rw [hid] at ho'
          exact hq (h.owed_once q p i s s' ho ho')
    · obtain ⟨hterm, r, hr, hrid, hnot⟩ := (h.valid q).written t ht
      obtain ⟨hfree, hdel⟩ := h.locked q p hq t ht
      refine ⟨hterm, r, Backend.mem_commit_tasks.mpr ⟨r, hr, ?_, ?_⟩, hrid, hnot⟩
      · rwa [h.tx p, hrid]
      · rw [h.tx p]
        obtain ⟨hmem, hid⟩ | ⟨heq, -⟩ := (γ p).tx.newest_cases r
        · exact absurd (hid.trans hrid) (hfree _ hmem)
        · exact heq
  · intro q q' i s s' hq hq'
    have hold : ∀ q i s, (update γ p {} q).owed = some (i, s) → (γ q).owed = some (i, s) := by
      intro q i s hq
      by_cases hqp : q = p
      · subst hqp
        simp at hq
      · rwa [update_of_ne hqp] at hq
    exact h.owed_once q q' i s s' (hold q i s hq) (hold q' i s' hq')
  · intro q q' hne t ht
    by_cases hqp : q = p
    · subst hqp
      simp at ht
    · rw [update_of_ne hqp] at ht
      by_cases hqp' : q' = p
      · subst hqp'
        simp
      · rw [update_of_ne hqp']
        exact h.locked q q' hne t ht
  · intro hs t ht hterm
    have hadded : ∀ e ∈ (γ p).tx.events, e ∈ (σ.commit p).events := fun e he =>
      Backend.mem_commit_events.mpr (.inr (by rwa [h.tx p]))
    obtain ⟨r, hr, hrid, hdel, ⟨rfl, -⟩ | ⟨hmem, -⟩⟩ := h.commit_row ht
    · obtain ⟨e, he, hid, hes⟩ | ⟨q, hq⟩ := h.complete hs t hr hterm
      · refine .inl ⟨e, Backend.mem_commit_events.mpr (.inl ⟨he, fun hmem => ?_⟩), hid, hes⟩
        rw [h.tx p] at hmem
        exact hdel (hid ▸ hset.cleared _ hmem)
      · by_cases hqp : q = p
        · subst hqp
          obtain ⟨e, he, hid, hes⟩ := hset.paid _ _ hq
          exact .inl ⟨e, hadded e he, hid, hes⟩
        · exact .inr ⟨q, by rwa [update_of_ne hqp]⟩
    · obtain ⟨e, he, hid, hes⟩ := hset.ended t hmem
      exact .inl ⟨e, hadded e he, hid, hes⟩

end Ledger

end LongRequestProxy
