import LongRequestProxy.Idempotency.SlotLedger
import LongRequestProxy.Tasks.Rows

/-!
# Slots and rows

As long as no slot expires under a creation at work, the slots in Redis and the rows in Postgres
stay in step: a committed slot names an existing row with its key, and a creation at work still
has the slot that it took and the row that it inserted.

## Main definitions

* `RowInv`: the invariant.
* `Backend.retiresFinished`: what retention has to respect.

## Main results

* `RowInv.insertTask`, `RowInv.deleteTask`, `RowInv.commit`: changes of the rows.
* `RowInv.setKey`: changes of a slot.
* `RowInv.id_of_hasKeyedRow`: a row with a key is the only one.
-/

namespace LongRequestProxy

open Function

/-- A row with the given id exists, and its key is the one of the slot `k`. -/
def Backend.HasKeyedRow (σ : Backend) (k id : String) : Prop :=
  ∃ r ∈ σ.tasks, r.id = id ∧ r.idempotencyKey.map redisKey = some k

/-- The rows, as long as no slot expires under a creation at work. -/
structure RowInv (σ : Backend) (γ : ℕ → Stage) : Prop where
  keyed : σ.Keyed
  /-- The unique index. -/
  keys : σ.tasks.Pairwise fun r r' =>
    r.idempotencyKey ≠ none → r.idempotencyKey ≠ r'.idempotencyKey
  inserted : ∀ p id, (p, id) ∈ σ.inserted → isUuid id = true ∧ id ∈ σ.issued
  inserted_once : ∀ p q id, (p, id) ∈ σ.inserted → (q, id) ∈ σ.inserted → p = q
  /-- A live entry is a sentinel, or the id of an existing row that its writer has inserted. -/
  committed : ∀ k e, σ.lookup k = some e →
    e.value = pendingSentinel ∨ (e.writer, e.value) ∈ σ.inserted ∧ σ.HasKeyedRow k e.value
  working : ∀ p slot row, γ p = .working slot row →
    (∀ id, row = some id → (p, id) ∈ σ.inserted) ∧
      ∀ k u, slot = some (k, u) → σ.clock < u ∧ ∀ id, row = some id → σ.HasKeyedRow k id
  returned : ∀ p k id, γ p = .returned k id →
    id ∈ σ.issued ∧ ∀ r ∈ σ.tasks, r.id = id → r.idempotencyKey.map redisKey = some k

variable {σ σ' : Backend} {γ : ℕ → Stage} {p : ℕ} {g : Stage} {key : String}

theorem Backend.hasRow_iff {k id : String} :
    σ.HasKeyedRow k id ↔
      ∃ x ∈ σ.tasks.map TaskSelect.idKey, x.1 = id ∧ x.2.map redisKey = some k := by
  simp [Backend.HasKeyedRow, TaskSelect.idKey]

/-- Two rows with one key are one row. -/
theorem eq_of_idempotencyKey {T : List TaskSelect} (h : T.Pairwise fun r r' =>
    r.idempotencyKey ≠ none → r.idempotencyKey ≠ r'.idempotencyKey) {r r' : TaskSelect}
    {k : String} (hr : r ∈ T) (hr' : r' ∈ T) (hk : r.idempotencyKey = some k)
    (hk' : r'.idempotencyKey = some k) : r = r' := by
  induction h with
  | nil => cases hr
  | cons hhead _ ih =>
    rcases List.mem_cons.mp hr with rfl | hmem <;> rcases List.mem_cons.mp hr' with rfl | hmem'
    · rfl
    · exact absurd (hk.trans hk'.symm) (hhead _ hmem' (by simp [hk]))
    · exact absurd (hk'.trans hk.symm) (hhead _ hmem (by simp [hk']))
    · exact ih hmem hmem'

namespace RowInv

theorem initial (clock : Timestamp) : RowInv { clock := clock } fun _ => .working none none := by
  refine ⟨⟨fun _ => none, ?_, ?_⟩, ?_, ?_, ?_, ?_, ?_, ?_⟩ <;> simp [Backend.lookup, Backend.tx]

/-- Rows may be updated, and those may be deleted that no live entry and no creation at work
stands for. -/
theorem of_rows (h : RowInv σ γ) (hkeyed : σ'.Keyed)
    (hsub : (σ'.tasks.map TaskSelect.idKey).Sublist (σ.tasks.map TaskSelect.idKey))
    (hr : σ'.redis = σ.redis) (hclock : σ'.clock = σ.clock) (hi : σ'.issued = σ.issued)
    (hins : σ'.inserted = σ.inserted)
    (hlive : ∀ k e, σ.lookup k = some e → (e.writer, e.value) ∈ σ.inserted →
      σ.HasKeyedRow k e.value → σ'.HasKeyedRow k e.value)
    (hwork : ∀ p k u id, γ p = .working (some (k, u)) (some id) → σ.HasKeyedRow k id →
      σ'.HasKeyedRow k id) : RowInv σ' γ := by
  have hlookup : ∀ k, σ'.lookup k = σ.lookup k := fun k => by
    simp only [Backend.lookup, hr, hclock]
  refine ⟨hkeyed, ?_, by rw [hins, hi]; exact h.inserted, by rw [hins]; exact h.inserted_once,
    ?_, ?_, ?_⟩
  · have hkeys := (List.pairwise_map (f := TaskSelect.idKey)
      (R := fun x y => x.2 ≠ none → x.2 ≠ y.2)).mpr h.keys
    exact (List.pairwise_map (f := TaskSelect.idKey)
      (R := fun x y => x.2 ≠ none → x.2 ≠ y.2)).mp (hkeys.sublist hsub)
  · intro k e he
    rw [hlookup] at he
    obtain hs | ⟨hmem, hrow⟩ := h.committed k e he
    · exact .inl hs
    · exact .inr ⟨hins ▸ hmem, hlive k e he hmem hrow⟩
  · intro p slot row hp
    obtain ⟨hmem, hslot⟩ := h.working p slot row hp
    refine ⟨by rw [hins]; exact hmem, fun k u hk => ?_⟩
    obtain ⟨hlt, hrow⟩ := hslot k u hk
    subst hk
    exact ⟨hclock ▸ hlt, fun id hid => hwork p k u id (hid ▸ hp) (hrow id hid)⟩
  · intro p k id hp
    obtain ⟨hid, hrows⟩ := h.returned p k id hp
    refine ⟨hi ▸ hid, fun r hr hrid => ?_⟩
    obtain ⟨r₀, hr₀, heq⟩ := List.mem_map.mp (hsub.subset (List.mem_map_of_mem hr))
    obtain ⟨hid₀, hkey₀⟩ := Prod.mk.inj heq
    rw [← hkey₀]
    exact hrows r₀ hr₀ (hid₀.trans hrid)

/-- A change of the state that the invariant does not look at, or an update of rows. -/
theorem of_frame (h : RowInv σ γ) (hkeyed : σ'.Keyed)
    (ht : σ'.tasks.map TaskSelect.idKey = σ.tasks.map TaskSelect.idKey)
    (hr : σ'.redis = σ.redis) (hclock : σ'.clock = σ.clock) (hi : σ'.issued = σ.issued)
    (hins : σ'.inserted = σ.inserted) : RowInv σ' γ := by
  have hrow : ∀ k id, σ.HasKeyedRow k id → σ'.HasKeyedRow k id := fun k id => by
    rw [Backend.hasRow_iff, Backend.hasRow_iff, ht]
    exact fun h => h
  exact h.of_rows hkeyed (ht ▸ List.Sublist.refl _) hr hclock hi hins (fun k e _ _ => hrow k _)
    fun p k u id _ => hrow k id

/-- The clock moves on, but not past the slot of a creation at work. -/
theorem tick (h : RowInv σ γ) {t : Timestamp} (ht : σ.clock ≤ t)
    (hslot : ∀ p k u row, γ p = .working (some (k, u)) row → t < u) :
    RowInv { σ with clock := t } γ := by
  refine ⟨h.keyed.of_frame rfl rfl rfl, h.keys, h.inserted, h.inserted_once,
    fun k e he => h.committed k e ?_, ?_, h.returned⟩
  · obtain ⟨he, hlive⟩ := Backend.lookup_eq_some_iff.mp he
    refine Backend.lookup_eq_some_iff.mpr ⟨he, ?_⟩
    unfold RedisEntry.alive at hlive ⊢
    cases hx : e.expireAt with
    | none => rfl
    | some u =>
      have hlt : t < u := by simpa [hx] using hlive
      simpa using Int.lt_of_le_of_lt ht hlt
  · intro p slot row hp
    obtain ⟨hmem, hk⟩ := h.working p slot row hp
    refine ⟨hmem, fun k u hku => ⟨?_, (hk k u hku).2⟩⟩
    subst hku
    exact hslot p k u row hp

/-- A creation changes its stage: it forgets its row, or returns. -/
theorem setStage (h : RowInv σ γ)
    (hg : ∀ slot row, g = .working slot row →
      (∀ id, row = some id → (p, id) ∈ σ.inserted) ∧
        ∀ k u, slot = some (k, u) → σ.clock < u ∧ ∀ id, row = some id → σ.HasKeyedRow k id)
    (hret : ∀ k id, g = .returned k id →
      id ∈ σ.issued ∧ ∀ r ∈ σ.tasks, r.id = id → r.idempotencyKey.map redisKey = some k) :
    RowInv σ (update γ p g) := by
  refine ⟨h.keyed, h.keys, h.inserted, h.inserted_once, h.committed, ?_, ?_⟩
  · exact (forall_update_iff γ fun q g => ∀ slot row, g = .working slot row →
      (∀ id, row = some id → (q, id) ∈ σ.inserted) ∧
        ∀ k u, slot = some (k, u) → σ.clock < u ∧ ∀ id, row = some id → σ.HasKeyedRow k id).mpr
      ⟨hg, fun q _ => h.working q⟩
  · exact (forall_update_iff γ fun q g => ∀ k id, g = .returned k id →
      id ∈ σ.issued ∧ ∀ r ∈ σ.tasks, r.id = id → r.idempotencyKey.map redisKey = some k).mpr
      ⟨hret, fun q _ => h.returned q⟩

/-- A creation inserts its row. -/
theorem insertTask (h : RowInv σ γ) {v : TaskInsert} {id : String} {t : TaskSelect}
    {slot : Option (String × Timestamp)} (hp : γ p = .working slot none)
    (hv : ∀ k u, slot = some (k, u) → v.idempotencyKey.map redisKey = some k)
    (hkeyed : σ'.Keyed) (hx : σ.insertTask p v id = some (.ok (t, σ'))) :
    RowInv σ' (update γ p (.working slot (some id))) := by
  obtain ⟨huuid, hnew, hkey, -, rfl⟩ := Backend.insertTask_ok hx
  have hrow : ∀ k id, σ.HasKeyedRow k id → Backend.HasKeyedRow { σ with
      tasks := σ.tasks ++ [v.row id σ.clock], issued := id :: σ.issued,
      inserted := (p, id) :: σ.inserted } k id :=
    fun k id ⟨r, hr, hrow⟩ => ⟨r, List.mem_append_left _ hr, hrow⟩
  refine ⟨hkeyed, ?_, ?_, ?_, ?_, ?_, ?_⟩
  · refine List.pairwise_append.mpr ⟨h.keys, List.pairwise_singleton _ _, fun r hr r' hr' hne => ?_⟩
    obtain rfl := List.mem_singleton.mp hr'
    exact hkey r hr hne
  · intro q id' hmem
    rcases List.mem_cons.mp hmem with heq | hmem
    · cases heq
      exact ⟨huuid, List.mem_cons_self⟩
    · obtain ⟨hu, hi⟩ := h.inserted q id' hmem
      exact ⟨hu, List.mem_cons_of_mem _ hi⟩
  · have hfresh : ∀ q, (q, id) ∉ σ.inserted := fun q hq => hnew (h.inserted q id hq).2
    intro q q' id' hq hq'
    rcases List.mem_cons.mp hq with heq | hq <;> rcases List.mem_cons.mp hq' with heq' | hq'
    · exact (Prod.mk.inj heq).1.trans (Prod.mk.inj heq').1.symm
    · exact absurd ((Prod.mk.inj heq).2 ▸ hq') (hfresh q')
    · exact absurd ((Prod.mk.inj heq').2 ▸ hq) (hfresh q)
    · exact h.inserted_once q q' id' hq hq'
  · intro k e he
    obtain hs | ⟨hmem, r, hr, hrow⟩ := h.committed k e he
    · exact .inl hs
    · exact .inr ⟨List.mem_cons_of_mem _ hmem, r, List.mem_append_left _ hr, hrow⟩
  · intro q slot' row hq
    by_cases hqp : q = p
    · subst hqp
      rw [update_self] at hq
      cases hq
      refine ⟨fun id' hid => ?_, fun k u hk => ⟨((h.working q slot none hp).2 k u hk).1, ?_⟩⟩
      · cases hid
        exact List.mem_cons_self
      · rintro id' hid
        cases hid
        exact ⟨_, List.mem_append_right _ List.mem_cons_self, rfl, hv k u hk⟩
    · rw [update_of_ne hqp] at hq
      obtain ⟨hmem, hslot⟩ := h.working q slot' row hq
      refine ⟨fun id' hid => List.mem_cons_of_mem _ (hmem id' hid), fun k u hk => ?_⟩
      obtain ⟨hlt, hex⟩ := hslot k u hk
      refine ⟨hlt, fun id' hid => ?_⟩
      obtain ⟨r, hr, hrow⟩ := hex id' hid
      exact ⟨r, List.mem_append_left _ hr, hrow⟩
  · intro q k id' hq
    by_cases hqp : q = p
    · subst hqp
      simp at hq
    · rw [update_of_ne hqp] at hq
      obtain ⟨hi, hrows⟩ := h.returned q k id' hq
      refine ⟨List.mem_cons_of_mem _ hi, fun r hr hrid => ?_⟩
      rcases List.mem_append.mp hr with hr | hr
      · exact hrows r hr hrid
      · obtain rfl := List.mem_singleton.mp hr
        have hid : id = id' := hrid
        exact absurd (hid ▸ hi) hnew

/-! ### Deletions -/

theorem hasRow_of_filter {keep : TaskSelect → Bool} {k id : String}
    (ht : σ'.tasks.map TaskSelect.idKey = (σ.tasks.filter keep).map TaskSelect.idKey)
    (hkeep : ∀ r : TaskSelect, r.id = id → keep r = true) (h : σ.HasKeyedRow k id) :
    σ'.HasKeyedRow k id := by
  obtain ⟨r, hr, hid, hkey⟩ := h
  rw [Backend.hasRow_iff, ht]
  exact ⟨_, List.mem_map_of_mem (List.mem_filter.mpr ⟨hr, hkeep r hid⟩), hid, hkey⟩

/-- A creation deletes its row. -/
theorem deleteTask (h : RowInv σ γ) (hs : SlotInv σ γ) {id : String} {u : Unit}
    {slot : Option (String × Timestamp)} (hp : γ p = .working slot (some id))
    (hkeyed : σ'.Keyed) (hx : σ.deleteTask p id = some (.ok (u, σ'))) :
    RowInv σ' (update γ p (.working slot none)) := by
  obtain ⟨-, rfl⟩ := Backend.deleteTask_ok hx
  obtain ⟨hmine, hslot⟩ := h.working p slot _ hp
  have hkeep : ∀ id', id' ≠ id → ∀ r : TaskSelect, r.id = id' → (r.id != id) = true := by
    intro id' hne r hr
    simpa [hr] using hne
  have h' : RowInv σ (update γ p (.working slot none)) := by
    refine h.setStage (fun slot' row hg => ?_) fun k id' hg => by cases hg
    cases hg
    refine ⟨by simp, fun k u hk => ⟨(hslot k u hk).1, by simp⟩⟩
  refine h'.of_rows hkeyed (List.filter_sublist.map _) rfl rfl rfl rfl
    (fun k e he hmem => hasRow_of_filter rfl (hkeep _ ?_))
    fun q k u id' hq => hasRow_of_filter rfl (hkeep _ ?_)
  · -- a live entry with this id would be the creation's own, which is still the sentinel
    intro heq
    rw [heq] at hmem
    have hwriter := h.inserted_once _ _ _ hmem (hmine id rfl)
    have hvalue := hs.value_of_working he (hwriter ▸ hp)
    have huuid := (h.inserted _ _ hmem).1
    rw [← heq, hvalue] at huuid
    exact absurd huuid (by decide)
  · rintro rfl
    by_cases hqp : q = p
    · subst hqp
      simp at hq
    · rw [update_of_ne hqp] at hq
      exact hqp (h.inserted_once q p _ ((h.working q _ _ hq).1 _ rfl) (hmine _ rfl))

end RowInv

/-- The slot that a creation has taken is still its own live entry. -/
def Backend.slotAlive (σ : Backend) (p : ℕ) : Bool :=
  σ.acquired.any fun y => y.1 == p && (σ.lookup y.2.1).any fun e => e.writer == p

/-- The transaction of program `p` deletes no row whose slot is alive. -/
def Backend.retiresFinished (σ : Backend) (p : ℕ) : Bool :=
  σ.inserted.all fun x => !(σ.tx p).deletedTasks.contains x.2 || !σ.slotAlive x.1

theorem SlotInv.slotAlive (hs : SlotInv σ γ) {k : String} {e : RedisEntry}
    (he : σ.lookup k = some e) : σ.slotAlive e.writer = true := by
  obtain ⟨u, -, hmem, -⟩ := hs.ttl k e (Backend.lookup_eq_some_iff.mp he).1
  exact List.any_eq_true.mpr ⟨_, hmem, by simp [he]⟩

namespace RowInv

/-- A transaction commits. -/
theorem commit (h : RowInv σ γ) (hs : SlotInv σ γ) (hkeyed : (σ.commit p).Keyed)
    (hret : σ.retiresFinished p = true) : RowInv (σ.commit p) γ := by
  have hkeep : ∀ q id, (q, id) ∈ σ.inserted → σ.slotAlive q = true → ∀ r : TaskSelect, r.id = id →
      (!(σ.tx p).deletedTasks.contains r.id) = true := by
    intro q id hmem halive r hid
    have := List.all_eq_true.mp hret _ hmem
    simpa [hid, halive] using this
  have ht := h.keyed.commit_idKey (p := p)
  refine h.of_rows hkeyed (ht ▸ List.filter_sublist.map _) rfl rfl rfl rfl
    (fun k e he hmem => hasRow_of_filter ht (hkeep _ _ hmem (hs.slotAlive he)))
    fun q k u id hq => hasRow_of_filter ht ?_
  obtain ⟨hmine, hslot⟩ := h.working q _ _ hq
  have hown := hs.lookup_own hq (hslot k u rfl).1
  exact hkeep q id (hmine id rfl) (hs.slotAlive hown)

/-! ### Slots -/

/-- The entry under a key is replaced or deleted. -/
theorem setKey (h : RowInv σ γ) {e : Option RedisEntry}
    (hnew : ∀ e₁, e = some e₁ → e₁.value = pendingSentinel ∨
      (e₁.writer, e₁.value) ∈ σ.inserted ∧ σ.HasKeyedRow key e₁.value) :
    RowInv (σ.setKey key e) γ := by
  refine ⟨h.keyed.of_frame rfl rfl rfl, h.keys, h.inserted, h.inserted_once, fun k e₁ he => ?_,
    h.working, h.returned⟩
  by_cases hk : k = key
  · subst hk
    rw [Backend.lookup_setKey_self, Option.filter_eq_some_iff] at he
    exact hnew e₁ he.1
  · rw [Backend.lookup_setKey_of_ne hk] at he
    exact h.committed k e₁ he

/-- A row with a key is the only one. -/
theorem id_of_hasKeyedRow (h : RowInv σ γ) {id : String} (hrow : σ.HasKeyedRow (redisKey key) id)
    {r : TaskSelect} (hr : r ∈ σ.tasks) (hkey : r.idempotencyKey = some key) : r.id = id := by
  obtain ⟨r₀, hr₀, rfl, hkey₀⟩ := hrow
  obtain ⟨key', hk', hkeq⟩ := Option.map_eq_some_iff.mp hkey₀
  rw [redisKey_inj.mp hkeq] at hk'
  rw [eq_of_idempotencyKey h.keys hr hr₀ hkey hk']

/-- The rows with the id of an existing row have its key. -/
theorem key_of_hasKeyedRow (h : RowInv σ γ) {k id : String} (hrow : σ.HasKeyedRow k id)
    {r : TaskSelect} (hr : r ∈ σ.tasks) (hid : r.id = id) :
    r.idempotencyKey.map redisKey = some k := by
  obtain ⟨r₀, hr₀, hid₀, hkey₀⟩ := hrow
  rw [h.keyed.idempotencyKey_eq hr hr₀ (hid.trans hid₀.symm), hkey₀]

end RowInv

end LongRequestProxy
