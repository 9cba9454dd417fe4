import LongRequestProxy.Idempotency.Sequential

/-!
# Retries of a creation

What a failed creation leaves behind decides whether a retry can succeed: the key must stay locked
as long as the row exists.

## Main results

* `free_slot_without_row_iff`: the faults after which a free slot means that there is no row.
* `failed_rollback_frees_slot`: the double fault after which it does not.
-/

namespace LongRequestProxy

open Async Function

variable {p : ℕ} {o : Await → Oracle} {f : CreateFaults} {σ σ' : Backend} {dto : CreateTaskDto}
  {key : String}

/-! ### After one creation -/

theorem filter_key (hdto : dto.idempotencyKey = some key) (hkey : key ≠ "") :
    dto.idempotencyKey.filter (· ≠ "") = some key := by
  simp [hdto, hkey]

theorem Backend.lookup_occupied : (σ.occupied p (redisKey key)).lookup (redisKey key) =
    some ⟨pendingSentinel, some (σ.clock + slotTtl), p⟩ := by
  have hlt : σ.clock < σ.clock + slotTtl := Int.lt_add_of_pos_right _ (by decide)
  refine Backend.lookup_eq_some_iff.mpr ⟨?_, ?_⟩
  · simp [Backend.occupied, Backend.setKey]
  · exact decide_eq_true hlt

@[simp] theorem released_tasks {okey : Option String} :
    (released p f okey σ).tasks = σ.tasks := by
  unfold released
  cases okey with
  | none => rfl
  | some key => dsimp only; split <;> rfl

theorem lookup_released : (released p f (some key) σ).lookup (redisKey key) =
    if f.releaseSlot then σ.lookup (redisKey key) else none := by
  unfold released
  dsimp only
  split
  · rfl
  · rw [Backend.lookup_setKey_self]
    rfl

/-- A commit leaves a live entry alive. -/
theorem lookup_committed (id : String) {e : RedisEntry} (he : σ.lookup (redisKey key) = some e) :
    ∃ e', (committed p f (some key) id σ).lookup (redisKey key) = some e' ∧
      e'.expireAt = e.expireAt ∧ (f.commitResult = false → e'.value = id) := by
  unfold committed
  dsimp only
  split
  · next hf => exact ⟨e, he, rfl, by simp [hf]⟩
  · refine ⟨⟨id, e.expireAt, p⟩, ?_, rfl, fun _ => rfl⟩
    have halive := (Backend.lookup_eq_some_iff.mp he).2
    rw [he, Backend.lookup_setKey_self]
    simpa [Option.filter_eq_some_iff, RedisEntry.alive] using halive

/-- The row that a creation inserts. -/
def Backend.newRow (σ : Backend) (o : Await → Oracle) (dto : CreateTaskDto) : TaskSelect :=
  (dto.values (o .now).time ((o .randomUUID).uuid 0)).row (insertedId o dto) σ.clock

@[simp] theorem Backend.newRow_id : (σ.newRow o dto).id = insertedId o dto := rfl

@[simp] theorem Backend.newRow_idempotencyKey :
    (σ.newRow o dto).idempotencyKey = dto.idempotencyKey := rfl

/-- The state after the INSERT of a creation. -/
def Backend.withRow (σ : Backend) (p : ℕ) (o : Await → Oracle) (dto : CreateTaskDto) : Backend :=
  { σ with
    tasks := σ.tasks ++ [σ.newRow o dto]
    issued := insertedId o dto :: σ.issued
    inserted := (p, insertedId o dto) :: σ.inserted }

theorem answer_insert (hfresh : σ.Fresh p (insertedId o dto)) (hf : f.insert = false)
    (hrow : ∀ r ∈ σ.tasks, r.idempotencyKey ≠ none → r.idempotencyKey ≠ dto.idempotencyKey) :
    answer p o f σ (insertCall o dto) = some (.ok (σ.newRow o dto), σ.withRow p o dto) := by
  have hmiss : f.hits (insertCall o dto) = false := hf
  have hins := hfresh.insertTask (v := dto.values (o .now).time ((o .randomUUID).uuid 0)) hrow
  refine (answer_of_not_hits hmiss).trans ?_
  simp only [insertCall, exec]
  change Option.map _ (σ.insertTask p _ (insertedId o dto)) = _
  rw [hins]
  rfl

/-- The row of a creation has its key, and no other row has it when no row had it before. -/
theorem mem_withRow {r : TaskSelect} :
    r ∈ (σ.withRow p o dto).tasks ↔ r ∈ σ.tasks ∨ r = σ.newRow o dto := by
  simp [Backend.withRow]

/-- **After a failed creation.** A creation that starts with a free slot and no row settles, and
leaves no row under a free slot, unless its enqueue and the deletion of its row have both failed
and the slot was released nevertheless. -/
theorem free_slot_without_row_iff (p : ℕ) (o : Await → Oracle) (f : CreateFaults) (σ : Backend)
    (dto : CreateTaskDto) (baseUrl key : String) (hdto : dto.idempotencyKey = some key)
    (hkey : key ≠ "") (hfresh : σ.Fresh p (insertedId o dto))
    (hfree : σ.lookup (redisKey key) = none)
    (hrow : ∀ r ∈ σ.tasks, r.idempotencyKey ≠ some key) :
    ∃ res σ', (TasksService.create dto baseUrl).run.runAlone (answer p o f) σ = some (res, σ') ∧
      ((σ'.lookup (redisKey key) = none → ∀ r ∈ σ'.tasks, r.idempotencyKey ≠ some key) ↔
        ¬ (f.insert = false ∧ f.enqueue = true ∧ f.deleteById = true ∧ f.releaseSlot = false)) := by
  rw [create_runAlone_of_free (filter_key hdto hkey) hfree]
  have hfresh₀ : (σ.occupied p (redisKey key)).Fresh p (insertedId o dto) :=
    ⟨hfresh.isUuid, hfresh.issued, hfresh.locked⟩
  have hslot : (σ.occupied p (redisKey key)).lookup (redisKey key) =
    some ⟨pendingSentinel, some (σ.clock + slotTtl), p⟩ := Backend.lookup_occupied
  cases hi : f.insert with
  | true =>
    have hhit : f.hits (insertCall o dto) = true := hi
    refine ⟨_, _, createTask_runAlone_of_refused (answer_of_hits rfl hhit), ?_⟩
    refine iff_of_true (fun _ => ?_) (by simp)
    rw [released_tasks]
    exact hrow
  | false =>
    have hins := answer_insert (σ := σ.occupied p (redisKey key)) hfresh₀ hi
      fun r hr _ => by rw [hdto]; exact hrow r hr
    have hrun := createTask_runAlone_of_inserted baseUrl (some key) hins hfresh.locked
    cases he : f.enqueue with
    | false =>
      rw [he, if_neg Bool.false_ne_true] at hrun
      refine ⟨_, _, hrun, ?_⟩
      refine iff_of_true (fun hnone => ?_) (by simp)
      obtain ⟨e, hcommitted, -⟩ := lookup_committed (p := p) (f := f)
        (σ := ((σ.occupied p (redisKey key)).withRow p o dto).withDispatch
          ((σ.occupied p (redisKey key)).newRow o dto)) (insertedId o dto) hslot
      exact absurd (hcommitted.symm.trans hnone) (by simp)
    | true =>
      rw [he, if_pos rfl] at hrun
      refine ⟨_, _, hrun, ?_⟩
      unfold rolledBack
      rw [lookup_released, released_tasks]
      cases hd : f.deleteById with
      | false =>
        refine iff_of_true (fun _ r hr => ?_) (by simp)
        obtain ⟨hr, hid⟩ := List.mem_filter.mp hr
        obtain hold | rfl := mem_withRow.mp hr
        · exact hrow r hold
        · simp at hid
      | true =>
        cases hrel : f.releaseSlot with
        | true =>
          refine iff_of_true (fun hnone => ?_) (by simp)
          rw [if_pos rfl] at hnone
          exact absurd (hslot.symm.trans hnone) (by simp)
        | false =>
          refine iff_of_false (fun h => ?_) (by simp)
          exact h rfl _ (mem_withRow (p := p).mpr (.inr rfl)) (by simp [hdto])

/-- A creation request with a key. -/
def dtoWith (key : String) : CreateTaskDto := { sampleDto with idempotencyKey := some key }

/-- Servers that generate `sampleId`. -/
def sampleOracle (_ : Await) : Oracle := { uuid := fun _ => sampleId }

/-- The enqueue fails and the row is deleted: a retry can create the task. -/
theorem retry_after_failed_enqueue :
    ∃ res σ', (TasksService.create (dtoWith "k") "http://proxy").run.runAlone
        (answer 0 sampleOracle { enqueue := true }) { clock := 0 } = some (res, σ') ∧
      (σ'.lookup (redisKey "k") = none → ∀ r ∈ σ'.tasks, r.idempotencyKey ≠ some "k") := by
  obtain ⟨res, σ', hrun, hiff⟩ := free_slot_without_row_iff 0 sampleOracle { enqueue := true }
    { clock := 0 } (dtoWith "k") "http://proxy" "k" rfl (by decide) ⟨by decide, by decide, rfl⟩ rfl
    (by simp)
  exact ⟨res, σ', hrun, hiff.mpr (by simp)⟩

/-- The enqueue fails, the deletion of the row fails, and the slot is released: the slot is free
and the row exists. -/
theorem failed_rollback_frees_slot :
    ¬ ∀ (p : ℕ) (o : Await → Oracle) (f : CreateFaults) (σ : Backend) (dto : CreateTaskDto)
      (baseUrl key : String), dto.idempotencyKey = some key → key ≠ "" →
      σ.Fresh p (insertedId o dto) → σ.lookup (redisKey key) = none →
      (∀ r ∈ σ.tasks, r.idempotencyKey ≠ some key) →
      ∃ res σ', (TasksService.create dto baseUrl).run.runAlone (answer p o f) σ = some (res, σ') ∧
        (σ'.lookup (redisKey key) = none → ∀ r ∈ σ'.tasks, r.idempotencyKey ≠ some key) := by
  intro h
  let f : CreateFaults := { enqueue := true, deleteById := true }
  obtain ⟨res, σ', hrun, hrow⟩ := h 0 sampleOracle f { clock := 0 } (dtoWith "k") "http://proxy" "k"
    rfl (by decide) ⟨by decide, by decide, rfl⟩ rfl (by simp)
  have hcheck : ((TasksService.create (dtoWith "k") "http://proxy").run.runAlone
      (answer 0 sampleOracle f) { clock := 0 }).any (fun x =>
        (x.2.lookup (redisKey "k")).isNone &&
          x.2.tasks.any fun r => r.idempotencyKey == some "k") = true := by decide
  simp only [hrun, Option.any_some, Bool.and_eq_true, Option.isNone_iff_eq_none, List.any_eq_true,
    beq_iff_eq] at hcheck
  obtain ⟨hfree, r, hr, hkey⟩ := hcheck
  exact hrow hfree r hr hkey

end LongRequestProxy
