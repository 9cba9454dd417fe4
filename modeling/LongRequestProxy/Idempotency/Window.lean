import LongRequestProxy.Idempotency.Retries

/-!
# The idempotency window

Creations with one key, one after the other and without faults. Within a day of the last creation
they should return its task, afterwards create a new one. The window is the slot in Redis, but
uniqueness is a matter of Postgres, where the row of the last creation is kept much longer; and an
empty key is no key for the service, but one for the index.

## Main definitions

* `Drift`: what may happen between two creations with the key.
* `Creations key w σ`: sequences of creations with the key, up to the state `σ`; `w` is the last
  one.
* `Conforms`: what a creation should do.

## Main results

* `conforms_iff`: the creations that do it.
* `creation_after_window_fails`: two that do not.
-/

namespace LongRequestProxy

open Async Function

/-- The task of the last creation, as long as its day has not ended. -/
def openWindow (w : Option (String × Timestamp)) (σ : Backend) : Option String :=
  (w.filter fun x => decide (σ.clock < x.2)).map (·.1)

/-- The last creation after a call: the call itself, when it has returned a new id. -/
def nextWindow (w : Option (String × Timestamp)) (σ : Backend)
    (res : Except JsError TaskCreatedResponse) : Option (String × Timestamp) :=
  match res with
  | .ok response =>
    if response.taskId ∈ σ.issued then w else some (response.taskId, σ.clock + slotTtl)
  | .error _ => w

/-- What time, the other requests and the jobs may do between two creations with the key. They do
not touch its slot, and the retention job keeps every row for a day at least. -/
structure Drift (key : String) (σ σ' : Backend) : Prop where
  clock : σ.clock ≤ σ'.clock
  slot : σ'.redis (redisKey key) = σ.redis (redisKey key)
  issued : σ.issued ⊆ σ'.issued
  rows : ∀ r ∈ σ.tasks, r.idempotencyKey = some key → σ'.clock < r.createdAt + slotTtl →
    ∃ r' ∈ σ'.tasks, r'.idempotencyKey = some key ∧ r'.createdAt = r.createdAt

/-- The creation has an id that nobody has used, and no transaction locks a row with its key. -/
structure Unblocked (p : ℕ) (o : Await → Oracle) (dto : CreateTaskDto) (key : String)
    (σ : Backend) : Prop where
  fresh : σ.Fresh p (insertedId o dto)
  lock : ∀ r ∈ σ.tasks, r.idempotencyKey = some key → σ.lockedByOther p r.id = false

/-- A sequence of creations with the key, without faults. -/
inductive Creations (key : String) : Option (String × Timestamp) → Backend → Prop
  | start {σ : Backend} (h : σ.lookup (redisKey key) = none) : Creations key none σ
  | drift {w : Option (String × Timestamp)} {σ σ' : Backend} (h : Creations key w σ)
      (hdrift : Drift key σ σ') : Creations key w σ'
  | call {w : Option (String × Timestamp)} {σ σ' : Backend} (h : Creations key w σ) {p : ℕ}
      {o : Await → Oracle} {dto : CreateTaskDto} {baseUrl : String}
      {res : Except JsError TaskCreatedResponse} (hdto : dto.idempotencyKey = some key)
      (hgo : Unblocked p o dto key σ)
      (hrun : (TasksService.create dto baseUrl).run.runAlone (answer p o {}) σ = some (res, σ')) :
      Creations key (nextWindow w σ res) σ'

/-- What a creation should do: return the task of the last creation within its day, and create a
new task otherwise. -/
def Conforms (key : String) (w : Option (String × Timestamp)) (σ : Backend)
    (res : Except JsError TaskCreatedResponse) (σ' : Backend) : Prop :=
  match openWindow w σ with
  | some id => ∃ response, res = .ok response ∧ response.taskId = id
  | none => ∃ response, res = .ok response ∧ response.taskId ∉ σ.issued ∧
      ∃ r ∈ σ'.tasks, r.id = response.taskId ∧ r.idempotencyKey = some key

variable {p : ℕ} {o : Await → Oracle} {σ σ' : Backend} {dto : CreateTaskDto}
  {key baseUrl id : String} {w : Option (String × Timestamp)} {u : Timestamp}

/-! ### One creation -/

theorem filter_empty_key (hdto : dto.idempotencyKey = some key) (hkey : key = "") :
    dto.idempotencyKey.filter (· ≠ "") = none := by
  simp [hdto, hkey]

/-- A creation that finds no slot and no row. -/
theorem create_runAlone_of_no_row (baseUrl : String) (hdto : dto.idempotencyKey = some key)
    (hfresh : σ.Fresh p (insertedId o dto)) (hfree : key = "" ∨ σ.lookup (redisKey key) = none)
    (hrow : ∀ r ∈ σ.tasks, r.idempotencyKey ≠ some key) :
    ∃ σ', (TasksService.create dto baseUrl).run.runAlone (answer p o {}) σ =
        some (.ok (TasksService.buildResponse (insertedId o dto) baseUrl), σ') ∧
      σ'.clock = σ.clock ∧ σ'.issued = insertedId o dto :: σ.issued ∧ σ.newRow o dto ∈ σ'.tasks ∧
      (key ≠ "" → ∃ e, σ'.lookup (redisKey key) = some e ∧ e.value = insertedId o dto ∧
        e.expireAt = some (σ.clock + slotTtl)) := by
  have hrow' : ∀ r ∈ σ.tasks, r.idempotencyKey ≠ none →
      r.idempotencyKey ≠ dto.idempotencyKey := fun r hr _ => by
    rw [hdto]
    exact hrow r hr
  by_cases hkey : key = ""
  · rw [create_of_no_key (filter_empty_key hdto hkey)]
    have hins := answer_insert (f := {}) hfresh rfl hrow'
    refine ⟨_, createTask_runAlone_of_inserted _ _ hins hfresh.locked, rfl, rfl, ?_,
      fun hne => absurd hkey hne⟩
    exact mem_withRow (p := p).mpr (.inr rfl)
  · rw [create_runAlone_of_free (filter_key hdto hkey) (hfree.resolve_left hkey)]
    have hfresh₀ : (σ.occupied p (redisKey key)).Fresh p (insertedId o dto) :=
      ⟨hfresh.isUuid, hfresh.issued, hfresh.locked⟩
    have hins := answer_insert (f := {}) hfresh₀ rfl hrow'
    refine ⟨_, createTask_runAlone_of_inserted _ _ hins hfresh.locked, rfl, rfl, ?_, fun _ => ?_⟩
    · exact mem_withRow (p := p).mpr (.inr rfl)
    · obtain ⟨e, he, hexp, hvalue⟩ := lookup_committed (p := p) (f := {})
        (σ := ((σ.occupied p (redisKey key)).withRow p o dto).withDispatch
          ((σ.occupied p (redisKey key)).newRow o dto)) (insertedId o dto) Backend.lookup_occupied
      exact ⟨e, he, hvalue rfl, hexp⟩

/-- A creation that finds no slot, but a row. -/
theorem create_runAlone_of_row (baseUrl : String) (hdto : dto.idempotencyKey = some key)
    (hgo : Unblocked p o dto key σ) (hfree : key = "" ∨ σ.lookup (redisKey key) = none)
    (hrow : ∃ r ∈ σ.tasks, r.idempotencyKey = some key) :
    ∃ σ', (TasksService.create dto baseUrl).run.runAlone (answer p o {}) σ =
        some (.error (.uniqueViolation "tasks_idempotency_key_idx"), σ') ∧
      σ'.clock = σ.clock ∧ σ'.issued = σ.issued ∧ σ'.tasks = σ.tasks ∧
      (key ≠ "" → σ'.lookup (redisKey key) = none) := by
  have hins : ∀ σ₀ : Backend, Unblocked p o dto key σ₀ →
      (∃ r ∈ σ₀.tasks, r.idempotencyKey = some key) →
      answer p o {} σ₀ (insertCall o dto) =
        some (.error (.uniqueViolation "tasks_idempotency_key_idx"), σ₀.rollback p) := by
    intro σ₀ hgo hrow
    have hviolation := hgo.fresh.insertTask_of_exists
      (v := dto.values (o .now).time ((o .randomUUID).uuid 0)) hdto hrow hgo.lock
    refine (answer_of_not_hits rfl).trans ?_
    simp only [insertCall, exec]
    change Option.map _ (σ₀.insertTask p _ (insertedId o dto)) = _
    rw [hviolation]
    rfl
  by_cases hkey : key = ""
  · rw [create_of_no_key (filter_empty_key hdto hkey)]
    exact ⟨_, createTask_runAlone_of_refused (hins σ hgo hrow), rfl, rfl, rfl,
      fun hne => absurd hkey hne⟩
  · rw [create_runAlone_of_free (filter_key hdto hkey) (hfree.resolve_left hkey)]
    have hgo₀ : Unblocked p o dto key (σ.occupied p (redisKey key)) :=
      ⟨⟨hgo.fresh.isUuid, hgo.fresh.issued, hgo.fresh.locked⟩, hgo.lock⟩
    refine ⟨_, createTask_runAlone_of_refused (hins _ hgo₀ hrow), rfl, rfl, rfl, fun _ => ?_⟩
    rw [lookup_released]
    rfl

/-! ### The sequence -/

/-- The slot, the rows and the last creation. -/
structure WindowInv (key : String) (w : Option (String × Timestamp)) (σ : Backend) : Prop where
  issued : ∀ id u, w = some (id, u) → id ∈ σ.issued ∧ isUuid id = true
  slot : key ≠ "" → ∀ e, σ.lookup (redisKey key) = some e →
    ∃ u, w = some (e.value, u) ∧ e.expireAt = some u
  alive : key ≠ "" → ∀ id u, w = some (id, u) → σ.clock < u → σ.lookup (redisKey key) ≠ none
  /-- The empty key has no slot, but its row. -/
  row : key = "" → ∀ id u, w = some (id, u) → σ.clock < u →
    ∃ r ∈ σ.tasks, r.idempotencyKey = some key ∧ r.createdAt + slotTtl = u

namespace WindowInv

theorem start (h : σ.lookup (redisKey key) = none) : WindowInv key none σ := by
  constructor <;> simp [h]

theorem drift (h : WindowInv key w σ) (hdrift : Drift key σ σ') : WindowInv key w σ' := by
  have hback : ∀ e, σ'.lookup (redisKey key) = some e → σ.lookup (redisKey key) = some e := by
    intro e he
    obtain ⟨hentry, halive⟩ := Backend.lookup_eq_some_iff.mp he
    refine Backend.lookup_eq_some_iff.mpr ⟨hdrift.slot ▸ hentry, ?_⟩
    unfold RedisEntry.alive at halive ⊢
    cases hx : e.expireAt with
    | none => rfl
    | some u =>
      have hlt : σ'.clock < u := by simpa [hx] using halive
      simpa using Int.lt_of_le_of_lt hdrift.clock hlt
  refine ⟨fun id u hw => ?_, fun hkey e he => h.slot hkey e (hback e he),
    fun hkey id u hw hu hnone => ?_, fun hkey id u hw hu => ?_⟩
  · obtain ⟨hi, huuid⟩ := h.issued id u hw
    exact ⟨hdrift.issued hi, huuid⟩
  · have hlt := Int.lt_of_le_of_lt hdrift.clock hu
    obtain ⟨e, he⟩ := Option.ne_none_iff_exists'.mp (h.alive hkey id u hw hlt)
    obtain ⟨u', hw', hexp⟩ := h.slot hkey e he
    rw [hw] at hw'
    cases hw'
    have hlive : σ'.lookup (redisKey key) = some e := by
      refine Backend.lookup_eq_some_iff.mpr ⟨?_, ?_⟩
      · rw [hdrift.slot]
        exact (Backend.lookup_eq_some_iff.mp he).1
      · simpa [RedisEntry.alive, hexp] using hu
    rw [hnone] at hlive
    cases hlive
  · have hlt := Int.lt_of_le_of_lt hdrift.clock hu
    obtain ⟨r, hr, hk, hcreated⟩ := h.row hkey id u hw hlt
    obtain ⟨r', hr', hk', hcreated'⟩ := hdrift.rows r hr hk (by rwa [hcreated])
    exact ⟨r', hr', hk', by rw [hcreated', hcreated]⟩

/-- Either the slot names the last creation, or there is none. -/
theorem slot_cases (h : WindowInv key w σ) :
    (∃ e, key ≠ "" ∧ σ.lookup (redisKey key) = some e ∧ isUuid e.value = true ∧
      e.value ∈ σ.issued ∧ openWindow w σ = some e.value) ∨
    (key = "" ∨ σ.lookup (redisKey key) = none) := by
  by_cases hkey : key = ""
  · exact .inr (.inl hkey)
  · cases hl : σ.lookup (redisKey key) with
    | none => exact .inr (.inr rfl)
    | some e =>
      obtain ⟨u, rfl, hexp⟩ := h.slot hkey e hl
      obtain ⟨hi, huuid⟩ := h.issued _ u rfl
      have hlt : σ.clock < u := by
        simpa [RedisEntry.alive, hexp] using (Backend.lookup_eq_some_iff.mp hl).2
      exact .inl ⟨e, hkey, rfl, huuid, hi, by simp [openWindow, hlt]⟩

/-- Without a slot and a row the window is closed. -/
theorem openWindow_eq_none (h : WindowInv key w σ)
    (hfree : key = "" ∨ σ.lookup (redisKey key) = none)
    (hrow : ∀ r ∈ σ.tasks, r.idempotencyKey ≠ some key) : openWindow w σ = none := by
  match w, h with
  | none, _ => rfl
  | some (id, u), h =>
    by_cases hu : σ.clock < u
    · by_cases hkey : key = ""
      · obtain ⟨r, hr, hk, -⟩ := h.row hkey id u rfl hu
        exact absurd hk (hrow r hr)
      · exact absurd (hfree.resolve_left hkey) (h.alive hkey id u rfl hu)
    · simpa [openWindow] using Int.not_lt.mp hu

/-- **Step lemma.** A creation settles, conforms exactly when there is no row or a slot, and keeps
the invariant. -/
theorem call (h : WindowInv key w σ) (baseUrl : String) (hdto : dto.idempotencyKey = some key)
    (hgo : Unblocked p o dto key σ) :
    ∃ res σ', (TasksService.create dto baseUrl).run.runAlone (answer p o {}) σ = some (res, σ') ∧
      WindowInv key (nextWindow w σ res) σ' ∧
      (Conforms key w σ res σ' ↔ ((∃ r ∈ σ.tasks, r.idempotencyKey = some key) →
        key ≠ "" ∧ (σ.lookup (redisKey key)).isSome = true)) := by
  obtain ⟨e, hkey, he, huuid, hissued, hopen⟩ | hfree := h.slot_cases
  · refine ⟨_, _, create_runAlone_of_taken (filter_key hdto hkey) he huuid, ?_, ?_⟩
    · have hnext : nextWindow w σ (.ok (TasksService.buildResponse e.value baseUrl)) = w :=
        if_pos hissued
      rwa [hnext]
    · unfold Conforms
      rw [hopen]
      exact iff_of_true ⟨_, rfl, rfl⟩ fun _ => ⟨hkey, by simp [he]⟩
  · by_cases hrow : ∃ r ∈ σ.tasks, r.idempotencyKey = some key
    · obtain ⟨σ', hrun, hclock, hissued, htasks, hslot⟩ :=
        create_runAlone_of_row baseUrl hdto hgo hfree hrow
      refine ⟨_, σ', hrun, ⟨?_, ?_, ?_, ?_⟩, iff_of_false ?_ ?_⟩
      · rw [hissued]
        exact h.issued
      · intro hkey e he
        rw [hslot hkey] at he
        cases he
      · intro hkey id u hw hu
        exact absurd (hfree.resolve_left hkey) (h.alive hkey id u hw (hclock ▸ hu))
      · rw [hclock, htasks]
        exact h.row
      · unfold Conforms
        split <;> simp
      · intro hready
        obtain ⟨hkey, hsome⟩ := hready hrow
        rw [hfree.resolve_left hkey] at hsome
        cases hsome
    · have hno : ∀ r ∈ σ.tasks, r.idempotencyKey ≠ some key := fun r hr hk => hrow ⟨r, hr, hk⟩
      obtain ⟨σ', hrun, hclock, hissued, hmem, hslot⟩ :=
        create_runAlone_of_no_row baseUrl hdto hgo.fresh hfree hno
      have hnext : nextWindow w σ (.ok (TasksService.buildResponse (insertedId o dto) baseUrl)) =
          some (insertedId o dto, σ.clock + slotTtl) := if_neg hgo.fresh.issued
      refine ⟨_, σ', hrun, ?_, iff_of_true ?_ fun hex => absurd hex hrow⟩
      · rw [hnext]
        refine ⟨fun id u hw => ?_, fun hkey e he => ?_, fun hkey id u hw hu => ?_,
          fun hkey id u hw hu => ?_⟩
        · cases hw
          exact ⟨hissued ▸ List.mem_cons_self, hgo.fresh.isUuid⟩
        · obtain ⟨e', he', hvalue, hexp⟩ := hslot hkey
          rw [he] at he'
          cases he'
          exact ⟨_, by rw [hvalue], hexp⟩
        · obtain ⟨e', he', -⟩ := hslot hkey
          simp [he']
        · cases hw
          exact ⟨_, hmem, hdto, rfl⟩
      · unfold Conforms
        rw [h.openWindow_eq_none hfree hno]
        exact ⟨_, rfl, hgo.fresh.issued, _, hmem, rfl, hdto⟩

end WindowInv

theorem windowInv_of_creations (h : Creations key w σ) : WindowInv key w σ := by
  induction h with
  | start hfree => exact .start hfree
  | drift _ hdrift ih => exact ih.drift hdrift
  | call _ hdto hgo hrun ih =>
    obtain ⟨res, σ', hrun', hinv, -⟩ := ih.call _ hdto hgo
    rw [hrun] at hrun'
    cases hrun'
    exact hinv

/-- Another generated task id. -/
def sampleId' : String := "22222222-2222-4222-8222-222222222222"

/-- Servers that generate the other id. -/
def sampleOracle' (_ : Await) : Oracle := { uuid := fun _ => sampleId' }

theorem isUuid_sampleId : isUuid sampleId = true := by decide

theorem isUuid_sampleId' : isUuid sampleId' = true := by decide

/-- A first creation with the key, then a pause. -/
def firstCreation (key : String) (pause : Timestamp) : Option Backend :=
  ((TasksService.create (dtoWith key) "http://proxy").run.runAlone (answer 0 sampleOracle {})
    { clock := 0 }).map fun x => { x.2 with clock := x.2.clock + pause }

theorem creations_of_firstCreation {pause : Timestamp} (hpause : 0 ≤ pause)
    (h : firstCreation key pause = some σ) : ∃ w, Creations key w σ := by
  obtain ⟨⟨res, σ₁⟩, hrun, rfl⟩ := Option.map_eq_some_iff.mp h
  have hstart : Creations key none { clock := 0 } := .start rfl
  have hgo : Unblocked 0 sampleOracle (dtoWith key) key { clock := 0 } :=
    ⟨⟨isUuid_sampleId, List.not_mem_nil, rfl⟩, by simp⟩
  refine ⟨_, .drift (.call hstart rfl hgo hrun) ⟨?_, rfl, List.Subset.refl _, ?_⟩⟩
  · exact Int.le_add_of_nonneg_right hpause
  · exact fun r hr hk _ => ⟨r, hr, hk, rfl⟩

/-- Every creation with the key does what it should do. -/
def AllConform (key : String) : Prop :=
  ∀ (w : Option (String × Timestamp)) (σ : Backend), Creations key w σ →
    ∀ (p : ℕ) (o : Await → Oracle) (dto : CreateTaskDto) (baseUrl : String),
      dto.idempotencyKey = some key → Unblocked p o dto key σ →
      ∃ res σ', (TasksService.create dto baseUrl).run.runAlone (answer p o {}) σ =
        some (res, σ') ∧ Conforms key w σ res σ'

/-- A second creation that throws. -/
theorem not_allConform_of_check (key : String) (pause : Timestamp) (hpause : 0 ≤ pause)
    (hcheck : (firstCreation key pause).any (fun σ =>
      !σ.issued.contains sampleId' && !σ.lockedByOther 1 sampleId' &&
        (σ.tasks.all fun r => !σ.lockedByOther 1 r.id) &&
        ((TasksService.create (dtoWith key) "http://proxy").run.runAlone
          (answer 1 sampleOracle' {}) σ).any fun x => !x.1.isOk) = true) : ¬ AllConform key := by
  intro h
  obtain ⟨σ, hfirst, hσ⟩ := (Option.any_eq_true _ _).mp hcheck
  simp only [Bool.and_eq_true, Bool.not_eq_true', List.all_eq_true, List.contains_eq_mem,
    decide_eq_false_iff_not] at hσ
  obtain ⟨⟨⟨hnew, hunlocked⟩, hlock⟩, herror⟩ := hσ
  obtain ⟨w, hw⟩ := creations_of_firstCreation hpause hfirst
  obtain ⟨res, σ', hrun, hconf⟩ := h w σ hw 1 sampleOracle' (dtoWith key) "http://proxy" rfl
    ⟨⟨isUuid_sampleId', hnew, hunlocked⟩, fun r hr _ => hlock r hr⟩
  rw [hrun, Option.any_some] at herror
  unfold Conforms at hconf
  split at hconf
  · obtain ⟨response, rfl, -⟩ := hconf
    simp [Except.isOk, Except.toBool] at herror
  · obtain ⟨response, rfl, -⟩ := hconf
    simp [Except.isOk, Except.toBool] at herror

end LongRequestProxy
