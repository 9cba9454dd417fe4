import LongRequestProxy.Idempotency.KeyLedger

/-!
# The protocol of the slots

The functions of the program are verified against the ledger of slots. Its two instances differ
in what they presuppose: the first one, about Redis alone, that commits and releases come before
the slot of their creation ends; the second one, about the rows too, that no slot expires under a
creation at work and that retention leaves the rows of live slots alone.

## Main definitions

* `Slots rows`: the two ledgers.
* `timelyCall`, `WritesOwn`: when a commit or a release is made, and what it replaces.
* `slotProtocol rows`: the ghost protocol.

## Main results

* `Slots.exec`, `Slots.occupy`, `Slots.insertTask`, `Slots.deleteTask`, `Slots.commitSlot`,
  `Slots.releaseSlot`: what the calls do to the ledger.
* `wpx_occupySlot`, `wpx_commitResult`, `wpx_releaseSlot`: the rules for the slot calls.
-/

namespace LongRequestProxy

open Async Service Function

/-- The ledger of slots, with or without the rows. -/
structure Slots (rows : Bool) (σ : Backend) (γ : ℕ → Stage) : Prop where
  slots : SlotInv σ γ
  rows : rows = true → RowInv σ γ

/-- The call takes, commits or releases a slot, or inserts or deletes a single row. -/
def Await.managesSlots : Await → Bool
  | redisOccupy .. | redisSetKeepTtl .. | redisDel _ | insertTask .. | deleteTask _ => true
  | _ => false

/-- The key of the slot that a call commits or releases. -/
def Await.slotKey : Await → Option String
  | redisSetKeepTtl key _ | redisDel key => some key
  | _ => none

/-- The slots that a program has taken have not ended. -/
def Backend.inTime (σ : Backend) (p : ℕ) : Bool :=
  σ.acquired.all fun y => y.1 != p || decide (σ.clock < y.2.2)

/-- The call does not commit or release a slot that has ended, unless it releases nothing. -/
def timelyCall (p : ℕ) (σ : Backend) (o : Oracle) : Await → Bool
  | .redisSetKeepTtl _ _ => o.fault == .failed || σ.inTime p
  | .redisDel key => o.fault == .failed || σ.inTime p || (σ.lookup key).isNone
  | _ => true

/-- A commit or a release that takes effect replaces the sentinel of its own program. -/
def WritesOwn (p : ℕ) (σ : Backend) (c : Await) (o : Oracle) : Prop :=
  o.fault ≠ .failed → ∀ key, c.slotKey = some key → ∀ e, σ.lookup key = some e →
    e.value = pendingSentinel ∧ e.writer = p

/-- The protocol of the slots. -/
def slotProtocol (http : HttpClient) (rows : Bool) : Protocol (proxy http) where
  Ghost := Stage
  idle := .working none none
  dead := .finished
  inv := Slots rows
  allows p σ c o :=
    (rows = true → c = .txCommit → o.fault ≠ .failed → σ.retiresFinished p = true) ∧
      (rows = false → timelyCall p σ o c = true)
  safe := WritesOwn

/-- The creation holds no slot. -/
def Stage.HoldsNone (g : Stage) : Prop := ∀ slot row, g ≠ .working (some slot) row

variable {http : HttpClient} {rows : Bool} {σ σ' : Backend} {γ : ℕ → Stage} {p : ℕ}
  {key : String} {slot : Option (String × Timestamp)} {row : Option String}

/-! ### What the calls do to the ledger -/

theorem exec_of_not_managesSlots {o : Oracle} {c : Await} {v : c.Val}
    (hc : c.managesSlots = false) (h : exec p o σ c = some (.ok (v, σ'))) :
    σ'.redis = σ.redis ∧ σ'.acquired = σ.acquired ∧ σ'.clock = σ.clock ∧
      σ'.inserted = σ.inserted ∧ σ'.issued = σ.issued := by
  cases c with
  | updateTask id w =>
    obtain ⟨-, rfl, -⟩ | ⟨-, -, -, -, -, -, -, rfl⟩ := Backend.updateTask_ok h <;> simp
  | selectOldTasks cutoff limit =>
    obtain ⟨rfl, -⟩ := Backend.selectOldTasks_ok h
    simp
  | txCancelTask id now =>
    obtain ⟨-, rfl⟩ | ⟨-, -, -, -, -, -, -, rfl⟩ := Backend.txCancelTask_ok h <;>
      simp [Backend.setTx]
  | txExpireTasks now limit =>
    obtain ⟨-, -, -, -, rfl⟩ := Backend.txExpireTasks_ok h
    simp [Backend.setTx]
  | txDeleteTasks ids =>
    obtain ⟨-, rfl⟩ := Backend.txDeleteTasks_ok h
    simp [Backend.setTx]
  | txAdvisoryLock id =>
    obtain ⟨-, rfl⟩ := Backend.txAdvisoryLock_ok h
    simp [Backend.setTx]
  | txInsertEvent seq input =>
    obtain ⟨-, h⟩ := exec_txInsertEvent_ok h
    obtain ⟨-, -, rfl⟩ := Backend.txInsertEvents_ok h
    simp [Backend.setTx]
  | txInsertExpiryEvents events =>
    obtain ⟨-, -, rfl⟩ := Backend.txInsertEvents_ok h
    simp [Backend.setTx]
  | txDeleteEvents ids =>
    obtain rfl := Backend.txDeleteEvents_ok h
    simp [Backend.setTx]
  | txCommit =>
    cases h
    simp [Backend.commit]
  | _ => first | exact Bool.noConfusion hc | (cases h; exact ⟨rfl, rfl, rfl, rfl, rfl⟩)

namespace Slots

theorem initial (clock : Timestamp) :
    Slots rows { clock := clock } fun _ => .working none none :=
  ⟨.initial clock, fun _ => .initial clock⟩

theorem rollback (h : Slots rows σ γ) (p : ℕ) : Slots rows (σ.rollback p) γ :=
  ⟨h.slots.of_frame rfl rfl (Int.le_refl _), fun hr =>
    (h.rows hr).of_frame ((h.rows hr).keyed.rollback p) rfl rfl rfl rfl rfl⟩

/-- The clock moves on; the ledger with the rows reckons with the slots of creations at work. -/
theorem tick (h : Slots rows σ γ) {t : Timestamp} (ht : σ.tick t = some σ')
    (hslot : rows = true → ∀ p k u row, γ p = .working (some (k, u)) row → t < u) :
    Slots rows σ' γ := by
  unfold Backend.tick at ht
  split at ht
  · next hle =>
    cases ht
    exact ⟨h.slots.of_frame rfl rfl hle, fun hr => (h.rows hr).tick hle (hslot hr)⟩
  · cases ht

/-- A call that manages no slots leaves the ledger alone. -/
theorem exec {o : Oracle} {c : Await} {v : c.Val} (h : Slots rows σ γ)
    (hc : c.managesSlots = false) (hret : rows = true → c = .txCommit → σ.retiresFinished p = true)
    (hx : exec p o σ c = some (.ok (v, σ'))) : Slots rows σ' γ := by
  obtain ⟨hr, ha, hclock, hins, hi⟩ := exec_of_not_managesSlots hc hx
  refine ⟨h.slots.of_frame hr ha (hclock ▸ Int.le_refl _), fun hrows => ?_⟩
  have hinv := h.rows hrows
  have hkeyed := exec_keyed hx hinv.keyed
  obtain ⟨ht, -⟩ | ⟨dto, now, token, rfl, -⟩ | ⟨id, rfl, -⟩ | ⟨id, w, -, ht, -⟩ | ⟨rfl, rfl⟩ :=
    exec_tasks_cases hx
  · exact hinv.of_frame hkeyed (by rw [ht]) hr hclock hi hins
  · cases hc
  · cases hc
  · refine hinv.of_frame hkeyed ?_ hr hclock hi hins
    rw [ht]
    exact Table.map_key_update fun r => rfl
  · exact hinv.commit h.slots hkeyed (hret hrows rfl)

/-- A creation stops. -/
theorem finish (h : Slots rows σ γ) (p : ℕ) : Slots rows σ (update γ p .finished) :=
  ⟨h.slots.setStage (by simp), fun hr => (h.rows hr).setStage (by simp) (by simp)⟩

theorem finish_update {g : Stage} (h : Slots rows σ (update γ p g)) :
    Slots rows σ (update γ p .finished) := by
  have hfin := h.finish p
  rwa [update_idem] at hfin

/-- A creation forgets the row that it has inserted. -/
theorem forgetRow (h : Slots rows σ γ) (hp : γ p = .working slot row) :
    Slots rows σ (update γ p (.working slot none)) := by
  refine ⟨h.slots.setStage fun slot' row' hg => ?_, fun hr =>
    (h.rows hr).setStage (fun slot' row' hg => ?_) (by simp)⟩
  · cases hg
    exact ⟨row, hp⟩
  · cases hg
    exact ⟨by simp, fun k u hk => ⟨(((h.rows hr).working p slot row hp).2 k u hk).1, by simp⟩⟩

theorem forgetRow_update (h : Slots rows σ (update γ p (.working slot row))) :
    Slots rows σ (update γ p (.working slot none)) := by
  have hnone := h.forgetRow (update_self p _ γ)
  rwa [update_idem] at hnone

/-- A creation returns the id of an existing row. -/
theorem giveId (h : Slots rows σ γ) {k id : String}
    (hrow : rows = true → σ.HasKeyedRow k id ∧ id ∈ σ.issued) :
    Slots rows σ (update γ p (.returned k id)) := by
  refine ⟨h.slots.setStage (by simp), fun hr =>
    (h.rows hr).setStage (by simp) fun k' id' hg => ?_⟩
  cases hg
  exact ⟨(hrow hr).2, fun r hmem hid => (h.rows hr).key_of_hasKeyedRow (hrow hr).1 hmem hid⟩

/-- The slot is taken, or the script reports what it has found. -/
theorem occupy (h : Slots rows σ γ) (hp : γ p = .working none none) {v : Bool × Option String}
    (hx : σ.occupy p key pendingSentinel TasksService.idempotencyTtlSeconds = (v, σ')) :
    (∃ u, v = (true, none) ∧ Slots rows σ' (update γ p (.working (some (key, u)) none))) ∨
      ∃ e, σ.lookup key = some e ∧ v = (false, some e.value) ∧ σ' = σ := by
  rw [Backend.occupy_eq] at hx
  cases hl : σ.lookup key with
  | some e =>
    rw [hl] at hx
    cases hx
    exact .inr ⟨e, rfl, rfl, rfl⟩
  | none =>
    rw [hl] at hx
    cases hx
    refine .inl ⟨_, rfl, h.slots.occupy hp hl, fun hr => ?_⟩
    have hinv : RowInv (σ.setKey key (some ⟨pendingSentinel, some (σ.clock + slotTtl), p⟩)) γ :=
      (h.rows hr).setKey fun e he => .inl (by cases he; rfl)
    have hinv' : RowInv (σ.occupied p key) γ :=
      hinv.of_frame (hinv.keyed.of_frame rfl rfl rfl) rfl rfl rfl rfl rfl
    refine hinv'.setStage (fun slot row hg => ?_) (by simp)
    cases hg
    refine ⟨by simp, fun k u hk => ?_⟩
    cases hk
    exact ⟨Int.lt_add_of_pos_right _ (by decide), by simp⟩

theorem insertTask (h : Slots rows σ γ) (hp : γ p = .working slot none) {o : Oracle}
    {dto : CreateTaskDto} {now : Timestamp} {token : String} {t : TaskSelect}
    (hkey : ∀ k u, slot = some (k, u) → dto.idempotencyKey.map redisKey = some k)
    (hx : LongRequestProxy.exec p o σ (.insertTask dto now token) = some (.ok (t, σ'))) :
    Slots rows σ' (update γ p (.working slot (some t.id))) := by
  have hins : σ.insertTask p (dto.values now token) (o.uuid 0) = some (.ok (t, σ')) := hx
  obtain ⟨-, -, -, rfl, hσ'⟩ := Backend.insertTask_ok hins
  refine ⟨SlotInv.setStage (h.slots.of_frame ?_ ?_ ?_) fun slot' row hg => ?_, fun hr =>
    (h.rows hr).insertTask hp hkey (exec_keyed hx (h.rows hr).keyed) hins⟩
  · rw [hσ']
  · rw [hσ']
  · rw [hσ']
  · cases hg
    exact ⟨none, hp⟩

theorem deleteTask (h : Slots rows σ γ) {id : String} (hp : γ p = .working slot (some id))
    {o : Oracle} {u : Unit}
    (hx : LongRequestProxy.exec p o σ (.deleteTask id) = some (.ok (u, σ'))) :
    Slots rows σ' (update γ p (.working slot none)) := by
  have hdel : σ.deleteTask p id = some (.ok (u, σ')) := hx
  obtain ⟨-, hσ'⟩ := Backend.deleteTask_ok hdel
  refine ⟨SlotInv.setStage (h.slots.of_frame ?_ ?_ ?_) fun slot' row hg => ?_, fun hr =>
    (h.rows hr).deleteTask h.slots hp (exec_keyed hx (h.rows hr).keyed) hdel⟩
  · rw [hσ']
  · rw [hσ']
  · rw [hσ']
  · cases hg
    exact ⟨_, hp⟩

/-- The slot of a creation at work has not ended. -/
theorem lt_end (h : Slots rows σ γ) {u : Timestamp} (hp : γ p = .working (some (key, u)) row)
    (hin : rows = false → σ.inTime p = true) : σ.clock < u := by
  cases rows with
  | true => exact (((h.rows rfl).working p _ row hp).2 key u rfl).1
  | false =>
    have hmem := (h.slots.taken p key u row hp).1
    simpa using List.all_eq_true.mp (hin rfl) _ hmem

/-- What is alive under the key of a creation at work is its sentinel. -/
theorem eq_sentinel (h : Slots rows σ γ) {u : Timestamp}
    (hp : γ p = .working (some (key, u)) row)
    (hin : rows = false → σ.inTime p = true ∨ σ.lookup key = none) {e : RedisEntry}
    (he : σ.lookup key = some e) : e.value = pendingSentinel ∧ e.writer = p := by
  have hu := h.lt_end hp fun hr => (hin hr).resolve_right (by simp [he])
  have hown := h.slots.lookup_own hp hu
  rw [he] at hown
  cases hown
  exact ⟨rfl, rfl⟩

/-- A creation commits its slot. -/
theorem commitSlot (h : Slots rows σ γ) {u : Timestamp} {id : String}
    (hp : γ p = .working (some (key, u)) (some id)) (hu : σ.clock < u) :
    Slots rows (σ.setKey key (some ⟨id, (σ.lookup key).bind (·.expireAt), p⟩))
      (update γ p (.returned key id)) := by
  refine ⟨h.slots.commit hp hu (by simp), fun hr => ?_⟩
  obtain ⟨hmine, hslot⟩ := (h.rows hr).working p _ _ hp
  have hrow := (hslot key u rfl).2 id rfl
  refine ((h.rows hr).setKey fun e he => ?_).setStage (by simp) fun k id' hg => ?_
  · cases he
    exact .inr ⟨hmine id rfl, hrow⟩
  · cases hg
    exact ⟨((h.rows hr).inserted p id (hmine id rfl)).2, fun r hmem hid =>
      (h.rows hr).key_of_hasKeyedRow hrow hmem hid⟩

/-- A creation releases its slot, or one under whose key nothing is alive. -/
theorem releaseSlot (h : Slots rows σ γ) (hown : ∀ e, σ.lookup key = some e → e.writer = p) :
    Slots rows (σ.setKey key none) (update γ p .finished) :=
  ⟨h.slots.release hown (by simp), fun hr =>
    ((h.rows hr).setKey (by simp)).setStage (by simp) (by simp)⟩

end Slots

/-! ### The calls -/

/-- The rows with a key have the given id. -/
def Backend.OnlyId (σ : Backend) (key id : String) : Prop :=
  ∀ r ∈ σ.tasks, r.idempotencyKey = some key → r.id = id

/-- The post-condition of a function that is done with its slot. -/
def noSlot {α : Type} (_ : α) (g : Stage) (_ : Backend) : Prop := g.HoldsNone

theorem writesOwn_of_not_managesSlots {o : Oracle} {c : Await} (hc : c.managesSlots = false) :
    WritesOwn p σ c o := by
  rintro - key hkey
  cases c <;> first | exact Bool.noConfusion hc | cases hkey

section Calls

variable {g : Stage} {s : Backend}

/-- A call that manages no slots, at any stage. -/
theorem wpx_other {c : Await} (hc : c.managesSlots = false) :
    (slotProtocol http rows).wpx (call c) (fun _ g' _ => g' = g) (fun _ g' _ => g' = g) g s := by
  refine wpx_call (fun p o σ γ _ _ _ => writesOwn_of_not_managesSlots hc)
    (fun p o σ γ v σ' hinv hg ha hx hf => ⟨g, ?_, rfl⟩)
    (fun p o σ γ v σ' hinv hg ha hx hf _ => ⟨g, ?_, rfl⟩)
    fun p o σ γ e hinv hg ha _ => ⟨g, ?_, rfl⟩
  · rw [← hg, update_eq_self]
    exact Slots.exec hinv hc (fun hr hcommit => ha.1 hr hcommit (hf (hcommit ▸ rfl))) hx
  · rw [← hg, update_eq_self]
    exact (Slots.exec hinv hc (fun hr hcommit => ha.1 hr hcommit (by simp [hf])) hx).rollback p
  · rw [← hg, update_eq_self]
    exact Slots.rollback hinv p

/-- What a creation has after it has asked for a slot. -/
def Occupied (rows : Bool) (key : String) : OccupySlotResult → Stage → Backend → Prop
  | .acquired, g, _ => ∃ u, g = .working (some (redisKey key, u)) none
  | .pending, g, _ => g.HoldsNone
  | .duplicate id, g, σ => g = .returned (redisKey key) id ∧ (rows = true → σ.OnlyId key id)

theorem wpx_occupySlot (key : String) :
    (slotProtocol http rows).wpx
      (IdempotencyService.occupySlot key TasksService.idempotencyTtlSeconds)
      (Occupied rows key) noSlot (.working none none) s := by
  refine Protocol.wpx_seq (M := fun v g s => Occupied rows key (.ofReply v) g s)
    (wpx_call ?_ ?_ ?_ ?_) fun v g s hv => (Protocol.wpx_pure _).mpr hv
  · rintro p o σ γ hinv hg - - k hk
    cases hk
  · intro p o σ γ v σ' hinv hg ha hx _
    have hinv : Slots rows σ γ := hinv
    have hocc : σ.occupy p (redisKey key) pendingSentinel TasksService.idempotencyTtlSeconds =
        (v, σ') := by
      simpa [exec] using hx
    obtain ⟨u, rfl, hinv'⟩ | ⟨e, he, rfl, rfl⟩ := hinv.occupy hg hocc
    · exact ⟨_, hinv', u, rfl⟩
    · by_cases hv : e.value = "" ∨ e.value = pendingSentinel
      · refine ⟨_, hinv.finish p, ?_⟩
        simp [OccupySlotResult.ofReply, hv, Occupied, Stage.HoldsNone]
      · have hrow : rows = true → (e.writer, e.value) ∈ σ'.inserted ∧
            σ'.HasKeyedRow (redisKey key) e.value := fun hr =>
          ((hinv.rows hr).committed _ e he).resolve_left fun hs => hv (.inr hs)
        refine ⟨_, hinv.giveId fun hr => ⟨(hrow hr).2, ?_⟩, ?_⟩
        · exact ((hinv.rows hr).inserted _ _ (hrow hr).1).2
        · rw [OccupySlotResult.ofReply, if_neg hv]
          exact ⟨rfl, fun hr r hmem hkey => (hinv.rows hr).id_of_hasKeyedRow (hrow hr).2 hmem hkey⟩
  · intro p o σ γ v σ' hinv hg ha hx _ _
    have hocc : σ.occupy p (redisKey key) pendingSentinel TasksService.idempotencyTtlSeconds =
        (v, σ') := by
      simpa [exec] using hx
    refine ⟨.finished, ?_, by simp [noSlot, Stage.HoldsNone]⟩
    obtain ⟨u, rfl, hinv'⟩ | ⟨e, he, rfl, rfl⟩ := Slots.occupy hinv hg hocc
    · exact hinv'.finish_update.rollback p
    · exact (Slots.finish hinv p).rollback p
  · intro p o σ γ e hinv hg ha _
    exact ⟨.finished, (Slots.finish hinv p).rollback p, by simp [noSlot, Stage.HoldsNone]⟩

theorem wpx_insertTask {dto : CreateTaskDto} {now : Timestamp} {token : String}
    (hkey : ∀ k u, slot = some (k, u) → dto.idempotencyKey.map redisKey = some k) :
    (slotProtocol http rows).wpx (call (.insertTask dto now token))
      (fun t g _ => g = .working slot (some t.id)) (fun _ g _ => g = .working slot none)
      (.working slot none) s := by
  refine wpx_call ?_ ?_ ?_ ?_
  · rintro p o σ γ hinv hg - - k hk
    cases hk
  · intro p o σ γ t σ' hinv hg ha hx _
    exact ⟨_, Slots.insertTask hinv hg hkey hx, rfl⟩
  · intro p o σ γ t σ' hinv hg ha hx _ _
    exact ⟨_, (Slots.insertTask hinv hg hkey hx).forgetRow_update.rollback p, rfl⟩
  · intro p o σ γ e hinv hg ha _
    exact ⟨_, (Slots.forgetRow hinv hg).rollback p, rfl⟩

theorem wpx_deleteTask (id : String) :
    (slotProtocol http rows).wpx (call (.deleteTask id)) (fun _ g _ => g = .working slot none)
      (fun _ g _ => g = .working slot none) (.working slot (some id)) s := by
  refine wpx_call ?_ ?_ ?_ ?_
  · rintro p o σ γ hinv hg - - k hk
    cases hk
  · intro p o σ γ u σ' hinv hg ha hx _
    exact ⟨_, Slots.deleteTask hinv hg hx, rfl⟩
  · intro p o σ γ u σ' hinv hg ha hx _ _
    exact ⟨_, (Slots.deleteTask hinv hg hx).rollback p, rfl⟩
  · intro p o σ γ e hinv hg ha _
    exact ⟨_, (Slots.forgetRow hinv hg).rollback p, rfl⟩

theorem inTime_of_release {o : Oracle} (ha : timelyCall p σ o (.redisDel key) = true)
    (hf : o.fault ≠ .failed) : σ.inTime p = true ∨ σ.lookup key = none := by
  simpa [timelyCall, hf, or_assoc] using ha

theorem inTime_of_commit {o : Oracle} {value : String}
    (ha : timelyCall p σ o (.redisSetKeepTtl key value) = true) (hf : o.fault ≠ .failed) :
    σ.inTime p = true := by
  simpa [timelyCall, hf] using ha

theorem wpx_releaseSlot (key : String) {u : Timestamp} :
    (slotProtocol http rows).wpx (IdempotencyService.releaseSlot key) noSlot noSlot
      (.working (some (redisKey key, u)) row) s := by
  have hdone : (Stage.finished).HoldsNone := by simp [Stage.HoldsNone]
  refine wpx_call ?_ ?_ ?_ ?_
  · rintro p o σ γ hinv hg ha hf k hk e he
    cases hk
    exact Slots.eq_sentinel hinv hg (fun hr => inTime_of_release (ha.2 hr) hf) he
  · intro p o σ γ v σ' hinv hg ha hx hf
    cases hx
    exact ⟨_, Slots.releaseSlot hinv fun e he => (Slots.eq_sentinel hinv hg
      (fun hr => inTime_of_release (ha.2 hr) (hf rfl)) he).2, hdone⟩
  · intro p o σ γ v σ' hinv hg ha hx hf _
    cases hx
    exact ⟨_, (Slots.releaseSlot hinv fun e he => (Slots.eq_sentinel hinv hg
      (fun hr => inTime_of_release (ha.2 hr) (by simp [hf])) he).2).rollback p, hdone⟩
  · intro p o σ γ e hinv hg ha _
    exact ⟨_, (Slots.finish hinv p).rollback p, hdone⟩

/-- What a creation has when it returns the id of its own row. -/
def Committed (rows : Bool) (key id : String) (g : Stage) (σ : Backend) : Prop :=
  g = .returned (redisKey key) id ∧ (rows = true → σ.OnlyId key id)

theorem wpx_commitResult (key id : String) {u : Timestamp} :
    (slotProtocol http rows).wpx (IdempotencyService.commitResult key id)
      (fun _ => Committed rows key id) (fun _ => Committed rows key id)
      (.working (some (redisKey key, u)) (some id)) s := by
  have hrow : ∀ {p σ γ}, Slots rows σ γ →
      γ p = .working (some (redisKey key, u)) (some id) → rows = true →
      σ.HasKeyedRow (redisKey key) id ∧ id ∈ σ.issued ∧ σ.OnlyId key id := by
    intro p σ γ hinv hg hr
    obtain ⟨hmine, hslot⟩ := (hinv.rows hr).working p _ _ hg
    have hrow := (hslot _ u rfl).2 id rfl
    exact ⟨hrow, ((hinv.rows hr).inserted p id (hmine id rfl)).2, fun r hmem hkey =>
      (hinv.rows hr).id_of_hasKeyedRow hrow hmem hkey⟩
  refine wpx_call ?_ ?_ ?_ ?_
  · rintro p o σ γ hinv hg ha hf k hk e he
    cases hk
    exact Slots.eq_sentinel hinv hg (fun hr => .inl (inTime_of_commit (ha.2 hr) hf)) he
  · intro p o σ γ v σ' hinv hg ha hx hf
    cases hx
    have hu := Slots.lt_end hinv hg fun hr => inTime_of_commit (ha.2 hr) (hf rfl)
    exact ⟨_, Slots.commitSlot hinv hg hu, rfl, fun hr => (hrow hinv hg hr).2.2⟩
  · intro p o σ γ v σ' hinv hg ha hx hf _
    cases hx
    have hu := Slots.lt_end hinv hg fun hr => inTime_of_commit (ha.2 hr) (by simp [hf])
    exact ⟨_, (Slots.commitSlot hinv hg hu).rollback p, rfl, fun hr => (hrow hinv hg hr).2.2⟩
  · intro p o σ γ e hinv hg ha _
    refine ⟨_, (Slots.giveId hinv fun hr => ?_).rollback p, rfl, fun hr => (hrow hinv hg hr).2.2⟩
    exact ⟨(hrow hinv hg hr).1, (hrow hinv hg hr).2.1⟩

end Calls

end LongRequestProxy
