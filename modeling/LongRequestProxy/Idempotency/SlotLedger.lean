import LongRequestProxy.Store.Rules

/-!
# Who owns an idempotency slot

A creation takes the slot of its key, inserts the row, and then commits or releases the slot. The
invariant relates the slots in Redis and the stage that each creation has reached. Slots may
expire at any time.

## Main definitions

* `Stage`: how far a creation has come.
* `SlotInv`: the invariant.

## Main results

* `SlotInv.occupy`, `SlotInv.commit`, `SlotInv.release`: the slot calls.
* `SlotInv.lookup_own`, `SlotInv.value_of_working`: what is in the slot of a creation at work.
-/

namespace LongRequestProxy

open Function

/-- How far a creation has come. -/
inductive Stage : Type
  /-- At work, with the slot that it has taken, its key and its end, and the row that it has
  inserted and not deleted. -/
  | working (slot : Option (String × Timestamp)) (row : Option String)
  /-- The caller was given the id, for a slot. -/
  | returned (key id : String)
  /-- Nothing will be done to a slot or a row any more. -/
  | finished

/-- A slot that a creation has taken is at most a day long. -/
def slotTtl : Timestamp := 86400000

/-- The state after program `p` has taken the slot of a Redis key. -/
def Backend.occupied (σ : Backend) (p : ℕ) (key : String) : Backend :=
  { σ.setKey key (some ⟨pendingSentinel, some (σ.clock + slotTtl), p⟩) with
    acquired := (p, key, σ.clock + slotTtl) :: σ.acquired }

/-- The script takes a free slot for a day, or reports the value found. -/
theorem Backend.occupy_eq (σ : Backend) (p : ℕ) (key : String) :
    σ.occupy p key pendingSentinel TasksService.idempotencyTtlSeconds =
      match σ.lookup key with
      | some e => ((false, some e.value), σ)
      | none => ((true, none), σ.occupied p key) := by
  unfold Backend.occupy
  cases σ.lookup key <;> rfl

/-- The slots in Redis and the programs that have taken them. -/
structure SlotInv (σ : Backend) (γ : ℕ → Stage) : Prop where
  /-- Every entry ends with the slot in which it was written. -/
  ttl : ∀ k e, σ.redis k = some e →
    ∃ u, e.expireAt = some u ∧ (e.writer, k, u) ∈ σ.acquired ∧ u ≤ σ.clock + slotTtl
  /-- A creation takes one slot. -/
  once : ∀ p k u k' u', (p, k, u) ∈ σ.acquired → (p, k', u') ∈ σ.acquired → k = k' ∧ u = u'
  untaken : ∀ p row, γ p = .working none row → ∀ k u, (p, k, u) ∉ σ.acquired
  /-- Until the slot of a creation at work ends, the entry is its sentinel. -/
  taken : ∀ p k u row, γ p = .working (some (k, u)) row →
    (p, k, u) ∈ σ.acquired ∧ (u ≤ σ.clock ∨ σ.redis k = some ⟨pendingSentinel, some u, p⟩)

variable {σ σ' : Backend} {γ : ℕ → Stage} {p : ℕ} {g : Stage} {key : String}

namespace SlotInv

theorem initial (clock : Timestamp) : SlotInv { clock := clock } fun _ => .working none none := by
  constructor <;> simp

theorem of_frame (h : SlotInv σ γ) (hr : σ'.redis = σ.redis) (ha : σ'.acquired = σ.acquired)
    (hc : σ.clock ≤ σ'.clock) : SlotInv σ' γ := by
  refine ⟨fun k e he => ?_, by rw [ha]; exact h.once, by rw [ha]; exact h.untaken,
    fun p k u row hp => ?_⟩
  · rw [hr] at he
    obtain ⟨u, hu, hmem, hle⟩ := h.ttl k e he
    exact ⟨u, hu, ha ▸ hmem, Int.le_trans hle (Int.add_le_add_right hc slotTtl)⟩
  · obtain ⟨hrec, hown⟩ := h.taken p k u row hp
    rw [ha, hr]
    exact ⟨hrec, hown.imp_left fun hle => Int.le_trans hle hc⟩

/-- A creation may forget its row or its slot, but not take a slot by itself. -/
theorem setStage (h : SlotInv σ γ)
    (hg : ∀ slot row, g = .working slot row → ∃ row', γ p = .working slot row') :
    SlotInv σ (update γ p g) := by
  have hold : ∀ q slot row, update γ p g q = .working slot row →
      ∃ row', γ q = .working slot row' := by
    intro q slot row hq
    by_cases hqp : q = p
    · subst hqp
      rw [update_self] at hq
      exact hg slot row hq
    · rw [update_of_ne hqp] at hq
      exact ⟨row, hq⟩
  refine ⟨h.ttl, h.once, fun q row hq => ?_, fun q k u row hq => ?_⟩
  · obtain ⟨row', hq'⟩ := hold q none row hq
    exact h.untaken q row' hq'
  · obtain ⟨row', hq'⟩ := hold q (some (k, u)) row hq
    exact h.taken q k u row' hq'

/-- A creation takes a free slot. -/
theorem occupy (h : SlotInv σ γ) {row : Option String} (hp : γ p = .working none row)
    (hl : σ.lookup key = none) : SlotInv (σ.occupied p key)
      (update γ p (.working (some (key, σ.clock + slotTtl)) row)) := by
  refine ⟨?_, ?_, ?_, ?_⟩
  · intro k e he
    by_cases hk : k = key
    · subst hk
      simp only [Backend.occupied, Backend.setKey, update_self, Option.some.injEq] at he
      subst he
      exact ⟨_, rfl, List.mem_cons_self, Int.le_refl _⟩
    · simp only [Backend.occupied, Backend.setKey, update_of_ne hk] at he
      obtain ⟨u, hu, hmem, hle⟩ := h.ttl k e he
      exact ⟨u, hu, List.mem_cons_of_mem _ hmem, hle⟩
  · intro q k u k' u' hq hq'
    rcases List.mem_cons.mp hq with heq | hq <;> rcases List.mem_cons.mp hq' with heq' | hq'
    · cases heq
      cases heq'
      exact ⟨rfl, rfl⟩
    · cases heq
      exact absurd hq' (h.untaken p row hp k' u')
    · cases heq'
      exact absurd hq (h.untaken p row hp k u)
    · exact h.once q k u k' u' hq hq'
  · intro q row' hq k u hmem
    by_cases hqp : q = p
    · subst hqp
      simp at hq
    · rw [update_of_ne hqp] at hq
      rcases List.mem_cons.mp hmem with heq | hmem
      · exact hqp (Prod.mk.inj heq).1
      · exact h.untaken q row' hq k u hmem
  · intro q k u row' hq
    by_cases hqp : q = p
    · subst hqp
      simp only [update_self, Stage.working.injEq, Option.some.injEq, Prod.mk.injEq] at hq
      obtain ⟨⟨rfl, rfl⟩, -⟩ := hq
      exact ⟨List.mem_cons_self, .inr (by simp [Backend.occupied, Backend.setKey])⟩
    · rw [update_of_ne hqp] at hq
      obtain ⟨hrec, hown⟩ := h.taken q k u row' hq
      refine ⟨List.mem_cons_of_mem _ hrec, ?_⟩
      obtain hle | hentry := hown
      · exact .inl hle
      · by_cases hk : k = key
        · -- the slot was free, so the entry of the other creation has expired
          subst hk
          refine .inl (Int.not_lt.mp fun (hlt : σ.clock < u) => ?_)
          have hlive : σ.lookup k = some ⟨pendingSentinel, some u, q⟩ :=
            Backend.lookup_eq_some_iff.mpr ⟨hentry, by simpa [RedisEntry.alive] using hlt⟩
          rw [hl] at hlive
          cases hlive
        · exact .inr (by simpa [Backend.occupied, Backend.setKey, update_of_ne hk] using hentry)

/-- The live entry of a creation's own slot is its sentinel. -/
theorem lookup_own (h : SlotInv σ γ) {u : Timestamp} {row : Option String}
    (hp : γ p = .working (some (key, u)) row) (hu : σ.clock < u) :
    σ.lookup key = some ⟨pendingSentinel, some u, p⟩ := by
  obtain ⟨-, hle | hentry⟩ := h.taken p key u row hp
  · exact absurd hu (Int.not_lt.mpr hle)
  · exact Backend.lookup_eq_some_iff.mpr ⟨hentry, by simpa [RedisEntry.alive] using hu⟩

/-- No other creation at work has a live slot under the key of an entry. -/
theorem expired_of_writer_ne (h : SlotInv σ γ) {q : ℕ} {u : Timestamp} {row : Option String}
    (hq : γ q = .working (some (key, u)) row) (hne : ∀ e, σ.lookup key = some e → e.writer ≠ q) :
    u ≤ σ.clock := by
  by_contra hlt
  exact hne _ (h.lookup_own hq (Int.not_le.mp hlt)) rfl

/-- A creation replaces or deletes the entry under a key, where nothing but its own entry is
alive, and is done with its slot. -/
theorem setKey (h : SlotInv σ γ) {e : Option RedisEntry}
    (hown : ∀ e₀, σ.lookup key = some e₀ → e₀.writer = p)
    (hnew : ∀ e₁, e = some e₁ →
      ∃ u, e₁.expireAt = some u ∧ (e₁.writer, key, u) ∈ σ.acquired ∧ u ≤ σ.clock + slotTtl)
    (hg : ∀ slot row, g ≠ .working slot row) : SlotInv (σ.setKey key e) (update γ p g) := by
  have hold : ∀ q slot row, update γ p g q = .working slot row →
      q ≠ p ∧ γ q = .working slot row := by
    intro q slot row hq
    by_cases hqp : q = p
    · subst hqp
      rw [update_self] at hq
      exact absurd hq (hg _ _)
    · rw [update_of_ne hqp] at hq
      exact ⟨hqp, hq⟩
  refine ⟨fun k e₁ he => ?_, h.once, fun q row hq => h.untaken q row (hold q _ _ hq).2,
    fun q k u row hq => ?_⟩
  · by_cases hk : k = key
    · subst hk
      exact hnew e₁ (by simpa using he)
    · rw [Backend.redis_setKey_of_ne hk] at he
      exact h.ttl k e₁ he
  · obtain ⟨hqp, hq⟩ := hold q _ _ hq
    obtain ⟨hrec, hentry⟩ := h.taken q k u row hq
    refine ⟨hrec, ?_⟩
    by_cases hk : k = key
    · subst hk
      exact .inl (h.expired_of_writer_ne hq fun e he hw => hqp (hw.symm.trans (hown e he)))
    · exact hentry.imp_right (Backend.redis_setKey_of_ne hk e).trans

/-- A creation commits its own slot. -/
theorem commit (h : SlotInv σ γ) {u : Timestamp} {row : Option String} {value : String}
    (hp : γ p = .working (some (key, u)) row) (hu : σ.clock < u)
    (hg : ∀ slot row, g ≠ .working slot row) :
    SlotInv (σ.setKey key (some ⟨value, (σ.lookup key).bind (·.expireAt), p⟩)) (update γ p g) := by
  have hown := h.lookup_own hp hu
  refine h.setKey (fun e he => ?_) (fun e he => ?_) hg
  · rw [hown] at he
    cases he
    rfl
  · obtain ⟨u', hu', hmem, hle⟩ := h.ttl key _ (Backend.lookup_eq_some_iff.mp hown).1
    rw [hown] at he
    cases he
    exact ⟨u', hu', hmem, hle⟩

/-- A creation releases its own slot, or one under whose key nothing is alive. -/
theorem release (h : SlotInv σ γ) (hown : ∀ e, σ.lookup key = some e → e.writer = p)
    (hg : ∀ slot row, g ≠ .working slot row) : SlotInv (σ.setKey key none) (update γ p g) :=
  h.setKey hown (fun e he => by cases he) hg

/-- The live entry of a creation at work is its sentinel. -/
theorem value_of_working (h : SlotInv σ γ) {k : String} {e : RedisEntry}
    (he : σ.lookup k = some e) {slot : Option (String × Timestamp)} {row : Option String}
    (hp : γ e.writer = .working slot row) : e.value = pendingSentinel := by
  obtain ⟨hentry, hlive⟩ := Backend.lookup_eq_some_iff.mp he
  obtain ⟨u, hu, hmem, -⟩ := h.ttl k e hentry
  match slot with
  | none => exact absurd hmem (h.untaken _ row hp k u)
  | some (k', u') =>
    obtain ⟨hrec, -⟩ := h.taken _ k' u' row hp
    obtain ⟨rfl, rfl⟩ := h.once _ _ _ _ _ hmem hrec
    have hown := h.lookup_own hp (by simpa [RedisEntry.alive, hu] using hlive)
    rw [he] at hown
    rw [Option.some.inj hown]

end SlotInv

end LongRequestProxy
