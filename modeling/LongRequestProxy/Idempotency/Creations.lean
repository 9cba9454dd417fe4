import LongRequestProxy.Idempotency.SlotPrograms

/-!
# What creations can rely on

Creations with one key agree on one task, under interleavings, faults and crashes, as long as no
slot expires under a creation at work. When slots may expire at any time, a slow creation can
still commit or release a slot that is no longer its own: the sentinel does not say whose it is,
and neither call looks at what it replaces.

## Main definitions

* `respectsSlots`: slots outlive the creations that took them, and retention waits for them.
* `timely`: the move commits or releases no slot that has ended.

## Main results

* `one_task_per_key`: creations with one key return one task.
* `slots_owned_iff_timely`: the slots stay owned and bounded exactly by timely moves.
* `late_commit_breaks_slots`: runs in which a late commit breaks them.
-/

namespace LongRequestProxy

open Async Service Function

variable {http : HttpClient} {clock : Timestamp} {rows : Bool} {c c' : (proxy http).Config}
  {m : (proxy http).Move}

/-! ### The runs that the ledgers cover -/

/-- No call is still in flight when the slot that it has taken ends, and no transaction that takes
effect deletes the row of a slot that is alive. -/
def respectsSlots (c : (proxy http).Config) (m : (proxy http).Move) : Bool :=
  match m with
  | .ambient t => c.store.acquired.all fun y => !c.isInFlight y.1 || decide (t < y.2.2)
  | m =>
    match c.callOf m with
    | some (p, o, .txCommit) => o.fault == .failed || c.store.retiresFinished p
    | _ => true

/-- The move commits or releases no slot that has ended. -/
def timely (c : (proxy http).Config) (m : (proxy http).Move) : Bool :=
  match c.callOf m with
  | some (p, o, x) => timelyCall p c.store o x
  | none => true

theorem timely_covers :
    (slotProtocol http false).Covers (slotPost false) fun d m => timely d m = true where
  body _ req _ _ s := keepsSlots_run req s
  calls c p o req x k ha hp := by
    have hx : c.callOf (.call p o) = some (p, o, x) := Config.callOf_eq_some.mpr ⟨rfl, req, k, hp⟩
    refine ⟨by simp, fun _ => ?_⟩
    simpa [timely, hx] using ha
  crash c p γ _ h := (Slots.finish h p).rollback p
  ambient c t s' γ _ h ht := Slots.tick h.inv ht (by simp)

/-- A creation that holds a slot is in flight. -/
theorem inFlight_of_working {γ : ℕ → Stage} (h : (slotProtocol http rows).Good (slotPost rows) c γ)
    {p : ℕ} {slot : String × Timestamp} {row : Option String}
    (hp : γ p = .working (some slot) row) : c.InFlight p := by
  have hidle : γ p ≠ Stage.working none none := by simp [hp]
  have hdead : γ p ≠ Stage.finished := by simp [hp]
  obtain hflight | ⟨req, a, s, -, hpost⟩ := h.inFlight_or_returned hidle hdead
  · exact hflight
  · exact absurd hp (hpost.1 slot row)

theorem respectsSlots_covers :
    (slotProtocol http true).Covers (slotPost true) fun d m => respectsSlots d m = true where
  body _ req _ _ s := keepsSlots_run req s
  calls c p o req x k ha hp := by
    have hx : c.callOf (.call p o) = some (p, o, x) := Config.callOf_eq_some.mpr ⟨rfl, req, k, hp⟩
    refine ⟨fun _ hcommit hf => ?_, by simp⟩
    subst hcommit
    simpa [respectsSlots, hx, hf] using ha
  crash c p γ _ h := (Slots.finish h p).rollback p
  ambient c t s' γ ha h ht := by
    have hinv : Slots true c.store γ := h.inv
    refine hinv.tick ht fun _ p k u row hp => ?_
    have hmem := (hinv.slots.taken p k u row hp).1
    have hflight := Config.isInFlight_of_inFlight (inFlight_of_working h hp)
    have := List.all_eq_true.mp ha _ hmem
    simpa [hflight] using this

/-! ### One task for each key -/

/-- The id that program `p` has returned, when it is a creation with the given key. -/
def createdId (c : (proxy http).Config) (p : ℕ) (key : String) : Option String :=
  match c.procs[p]? with
  | some (.running (.create dto _) (.ret (.ok (.created response)))) =>
    if dto.idempotencyKey = some key then some response.taskId else none
  | _ => none

theorem createdId_eq_some {p : ℕ} {key id : String} (h : createdId c p key = some id) :
    ∃ dto baseUrl response, dto.idempotencyKey = some key ∧ response.taskId = id ∧
      c.Returned p (.create dto baseUrl) (.ok (.created response)) := by
  unfold createdId at h
  split at h
  · next dto baseUrl response hp =>
    split at h
    · next hkey => exact ⟨dto, baseUrl, response, hkey, Option.some.inj h, hp⟩
    · cases h
  · cases h

theorem committed_of_slotPost {dto : CreateTaskDto} {baseUrl key : String}
    {response : TaskCreatedResponse} {g : Stage} {σ : Backend} (hkey : key ≠ "")
    (hdto : dto.idempotencyKey = some key)
    (h : slotPost rows (.create dto baseUrl) (.ok (.created response)) g σ) :
    Committed rows key response.taskId g σ :=
  (h.2 dto baseUrl response rfl rfl).2 key (by simp [hdto, hkey])

/-- **One task for each key.** In a run in which slots outlive the creations that took them and
retention waits for them: at most one row has a given key; and a creation that returns, while the
row exists whose id an earlier creation with its key has returned, returns the same id. -/
theorem one_task_per_key (http : HttpClient) (clock : Timestamp) (c : (proxy http).Config)
    (hc : Reaches (fun d m => respectsSlots d m = true) (initial http clock) c) :
    (∀ key, (c.store.tasks.filter fun r => r.idempotencyKey == some key).length ≤ 1) ∧
    ∀ p₁ p₂ o c' key id₁ id₂, respectsSlots c (.call p₂ o) = true →
      c.move (.call p₂ o) = some c' → key ≠ "" → createdId c p₁ key = some id₁ →
      createdId c' p₂ key = some id₂ → (∃ r ∈ c'.store.tasks, r.id = id₁) → id₁ = id₂ := by
  obtain ⟨γ, hγ⟩ :=
    respectsSlots_covers.reaches (Protocol.Good.of_no_procs (Slots.initial clock)) hc
  constructor
  · intro key
    have hinv : Slots true c.store γ := hγ.inv
    have hpair := (hinv.rows rfl).keys.sublist
      (List.filter_sublist (p := fun r => r.idempotencyKey == some key))
    cases hl : c.store.tasks.filter fun r => r.idempotencyKey == some key with
    | nil => simp
    | cons r rs =>
      cases rs with
      | nil => simp
      | cons r' rs =>
        have hall : ∀ t ∈ r :: r' :: rs, t.idempotencyKey = some key := by
          intro t ht
          rw [← hl, List.mem_filter] at ht
          exact beq_iff_eq.mp ht.2
        rw [hl, List.pairwise_cons] at hpair
        have hr := hall r (by simp)
        have hr' := hall r' (by simp)
        exact absurd (hr.trans hr'.symm) (hpair.1 r' (by simp) (by simp [hr]))
  · intro p₁ p₂ o c' key id₁ id₂ ha hm hkey h₁ h₂ hrow
    obtain ⟨dto₁, url₁, response₁, hdto₁, rfl, hret₁⟩ := createdId_eq_some h₁
    obtain ⟨dto₂, url₂, response₂, hdto₂, rfl, hret₂⟩ := createdId_eq_some h₂
    obtain ⟨γ', hγ', hpost⟩ := respectsSlots_covers.returns hγ ha hm hret₂
    have hinv : Slots true c'.store γ' := hγ'.inv
    obtain ⟨s, hs⟩ := hγ'.running (hret₁.of_move hm)
    have hstage := (committed_of_slotPost hkey hdto₁ hs).1
    obtain ⟨r, hr, hid⟩ := hrow
    obtain ⟨k, hk, hkeq⟩ := Option.map_eq_some_iff.mp
      (((hinv.rows rfl).returned p₁ _ _ hstage).2 r hr hid)
    rw [redisKey_inj.mp hkeq] at hk
    rw [← hid]
    exact (committed_of_slotPost hkey hdto₂ hpost).2 rfl r hr hk

/-- A creation request with a key. -/
def keyedDto : CreateTaskDto := { sampleDto with idempotencyKey := some "k" }

/-- A creation inserts its row and is about to commit its slot. -/
def untilCommit : List (proxy httpRetryService).Move :=
  [.spawn (.create keyedDto "http://proxy"), .call 0 {}, .call 0 {}, .call 0 {},
    .call 0 { uuid := fun _ => sampleId }, .call 0 {}]

/-- The reply to the commit of a creation gets lost; a second creation finds the committed slot
and returns the same task. -/
theorem repeated_creation_returns_task :
    ∃ c c' id₁ id₂, Reaches (fun d m => respectsSlots d m = true) (initial httpRetryService 0) c ∧
      c.move (.call 1 {}) = some c' ∧ createdId c 0 "k" = some id₁ ∧
      createdId c' 1 "k" = some id₂ ∧ (∃ r ∈ c'.store.tasks, r.id = id₁) ∧ id₁ = id₂ := by
  obtain ⟨c, hc, hcheck⟩ : ∃ c,
      Reaches (fun d m => respectsSlots d m = true) (initial httpRetryService 0) c ∧
      (respectsSlots c (.call 1 {}) && createdId c 0 "k" == some sampleId &&
        (c.move (.call 1 {})).any fun c' => (createdId c' 1 "k").isSome &&
          c'.store.tasks.any fun r => r.id == sampleId) = true :=
    exists_reaches_of_replay (fun d m => respectsSlots d m)
      (untilCommit ++ [.call 0 { fault := .lostReply }, .spawn (.create keyedDto "http://proxy")])
      _ (by simp) (by decide)
  simp only [Bool.and_eq_true, beq_iff_eq, Option.any_eq_true, List.any_eq_true] at hcheck
  obtain ⟨⟨ha, h₁⟩, c', hm, h₂, hrow⟩ := hcheck
  obtain ⟨id₂, h₂⟩ := Option.isSome_iff_exists.mp h₂
  exact ⟨c, c', _, id₂, hc, hm, h₁, h₂, hrow,
    (one_task_per_key _ _ c hc).2 0 1 {} c' "k" _ id₂ ha hm (by decide) h₁ h₂ hrow⟩

/-! ### Slots that may expire -/

/-- Every slot has an end, at most a day ahead. -/
def SlotsExpire (σ : Backend) : Prop :=
  ∀ key e, σ.lookup key = some e → ∃ u, e.expireAt = some u ∧ u ≤ σ.clock + slotTtl

/-- If the move commits or releases a slot, it replaces the sentinel of its own program. -/
def WritesOwnSlot (c : (proxy http).Config) (m : (proxy http).Move) : Prop :=
  ∀ p o x, c.callOf m = some (p, o, x) → WritesOwn p c.store x o

/-- The slots that live entries belong to have not ended. -/
theorem SlotInv.inTime_of_writer {σ : Backend} {γ : ℕ → Stage} (h : SlotInv σ γ) {key : String}
    {e : RedisEntry} (he : σ.lookup key = some e) : σ.inTime e.writer = true := by
  obtain ⟨hentry, halive⟩ := Backend.lookup_eq_some_iff.mp he
  obtain ⟨u, hu, hmem, -⟩ := h.ttl key e hentry
  refine List.all_eq_true.mpr fun y hy => ?_
  by_cases hyw : y.1 = e.writer
  · obtain ⟨q, k, u'⟩ := y
    obtain rfl : q = e.writer := hyw
    obtain ⟨rfl, rfl⟩ := h.once _ _ _ _ _ hmem hy
    simpa [RedisEntry.alive, hu] using halive
  · simp [hyw]

/-- A commit that takes effect where nothing is alive leaves an entry without an end. -/
theorem not_slotsExpire_of_commit {σ σ' : Backend} {p : ℕ} {o : Oracle} {key value : String}
    {r : Reply (.redisSetKeepTtl key value)} (hnone : σ.lookup key = none)
    (hf : o.fault ≠ .failed) (h : perform p o σ (.redisSetKeepTtl key value) = some (r, σ')) :
    ¬ SlotsExpire σ' := by
  have hentry : ∀ σ₁, exec p o σ (.redisSetKeepTtl key value) = some (.ok ((), σ₁)) →
      σ₁.lookup key = some ⟨value, none, p⟩ := by
    intro σ₁ hx
    cases hx
    rw [Backend.lookup_setKey_self, hnone]
    rfl
  intro hexp
  obtain ⟨e, -, -, hfail | hx⟩ | ⟨v, -, hx, -⟩ | ⟨v, σ₁, -, hx, -, rfl⟩ := perform_cases h
  · exact hf hfail
  · cases hx
  · obtain ⟨u, hu, -⟩ := hexp key _ (hentry _ hx)
    cases hu
  · have hlive := hentry σ₁ hx
    obtain ⟨u, hu, -⟩ := hexp key _ hlive
    cases hu

/-- A move that is not timely breaks the slots. -/
theorem timely_of_writesOwnSlot {γ : ℕ → Stage} (hinv : SlotInv c.store γ)
    (hm : c.move m = some c') (hown : WritesOwnSlot c m) (hexp : SlotsExpire c'.store) :
    timely c m = true := by
  unfold timely
  split
  · next p o x hx =>
    by_contra hlate
    obtain ⟨r, hperf⟩ := Config.perform_of_callOf hx hm
    -- a late call finds no entry of its own program
    have hnone : o.fault ≠ .failed → c.store.inTime p = false → ∀ key, x.slotKey = some key →
        c.store.lookup key = none := by
      intro hf hin key hkey
      cases hl : c.store.lookup key with
      | none => rfl
      | some e =>
        have hlive := hinv.inTime_of_writer hl
        rw [(hown p o x hx hf key hkey e hl).2, hin] at hlive
        cases hlive
    cases x with
    | redisSetKeepTtl key value =>
      simp only [timelyCall, Bool.or_eq_true, beq_iff_eq, not_or, Bool.not_eq_true] at hlate
      exact not_slotsExpire_of_commit (hnone hlate.1 hlate.2 key rfl) hlate.1 hperf hexp
    | redisDel key =>
      simp only [timelyCall, Bool.or_eq_true, beq_iff_eq, not_or, Bool.not_eq_true] at hlate
      rw [hnone hlate.1.1 hlate.1.2 key rfl] at hlate
      cases hlate.2
    | _ => exact hlate rfl
  · rfl

/-- **Owned slots.** In a run of timely moves every slot has an end, at most a day ahead; and a
next move is timely exactly when it replaces only the sentinel of its own program and leaves
every slot with an end. -/
theorem slots_owned_iff_timely (http : HttpClient) (clock : Timestamp) (c : (proxy http).Config)
    (hc : Reaches (fun d m => timely d m = true) (initial http clock) c) :
    SlotsExpire c.store ∧ ∀ m c', c.move m = some c' →
      (timely c m = true ↔ WritesOwnSlot c m ∧ SlotsExpire c'.store) := by
  have hcover := @timely_covers http
  have hexp : ∀ d, Reaches (fun d m => timely d m = true) (initial http clock) d →
      SlotsExpire d.store := by
    intro d hd key e he
    obtain ⟨γ, hγ⟩ := hcover.reaches (Protocol.Good.of_no_procs (Slots.initial clock)) hd
    have hinv : Slots false d.store γ := hγ.inv
    obtain ⟨u, hu, -, hle⟩ := hinv.slots.ttl key e (Backend.lookup_eq_some_iff.mp he).1
    exact ⟨u, hu, hle⟩
  obtain ⟨γ, hγ⟩ := hcover.reaches (Protocol.Good.of_no_procs (Slots.initial clock)) hc
  have hinv : Slots false c.store γ := hγ.inv
  refine ⟨hexp c hc, fun m c' hm => ⟨fun ht => ⟨fun p o x hx => ?_, ?_⟩, fun h => ?_⟩⟩
  · exact hcover.safe hγ ht hx hm
  · exact hexp c' (hc.tail ⟨m, ht, hm⟩)
  · exact timely_of_writesOwnSlot hinv.slots hm h.1 h.2

/-- The commit of a creation in time keeps the slot owned and bounded. -/
theorem commit_in_time_keeps_slots :
    ∃ c c', Reaches (fun d m => timely d m = true) (initial httpRetryService 0) c ∧
      c.move (.call 0 {}) = some c' ∧ (c'.store.lookup (redisKey "k")).isSome = true ∧
      WritesOwnSlot c (.call 0 {}) ∧ SlotsExpire c'.store := by
  obtain ⟨c, hc, hcheck⟩ : ∃ c,
      Reaches (fun d m => timely d m = true) (initial httpRetryService 0) c ∧
      (timely c (.call 0 {}) && (c.move (.call 0 {})).any fun c' =>
        (c'.store.lookup (redisKey "k")).isSome) = true :=
    exists_reaches_of_replay (fun d m => timely d m) (untilCommit ++ [.ambient 86399999]) _
      (by simp) (by decide)
  simp only [Bool.and_eq_true, Option.any_eq_true] at hcheck
  obtain ⟨ht, c', hm, hlive⟩ := hcheck
  exact ⟨c, c', hc, hm, hlive, ((slots_owned_iff_timely _ _ c hc).2 _ c' hm).mp ht⟩

/-- A creation commits when its slot has just ended: the entry it leaves has no end; and when
another creation has taken the slot meanwhile, the commit replaces the sentinel of the other. -/
theorem late_commit_breaks_slots :
    (¬ ∀ (http : HttpClient) (clock : Timestamp) (c : (proxy http).Config),
      Reaches (fun _ _ => True) (initial http clock) c → SlotsExpire c.store) ∧
    ¬ ∀ (http : HttpClient) (clock : Timestamp) (c c' : (proxy http).Config) (m),
      Reaches (fun _ _ => True) (initial http clock) c → c.move m = some c' →
        WritesOwnSlot c m := by
  constructor
  · intro h
    obtain ⟨c, hc, hcheck⟩ : ∃ c, Reaches (fun _ _ => True) (initial httpRetryService 0) c ∧
        ((c.store.lookup (redisKey "k")).any fun e => e.expireAt.isNone) = true :=
      exists_reaches_of_replay (fun _ _ => true)
        (untilCommit ++ [.ambient 86400000, .call 0 {}]) _ (fun _ _ _ => trivial) (by decide)
    obtain ⟨e, he, hnone⟩ := (Option.any_eq_true _ _).mp hcheck
    obtain ⟨u, hu, -⟩ := h _ _ c hc _ e he
    rw [hu] at hnone
    cases hnone
  · intro h
    obtain ⟨c, hc, hcheck⟩ : ∃ c, Reaches (fun _ _ => True) (initial httpRetryService 0) c ∧
        ((c.move (.call 0 {})).isSome &&
          (c.callOf (.call 0 {})).any fun x => x.2.2.slotKey == some (redisKey "k") &&
            x.1 == 0 && x.2.1.fault == .none &&
            (c.store.lookup (redisKey "k")).any fun e => e.writer == 1) = true :=
      exists_reaches_of_replay (fun _ _ => true)
        (untilCommit ++ [.ambient 86400000, .spawn (.create keyedDto "http://proxy"),
          .call 1 {}]) _ (fun _ _ _ => trivial) (by decide)
    simp only [Bool.and_eq_true, Option.any_eq_true, beq_iff_eq] at hcheck
    obtain ⟨hmove, ⟨p, o, x⟩, hx, ⟨⟨hkey, hp⟩, hfault⟩, e, he, hwriter⟩ := hcheck
    obtain ⟨c', hm⟩ := Option.isSome_iff_exists.mp hmove
    have hown := h _ _ c c' _ hc hm p o x hx (by simp_all) _ hkey e he
    rw [hwriter] at hown
    obtain rfl : p = 0 := hp
    cases hown.2

end LongRequestProxy
