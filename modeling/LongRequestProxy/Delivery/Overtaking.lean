import LongRequestProxy.Delivery.LogOrder

/-!
# Writers of one log that overtake each other

The event writers of the API hold the advisory lock of a task from before they read its highest
number until they commit; the sweeper holds the rows of its tasks instead. Neither waits for the
other, so the event of one can be committed between the two statements of the other, and then the
unique index refuses the insert and aborts the transaction.

## Main definitions

* `overtakes`: the commits that come between the statements of another writer.
* `refusesEvent`: the calls that the unique index refuses.
* `Fresh`: the invariant of the runs without overtaking.

## Main results

* `no_event_refused`: without overtaking no transaction is aborted, and after overtaking the other
  writer cannot insert.
* `sweep_overtakes_progress`: a run in which the sweeper makes a callback fail.
-/

namespace LongRequestProxy

open Async Discipline Service Function

/-- The move commits an event of a task for which another program has read a number and not yet
inserted the event. -/
def overtakes {http : HttpClient} (c : (proxy http).Config) (m : (proxy http).Move) : Bool :=
  match c.callOf m with
  | some (q, o, .txCommit) =>
    o.fault != .failed && (c.store.tx q).events.any fun e =>
      (List.range c.procs.length).any fun p =>
        p != q && (c.nextCall p).any fun x => x.inserts.any fun y => y.1 == e.taskId
  | _ => false

/-- The move makes a call that the unique index of `task_events` refuses. -/
def refusesEvent {http : HttpClient} (c : (proxy http).Config) (m : (proxy http).Move) : Bool :=
  match c.callOf m with
  | some (p, o, x) =>
    match perform p o c.store x with
    | some (.error (.uniqueViolation index), _) => index == eventsIndex
    | _ => false
  | none => false

variable {http : HttpClient} {clock : Timestamp} {σ σ' : Backend} {γ : ℕ → Summary} {p : ℕ}
  {w : Summary} {req : Request} {x : Await}

theorem overtakes_eq_true {c : (proxy http).Config} {m : (proxy http).Move} :
    overtakes c m = true ↔ ∃ q o, c.callOf m = some (q, o, .txCommit) ∧ o.fault ≠ .failed ∧
      ∃ e ∈ (c.store.tx q).events, ∃ p x, p ≠ q ∧ c.nextCall p = some x ∧
        ∃ y ∈ x.inserts, y.1 = e.taskId := by
  unfold overtakes
  constructor
  · intro h
    split at h
    · next q o hx =>
      simp only [Bool.and_eq_true, List.any_eq_true, List.mem_range, bne_iff_ne, beq_iff_eq,
        Option.any_eq_true] at h
      obtain ⟨hf, e, he, p, -, hne, x, hnext, hins⟩ := h
      exact ⟨q, o, hx, hf, e, he, p, x, hne, hnext, hins⟩
    · cases h
  · rintro ⟨q, o, hx, hf, e, he, p, x, hne, hnext, y, hy, hid⟩
    obtain ⟨req, k, hp⟩ := Config.nextCall_eq_some.mp hnext
    simp only [hx, Bool.and_eq_true, List.any_eq_true, List.mem_range, bne_iff_ne, beq_iff_eq,
      Option.any_eq_true]
    exact ⟨hf, e, he, p, (List.getElem?_eq_some_iff.mp hp).1, hne, x, hnext, y, hy, hid⟩

theorem refusesEvent_eq_true {c : (proxy http).Config} {m : (proxy http).Move} :
    refusesEvent c m = true ↔ ∃ p o x σ', c.callOf m = some (p, o, x) ∧
      perform p o c.store x = some (.error (.uniqueViolation eventsIndex), σ') := by
  unfold refusesEvent
  constructor
  · intro h
    split at h
    · next p o x hx =>
      split at h
      · next index σ' hperform =>
        obtain rfl := beq_iff_eq.mp h
        exact ⟨p, o, x, σ', hx, hperform⟩
      · cases h
    · cases h
  · rintro ⟨p, o, x, σ', hx, hperform⟩
    simp [hx, hperform]

/-! ### The inserts -/

theorem Summary.Awaits.numbers_eq (h : w.Awaits req x) : w.tx.numbers = x.inserts := by
  have hsettled : w.Settled → w.tx.numbers = [] := fun hs => by rw [hs.tx]
  cases x with
  | txInsertEvent seq input =>
    obtain ⟨-, -, htx⟩ := h
    rw [htx]
    rfl
  | txInsertExpiryEvents events =>
    obtain ⟨htx, -⟩ := h
    rw [htx]
    rfl
  | txAdvisoryLock id =>
    obtain ⟨-, -, -, htx⟩ := h
    rw [htx]
    rfl
  | txNextSeq id =>
    obtain ⟨-, -, -, htx⟩ := h
    rw [htx]
    rfl
  | txNumberExpiryEvents ids =>
    obtain ⟨-, htx, -⟩ := h
    rw [htx]
    rfl
  | txDeleteTasks ids =>
    obtain ⟨-, htx, -⟩ := h
    rw [htx]
    rfl
  | txCommit => exact h.2.1
  | httpRequest | jitter | sleep | findTask | insertTask | deleteTask | updateTask | enqueue
  | publish | txCancelTask | txExpireTasks | txDeleteEvents => exact hsettled h.1
  | _ => exact hsettled h

/-- A function about to insert events has inserted and deleted none before. -/
theorem Summary.Awaits.of_inserts (h : w.Awaits req x) (hx : x.inserts ≠ []) :
    w.tx.events = [] ∧ w.tx.cleared = [] := by
  cases x with
  | txInsertEvent seq input =>
    obtain ⟨-, -, htx⟩ := h
    rw [htx]
    exact ⟨rfl, rfl⟩
  | txInsertExpiryEvents events =>
    obtain ⟨htx, -⟩ := h
    rw [htx]
    exact ⟨rfl, rfl⟩
  | _ => exact absurd rfl hx

/-! ### Runs without overtaking -/

/-- Every number that a function has read is above those of the events of its task. -/
def Fresh (σ : Backend) (γ : ℕ → Summary) : Prop :=
  ∀ p, ∀ x ∈ (γ p).tx.numbers, ∀ e ∈ σ.events, e.taskId = x.1 → e.seq < x.2

namespace Fresh

/-- A call that commits no events, and after which the numbers of its function are fresh. -/
theorem of_call (h : Fresh σ γ) (he : σ'.events = σ.events)
    (hw : ∀ x ∈ w.tx.numbers, ∀ e ∈ σ.events, e.taskId = x.1 → e.seq < x.2) :
    Fresh σ' (update γ p w) := by
  unfold Fresh
  rw [he]
  exact (forall_update_iff γ fun _ w => ∀ x ∈ w.tx.numbers, ∀ e ∈ σ.events, e.taskId = x.1 →
    e.seq < x.2).mpr ⟨hw, fun q _ => h q⟩

/-- The numbers that the other functions have read stay fresh in a commit that overtakes none. -/
theorem commit (h : Fresh σ γ) (hw : w.tx.numbers = [])
    (hfree : ∀ q, q ≠ p → ∀ x ∈ (γ q).tx.numbers, ∀ e ∈ (σ.tx p).events, e.taskId ≠ x.1) :
    Fresh (σ.commit p) (update γ p w) := by
  refine (forall_update_iff γ fun _ w => ∀ x ∈ w.tx.numbers, ∀ e ∈ (σ.commit p).events,
    e.taskId = x.1 → e.seq < x.2).mpr ⟨by simp [hw], fun q hq x hx e he hid => ?_⟩
  obtain ⟨he, -⟩ | he := Backend.mem_commit_events.mp he
  · exact h q x hx e he hid
  · exact absurd hid (hfree q hq x hx e he)

/-- A call of a function that keeps to the discipline, if it commits no events. -/
theorem exec {o : Oracle} {v : x.Val} (h : Fresh σ γ) (ht : Tracked σ γ)
    (ha : (γ p).Awaits req x) (hx : exec p o σ x = some (.ok (v, σ'))) (hc : x ≠ .txCommit) :
    Fresh σ' (update γ p ((γ p).afterValue x v)) := by
  have hevents : σ'.events = σ.events := by
    obtain hsame | ⟨rfl, -⟩ := exec_events_cases hx
    · exact hsame
    · exact absurd rfl hc
  refine h.of_call hevents ?_
  cases hn : x.isNumbering with
  | false =>
    rw [(Summary.afterValue_of_not_isNumbering hn v).1]
    exact h p
  | true =>
    have hmax : (γ p).tx.events = [] → (γ p).tx.cleared = [] → ∀ i, ∀ e ∈ σ.events,
        e.taskId = i → e.seq < σ.maxSeq p i + 1 := by
      intro hev hcleared i e he hid
      have := Backend.le_maxSeq (σ := σ) (p := p) (e := e)
        (by rwa [ht.committedEvents_eq hev hcleared]) hid
      omega
    cases x with
    | txNextSeq id =>
      cases hx
      obtain ⟨-, -, -, htx⟩ := ha
      intro y hy
      rw [List.mem_singleton.mp hy]
      exact hmax (by rw [htx]) (by rw [htx]) id
    | txNumberExpiryEvents ids =>
      cases hx
      obtain ⟨-, htx, -⟩ := ha
      intro y hy
      obtain ⟨e, he, rfl⟩ := List.mem_map.mp hy
      obtain ⟨z, -, rfl⟩ := List.mem_map.mp he
      exact hmax (by rw [htx]) (by rw [htx]) z.1
    | txInsertEvent seq input => exact fun y hy => nomatch hy
    | txInsertExpiryEvents events => exact fun y hy => nomatch hy
    | txCommit => exact absurd rfl hc
    | _ => cases hn

end Fresh

/-- A function that has read numbers is about to insert events under them. -/
theorem exists_insert {s : (discipline http).Observed} (hs : s.Obeys) {y : String × ℤ}
    (hy : y ∈ (s.locals p).tx.numbers) :
    ∃ x, s.config.nextCall p = some x ∧ x.inserts = (s.locals p).tx.numbers := by
  have hstart : s.locals p ≠ (discipline http).start := by
    intro heq
    rw [heq] at hy
    cases hy
  obtain ⟨req, x, k, hp, ha⟩ | ⟨req, a, -, hret⟩ := hs.inFlight_or_returned hstart
  · exact ⟨x, Config.nextCall_eq_some.mpr ⟨req, k, hp⟩, (Summary.Awaits.numbers_eq ha).symm⟩
  · rw [hret.1.tx] at hy
    cases hy

/-- A commit that overtakes nobody writes the log of no task of which another function has read a
number. -/
theorem ne_of_not_overtakes {s : (discipline http).Observed} (hs : s.Obeys) {o : Oracle}
    (hx : s.config.callOf (.call p o) = some (p, o, .txCommit)) (hf : o.fault ≠ .failed)
    (h : overtakes s.config (.call p o) = false) {q : ℕ} (hq : q ≠ p) {y : String × ℤ}
    (hy : y ∈ (s.locals q).tx.numbers) {e : TaskEventSelect}
    (he : e ∈ (s.config.store.tx p).events) : e.taskId ≠ y.1 := by
  intro hid
  obtain ⟨x, hnext, hins⟩ := exists_insert hs hy
  have htrue : overtakes s.config (.call p o) = true :=
    overtakes_eq_true.mpr ⟨p, o, hx, hf, e, he, q, x, hq, hnext, y, hins ▸ hy, hid.symm⟩
  rw [h] at htrue
  cases htrue

/-- In runs without overtaking every number stays fresh until it is used. -/
theorem fresh_of_runs {s : (discipline http).Observed}
    (h : Runs (fun d m => overtakes d m = false) (observed http clock) s) :
    Fresh s.config.store s.locals := by
  refine runs_invariant ?_ ?_ (fun _ _ _ ht => ht) h (fun _ x hx => nomatch hx)
  · intro t p o req x k v σ' hrun hov hp ha hf hv ht hx
    have htracked := tracked_of_runs hrun
    by_cases hc : x = .txCommit
    · subst hc
      cases hx
      exact ht.commit rfl fun q hq y hy e he => ne_of_not_overtakes (obeys_of_runs hrun)
        (Config.callOf_eq_some.mpr ⟨rfl, req, k, hp⟩) (hf rfl) hov hq hy he
    · exact ht.exec htracked ha hx hc
  · intro σ γ p w ht hw
    exact ht.of_call rfl (by simp [hw.tx])

/-! ### The results -/

/-- Without overtaking the unique index refuses nothing. -/
theorem refusesEvent_eq_false {c : (proxy http).Config} {m : (proxy http).Move}
    (h : Reaches (fun d m => overtakes d m = false) (initial http clock) c) :
    refusesEvent c m = false := by
  obtain ⟨γ, hγ, hobeys⟩ := exists_observed h
  have hfresh : Fresh c.store γ := fresh_of_runs hγ
  have htracked : Tracked c.store γ := tracked_of_runs hγ
  refine eq_false_of_ne_true fun hrefused => ?_
  obtain ⟨p, o, x, σ', hx, hperform⟩ := refusesEvent_eq_true.mp hrefused
  obtain ⟨-, req, k, hp⟩ := Config.callOf_eq_some.mp hx
  have ha : (γ p).Awaits req x := hobeys.awaits hp
  obtain herr | herr | ⟨-, y, hy, e, he, hid, hseq⟩ :=
    exec_error_cases (exec_of_perform_error hperform (by simp))
  · cases herr
  · exact absurd (JsError.uniqueViolation.inj herr) (by decide)
  · obtain ⟨hev, hcleared⟩ := ha.of_inserts (List.ne_nil_of_mem hy)
    rw [htracked.committedEvents_eq hev hcleared] at he
    have := hfresh p y (ha.numbers_eq ▸ hy) e he hid
    omega

/-- An insert of which a number is taken does not take effect. -/
theorem exec_ne_ok_of_taken {o : Oracle} {v : x.Val} {y : String × ℤ} (hy : y ∈ x.inserts)
    {e : TaskEventSelect} (he : e ∈ σ.committedEvents (σ.tx p)) (hid : e.taskId = y.1)
    (hseq : e.seq = y.2) : exec p o σ x ≠ some (.ok (v, σ')) := by
  intro hx
  cases x with
  | txInsertEvent seq input =>
    obtain ⟨rfl, hx⟩ := exec_txInsertEvent_ok hx
    obtain ⟨hfree, -⟩ := Backend.txInsertEvents_ok hx
    obtain rfl := List.mem_singleton.mp hy
    exact hfree _ (List.mem_singleton_self _) e he hid hseq
  | txInsertExpiryEvents events =>
    obtain ⟨hfree, -⟩ := Backend.txInsertEvents_ok hx
    obtain ⟨e', he', rfl⟩ := List.mem_map.mp hy
    exact hfree e' he' e he hid hseq
  | _ => cases hy

/-- **Overtaken writers cannot insert.** After a commit that overtakes another program, the insert
that this program is about to make can only be refused, while the task has its row. -/
theorem insert_refused_of_overtakes {c c' : (proxy http).Config} {m : (proxy http).Move}
    (h : Reaches (fun _ _ => True) (initial http clock) c) (hm : c.move m = some c')
    (hov : overtakes c m = true) :
    ∃ p x, c'.nextCall p = some x ∧ ∃ y ∈ x.inserts, c'.store.HasRow y.1 →
      ∀ o v σ', exec p o c'.store x ≠ some (.ok (v, σ')) := by
  obtain ⟨γ, -, hobeys, hlogged⟩ := exists_logged h
  obtain ⟨q, o, hx, hf, e, he, p, x, hne, hnext, y, hy, hid⟩ := overtakes_eq_true.mp hov
  obtain ⟨rfl, req, k, hq⟩ := Config.callOf_eq_some.mp hx
  obtain ⟨req', k', hp⟩ := Config.nextCall_eq_some.mp hnext
  have ha : (γ p).Awaits req' x := hobeys.awaits hp
  have hset : (γ q).tx.deleted = (γ q).tx.cleared :=
    (show (γ q).Awaits req .txCommit from hobeys.awaits hq).2.2.1
  obtain ⟨r, hperform⟩ := Config.perform_of_callOf hx hm
  have hprocs : c'.nextCall p = some x := by
    simp only [Config.move, hq] at hm
    obtain ⟨z, -, rfl⟩ := Option.map_eq_some_iff.mp hm
    refine Config.nextCall_eq_some.mpr ⟨req', k', ?_⟩
    rw [List.getElem?_set_ne hne.symm]
    exact hp
  refine ⟨p, x, hprocs, y, hy, fun hrow o' v σ' => ?_⟩
  have hstore : (c'.store.events = (c.store.commit q).events) ∧
      c'.store.tx p = c.store.tx p ∧ c'.store.tasks = (c.store.commit q).tasks := by
    have hcommit : ∀ {w : Unit} {σ₁ : Backend},
        exec q o c.store .txCommit = some (.ok (w, σ₁)) → σ₁ = c.store.commit q := by
      intro w σ₁ hex
      cases hex
      rfl
    obtain ⟨err, -, -, hfail | hex⟩ | ⟨w, -, hex, -⟩ | ⟨w, σ₁, -, hex, -, heq⟩ :=
      perform_cases hperform
    · exact absurd hfail hf
    · cases hex
    · rw [hcommit hex]
      exact ⟨rfl, Backend.tx_commit_of_ne hne, rfl⟩
    · rw [heq, hcommit hex]
      exact ⟨rfl, (Backend.tx_rollback_of_ne hne).trans (Backend.tx_commit_of_ne hne), rfl⟩
  have hrow' : (c.store.commit q).HasRow e.taskId := by
    rw [hid] at hrow
    simpa [Backend.HasRow, hstore.2.2] using hrow
  have hold := (Backend.hasRow_of_commit hrow').1
  have hmem : e ∈ (γ q).tx.events := (hlogged.tracked.tracks q).events ▸ he
  -- the number is at most the one that the commit has used
  have htaken : y.2 ∈ (c.store.commit q).seqs e.taskId := by
    have hread := (hlogged.numbered.counts p).read y (ha.numbers_eq ▸ hy) (hid ▸ hold)
    have hgapless := hlogged.numbered.gapless _ hold
    obtain ⟨-, hnone⟩ | ⟨e', he', hid', hlog⟩ :=
      hlogged.numbered.log_commit hlogged.tracked hrow' hset
    · exact absurd rfl (hnone e hmem)
    · have hseq := (hlogged.numbered.counts q).added e' he' (hid' ▸ hold)
      rw [hid] at hread
      rw [hid'] at hseq
      rw [Backend.seqs, hlog, List.map_append, List.map_singleton, hseq]
      change y.2 ∈ c.store.seqs e.taskId ++ [_]
      rw [hgapless, length_upTo, ← upTo_succ]
      exact mem_upTo.mpr ⟨hread.1, by exact_mod_cast hread.2⟩
  obtain ⟨e₂, he₂, hid₂, hseq₂⟩ := Backend.mem_seqs.mp htaken
  obtain ⟨-, hcleared⟩ := ha.of_inserts (List.ne_nil_of_mem hy)
  have hdel := (hlogged.tracked.tracks p).deletedEvents_eq_nil hcleared
  refine exec_ne_ok_of_taken hy ?_ (hid₂.trans hid.symm) hseq₂
  rw [hstore.2.1, Backend.committedEvents, hstore.1]
  refine List.mem_append_left _ (List.mem_filter.mpr ⟨he₂, ?_⟩)
  simp [Tx.deletesEvent, hdel]

/-- **Writers that do not overtake each other succeed.** In runs in which no commit comes between
the two statements of another writer of the log, no transaction is aborted by the unique index; and
after a commit that does, the insert of the other writer can only be refused, while the task has
its row. -/
theorem no_event_refused (http : HttpClient) (clock : Timestamp) :
    (∀ c m, Reaches (fun d m => overtakes d m = false) (initial http clock) c →
      refusesEvent c m = false) ∧
    ∀ c m c', Reaches (fun _ _ => True) (initial http clock) c → c.move m = some c' →
      overtakes c m = true → ∃ p x, c'.nextCall p = some x ∧ ∃ y ∈ x.inserts,
        c'.store.HasRow y.1 → ∀ o v σ', exec p o c'.store x ≠ some (.ok (v, σ')) :=
  ⟨fun _ _ => refusesEvent_eq_false, fun _ _ _ => insert_refused_of_overtakes⟩

/-! ### Example runs -/

/-- A progress request of a claimed task has updated the row and read the number of its event; the
sweeper has expired the task and inserted the event under the same number. -/
def overtakingRun : List (proxy httpRetryService).Move :=
  [.spawn (.create sampleDto "http://proxy"), .call 0 {}, .call 0 { uuid := fun _ => "secret" },
    .call 0 { uuid := fun _ => sampleId }, .call 0 {},
    .spawn (.dispatch sampleId 300), .call 1 { time := 1000 }, .call 1 {}, .call 1 {},
    .spawn (.progress sampleId (some "Bearer secret") sampleProgress), .call 2 {}, .call 2 {},
    .call 2 {}, .call 2 {},
    .spawn (.sweep 1), .call 3 { time := 400000 }, .call 3 { picks := [sampleId] },
    .call 3 {}, .call 3 {}]

/-- The sweeper commits, and the insert of the progress request is refused. -/
theorem sweep_overtakes_progress :
    ¬ ∀ (http : HttpClient) (clock : Timestamp) (c : (proxy http).Config) (m : (proxy http).Move),
      Reaches (fun _ _ => True) (initial http clock) c → refusesEvent c m = false := by
  intro h
  obtain ⟨c, hc, hcheck⟩ : ∃ c, Reaches (fun _ _ => True) (initial httpRetryService 0) c ∧
      refusesEvent c (.call 2 {}) = true :=
    exists_reaches_of_replay (fun _ _ => true) (overtakingRun ++ [.call 3 {}]) _
      (fun _ _ _ => trivial) (by decide)
  rw [h _ _ c _ hc] at hcheck
  cases hcheck

/-- The progress request of a completed task overtakes nobody, and its insert is not refused; the
sweeper overtakes, and the insert of the progress request cannot take effect. -/
theorem no_event_refused_completedRun :
    (∃ c, Reaches (fun d m => overtakes d m = false) (initial httpRetryService 0) c ∧
      (c.nextCall 2).any (fun x => x.inserts == [(sampleId, 2)]) = true ∧
      refusesEvent c (.call 2 {}) = false) ∧
    ∃ c c' p x, Reaches (fun _ _ => True) (initial httpRetryService 0) c ∧
      c.move (.call 3 {}) = some c' ∧ c'.nextCall p = some x ∧ ∃ y ∈ x.inserts,
        c'.store.HasRow y.1 → ∀ o v σ', exec p o c'.store x ≠ some (.ok (v, σ')) := by
  constructor
  · obtain ⟨c, hc, hcheck⟩ : ∃ c,
        Reaches (fun d m => overtakes d m = false) (initial httpRetryService 0) c ∧
        (c.nextCall 2).any (fun x => x.inserts == [(sampleId, 2)]) = true :=
      exists_reaches_of_replay (fun d m => !overtakes d m) (completedRun ++ lateProgress.take 3) _
        (by simp) (by decide)
    exact ⟨c, hc, hcheck, (no_event_refused httpRetryService 0).1 c _ hc⟩
  · obtain ⟨c, hc, hcheck⟩ : ∃ c, Reaches (fun _ _ => True) (initial httpRetryService 0) c ∧
        (overtakes c (.call 3 {}) && (c.move (.call 3 {})).isSome) = true :=
      exists_reaches_of_replay (fun _ _ => true) overtakingRun _ (fun _ _ _ => trivial) (by decide)
    obtain ⟨hov, hsome⟩ := Bool.and_eq_true_iff.mp hcheck
    obtain ⟨c', hm⟩ := Option.isSome_iff_exists.mp hsome
    obtain ⟨p, x, hnext, hrefused⟩ :=
      (no_event_refused httpRetryService 0).2 c _ c' hc hm hov
    exact ⟨c, c', p, x, hc, hm, hnext, hrefused⟩

end LongRequestProxy
