import LongRequestProxy.Delivery.Publications
import LongRequestProxy.Delivery.TaskEndings
import Mathlib.Data.List.Infix

/-!
# The order of the log

As long as a task has its row its log only grows at the end, by events with the next numbers. So
a history query returns a suffix of the log without a hole, and later queries extend it.

## Main results

* `log_of_reaches`: the log of a task along a run.
* `Backend.findEventsSince_eq_drop`: what a history query returns.
* `log_gapless`: both, from the first request on.
-/

namespace LongRequestProxy

open Async Discipline Service

variable {http : HttpClient} {clock : Timestamp} {c c' : (proxy http).Config} {i : String}

/-! ### The log along a run -/

/-- The logs of a state reached are numbered and published in order. -/
theorem exists_logged (h : Reaches (fun _ _ => True) (initial http clock) c) :
    ∃ γ, Runs (fun _ _ => True) (observed http clock) ⟨c, γ⟩ ∧
      Observed.Obeys (D := discipline http) ⟨c, γ⟩ ∧ Logged c.store γ := by
  obtain ⟨γ, hγ, hobeys⟩ := exists_observed h
  exact ⟨γ, hγ, hobeys, logged_of_runs hγ⟩

/-- What one move does to the log of a task. -/
theorem log_of_move {m : (proxy http).Move}
    (h : Reaches (fun _ _ => True) (initial http clock) c) (hm : c.move m = some c')
    (hi : i ∈ c.store.issued) :
    i ∈ c'.store.issued ∧
      (c'.store.HasRow i → c.store.HasRow i ∧ c.store.log i <+: c'.store.log i) := by
  obtain ⟨γ, -, hobeys, hlogged⟩ := exists_logged h
  have hsame : ∀ σ' : Backend, σ'.tasks = c.store.tasks → σ'.events = c.store.events →
      σ'.HasRow i → c.store.HasRow i ∧ c.store.log i <+: σ'.log i := by
    intro σ' ht he hrow
    have hlog : σ'.log i = c.store.log i := by rw [Backend.log, he]; rfl
    exact ⟨by simpa [Backend.HasRow, ht] using hrow, hlog ▸ List.prefix_refl _⟩
  obtain ⟨time, hs⟩ | ⟨p, hs⟩ | ⟨p, o, req, x, k, v, σ, -, hp, -, hx, hs⟩ := store_cases_of_move hm
  · rw [hs]
    exact ⟨hi, hsame _ rfl rfl⟩
  · rw [hs]
    exact ⟨hi, hsame _ rfl rfl⟩
  · have hcall : i ∈ σ.issued ∧
        (σ.HasRow i → c.store.HasRow i ∧ c.store.log i <+: σ.log i) := by
      refine ⟨issued_subset_of_exec hx hi, fun hrow => ?_⟩
      have hold := (exec_rowIds hx hlogged.tracked.rowIds).2 i hi hrow
      refine ⟨hold, ?_⟩
      obtain hev | ⟨rfl, rfl⟩ := exec_events_cases hx
      · have hlog : σ.log i = c.store.log i := by rw [Backend.log, hev]; rfl
        exact hlog ▸ List.prefix_refl _
      · have hset := (hobeys.awaits hp).2.2.1
        obtain ⟨hlog, -⟩ | ⟨e, -, -, hlog⟩ :=
          hlogged.numbered.log_commit hlogged.tracked hrow hset
        · exact hlog ▸ List.prefix_refl _
        · rw [hlog]
          exact List.prefix_append _ _
    obtain hs | hs := hs
    · rwa [hs]
    · rw [hs]
      exact hcall

/-- What a commit does to the log of a task that keeps its row. -/
theorem log_of_commit {allow : (proxy http).Config → (proxy http).Move → Prop}
    {s s' : (discipline http).Observed} {m : (proxy http).Move} {p : ℕ} {o : Oracle}
    (h : Runs allow (observed http clock) s) (hm : s.move m = some s')
    (hcall : s.config.callOf m = some (p, o, .txCommit)) (hf : o.fault ≠ .failed)
    (hrow : s'.config.store.HasRow i) :
    (s'.config.store.log i = s.config.store.log i ∧
      ∀ e ∈ (s.locals p).tx.events, e.taskId ≠ i) ∨
    ∃ e ∈ (s.locals p).tx.events, e.taskId = i ∧
      s'.config.store.log i = s.config.store.log i ++ [e] := by
  obtain ⟨-, req, k, hp⟩ := Config.callOf_eq_some.mp hcall
  have hset : (s.locals p).tx.deleted = (s.locals p).tx.cleared :=
    ((obeys_of_runs h).awaits hp).2.2.1
  have hstore : (s.config.store.commit p).HasRow i ∧
      s'.config.store.log i = (s.config.store.commit p).log i := by
    obtain hσ | hσ := store_of_commit (Observed.config_move hm) hcall hf
    · rw [hσ] at hrow ⊢
      exact ⟨hrow, rfl⟩
    · rw [hσ] at hrow ⊢
      exact ⟨hrow, rfl⟩
  rw [hstore.2]
  exact (numbered_of_runs h).log_commit (tracked_of_runs h) hstore.1 hset

/-- **Logs grow at the end.** The log of a task that has kept its row is a prefix of its later
log. -/
theorem log_of_reaches (hc : Reaches (fun _ _ => True) (initial http clock) c)
    (h : Reaches (fun _ _ => True) c c') (hi : i ∈ c.store.issued) :
    i ∈ c'.store.issued ∧
      (c'.store.HasRow i → c.store.HasRow i ∧ c.store.log i <+: c'.store.log i) := by
  induction h with
  | refl => exact ⟨hi, fun hrow => ⟨hrow, List.prefix_refl _⟩⟩
  | tail hreach hstep ih =>
    obtain ⟨m, -, hm⟩ := hstep
    obtain ⟨hissued, hlog⟩ := log_of_move (hc.trans hreach) hm ih.1
    refine ⟨hissued, fun hrow => ?_⟩
    obtain ⟨hmid, hlast⟩ := hlog hrow
    obtain ⟨hfirst, hprefixed⟩ := ih.2 hmid
    exact ⟨hfirst, hprefixed.trans hlast⟩

/-! ### History queries -/

/-- In a list numbered `1, …, n` an element has the number of its position. -/
theorem seq_of_getElem? {es : List TaskEventSelect} {n : ℕ} (h : es.map (·.seq) = upTo n) {j : ℕ}
    {e : TaskEventSelect} (he : es[j]? = some e) : e.seq = j + 1 := by
  have hget : (upTo n)[j]? = some e.seq := by rw [← h, List.getElem?_map, he]; rfl
  simp only [upTo, List.getElem?_map, Option.map_eq_some_iff, List.getElem?_eq_some_iff,
    List.getElem_range] at hget
  obtain ⟨_, ⟨-, rfl⟩, heq⟩ := hget
  exact heq.symm

/-- In a list numbered `1, …, n` the elements with a number after `k` are those from position `k`
on. -/
theorem filter_lt_eq_drop {es : List TaskEventSelect} {n : ℕ} (h : es.map (·.seq) = upTo n)
    (k : ℤ) : es.filter (fun e => decide (k < e.seq)) = es.drop k.toNat := by
  have htake : (es.take k.toNat).filter (fun e => decide (k < e.seq)) = [] := by
    refine List.filter_eq_nil_iff.mpr fun e he => ?_
    obtain ⟨j, hj⟩ := List.getElem?_of_mem he
    rw [List.getElem?_take] at hj
    split at hj
    case isFalse => cases hj
    have := seq_of_getElem? h hj
    simp only [decide_eq_true_eq]
    omega
  have hdrop : (es.drop k.toNat).filter (fun e => decide (k < e.seq)) = es.drop k.toNat := by
    refine List.filter_eq_self.mpr fun e he => ?_
    obtain ⟨j, hj⟩ := List.getElem?_of_mem he
    rw [List.getElem?_drop] at hj
    have := seq_of_getElem? h hj
    simp only [decide_eq_true_eq]
    omega
  rw [← List.take_append_drop k.toNat es, List.filter_append, htake, hdrop,
    List.take_append_drop, List.nil_append]

/-- A log without gaps is in the order of its numbers. -/
theorem Backend.pairwise_log {σ : Backend} {n : ℕ} (h : σ.seqs i = upTo n) :
    (σ.log i).Pairwise fun e e' => e.seq < e'.seq := by
  refine List.pairwise_map.mp (?_ : (σ.seqs i).Pairwise (· < ·))
  rw [h]
  exact pairwise_upTo n

/-- A history query returns the log from a position on. -/
theorem Backend.findEventsSince_eq_drop {σ : Backend} {n : ℕ} (h : σ.seqs i = upTo n) (k : ℤ) :
    σ.findEventsSince i k = (σ.log i).drop k.toNat := by
  have hfilter : (σ.events.filter fun e => e.taskId == i && decide (k < e.seq)) =
      (σ.log i).drop k.toNat := by
    rw [← filter_lt_eq_drop h k, log, List.filter_filter]
    exact List.filter_congr fun e _ => Bool.and_comm _ _
  rw [findEventsSince, hfilter]
  refine List.Pairwise.insertionSort_eq (List.Pairwise.sublist (List.drop_sublist _ _) ?_)
  exact (pairwise_log h).imp Int.le_of_lt

/-- The numbers of a task that has a row. -/
theorem seqs_of_reaches (h : Reaches (fun _ _ => True) (initial http clock) c)
    (hrow : c.store.HasRow i) : c.store.seqs i = upTo (c.store.log i).length := by
  obtain ⟨γ, -, -, hlogged⟩ := exists_logged h
  have := hlogged.numbered.gapless i hrow
  rwa [show (c.store.seqs i).length = (c.store.log i).length from List.length_map _] at this

/-- **Logs are gapless and ordered by commit.** In every reachable state the numbers of the
committed events of a task that has a row are `1, …, n` in the order of the log, and a history
query after `k` returns the events numbered `k + 1, …, n` in order. As long as the task keeps its
row, its log and the results of the query only grow at the end. -/
theorem log_gapless (http : HttpClient) (clock : Timestamp) (c : (proxy http).Config)
    (hc : Reaches (fun _ _ => True) (initial http clock) c) (t : TaskSelect)
    (ht : t ∈ c.store.tasks) :
    c.store.seqs t.id = upTo (c.store.log t.id).length ∧
    (∀ k : ℤ, c.store.findEventsSince t.id k = (c.store.log t.id).drop k.toNat) ∧
    ∀ c', Reaches (fun _ _ => True) c c' → c'.store.HasRow t.id →
      c.store.log t.id <+: c'.store.log t.id ∧
      ∀ k : ℤ, c.store.findEventsSince t.id k <+: c'.store.findEventsSince t.id k := by
  have hrow : c.store.HasRow t.id := ⟨t, ht, rfl⟩
  obtain ⟨γ, -, -, hlogged⟩ := exists_logged hc
  have hissued := hlogged.tracked.rowIds.issued t ht
  refine ⟨seqs_of_reaches hc hrow, fun k => ?_, fun c' h hrow' => ?_⟩
  · exact Backend.findEventsSince_eq_drop (seqs_of_reaches hc hrow) k
  · have hprefixed := ((log_of_reaches hc h hissued).2 hrow').2
    refine ⟨hprefixed, fun k => ?_⟩
    rw [Backend.findEventsSince_eq_drop (seqs_of_reaches hc hrow),
      Backend.findEventsSince_eq_drop (seqs_of_reaches (hc.trans h) hrow')]
    exact hprefixed.drop k.toNat

/-- The log of the completed task is extended by the late progress request. -/
theorem log_gapless_completedRun :
    ∃ c c' t, Reaches (fun _ _ => True) (initial httpRetryService 0) c ∧
      Reaches (fun _ _ => True) c c' ∧ t ∈ c.store.tasks ∧
      (c.store.log t.id).length = 1 ∧ (c'.store.log t.id).length = 2 ∧
      c.store.log t.id <+: c'.store.log t.id ∧ c'.store.seqs t.id = upTo 2 := by
  obtain ⟨c, hc, hcheck⟩ : ∃ c, Reaches (fun _ _ => True) (initial httpRetryService 0) c ∧
      (c.store.tasks.any (fun t => t.id == sampleId) && (c.store.log sampleId).length == 1 &&
        (c.replay (fun _ _ => true) lateProgress).any fun c' =>
          c'.store.tasks.any (fun t => t.id == sampleId) &&
            (c'.store.log sampleId).length == 2) = true :=
    exists_reaches_of_replay (fun _ _ => true) completedRun _ (fun _ _ _ => trivial) (by decide)
  simp only [Bool.and_eq_true, List.any_eq_true, beq_iff_eq] at hcheck
  obtain ⟨⟨⟨t, ht, hid⟩, hone⟩, hlate⟩ := hcheck
  obtain ⟨c', hc', hcheck'⟩ := exists_reaches_of_replay (fun _ _ => true) lateProgress _
    (fun _ _ _ => trivial) hlate
  simp only [List.any_eq_true, Bool.and_eq_true, beq_iff_eq] at hcheck'
  obtain ⟨⟨t', ht', hid'⟩, htwo⟩ := hcheck'
  have hlog := (log_gapless httpRetryService 0 c hc t ht).2.2 c' hc' ⟨t', ht', hid'.trans hid.symm⟩
  have hseqs := (log_gapless httpRetryService 0 c' (hc.trans hc') t' ht').1
  rw [hid', htwo] at hseqs
  rw [hid] at hlog
  exact ⟨c, c', t, hc, hc', ht, by rw [hid, hone], by rw [hid, htwo], by rw [hid]; exact hlog.1,
    by rw [hid, hseqs]⟩

end LongRequestProxy
