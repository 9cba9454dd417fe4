import LongRequestProxy.Delivery.EventNumbers

/-!
# The publication of events

Every event is first committed and then published on the channel of its task by the program that
has committed it, at most once. Between the two steps the program *owes* the publication.

## Main definitions

* `Backend.messages`: the events published on the channel of a task.
* `Published`: the invariant.

## Main results

* `Published.of_frame`: calls that publish nothing.
* `Published.commit`, `Published.publish`: the two steps of an event.
* `logged_of_runs`: the invariant holds in every state reached.
-/

namespace LongRequestProxy

open Async Discipline Service Function

theorem taskChannel_injective {i j : String} (h : taskChannel i = taskChannel j) : i = j := by
  have := congrArg String.toList h
  simp only [taskChannel, String.toList_append, List.append_cancel_left_eq] at this
  exact String.toList_injective this

/-- The events published on the channel of a task, in the order of publication. -/
def Backend.messages (σ : Backend) (i : String) : List TaskEventSelect :=
  (σ.published.filter fun x => x.1 == taskChannel i).map (·.2)

/-- The invariant of the publications. It says nothing about tasks without a row. -/
structure Published (σ : Backend) (γ : ℕ → Summary) : Prop where
  addressed : ∀ x ∈ σ.published, x.1 = taskChannel x.2.taskId ∧ x.2.taskId ∈ σ.issued
  committed : ∀ x ∈ σ.published, σ.HasRow x.2.taskId → x.2 ∈ σ.events
  once : ∀ i, σ.HasRow i → (σ.messages i).Nodup
  owed : ∀ p, ∀ e ∈ (γ p).owed, σ.HasRow e.taskId →
    e ∈ σ.events ∧ ∀ x ∈ σ.published, x.2 ≠ e
  owed_once : ∀ p, (γ p).owed.Pairwise fun e e' => σ.HasRow e.taskId → e ≠ e'
  owed_apart : Pairwise fun p q => ∀ e ∈ (γ p).owed, e ∈ (γ q).owed → ¬ σ.HasRow e.taskId

variable {http : HttpClient} {clock : Timestamp} {σ σ' : Backend} {γ : ℕ → Summary} {p : ℕ}
  {w : Summary}

namespace Published

theorem initial : Published { clock := clock } fun _ => {} where
  addressed := by simp
  committed := by simp
  once i := by simp [Backend.messages]
  owed p e he := by cases he
  owed_once p := .nil
  owed_apart p q _ e he := by cases he

theorem mem_messages (h : Published σ γ) {i : String} {e : TaskEventSelect} :
    e ∈ σ.messages i ↔ e.taskId = i ∧ ∃ x ∈ σ.published, x.2 = e := by
  simp only [Backend.messages, List.mem_map, List.mem_filter, beq_iff_eq]
  constructor
  · rintro ⟨x, ⟨hx, hch⟩, rfl⟩
    exact ⟨taskChannel_injective ((h.addressed x hx).1.symm.trans hch), x, hx, rfl⟩
  · rintro ⟨rfl, x, hx, rfl⟩
    exact ⟨x, ⟨hx, (h.addressed x hx).1⟩, rfl⟩

/-- What is published on the channel of a task is committed. -/
theorem mem_log_of_mem_messages (h : Published σ γ) {i : String} (hrow : σ.HasRow i)
    {e : TaskEventSelect} (he : e ∈ σ.messages i) : e ∈ σ.log i := by
  obtain ⟨rfl, x, hx, rfl⟩ := h.mem_messages.mp he
  exact Backend.mem_log.mpr ⟨h.committed x hx hrow, rfl⟩

/-- A call that publishes nothing and keeps the events of the tasks that keep their rows, and
after which its function owes at most what it owed before. -/
theorem of_frame (h : Published σ γ) (ht : Tracked σ γ) (hp : σ'.published = σ.published)
    (hi : σ.issued ⊆ σ'.issued) (hrow : ∀ i ∈ σ.issued, σ'.HasRow i → σ.HasRow i)
    (hev : ∀ e ∈ σ.events, σ'.HasRow e.taskId → e ∈ σ'.events)
    (hw : w.owed.Sublist (γ p).owed) : Published σ' (update γ p w) := by
  have howed : ∀ w : Summary, ∀ q, w.owed.Sublist (γ q).owed →
      ∀ e ∈ w.owed, σ'.HasRow e.taskId → e ∈ σ'.events ∧ ∀ x ∈ σ'.published, x.2 ≠ e := by
    intro w q hw e he hr
    obtain ⟨hmem, hnew⟩ := h.owed q e (hw.subset he) (hrow _ (ht.owed_issued (hw.subset he)) hr)
    exact ⟨hev e hmem hr, hp ▸ hnew⟩
  have hpair : ∀ w : Summary, ∀ q, w.owed.Sublist (γ q).owed →
      w.owed.Pairwise fun e e' => σ'.HasRow e.taskId → e ≠ e' := by
    intro w q hw
    refine ((h.owed_once q).sublist hw).imp_of_mem fun {e e'} he _ hne hr => ?_
    exact hne (hrow _ (ht.owed_issued (hw.subset he)) hr)
  refine ⟨?_, ?_, fun i hr => ?_, ?_, ?_, ?_⟩
  · rw [hp]
    exact fun x hx => ⟨(h.addressed x hx).1, hi (h.addressed x hx).2⟩
  · rw [hp]
    exact fun x hx hr => hev _ (h.committed x hx (hrow _ (h.addressed x hx).2 hr)) hr
  · have hmsgs : σ'.messages i = σ.messages i := by rw [Backend.messages, hp]; rfl
    rw [hmsgs]
    by_cases hissued : i ∈ σ.issued
    · exact h.once i (hrow i hissued hr)
    · -- nothing is published for a new task
      have hnil : σ.messages i = [] := List.eq_nil_iff_forall_not_mem.mpr fun e he => by
        obtain ⟨rfl, x, hx, rfl⟩ := h.mem_messages.mp he
        exact hissued (h.addressed x hx).2
      rw [hnil]
      exact List.nodup_nil
  · exact (forall_update_iff γ fun _ w => ∀ e ∈ w.owed, σ'.HasRow e.taskId →
      e ∈ σ'.events ∧ ∀ x ∈ σ'.published, x.2 ≠ e).mpr
      ⟨howed w p hw, fun q _ => howed (γ q) q (List.Sublist.refl _)⟩
  · exact (forall_update_iff γ fun _ w => w.owed.Pairwise fun e e' =>
      σ'.HasRow e.taskId → e ≠ e').mpr
      ⟨hpair w p hw, fun q _ => hpair (γ q) q (List.Sublist.refl _)⟩
  · refine Async.Protocol.pairwise_update
      (R := fun w w' : Summary => ∀ e ∈ w.owed, e ∈ w'.owed → ¬ σ'.HasRow e.taskId) ?_ ?_ ?_
    · exact fun w w' hw e he he' => hw e he' he
    · exact fun q q' hne e he he' hr => h.owed_apart hne e he he' (hrow _ (ht.owed_issued he) hr)
    · exact fun q hq e he he' hr =>
        h.owed_apart hq.symm e (hw.subset he) he' (hrow _ (ht.owed_issued he') hr)

/-- An aborted transaction leaves nothing behind. -/
theorem rollback (h : Published σ γ) (ht : Tracked σ γ) (hw : (γ p).Remains w) :
    Published (σ.rollback p) (update γ p w) :=
  h.of_frame ht rfl (List.Subset.refl _) (fun _ _ hr => hr) (fun _ he _ => he) hw.owed

/-- A committed event has not been published, and nobody else owes it. -/
theorem commit (h : Published σ γ) (ht : Tracked σ γ) (hn : Numbered σ γ)
    (hset : (γ p).tx.deleted = (γ p).tx.cleared) (hw : w.owed = (γ p).owed ++ (γ p).tx.events) :
    Published (σ.commit p) (update γ p w) := by
  have hrow : ∀ i ∈ σ.issued, (σ.commit p).HasRow i → σ.HasRow i :=
    fun i _ hr => (Backend.hasRow_of_commit hr).1
  have hkept : ∀ e ∈ σ.events, (σ.commit p).HasRow e.taskId → e ∈ (σ.commit p).events := by
    intro e he hr
    refine Backend.mem_commit_events.mpr (.inl ⟨he, fun hmem => ?_⟩)
    have hdel := (Backend.hasRow_of_commit hr).2
    rw [(ht.tracks p).deleted, hset] at hdel
    exact hdel ((ht.tracks p).cleared _ hmem)
  have hmono : Published (σ.commit p) (update γ p (γ p)) :=
    h.of_frame ht rfl (List.Subset.refl _) hrow hkept (List.Sublist.refl _)
  rw [update_eq_self] at hmono
  have hnew : ∀ e ∈ (γ p).tx.events, (σ.commit p).HasRow e.taskId → e ∉ σ.events := by
    intro e he hr hmem
    have hold := (Backend.hasRow_of_commit hr).1
    have hseq : e.seq ∈ σ.seqs e.taskId := Backend.mem_seqs.mpr ⟨e, hmem, rfl, rfl⟩
    rw [hn.gapless _ hold, mem_upTo, (hn.counts p).added e he hold] at hseq
    omega
  refine ⟨hmono.addressed, hmono.committed, hmono.once, ?_, ?_, ?_⟩
  · refine (forall_update_iff γ fun _ w => ∀ e ∈ w.owed, (σ.commit p).HasRow e.taskId →
      e ∈ (σ.commit p).events ∧ ∀ x ∈ (σ.commit p).published, x.2 ≠ e).mpr
      ⟨fun e he hr => ?_, fun q _ => hmono.owed q⟩
    rw [hw] at he
    rcases List.mem_append.mp he with he | he
    · exact hmono.owed p e he hr
    · refine ⟨Backend.mem_commit_events.mpr (.inr (by rwa [(ht.tracks p).events])),
        fun x hx heq => ?_⟩
      subst heq
      exact hnew _ he hr (h.committed x hx (Backend.hasRow_of_commit hr).1)
  · refine (forall_update_iff γ fun _ w => w.owed.Pairwise fun e e' =>
      (σ.commit p).HasRow e.taskId → e ≠ e').mpr ⟨?_, fun q _ => hmono.owed_once q⟩
    rw [hw]
    refine List.pairwise_append.mpr ⟨hmono.owed_once p, ?_, fun e he e' he' hr heq => ?_⟩
    · exact (List.pairwise_map.mp (hn.counts p).added_once).imp fun hne _ heq =>
        hne (congrArg TaskEventSelect.taskId heq)
    · subst heq
      exact hnew e he' hr (h.owed p e he (Backend.hasRow_of_commit hr).1).1
  · refine Async.Protocol.pairwise_update
      (R := fun w w' : Summary => ∀ e ∈ w.owed, e ∈ w'.owed → ¬ (σ.commit p).HasRow e.taskId)
      ?_ ?_ ?_
    · exact fun w w' hw e he he' => hw e he' he
    · exact hmono.owed_apart
    · intro q hq e he he' hr
      rw [hw] at he
      rcases List.mem_append.mp he with he | he
      · exact hmono.owed_apart hq.symm e he he' hr
      · exact hnew e he hr (h.owed q e he' (Backend.hasRow_of_commit hr).1).1

/-- A function publishes the next event that it owes. -/
theorem publish (h : Published σ γ) (ht : Tracked σ γ) {e : TaskEventSelect}
    (he : (γ p).owed.head? = some e) (hw : w.owed = (γ p).owed.tail) :
    Published { σ with published := σ.published ++ [(taskChannel e.taskId, e)] }
      (update γ p w) := by
  obtain ⟨rest, hrest⟩ : ∃ rest, (γ p).owed = e :: rest := by
    cases hl : (γ p).owed with
    | nil =>
      rw [hl] at he
      cases he
    | cons e' rest =>
      rw [hl] at he
      cases he
      exact ⟨rest, rfl⟩
  have hmem : e ∈ (γ p).owed := by
    rw [hrest]
    exact List.mem_cons_self
  have hsub : ∀ e' ∈ w.owed, e' ∈ (γ p).owed := by
    intro e' he'
    rw [hw] at he'
    exact List.mem_of_mem_tail he'
  have howed := h.owed p e hmem
  have hfirst := h.owed_once p
  rw [hrest, List.pairwise_cons] at hfirst
  refine ⟨?_, ?_, fun i hr => ?_, ?_, ?_, ?_⟩
  · rintro x hx
    rcases List.mem_append.mp hx with hx | hx
    · exact h.addressed x hx
    · rw [List.mem_singleton.mp hx]
      exact ⟨rfl, ht.owed_issued hmem⟩
  · rintro x hx hr
    rcases List.mem_append.mp hx with hx | hx
    · exact h.committed x hx hr
    · rw [List.mem_singleton.mp hx] at hr ⊢
      exact (howed hr).1
  · have hold : (σ.messages i).Nodup := h.once i hr
    simp only [Backend.messages, List.filter_append, List.map_append] at hold ⊢
    by_cases hch : taskChannel e.taskId = taskChannel i
    · have hnot : e ∉ (σ.published.filter fun x => x.1 == taskChannel i).map (·.2) := by
        intro hmem
        obtain ⟨x, hx, hxe⟩ := List.mem_map.mp hmem
        obtain rfl := taskChannel_injective hch
        exact (howed hr).2 x (List.mem_filter.mp hx).1 hxe
      rw [List.filter_cons_of_pos (by simpa using hch), List.filter_nil, List.map_singleton]
      refine List.nodup_append.mpr ⟨hold, List.nodup_singleton _, fun a ha b hb heq => hnot ?_⟩
      obtain rfl : b = e := List.mem_singleton.mp hb
      exact heq ▸ ha
    · rw [List.filter_cons_of_neg (by simpa using hch), List.filter_nil, List.map_nil,
        List.append_nil]
      exact hold
  · refine (forall_update_iff γ fun _ w => ∀ e' ∈ w.owed, σ.HasRow e'.taskId →
      e' ∈ σ.events ∧ ∀ x ∈ σ.published ++ [(taskChannel e.taskId, e)], x.2 ≠ e').mpr
      ⟨fun e' he' hr => ?_, fun q hq e' he' hr => ?_⟩
    · refine ⟨(h.owed p e' (hsub e' he') hr).1, fun x hx heq => ?_⟩
      rcases List.mem_append.mp hx with hx | hx
      · exact (h.owed p e' (hsub e' he') hr).2 x hx heq
      · rw [List.mem_singleton.mp hx] at heq
        rw [hw, hrest] at he'
        have heq : e = e' := heq
        exact hfirst.1 e' he' (heq ▸ hr) heq
    · refine ⟨(h.owed q e' he' hr).1, fun x hx heq => ?_⟩
      rcases List.mem_append.mp hx with hx | hx
      · exact (h.owed q e' he' hr).2 x hx heq
      · rw [List.mem_singleton.mp hx] at heq
        exact h.owed_apart hq e' he' (heq ▸ hmem) hr
  · refine (forall_update_iff γ fun _ w => w.owed.Pairwise fun e e' =>
      σ.HasRow e.taskId → e ≠ e').mpr ⟨?_, fun q _ => h.owed_once q⟩
    rw [hw]
    exact (h.owed_once p).sublist (List.tail_sublist _)
  · refine Async.Protocol.pairwise_update
      (R := fun w w' : Summary => ∀ e ∈ w.owed, e ∈ w'.owed → ¬ σ.HasRow e.taskId) ?_ ?_ ?_
    · exact fun w w' hw e he he' => hw e he' he
    · exact h.owed_apart
    · exact fun q hq e' he' => h.owed_apart hq.symm e' (hsub e' he')

theorem tick (h : Published σ γ) {time : Timestamp} : Published { σ with clock := time } γ :=
  ⟨h.addressed, h.committed, h.once, h.owed, h.owed_once, h.owed_apart⟩

end Published

theorem Summary.owed_afterValue {c : Await} (hc : c ≠ .txCommit) (v : c.Val) :
    (w.afterValue c v).owed.Sublist w.owed := by
  cases c with
  | updateTask id write => cases write <;> exact List.Sublist.refl _
  | txCancelTask id now => cases v <;> exact List.Sublist.refl _
  | publish channel event => exact List.tail_sublist _
  | txCommit => exact absurd rfl hc
  | _ => exact List.Sublist.refl _

/-- Every call keeps the publications in order. -/
theorem published_exec {req : Request} {o : Oracle} {c : Await} {v : c.Val} (h : Published σ γ)
    (ht : Tracked σ γ) (hn : Numbered σ γ) (ha : (γ p).Awaits req c)
    (hx : exec p o σ c = some (.ok (v, σ'))) :
    Published σ' (update γ p ((γ p).afterValue c v)) := by
  by_cases hcommit : c = .txCommit
  · subst hcommit
    cases hx
    exact h.commit ht hn ha.2.2.1 rfl
  · obtain hsame | ⟨channel, event, rfl, rfl⟩ := exec_published_cases hx
    · obtain hev | ⟨hc, -⟩ := exec_events_cases hx
      · exact h.of_frame ht hsame (issued_subset_of_exec hx) (exec_rowIds hx ht.rowIds).2
          (fun e he _ => hev ▸ he) (Summary.owed_afterValue hcommit v)
      · exact absurd hc hcommit
    · obtain ⟨-, rfl, he, -⟩ := ha
      exact h.publish ht he rfl

/-- The invariants of the log of events. -/
structure Logged (σ : Backend) (γ : ℕ → Summary) : Prop where
  tracked : Tracked σ γ
  numbered : Numbered σ γ
  published : Published σ γ

/-- **Events are numbered and published in order** in every state reached. -/
theorem logged_of_runs {allow : (proxy http).Config → (proxy http).Move → Prop}
    {s : (discipline http).Observed} (h : Runs allow (observed http clock) s) :
    Logged s.config.store s.locals :=
  runs_invariant
    (fun _ _ _ _ _ _ _ _ _ _ _ ha _ hv ht hx => ⟨tracked_exec ht.tracked ha hv hx,
      numbered_exec ht.numbered ht.tracked ha hv hx,
      published_exec ht.published ht.tracked ht.numbered ha hx⟩)
    (fun _ _ _ _ ht hw => ⟨ht.tracked.rollback hw, ht.numbered.rollback ht.tracked hw,
      ht.published.rollback ht.tracked hw⟩)
    (fun _ _ _ ht => ⟨ht.tracked.tick, ht.numbered.tick, ht.published.tick⟩) h
    ⟨Tracked.initial, Numbered.initial, Published.initial⟩

end LongRequestProxy
