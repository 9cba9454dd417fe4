import LongRequestProxy.Conduct.Transactions

/-!
# The numbers of the events

While a task has a row, the numbers of its events are `1, …, n` without a gap, in the order in
which the events were committed. Two numbering schemes write the log: one reads the highest
number under a lock and then inserts, the other reads and inserts in one statement without the
lock. For gaplessness the lock does not matter: a number that was read can only be too small when
it is used, and then the unique index refuses it.

## Main definitions

* `Backend.log`, `Backend.seqs`: the events of a task and their numbers.
* `Numbered`: the invariant.

## Main results

* `Numbered.of_frame`: calls that commit no events.
* `Numbered.insertEvents`: events that a transaction inserts get the next number of their task.
* `Numbered.commit`: a commit appends the events of the transaction.
* `numbered_of_runs`: the invariant holds in every state reached.
-/

namespace LongRequestProxy

open Async Discipline Service Function

/-! ### Numbers without gaps -/

/-- The numbers `1, …, n`. -/
def upTo (n : ℕ) : List ℤ := (List.range n).map fun k : ℕ => (k : ℤ) + 1

@[simp] theorem length_upTo (n : ℕ) : (upTo n).length = n := by simp [upTo]

theorem upTo_succ (n : ℕ) : upTo (n + 1) = upTo n ++ [(n : ℤ) + 1] := by
  simp [upTo, List.range_succ]

theorem mem_upTo {n : ℕ} {k : ℤ} : k ∈ upTo n ↔ 1 ≤ k ∧ k ≤ n := by
  simp only [upTo, List.mem_map, List.mem_range]
  constructor
  · rintro ⟨j, hj, rfl⟩
    omega
  · rintro ⟨h1, hn⟩
    exact ⟨(k - 1).toNat, by omega, by omega⟩

theorem pairwise_upTo (n : ℕ) : (upTo n).Pairwise (· < ·) := by
  induction n with
  | zero => exact .nil
  | succ n ih =>
    rw [upTo_succ]
    refine List.pairwise_append.mpr ⟨ih, List.pairwise_singleton _ _, fun k hk j hj => ?_⟩
    rw [List.mem_singleton.mp hj]
    have := mem_upTo.mp hk
    omega

theorem max?_upTo (n : ℕ) : (upTo n).max?.getD 0 = n := by
  cases n with
  | zero => rfl
  | succ n =>
    have hmax : (upTo (n + 1)).max? = some ((n : ℤ) + 1) := by
      refine List.max?_eq_some_iff.mpr ⟨mem_upTo.mpr (by omega), fun k hk => ?_⟩
      have := mem_upTo.mp hk
      omega
    rw [hmax]
    simp

/-! ### The log of a task -/

namespace Backend

variable (σ : Backend) (p : ℕ)

/-- The committed events of a task, in the order of the table. -/
def log (i : String) : List TaskEventSelect := σ.events.filter fun e => e.taskId == i

/-- Their numbers. -/
def seqs (i : String) : List ℤ := (σ.log i).map (·.seq)

variable {σ p} {i : String}

theorem mem_log {e : TaskEventSelect} : e ∈ σ.log i ↔ e ∈ σ.events ∧ e.taskId = i := by
  simp [log]

theorem mem_seqs {k : ℤ} : k ∈ σ.seqs i ↔ ∃ e ∈ σ.events, e.taskId = i ∧ e.seq = k := by
  simp [seqs, mem_log, and_assoc]

theorem hasRow_of_commit (h : (σ.commit p).HasRow i) :
    σ.HasRow i ∧ i ∉ (σ.tx p).deletedTasks := by
  obtain ⟨t, ht, rfl⟩ := h
  obtain ⟨r, hr, hdel, rfl⟩ := mem_commit_tasks.mp ht
  exact ⟨⟨r, hr, (Tx.newest_id _ r).symm⟩, by rwa [Tx.newest_id]⟩

/-- A commit appends to the log of a task of which it deletes no events. -/
theorem log_commit (h : ∀ x ∈ (σ.tx p).deletedEvents, x.1 ≠ i) :
    (σ.commit p).log i = σ.log i ++ (σ.tx p).events.filter fun e => e.taskId == i := by
  simp only [log, commit, committedEvents, List.filter_append, List.filter_filter]
  congr 1
  refine List.filter_congr fun e _ => ?_
  by_cases hid : e.taskId = i
  · have hkeep : (σ.tx p).deletesEvent e = false := by
      simpa [Tx.deletesEvent] using fun hmem => h _ hmem hid
    simp [hkeep]
  · simp [hid]

/-- Every event of a task that a transaction sees has at most the number `maxSeq`. -/
theorem le_maxSeq {e : TaskEventSelect}
    (he : e ∈ σ.committedEvents (σ.tx p)) (hid : e.taskId = i) : e.seq ≤ σ.maxSeq p i := by
  have hmem : e.seq ∈ ((σ.committedEvents (σ.tx p)).filter fun e => e.taskId == i).map (·.seq) :=
    List.mem_map_of_mem (List.mem_filter.mpr ⟨he, by simpa using hid⟩)
  unfold maxSeq
  cases hmax : (((σ.committedEvents (σ.tx p)).filter fun e => e.taskId == i).map (·.seq)).max? with
  | none =>
    rw [List.max?_eq_none_iff] at hmax
    rw [hmax] at hmem
    cases hmem
  | some k => exact (List.max?_eq_some_iff.mp hmax).2 _ hmem

end Backend

/-! ### The invariant -/

/-- Two programs do not both have an uncommitted event of one task. -/
def Summary.AddsApart (σ : Backend) (w w' : Summary) : Prop :=
  ∀ e ∈ w.tx.events, ∀ e' ∈ w'.tx.events, σ.HasRow e.taskId → e.taskId ≠ e'.taskId

theorem Summary.AddsApart.symm {σ : Backend} {w w' : Summary} (h : w.AddsApart σ w') :
    w'.AddsApart σ w :=
  fun e he e' he' hrow heq => h e' he' e he (heq ▸ hrow) heq.symm

/-- What holds of the numbers of one function. -/
structure Summary.Counts (σ : Backend) (w : Summary) : Prop where
  /-- A number that was read is at most the next one. -/
  read : ∀ x ∈ w.tx.numbers, σ.HasRow x.1 → 1 ≤ x.2 ∧ x.2 ≤ (σ.seqs x.1).length + 1
  /-- A number that was used is the next one. -/
  added : ∀ e ∈ w.tx.events, σ.HasRow e.taskId → e.seq = (σ.seqs e.taskId).length + 1
  added_once : (w.tx.events.map (·.taskId)).Nodup

/-- The invariant of the numbers. -/
structure Numbered (σ : Backend) (γ : ℕ → Summary) : Prop where
  /-- The numbers of the events of a task with a row. -/
  gapless : ∀ i, σ.HasRow i → σ.seqs i = upTo (σ.seqs i).length
  counts : ∀ p, (γ p).Counts σ
  apart : Pairwise fun p q => (γ p).AddsApart σ (γ q)

variable {http : HttpClient} {clock : Timestamp} {σ σ' : Backend} {γ : ℕ → Summary} {p : ℕ}
  {w : Summary}

theorem Tracked.number_issued (h : Tracked σ γ) {x : String × ℤ} (hx : x ∈ (γ p).tx.numbers) :
    x.1 ∈ σ.issued :=
  (h.tracks p).issued _ (Summary.mem_mentions.mpr (.inr (.inr (.inr (.inl ⟨x, hx, rfl⟩)))))

theorem Tracked.event_issued (h : Tracked σ γ) {e : TaskEventSelect}
    (he : e ∈ (γ p).tx.events) : e.taskId ∈ σ.issued :=
  (h.tracks p).issued _ (Summary.mem_mentions.mpr (.inr (.inr (.inr (.inr (.inl ⟨e, he, rfl⟩))))))

theorem Tracked.owed_issued (h : Tracked σ γ) {e : TaskEventSelect} (he : e ∈ (γ p).owed) :
    e.taskId ∈ σ.issued :=
  (h.tracks p).issued _ (Summary.mem_mentions.mpr (.inr (.inr (.inr (.inr (.inr ⟨e, he, rfl⟩))))))

/-- A transaction that has inserted and deleted no events sees the committed ones. -/
theorem Tracked.committedEvents_eq (h : Tracked σ γ) (hev : (γ p).tx.events = [])
    (hcleared : (γ p).tx.cleared = []) : σ.committedEvents (σ.tx p) = σ.events := by
  have hdel := (h.tracks p).deletedEvents_eq_nil hcleared
  have hnone := (h.tracks p).events.trans hev
  simp [Backend.committedEvents, hnone, Tx.deletesEvent, hdel]

/-- Logs may grow, as long as those of the uncommitted events of the function do not. -/
theorem Summary.Counts.mono (h : w.Counts σ) (hnum : ∀ x ∈ w.tx.numbers, x.1 ∈ σ.issued)
    (hev : ∀ e ∈ w.tx.events, e.taskId ∈ σ.issued)
    (hrow : ∀ i ∈ σ.issued, σ'.HasRow i →
      σ.HasRow i ∧ (σ.seqs i).length ≤ (σ'.seqs i).length)
    (hadded : ∀ e ∈ w.tx.events, σ'.HasRow e.taskId →
      (σ'.seqs e.taskId).length = (σ.seqs e.taskId).length) : w.Counts σ' := by
  refine ⟨fun x hx hx' => ?_, fun e he he' => ?_, h.added_once⟩
  · obtain ⟨hold, hlen⟩ := hrow x.1 (hnum x hx) hx'
    have := h.read x hx hold
    omega
  · rw [h.added e he (hrow _ (hev e he) he').1, hadded e he he']

namespace Numbered

/-- The state in which nothing has happened. -/
theorem initial : Numbered { clock := clock } fun _ => {} where
  gapless i h := by
    obtain ⟨t, ht, -⟩ := h
    cases ht
  counts p := ⟨by simp, by simp, List.nodup_nil⟩
  apart p q _ e he := by cases he

/-- A change of the rows and of the summary of one function, while the events stay. -/
theorem of_frame (h : Numbered σ γ) (ht : Tracked σ γ) (he : σ'.events = σ.events)
    (hrow : ∀ i ∈ σ.issued, σ'.HasRow i → σ.HasRow i)
    (hnum : ∀ x ∈ w.tx.numbers, x.1 ∈ σ.issued) (hev : ∀ e ∈ w.tx.events, e.taskId ∈ σ.issued)
    (hw : w.Counts σ) (hapart : ∀ q, q ≠ p → w.AddsApart σ (γ q)) :
    Numbered σ' (update γ p w) := by
  have hseqs : ∀ i, σ'.seqs i = σ.seqs i := fun i => by rw [Backend.seqs, Backend.log, he]; rfl
  have hframe : ∀ w : Summary, (∀ x ∈ w.tx.numbers, x.1 ∈ σ.issued) →
      (∀ e ∈ w.tx.events, e.taskId ∈ σ.issued) → w.Counts σ → w.Counts σ' :=
    fun w hnum hev hw => hw.mono hnum hev (fun i hi hr => ⟨hrow i hi hr, by rw [hseqs]⟩)
      fun e _ _ => by rw [hseqs]
  refine ⟨fun i hr => ?_, ?_, ?_⟩
  · rw [hseqs]
    by_cases hissued : i ∈ σ.issued
    · exact h.gapless i (hrow i hissued hr)
    · -- a new task has no events yet
      have hnil : σ.log i = [] := List.filter_eq_nil_iff.mpr fun e hmem => by
        simpa using fun heq : e.taskId = i => hissued (heq ▸ ht.events_issued e hmem)
      simp [Backend.seqs, hnil, upTo]
  · exact (forall_update_iff γ fun _ w => w.Counts σ').mpr ⟨hframe w hnum hev hw, fun q _ =>
      hframe _ (fun _ => ht.number_issued) (fun _ => ht.event_issued) (h.counts q)⟩
  · refine Async.Protocol.pairwise_update (R := Summary.AddsApart σ') ?_ ?_ ?_
    · exact fun w w' hw => hw.symm
    · exact fun q q' hne e hmem e' hmem' hr =>
        h.apart hne e hmem e' hmem' (hrow _ (ht.event_issued hmem) hr)
    · exact fun q hq e hmem e' hmem' hr => hapart q hq e hmem e' hmem' (hrow _ (hev e hmem) hr)

/-- A call after which the function has read and inserted at most what it had before. -/
theorem of_call (h : Numbered σ γ) (ht : Tracked σ γ) (he : σ'.events = σ.events)
    (hrow : ∀ i ∈ σ.issued, σ'.HasRow i → σ.HasRow i)
    (hnum : w.tx.numbers.Sublist (γ p).tx.numbers)
    (hev : w.tx.events.Sublist (γ p).tx.events) : Numbered σ' (update γ p w) :=
  h.of_frame ht he hrow (fun _ hx => ht.number_issued (hnum.subset hx))
    (fun _ he => ht.event_issued (hev.subset he))
    ⟨fun x hx => (h.counts p).read x (hnum.subset hx),
      fun e he => (h.counts p).added e (hev.subset he),
      (h.counts p).added_once.sublist (hev.map _)⟩
    fun _ hq e he => h.apart hq.symm e (hev.subset he)

/-- An aborted transaction leaves nothing behind. -/
theorem rollback (h : Numbered σ γ) (ht : Tracked σ γ) (hw : (γ p).Remains w) :
    Numbered (σ.rollback p) (update γ p w) :=
  h.of_call ht rfl (fun _ _ hr => hr) (by simp [hw.tx]) (by simp [hw.tx])

theorem tick (h : Numbered σ γ) {time : Timestamp} : Numbered { σ with clock := time } γ :=
  ⟨h.gapless, fun p => ⟨(h.counts p).read, (h.counts p).added, (h.counts p).added_once⟩, h.apart⟩

/-- Numbers that follow those of the events so far. -/
theorem readNumbers (h : Numbered σ γ) (ht : Tracked σ γ) (hev : (γ p).tx.events = [])
    (hcleared : (γ p).tx.cleared = []) (hw : w.tx.events = [])
    (hnum : ∀ x ∈ w.tx.numbers, x.1 ∈ σ.issued ∧ x.2 = σ.maxSeq p x.1 + 1) :
    Numbered σ (update γ p w) := by
  refine h.of_frame ht rfl (fun _ _ hr => hr) (fun x hx => (hnum x hx).1) (by simp [hw])
    ⟨fun x hx hrow => ?_, by simp [hw], by simp [hw]⟩ fun q _ e he => ?_
  · have hmax : σ.maxSeq p x.1 = (σ.seqs x.1).length := by
      rw [Backend.maxSeq, ht.committedEvents_eq hev hcleared]
      exact (congrArg (fun l => l.max?.getD 0) (h.gapless _ hrow)).trans (max?_upTo _)
    rw [(hnum x hx).2, hmax]
    omega
  · rw [hw] at he
    cases he

/-- Events inserted under numbers that the function has read get the next number of their task. -/
theorem insertEvents (h : Numbered σ γ) (ht : Tracked σ γ) {es v : List TaskEventSelect}
    (hx : σ.txInsertEvents p es = some (.ok (v, σ'))) (hev : (γ p).tx.events = [])
    (hcleared : (γ p).tx.cleared = [])
    (hnum : (γ p).tx.numbers = es.map fun e => (e.taskId, e.seq))
    (honce : (es.map (·.taskId)).Nodup) (hw : w.tx.events = es) (hwnum : w.tx.numbers = []) :
    Numbered σ' (update γ p w) := by
  obtain ⟨hfree, -, rfl⟩ := Backend.txInsertEvents_ok hx
  rw [ht.committedEvents_eq hev hcleared] at hfree
  have hmem : ∀ e ∈ es, (e.taskId, e.seq) ∈ (γ p).tx.numbers := by
    intro e he
    rw [hnum]
    exact List.mem_map_of_mem (f := fun e : TaskEventSelect => (e.taskId, e.seq)) he
  have hnext : ∀ e ∈ es, σ.HasRow e.taskId → e.seq = (σ.seqs e.taskId).length + 1 := by
    intro e he hrow
    obtain ⟨h1, hle⟩ := (h.counts p).read _ (hmem e he) hrow
    have hnot : e.seq ∉ σ.seqs e.taskId := by
      intro hmem
      obtain ⟨e', he', hid, hseq⟩ := Backend.mem_seqs.mp hmem
      exact hfree e he e' he' hid hseq
    rw [h.gapless _ hrow, mem_upTo] at hnot
    dsimp only at h1 hle
    omega
  refine h.of_frame ht rfl (fun _ _ hr => hr) (by simp [hwnum])
    (fun e he => ht.number_issued (hmem e (hw ▸ he))) ⟨by simp [hwnum], by rwa [hw], by rwa [hw]⟩ ?_
  intro q hq e he e' he' hrow heq
  rw [hw] at he
  -- both would have the next number of the task
  have hseq := (h.counts q).added e' he' (heq ▸ hrow)
  refine Backend.txInsertEvents_apart hx he hq ?_ heq.symm ?_
  · rwa [(ht.tracks q).events]
  · rw [hseq, hnext e he hrow, heq]

/-- The log of a task that keeps its row in a commit: the event of the transaction, if there is
one, is appended. -/
theorem log_commit (h : Numbered σ γ) (ht : Tracked σ γ) {i : String}
    (hrow : (σ.commit p).HasRow i) (hset : (γ p).tx.deleted = (γ p).tx.cleared) :
    ((σ.commit p).log i = σ.log i ∧ ∀ e ∈ (γ p).tx.events, e.taskId ≠ i) ∨
      ∃ e ∈ (γ p).tx.events, e.taskId = i ∧ (σ.commit p).log i = σ.log i ++ [e] := by
  obtain ⟨-, hdel⟩ := Backend.hasRow_of_commit hrow
  rw [(ht.tracks p).deleted, hset] at hdel
  have hkept : ∀ x ∈ (σ.tx p).deletedEvents, x.1 ≠ i := by
    rintro x hx rfl
    exact hdel ((ht.tracks p).cleared x hx)
  rw [Backend.log_commit hkept, (ht.tracks p).events]
  by_cases hadd : ∃ e ∈ (γ p).tx.events, e.taskId = i
  · obtain ⟨e, he, rfl⟩ := hadd
    have honly : (γ p).tx.events.filter (fun e' => e'.taskId == e.taskId) = [e] :=
      Table.filter_key_eq (h.counts p).added_once he
    exact .inr ⟨e, he, rfl, by rw [honly]⟩
  · have hnone : ∀ e ∈ (γ p).tx.events, e.taskId ≠ i := fun e he heq => hadd ⟨e, he, heq⟩
    refine .inl ⟨?_, hnone⟩
    rw [List.filter_eq_nil_iff.mpr fun e he => by simpa using hnone e he, List.append_nil]

/-- **Commits append.** A transaction that deletes the tasks whose events it deletes commits, and
the logs of the other tasks stay without gaps. -/
theorem commit (h : Numbered σ γ) (ht : Tracked σ γ)
    (hset : (γ p).tx.deleted = (γ p).tx.cleared) (hw : w.tx = {}) :
    Numbered (σ.commit p) (update γ p w) := by
  have hseqs : ∀ i, (σ.commit p).HasRow i → ∀ n : ℕ, (σ.seqs i).length = n →
      ((σ.commit p).seqs i = σ.seqs i ∧ ∀ e ∈ (γ p).tx.events, e.taskId ≠ i) ∨
        ((σ.commit p).seqs i = σ.seqs i ++ [(n : ℤ) + 1] ∧
          ∃ e ∈ (γ p).tx.events, e.taskId = i) := by
    rintro i hrow n rfl
    obtain ⟨hlog, hnone⟩ | ⟨e, he, rfl, hlog⟩ := h.log_commit ht hrow hset
    · exact .inl ⟨by rw [Backend.seqs, hlog]; rfl, hnone⟩
    · refine .inr ⟨?_, e, he, rfl⟩
      rw [Backend.seqs, hlog, List.map_append, List.map_singleton,
        (h.counts p).added e he (Backend.hasRow_of_commit hrow).1]
      rfl
  have hlen : ∀ i, (σ.commit p).HasRow i → (σ.seqs i).length ≤ ((σ.commit p).seqs i).length := by
    intro i hrow
    obtain ⟨heq, -⟩ | ⟨heq, -⟩ := hseqs i hrow _ rfl
    · rw [heq]
    · simp [heq]
  refine ⟨fun i hrow => ?_, ?_, ?_⟩
  · obtain ⟨heq, -⟩ | ⟨heq, -⟩ := hseqs i hrow _ rfl
    · rw [heq]
      exact h.gapless i (Backend.hasRow_of_commit hrow).1
    · rw [heq, List.length_append, List.length_singleton, upTo_succ,
        ← h.gapless i (Backend.hasRow_of_commit hrow).1]
  · refine (forall_update_iff γ fun _ w => w.Counts (σ.commit p)).mpr
      ⟨⟨by simp [hw], by simp [hw], by simp [hw]⟩, fun q hq => (h.counts q).mono
        (fun _ => ht.number_issued) (fun _ => ht.event_issued)
        (fun i _ hr => ⟨(Backend.hasRow_of_commit hr).1, hlen i hr⟩) fun e he hr => ?_⟩
    obtain ⟨heq, -⟩ | ⟨-, e', he', hid⟩ := hseqs e.taskId hr _ rfl
    · rw [heq]
    · exact absurd hid.symm (h.apart hq e he e' he' (Backend.hasRow_of_commit hr).1)
  · refine Async.Protocol.pairwise_update (R := Summary.AddsApart (σ.commit p)) ?_ ?_ ?_
    · exact fun w w' hw => hw.symm
    · exact fun q q' hne e he e' he' hr => h.apart hne e he e' he' (Backend.hasRow_of_commit hr).1
    · intro q _ e he
      rw [hw] at he
      cases he

end Numbered

/-- The calls that read a number, insert an event or commit. -/
def Await.isNumbering : Await → Bool
  | txNextSeq _ | txInsertEvent .. | txNumberExpiryEvents _ | txInsertExpiryEvents _ | txCommit =>
    true
  | _ => false

theorem Summary.afterValue_of_not_isNumbering {c : Await} (hc : c.isNumbering = false)
    (v : c.Val) : (w.afterValue c v).tx.numbers = w.tx.numbers ∧
      (w.afterValue c v).tx.events = w.tx.events := by
  cases c with
  | updateTask id write => cases write <;> exact ⟨rfl, rfl⟩
  | txCancelTask id now => cases v <;> exact ⟨rfl, rfl⟩
  | _ => first | exact ⟨rfl, rfl⟩ | cases hc

/-- Every call keeps the numbers without gaps. -/
theorem numbered_exec {req : Request} {o : Oracle} {c : Await} {v : c.Val} (h : Numbered σ γ)
    (ht : Tracked σ γ) (ha : (γ p).Awaits req c) (hv : c.PossibleValue v)
    (hx : exec p o σ c = some (.ok (v, σ'))) :
    Numbered σ' (update γ p ((γ p).afterValue c v)) := by
  have hp := ht.tracks p
  cases hc : c.isNumbering with
  | false =>
    obtain ⟨hnum, hev⟩ := Summary.afterValue_of_not_isNumbering (w := γ p) hc v
    have hevents : σ'.events = σ.events := by
      obtain hsame | ⟨rfl, -⟩ := exec_events_cases hx
      · exact hsame
      · cases hc
    exact h.of_call ht hevents (exec_rowIds hx ht.rowIds).2 (by rw [hnum]) (by rw [hev])
  | true =>
    cases c with
    | txNextSeq id =>
      cases hx
      obtain ⟨type, hdue, -, htx⟩ := ha
      have hnone : (γ p).tx.events = [] := by rw [htx]
      refine h.readNumbers ht hnone (by rw [htx]) hnone fun x hx => ?_
      rw [List.mem_singleton.mp hx]
      refine ⟨hp.issued _ (Summary.mem_mentions.mpr (.inr (.inl ⟨(id, type), ?_, rfl⟩))), rfl⟩
      rw [hdue]
      exact List.mem_singleton_self _
    | txInsertEvent seq input =>
      obtain ⟨hv, hx⟩ := exec_txInsertEvent_ok hx
      obtain ⟨-, -, htx⟩ := ha
      exact h.insertEvents ht hx (by rw [htx]) (by rw [htx]) (by rw [htx, hv]; rfl)
        (List.nodup_singleton _) rfl rfl
    | txNumberExpiryEvents ids =>
      cases hx
      obtain ⟨-, htx, -⟩ := ha
      have hnone : (γ p).tx.events = [] := by rw [htx]
      refine h.readNumbers ht hnone (by rw [htx]) hnone fun x hx => ?_
      obtain ⟨e, he, rfl⟩ := List.mem_map.mp hx
      obtain ⟨y, hy, rfl⟩ := List.mem_map.mp he
      refine ⟨hp.issued _ (Summary.mem_mentions.mpr (.inr (.inr (.inl ?_)))), rfl⟩
      rw [htx]
      exact (List.mem_zipIdx hy).2.2 ▸ List.getElem_mem _
    | txInsertExpiryEvents events =>
      obtain ⟨htx, -, -⟩ := ha
      have hv : v = events := hv
      have hnodup := hp.rows_nodup
      rw [htx] at hnodup
      exact h.insertEvents ht hx (by rw [htx]) (by rw [htx]) (by rw [htx]) hnodup hv rfl
    | txCommit =>
      cases hx
      exact h.commit ht ha.2.2.1 rfl
    | _ => cases hc

/-- **The numbers are without gaps** in every state reached. -/
theorem numbered_of_runs {allow : (proxy http).Config → (proxy http).Move → Prop}
    {s : (discipline http).Observed} (h : Runs allow (observed http clock) s) :
    Numbered s.config.store s.locals :=
  (runs_invariant (J := fun σ γ => Tracked σ γ ∧ Numbered σ γ)
    (fun _ _ _ _ _ _ _ _ _ _ _ ha _ hv ht hx =>
      ⟨tracked_exec ht.1 ha hv hx, numbered_exec ht.2 ht.1 ha hv hx⟩)
    (fun _ _ _ _ ht hw => ⟨ht.1.rollback hw, ht.2.rollback ht.1 hw⟩)
    (fun _ _ _ ht => ⟨ht.1.tick, ht.2.tick⟩) h
    ⟨Tracked.initial, Numbered.initial⟩).2

end LongRequestProxy
