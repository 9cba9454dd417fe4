import LongRequestProxy.Delivery.LiveDelivery
import LongRequestProxy.Delivery.StreamOrder
import LongRequestProxy.Delivery.Verdicts

/-!
# What different clients are told

Clients connect to the streams of a task at any time, with any `Last-Event-ID`, lose messages and
come back, while others poll. They need not get the same events. Whatever they get, though, is part
of one history: a stream never sends an event that is not in the log, two streams never disagree
about a number or about the end of the task, and what a stream says of the end is what the row says.

## Main definitions

* `connections`: any number of connections, as one watcher of the system.
* `StreamState.Within`: what a stream has buffered or sent.

## Main results

* `events_sublist_log`: a stream sends a part of the log, in its order.
* `clients_agree`: streams agree with each other and with the row.
-/

namespace LongRequestProxy

open Async Service

/-! ### What a stream can send -/

namespace StreamState

variable {P : TaskEventSelect → Prop} {st : StreamState} {e : TaskEventSelect}
  {es : List TaskEventSelect} {inputs : List StreamInput}

/-- What the stream has buffered and sent satisfies `P`. -/
structure Within (P : TaskEventSelect → Prop) (st : StreamState) : Prop where
  buffered : ∀ e ∈ st.liveBuffer, P e
  sent : ∀ e ∈ st.events, P e

namespace Within

theorem send {m : ℤ} (h : Within P st) (he : P e) : Within P (st.send e m) := by
  refine ⟨by simpa using h.buffered, ?_⟩
  rw [events_send]
  simpa [or_imp, forall_and] using ⟨h.sent, he⟩

theorem drain (h : Within P st) (hes : ∀ e ∈ es, P e) : Within P (drain es st) := by
  induction es generalizing st with
  | nil => exact ⟨by simp [StreamState.drain], h.sent⟩
  | cons e rest ih =>
    have he : P e := hes e List.mem_cons_self
    have hrest : ∀ e ∈ rest, P e := fun e he => hes e (List.mem_cons_of_mem _ he)
    unfold StreamState.drain
    dsimp only
    split
    · split
      · exact ⟨by simp, (h.send he).sent⟩
      · exact ih (h.send he) hrest
    · exact ih h hrest

theorem replay (h : Within P st) (hes : ∀ e ∈ es, P e) : Within P (replay es st) := by
  induction es generalizing st with
  | nil =>
    have hloaded : Within P { st with historyLoaded := true } := ⟨h.buffered, h.sent⟩
    exact hloaded.drain h.buffered
  | cons e rest ih =>
    have hsend := h.send (m := max st.highestHistorySeq e.seq) (hes e List.mem_cons_self)
    unfold StreamState.replay
    dsimp only
    split
    · exact hsend
    · exact ih hsend fun e he => hes e (List.mem_cons_of_mem _ he)

theorem step {x : StreamInput} (h : Within P st) (hmsg : ∀ e, x = .message e → P e)
    (hhist : ∀ H, x = .history H → ∀ e ∈ H, P e) : Within P (st.step x) := by
  cases x with
  | message e =>
    have he := hmsg e rfl
    simp only [StreamState.step, onMessage]
    split_ifs
    · exact h
    · exact ⟨h.buffered, h.sent⟩
    · exact ⟨by simpa [or_imp, forall_and] using ⟨h.buffered, he⟩, h.sent⟩
    · exact h.send he
    · exact h
  | history H =>
    simp only [StreamState.step, onHistory]
    split_ifs
    · exact h
    · exact h.replay (hhist H rfl)
  | heartbeat =>
    simp only [StreamState.step, onHeartbeat]
    split_ifs
    · exact h
    · exact ⟨h.buffered, by simpa [StreamState.events, Frame.event?] using h.sent⟩
  | historyError =>
    simp only [StreamState.step, onHistoryError]
    split_ifs
    · exact h
    · exact ⟨h.buffered, h.sent⟩
  | redisError | unsubscribe => exact ⟨h.buffered, h.sent⟩

/-- A stream sends only what it has been told. -/
theorem run {afterSeq : ℤ} (hmsg : ∀ e ∈ messagesOf inputs, P e)
    (hhist : ∀ H, .history H ∈ inputs → ∀ e ∈ H, P e) : Within P (run afterSeq inputs) := by
  induction inputs using List.reverseRecOn with
  | nil => exact ⟨fun e he => (by cases he), fun e he => (by cases he)⟩
  | append_singleton inputs x ih =>
    rw [run_append]
    refine Within.step (ih (fun e he => hmsg e ?_) fun H hH => hhist H (by simp [hH])) ?_ ?_
    · rw [messagesOf, List.filterMap_append]
      exact List.mem_append_left _ he
    · rintro e rfl
      exact hmsg e (by simp [messagesOf, StreamInput.message?])
    · rintro H rfl
      exact hhist H (by simp)

end Within

end StreamState

/-! ### One connection -/

section Connection

variable {http : HttpClient} {clock : Timestamp} {i : String} {afterSeq : ℤ}
  {s : (connection http i afterSeq).Scene}

/-- The history that a connection was told is a part of the log. -/
theorem Attached.exists_log_eq_of_history (h : Attached i afterSeq http clock s)
    (hrow : s.config.store.HasRow i) {H : List TaskEventSelect}
    (hH : .history H ∈ s.state.inputs) :
    ∃ l l', s.config.store.log i = l ++ l' ∧
      H = l.filter fun e => decide (afterSeq < e.seq) := by
  obtain ⟨q, hq⟩ : ∃ q, s.state.snapshot = some q := by
    obtain hnil | ⟨-, q, hq, -⟩ := h.histories
    · exact absurd rfl (List.filter_eq_nil_iff.mp hnil _ hH)
    · exact ⟨q, hq⟩
  obtain ⟨rfl, -⟩ := h.exists_inputs_eq hq hH
  obtain ⟨l, l', hlog, hread, -⟩ := h.exists_log_eq hrow hq
  exact ⟨l, l', hlog, hread⟩

/-- The stream of a connection is exact. -/
theorem exact_of_watches (h : Watcher.Watches (initialScene http clock i afterSeq) s)
    (hrow : s.config.store.HasRow i) :
    (StreamState.run afterSeq s.state.inputs).Exact afterSeq := by
  have hattached := attached_of_watches h
  refine StreamState.exact_run ?_ fun H hH => ?_
  · rw [List.countP_eq_length_filter]
    obtain hnil | ⟨-, q, -, hone⟩ := hattached.histories
    · rw [hnil]
      exact Nat.zero_le 1
    · rw [hone]
      exact Nat.le_refl 1
  · obtain ⟨l, l', hlog, rfl⟩ := hattached.exists_log_eq_of_history hrow hH
    have hpair := Backend.pairwise_log (seqs_of_reaches (Watcher.Watches.reaches h) hrow)
    rw [hlog] at hpair
    exact ⟨(List.pairwise_append.mp hpair).1.filter _, fun e he => by
      simpa using (List.mem_filter.mp he).2⟩

/-- **A stream sends a part of the log**, in its order. -/
theorem events_sublist_log (h : Watcher.Watches (initialScene http clock i afterSeq) s)
    (hrow : s.config.store.HasRow i) :
    (StreamState.run afterSeq s.state.inputs).events.Sublist (s.config.store.log i) := by
  have hattached := attached_of_watches h
  have hlogged : StreamState.Within (· ∈ s.config.store.log i)
      (StreamState.run afterSeq s.state.inputs) := by
    refine StreamState.Within.run (fun e he => ?_) fun H hH e he => ?_
    · cases hreg : s.state.registeredAt with
      | none =>
        rw [hattached.unregistered hreg] at he
        cases he
      | some n =>
        exact mem_log_of_mem_messagesSince h hrow ((hattached.registered n hreg).2.subset he)
    · obtain ⟨l, l', hlog, rfl⟩ := hattached.exists_log_eq_of_history hrow hH
      exact hlog ▸ List.mem_append_left _ (List.mem_filter.mp he).1
  exact HighWater.sublist_of_subset (exact_of_watches h hrow).ascending
    (Backend.pairwise_log (seqs_of_reaches (Watcher.Watches.reaches h) hrow)) hlogged.sent

end Connection

/-! ### Any number of connections -/

/-- Connections to the tasks `(target k).1`, for the events after `(target k).2`. -/
abbrev connections (http : HttpClient) {ι : Type} [DecidableEq ι] (target : ι → String × ℤ) :
    Watcher (proxy http) :=
  Watcher.family fun k => connection http (target k).1 (target k).2

section Connections

variable {http : HttpClient} {clock : Timestamp} {ι : Type} [DecidableEq ι]
  {target : ι → String × ℤ} {s : (connections http target).Scene} {k k' : ι} {i : String}

/-- The system before its first request, and no connections. -/
def emptyScene (http : HttpClient) (clock : Timestamp) (target : ι → String × ℤ) :
    (connections http target).Scene :=
  ⟨initial http clock, fun _ => {}⟩

/-- The stream of one of the connections. -/
def streamOf (s : (connections http target).Scene) (k : ι) : StreamState :=
  StreamState.run (target k).2 (s.state k).inputs

/-- A log has at most one event of a number, and at most one terminal event. -/
theorem eq_of_mem_log {c : (proxy http).Config}
    (h : Reaches (fun _ _ => True) (initial http clock) c) (hrow : c.store.HasRow i)
    {e e' : TaskEventSelect} (he : e ∈ c.store.log i) (he' : e' ∈ c.store.log i)
    (hsame : e.seq = e'.seq ∨ e.isTerminal = true ∧ e'.isTerminal = true) : e = e' := by
  obtain hseq | ⟨hterm, hterm'⟩ := hsame
  · have hpair := Backend.pairwise_log (seqs_of_reaches h hrow)
    exact List.inj_on_of_nodup_map (List.pairwise_map.mpr (hpair.imp ne_of_lt)) he he' hseq
  · obtain ⟨γ, hγ⟩ := ledger_of_reaches h
    obtain ⟨hmem, hid⟩ := Backend.mem_log.mp he
    obtain ⟨hmem', hid'⟩ := Backend.mem_log.mp he'
    have hsymm : Std.Symm NotBothTerminal := ⟨fun _ _ => NotBothTerminal.symm⟩
    by_contra hne
    exact hγ.events_once.forall hmem hmem' hne (Option.isSome_iff_ne_none.mp hterm)
      (Option.isSome_iff_ne_none.mp hterm') (hid.trans hid'.symm)

/-- **Clients agree.** Any number of clients connect to the streams of any tasks, with any numbers,
and are told what they are told. As long as a task has its row, each of its streams has sent a part
of its log, in order and from after its number; no two of them differ in an event of one number, or
in their terminal events; and a stream that has sent a terminal event has sent nothing after it,
has completed, and the row of the task says the same, then and later. -/
theorem clients_agree (http : HttpClient) (clock : Timestamp) {ι : Type} [DecidableEq ι]
    (target : ι → String × ℤ) (s : (connections http target).Scene)
    (h : Watcher.Watches (emptyScene http clock target) s) (i : String)
    (hrow : s.config.store.HasRow i) :
    (∀ k, (target k).1 = i → (streamOf s k).events.Sublist (s.config.store.log i) ∧
      ∀ e ∈ (streamOf s k).events, (target k).2 < e.seq) ∧
    (∀ k k', (target k).1 = i → (target k').1 = i → ∀ e ∈ (streamOf s k).events,
      ∀ e' ∈ (streamOf s k').events,
        e.seq = e'.seq ∨ e.isTerminal = true ∧ e'.isTerminal = true → e = e') ∧
    ∀ k, (target k).1 = i → ∀ e ∈ (streamOf s k).events, e.isTerminal = true →
      (streamOf s k).events.getLast? = some e ∧ (streamOf s k).outcome = some .completed ∧
      ∀ c', Reaches (fun _ _ => True) s.config c' → ∀ t ∈ c'.store.tasks, t.id = i →
        t.verdict? = some e.verdict := by
  have hreach : Reaches (fun _ _ => True) (initial http clock) s.config := h.reaches
  have hone : ∀ k, (target k).1 = i → (streamOf s k).events.Sublist (s.config.store.log i) ∧
      (streamOf s k).Exact (target k).2 := by
    rintro k rfl
    exact ⟨events_sublist_log (h.member k) hrow, exact_of_watches (h.member k) hrow⟩
  refine ⟨fun k hk => ⟨(hone k hk).1, (hone k hk).2.above⟩, fun k k' hk hk' e he e' he' hsame => ?_,
    fun k hk e he hterm => ?_⟩
  · exact eq_of_mem_log hreach hrow ((hone k hk).1.subset he) ((hone k' hk').1.subset he') hsame
  · obtain ⟨hsub, hexact⟩ := hone k hk
    obtain ⟨l, l', hl⟩ := List.append_of_mem he
    obtain rfl := hexact.last l e l' hl hterm
    refine ⟨by rw [hl, List.getLast?_concat], hexact.completed.mpr ⟨e, he, hterm⟩, ?_⟩
    intro c' hlater t ht hid
    obtain ⟨hlogged, htask⟩ := Backend.mem_log.mp (hsub.subset he)
    obtain ⟨γ, hγ⟩ := exists_truthful hreach
    exact (confirms_of_reaches hreach hlater (hγ.events e hlogged hterm)).2 t ht
      (hid.trans htask.symm)

/-! ### Example run -/

/-- One client connects while the task is processed, and one when it has completed. -/
def twoClients : List (connections httpRetryService fun _ : Bool => (sampleId, 0)).Step :=
  (completedRun.take 9).map .pool ++
    [.own ⟨false, .opened⟩, .own ⟨false, .queried⟩, .own ⟨false, .registered⟩,
      .own ⟨false, .historyArrived⟩] ++ (completedRun.drop 9).map .pool ++
    [.own ⟨false, .delivered⟩, .own ⟨true, .opened⟩, .own ⟨true, .registered⟩,
      .own ⟨true, .queried⟩, .own ⟨true, .historyArrived⟩]

/-- Both are sent the same end of the task, one by the channel and the other by the history. -/
theorem twoClients_agree :
    ∃ (s : (connections httpRetryService fun _ : Bool => (sampleId, (0 : ℤ))).Scene)
      (e : TaskEventSelect) (t : TaskSelect),
      Watcher.Watches (emptyScene httpRetryService 0 fun _ => (sampleId, 0)) s ∧
        (∀ k, (streamOf s k).events.getLast? = some e) ∧ t ∈ s.config.store.tasks ∧
        t.verdict? = some e.verdict := by
  obtain ⟨s, h, hcheck⟩ := Watcher.exists_watches_of_replay
    (s := emptyScene httpRetryService 0 fun _ : Bool => (sampleId, 0)) twoClients
    (fun s => (s.config.store.tasks.any fun t => t.id == sampleId) &&
      ((streamOf s false).events.any fun e => e.isTerminal) &&
      (streamOf s true).events.any fun e => e.isTerminal) (by decide)
  simp only [Bool.and_eq_true, List.any_eq_true, beq_iff_eq] at hcheck
  obtain ⟨⟨⟨t, ht, hid⟩, e, he, hterm⟩, e', he', hterm'⟩ := hcheck
  obtain ⟨-, hsame, hend⟩ := clients_agree httpRetryService 0 _ s h sampleId ⟨t, ht, hid⟩
  obtain rfl := hsame false true rfl rfl e he e' he' (.inr ⟨hterm, hterm'⟩)
  refine ⟨s, e, t, h, fun k => ?_, ht, (hend false rfl e he hterm).2.2 _ .refl t ht hid⟩
  cases k with
  | false => exact (hend false rfl e he hterm).1
  | true => exact (hend true rfl e he' hterm).1

end Connections

end LongRequestProxy
