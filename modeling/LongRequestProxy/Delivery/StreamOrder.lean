import LongRequestProxy.Delivery.Stream
import Mathlib.Data.List.Sort

/-!
# The order of the stream

Whatever a connection is told, its stream emits ascending numbers above `afterSeq` and ends with
the first terminal event. When the history and the messages together cover the log, it emits the
log itself.

## Main definitions

* `StreamState.Exact`: the emitted events ascend above a number, and the stream completes with the
  first terminal one.

## Main results

* `HighWater.append_aboveMark_eq_filter`: a history joined with the messages above it.
* `StreamState.exact_run`: every stream is exact.
* `StreamState.events_of_log`: the stream of a connection that gets the whole log.
* `stream_emits_log`: both laws of the stream.
-/

namespace LongRequestProxy

namespace HighWater

variable {ε κ : Type} [LinearOrder κ] {key : ε → κ} {m a h : κ} {l l' : List ε}

/-- Two ascending lists with the same events are equal. -/
theorem eq_of_mem_iff (hl : l.Pairwise fun e e' => key e < key e')
    (hl' : l'.Pairwise fun e e' => key e < key e') (h : ∀ e, e ∈ l ↔ e ∈ l') : l = l' := by
  have hirrefl : Std.Irrefl fun e e' : ε => key e < key e' := ⟨fun _ => lt_irrefl _⟩
  have hantisymm : Std.Antisymm fun e e' : ε => key e < key e' :=
    ⟨fun _ _ hlt hgt => absurd hgt hlt.asymm⟩
  exact hl.eq_of_mem_iff hl' h

/-- An ascending list of elements of another ascending list is a part of that. -/
theorem sublist_of_subset (hl : l.Pairwise fun e e' => key e < key e')
    (hl' : l'.Pairwise fun e e' => key e < key e') (h : l ⊆ l') : l.Sublist l' := by
  have hantisymm : Std.Antisymm fun e e' : ε => key e < key e' :=
    ⟨fun _ _ hlt hgt => absurd hgt hlt.asymm⟩
  have hnodup : l.Nodup := hl.imp fun hlt heq => (heq ▸ hlt).ne rfl
  exact List.sublist_of_subperm_of_pairwise (List.subperm_of_subset hnodup h) hl hl'

/-- A list followed by what is passed on after it ascends, when the list does. -/
theorem pairwise_append_aboveMark (hl : l.Pairwise fun e e' => key e < key e') :
    (l ++ aboveMark key (mark key m l) l').Pairwise fun e e' => key e < key e' := by
  refine List.pairwise_append.mpr ⟨hl, pairwise_aboveMark, fun e he e' he' => ?_⟩
  exact (mark_lt_iff.mp (lt_of_mem_aboveMark he')).2 e he

/-- **History and live feed.** The part of an ascending log between two numbers, joined with a
sublist of the log that has everything above the second, is the log above the first. -/
theorem append_aboveMark_eq_filter (hl : l.Pairwise fun e e' => key e < key e')
    (hsub : l'.Sublist l) (hall : ∀ e ∈ l, h < key e → e ∈ l') :
    let H := l.filter fun e => decide (a < key e ∧ key e ≤ h)
    H ++ aboveMark key (mark key a H) l' = l.filter fun e => decide (a < key e) := by
  intro H
  have hmem : ∀ e, e ∈ H ↔ e ∈ l ∧ a < key e ∧ key e ≤ h := by simp [H]
  refine eq_of_mem_iff (pairwise_append_aboveMark (hl.sublist List.filter_sublist))
    (hl.sublist List.filter_sublist) fun e => ?_
  rw [List.mem_append, hmem, List.mem_filter, decide_eq_true_eq]
  constructor
  · rintro (⟨he, ha, -⟩ | he)
    · exact ⟨he, ha⟩
    · exact ⟨hsub.subset (mem_of_mem_aboveMark he), (mark_lt_iff.mp (lt_of_mem_aboveMark he)).1⟩
  · rintro ⟨he, ha⟩
    rcases le_or_gt (key e) h with hle | hlt
    · exact .inl ⟨he, ha, hle⟩
    · refine .inr (mem_aboveMark_of_pairwise (hl.sublist hsub) (hall e he hlt) ?_)
      exact mark_lt_iff.mpr ⟨ha, fun x hx => ((hmem x).mp hx).2.2.trans_lt hlt⟩

end HighWater

open HighWater

namespace StreamState

/-- The emitted events ascend above `afterSeq`, and the stream completes with its first terminal
event. -/
structure Exact (afterSeq : ℤ) (st : StreamState) : Prop where
  ascending : st.events.Pairwise fun e e' => e.seq < e'.seq
  above : ∀ e ∈ st.events, afterSeq < e.seq
  last : ∀ l e l', st.events = l ++ e :: l' → e.isTerminal = true → l' = []
  completed : st.outcome = some .completed ↔ ∃ e ∈ st.events, e.isTerminal = true

variable {afterSeq : ℤ} {st : StreamState} {all : List TaskEventSelect} {inputs : List StreamInput}

/-- A stream that has sent nothing and was not completed. -/
theorem Exact.of_events_eq_nil (hev : st.events = []) (ho : st.outcome ≠ some .completed) :
    st.Exact afterSeq := by
  refine ⟨?_, ?_, fun l e l' h => ?_, ?_⟩
  · rw [hev]
    exact .nil
  · simp [hev]
  · rw [hev] at h
    cases l <;> cases h
  · simp [hev, ho]

theorem Emitted.exact (h : Emitted all st) (hall : all.Pairwise fun e e' => e.seq < e'.seq)
    (habove : ∀ e ∈ all, afterSeq < e.seq) : st.Exact afterSeq := by
  have hsub : st.events.Sublist all := by
    rw [h.events]
    exact upToStop_sublist
  have hup : ∀ e, e ∈ st.events ↔ e ∈ all ∧ ∀ t ∈ all, t.isTerminal = true → e.seq ≤ t.seq :=
    fun e => by rw [h.events, mem_upToStop_iff hall]
  refine ⟨hall.sublist hsub, fun e he => habove e (hsub.subset he), fun l e l' hl he => ?_, ?_⟩
  · cases l' with
    | nil => rfl
    | cons x l' =>
      have hmem : ∀ y ∈ l ++ e :: x :: l', y ∈ st.events := fun y hy => hl ▸ hy
      have hlt : e.seq < x.seq := by
        have := hall.sublist hsub
        rw [hl] at this
        exact List.rel_of_pairwise_cons (List.pairwise_append.mp this).2.1 List.mem_cons_self
      have hle := ((hup x).mp (hmem x (by simp))).2 e (hsub.subset (hmem e (by simp))) he
      exact absurd hle (not_le.mpr hlt)
  · have hdone : st.outcome = some .completed ↔ st.isDone = true := by
      rw [h.outcome]
      split <;> simp_all
    rw [hdone, h.done, ← any_upToStop, ← h.events, List.any_eq_true]

/-- What follows the end of a stream changes nothing. -/
theorem Exact.foldl_step {o : StreamOutcome} (h : st.Exact afterSeq) (hd : st.isDone = true)
    (ho : st.outcome = some o) (inputs : List StreamInput) :
    (inputs.foldl step st).Exact afterSeq := by
  obtain ⟨hev, ho'⟩ : (inputs.foldl step st).events = st.events ∧ _ := foldl_step_of_isDone hd ho
  refine ⟨?_, ?_, ?_, ?_⟩
  · rw [hev]
    exact h.ascending
  · rw [hev]
    exact h.above
  · rw [hev]
    exact h.last
  · rw [hev, ho', ← ho]
    exact h.completed

/-! ### How a stream ends -/

/-- The variable `isDone` says whether the stream has ended. -/
def Closed (st : StreamState) : Prop := st.isDone = st.outcome.isSome

theorem Closed.close (o : StreamOutcome) (st : StreamState) : (st.close o).Closed := by
  unfold Closed StreamState.close
  cases st.outcome <;> rfl

theorem Closed.send {e : TaskEventSelect} {m : ℤ} (h : st.Closed) : (st.send e m).Closed := by
  unfold StreamState.send
  split
  · exact .close ..
  · exact h

theorem Closed.drain {es : List TaskEventSelect} (h : st.Closed) : (drain es st).Closed := by
  induction es generalizing st with
  | nil => exact h
  | cons e rest ih =>
    rw [StreamState.drain]
    split
    · split
      · exact h.send (e := e) (m := e.seq)
      · exact ih h.send
    · exact ih h

theorem Closed.replay {es : List TaskEventSelect} (h : st.Closed) : (replay es st).Closed := by
  induction es generalizing st with
  | nil => exact Closed.drain (show StreamState.Closed { st with historyLoaded := true } from h)
  | cons e rest ih =>
    rw [StreamState.replay]
    split
    · exact h.send
    · exact ih h.send

theorem Closed.step (h : st.Closed) (i : StreamInput) : (st.step i).Closed := by
  cases i with
  | message e =>
    simp only [StreamState.step, onMessage]
    split
    · exact h
    · split
      · split
        · exact .close ..
        · exact h
      · split
        · exact h.send
        · exact h
  | history H =>
    simp only [StreamState.step, onHistory]
    split
    · exact h
    · exact h.replay
  | historyError =>
    simp only [StreamState.step, onHistoryError]
    split
    · exact h
    · exact .close ..
  | redisError => exact .close ..
  | heartbeat =>
    simp only [StreamState.step, onHeartbeat]
    split <;> exact h
  | unsubscribe => exact .close ..

theorem closed_run (afterSeq : ℤ) (inputs : List StreamInput) : (run afterSeq inputs).Closed := by
  induction inputs using List.reverseRecOn with
  | nil => rfl
  | append_singleton inputs i ih =>
    rw [run_append]
    exact ih.step i

/-! ### Every stream is exact -/

/-- A stream that nobody has cut. -/
theorem exact_run_of_uncut (hcut : ∀ i ∈ inputs, i.isCut = false)
    (hone : inputs.countP StreamInput.isHistory ≤ 1)
    (hH : ∀ H, .history H ∈ inputs →
      H.Pairwise (fun e e' => e.seq < e'.seq) ∧ ∀ e ∈ H, afterSeq < e.seq) :
    (run afterSeq inputs).Exact afterSeq := by
  cases hfind : inputs.find? StreamInput.isHistory with
  | none =>
    have hbefore : ∀ i ∈ inputs, i.isHistory = false ∧ i.isCut = false := fun i hi =>
      ⟨by simpa using List.find?_eq_none.mp hfind i hi, hcut i hi⟩
    obtain ⟨-, hw⟩ | ⟨-, -, hev, ho⟩ := run_before_history afterSeq hbefore
    · exact .of_events_eq_nil hw.events (by simp [hw.outcome])
    · exact .of_events_eq_nil hev (by simp [ho])
  | some i =>
    obtain ⟨hi, before, after, rfl, hnone⟩ := List.find?_eq_some_iff_append.mp hfind
    cases i with
    | history H =>
      have hbefore : ∀ i ∈ before, i.isHistory = false ∧ i.isCut = false := fun i hi =>
        ⟨by simpa using hnone i hi, hcut i (List.mem_append_left _ hi)⟩
      rcases Nat.lt_or_ge maxLiveBufferSize (messagesOf before).length with hgt | hle
      · obtain ⟨hev, ho⟩ := run_of_overflow afterSeq (.history H :: after) hbefore hgt
        exact .of_events_eq_nil hev (by simp [ho])
      · have hafter : ∀ i ∈ after, i.isHistory = false ∧ i.isCut = false := by
          rw [List.countP_append, List.countP_cons_of_pos hi] at hone
          have hzero : after.countP StreamInput.isHistory = 0 := by omega
          intro i hi
          exact ⟨by simpa using List.countP_eq_zero.mp hzero i hi, hcut i (by simp [hi])⟩
        obtain ⟨hasc, habove⟩ := hH H (by simp)
        refine (run_of_history hbefore hafter hle).exact (pairwise_append_aboveMark hasc) ?_
        intro e he
        rcases List.mem_append.mp he with he | he
        · exact habove e he
        · exact (mark_lt_iff.mp (lt_of_mem_aboveMark he)).1
    | _ => cases hi

/-- **Every stream is exact**, whatever it is told. -/
theorem exact_run (hone : inputs.countP StreamInput.isHistory ≤ 1)
    (hH : ∀ H, .history H ∈ inputs →
      H.Pairwise (fun e e' => e.seq < e'.seq) ∧ ∀ e ∈ H, afterSeq < e.seq) :
    (run afterSeq inputs).Exact afterSeq := by
  cases hfind : inputs.find? StreamInput.isCut with
  | none =>
    exact exact_run_of_uncut (fun i hi => by simpa using List.find?_eq_none.mp hfind i hi) hone hH
  | some i =>
    obtain ⟨hi, before, after, rfl, hnone⟩ := List.find?_eq_some_iff_append.mp hfind
    have hbefore : (run afterSeq before).Exact afterSeq := by
      refine exact_run_of_uncut (fun i hi => by simpa using hnone i hi) ?_ fun H hmem =>
        hH H (List.mem_append_left _ hmem)
      rw [List.countP_append] at hone
      omega
    have hclosed := closed_run afterSeq before
    rw [run_append]
    cases ho : (run afterSeq before).outcome with
    | some o =>
      have hd : (run afterSeq before).isDone = true := by rw [hclosed, ho]; rfl
      exact hbefore.foldl_step hd ho _
    | none =>
      have hd : (run afterSeq before).isDone = false := by rw [hclosed, ho]; rfl
      -- the cut ends the stream without a terminal event
      obtain ⟨o, hne, hstep⟩ : ∃ o, o ≠ .completed ∧
          (run afterSeq before).step i = (run afterSeq before).close o := by
        cases i with
        | historyError => exact ⟨.failed, by decide, by simp [StreamState.step, onHistoryError, hd]⟩
        | redisError => exact ⟨.failed, by decide, rfl⟩
        | unsubscribe => exact ⟨.unsubscribed, by decide, rfl⟩
        | _ => cases hi
      have ho' : ((run afterSeq before).close o).outcome = some o := by
        simp [StreamState.close, ho]
      have hexact : ((run afterSeq before).close o).Exact afterSeq := by
        refine ⟨hbefore.ascending, hbefore.above, hbefore.last, ?_⟩
        rw [ho', events_close, ← hbefore.completed, ho]
        simp [hne]
      rw [List.foldl_cons, hstep]
      exact hexact.foldl_step rfl ho' _

/-! ### The stream of the log -/

/-- **The stream of a connection that gets the whole log.** -/
theorem events_of_log {log : List TaskEventSelect} {before after : List StreamInput} {h : ℤ}
    (hlog : log.Pairwise fun e e' => e.seq < e'.seq)
    (hbefore : ∀ i ∈ before, i.isHistory = false ∧ i.isCut = false)
    (hafter : ∀ i ∈ after, i.isHistory = false ∧ i.isCut = false)
    (hlen : (messagesOf before).length ≤ maxLiveBufferSize)
    (hsub : (messagesOf (before ++ after)).Sublist log)
    (hall : ∀ e ∈ log, h < e.seq → e ∈ messagesOf (before ++ after)) :
    (run afterSeq (before ++
        .history (log.filter fun e => decide (afterSeq < e.seq ∧ e.seq ≤ h)) :: after)).events =
      upToStop TaskEventSelect.isTerminal (log.filter fun e => decide (afterSeq < e.seq)) := by
  rw [(run_of_history hbefore hafter hlen).events,
    append_aboveMark_eq_filter (a := afterSeq) hlog hsub hall]

end StreamState

/-- **The stream.** Whatever it is told, it emits ascending numbers above `afterSeq`, and completes
with its first terminal event. Told the log up to a number and, in order, the events of the log
above it, with at most `maxLiveBufferSize` messages before the history, it emits the log after
`afterSeq` up to the first terminal event. -/
theorem stream_emits_log (afterSeq : ℤ) :
    (∀ inputs : List StreamInput, inputs.countP StreamInput.isHistory ≤ 1 →
      (∀ H, .history H ∈ inputs →
        H.Pairwise (fun e e' => e.seq < e'.seq) ∧ ∀ e ∈ H, afterSeq < e.seq) →
      (StreamState.run afterSeq inputs).Exact afterSeq) ∧
    ∀ (log : List TaskEventSelect) (before after : List StreamInput) (h : ℤ),
      log.Pairwise (fun e e' => e.seq < e'.seq) →
      (∀ i ∈ before, i.isHistory = false ∧ i.isCut = false) →
      (∀ i ∈ after, i.isHistory = false ∧ i.isCut = false) →
      (messagesOf before).length ≤ maxLiveBufferSize →
      (messagesOf (before ++ after)).Sublist log →
      (∀ e ∈ log, h < e.seq → e ∈ messagesOf (before ++ after)) →
      (StreamState.run afterSeq (before ++
        .history (log.filter fun e => decide (afterSeq < e.seq ∧ e.seq ≤ h)) :: after)).events =
        upToStop TaskEventSelect.isTerminal (log.filter fun e => decide (afterSeq < e.seq)) :=
  ⟨fun _ hone hH => StreamState.exact_run hone hH,
    fun _ _ _ _ hlog hbefore hafter hlen hsub hall =>
      StreamState.events_of_log hlog hbefore hafter hlen hsub hall⟩

/-- An event of a log. -/
def loggedEvent (seq : ℤ) (eventType : TaskEventType) : TaskEventSelect :=
  { id := "", taskId := "", seq, eventType, payload := .null, createdAt := 0 }

/-- A log of two events, the second of which arrives before the history query returns. -/
theorem stream_emits_log_of_two :
    let e := loggedEvent 1 .progress
    let e' := loggedEvent 2 .completed
    (StreamState.run 0 [.message e', .history [e], .heartbeat]).Exact 0 ∧
      (StreamState.run 0 [.message e', .history [e], .heartbeat]).events = [e, e'] :=
  ⟨(stream_emits_log 0).1 [.message (loggedEvent 2 .completed), .history [loggedEvent 1 .progress],
      .heartbeat] (by decide) (by simp [loggedEvent]),
    (stream_emits_log 0).2 [loggedEvent 1 .progress, loggedEvent 2 .completed]
      [.message (loggedEvent 2 .completed)] [.heartbeat] 1 (by simp [loggedEvent])
      (by simp [StreamInput.isHistory, StreamInput.isCut])
      (by simp [StreamInput.isHistory, StreamInput.isCut])
      (by decide) (List.Sublist.cons _ (.refl _))
      (by simp [loggedEvent, messagesOf, StreamInput.message?])⟩

end LongRequestProxy
