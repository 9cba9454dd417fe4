import LongRequestProxy.Delivery.Connection

/-!
# What a connection delivers

A stream emits the history that it has read and then the messages that are above everything before
them. An event of the log is therefore lost when it is committed after the history query and its
message is either overtaken by that of a later event, or published before Redis has registered the
subscription.

## Main definitions

* `Required`: the events that have to reach the client.
* `Served`: everything that can reach the connection has reached it.
* `InTurn`, `Overtaken`: the position of an event among the messages.

## Main results

* `Served.mem_events_iff`: which events a served stream has emitted.
* `nothing_lost_iff_not_overtaken`: when a subscription that is active before the query loses
  nothing.
* `emitted_iff_heard`: which events reach the client when all are published in order.
* `completed_iff_terminal_seen`: when the stream completes with the history.
-/

namespace LongRequestProxy

open Async Service HighWater

/-- The events of a task that have to reach the client: those after `afterSeq`, up to and including
the first terminal event. -/
def Required (σ : Backend) (i : String) (afterSeq : ℤ) (e : TaskEventSelect) : Prop :=
  e ∈ σ.log i ∧ afterSeq < e.seq ∧ ∀ t ∈ σ.log i, t.isTerminal = true → e.seq ≤ t.seq

/-- The event stands among the messages behind events with lower numbers only. -/
def InTurn (ms : List TaskEventSelect) (e : TaskEventSelect) : Prop :=
  ∃ l₁ l₂, ms = l₁ ++ e :: l₂ ∧ ∀ e' ∈ l₁, e'.seq < e.seq

/-- The event stands among the messages behind one with a higher number. -/
def Overtaken (ms : List TaskEventSelect) (e : TaskEventSelect) : Prop :=
  ∃ l₁ l₂, ms = l₁ ++ e :: l₂ ∧ ∃ e' ∈ l₁, e.seq < e'.seq

/-- The events of the task have been published in the order of their numbers. -/
def Backend.PublishedInOrder (σ : Backend) (i : String) : Prop :=
  (σ.messages i).Pairwise fun e e' => e.seq < e'.seq

instance (σ : Backend) (i : String) : Decidable (σ.PublishedInOrder i) :=
  inferInstanceAs (Decidable (List.Pairwise _ _))

variable {http : HttpClient} {clock : Timestamp} {i : String} {afterSeq : ℤ} {n : ℕ}
  {q : Snapshot} {s : (connection http i afterSeq).Scene} {e : TaskEventSelect}

/-- All events of the task have been published, and the connection, which was not cut, has been
told the history `q` and every message published since its registration after `n`
publications. -/
structure Served (s : (connection http i afterSeq).Scene) (n : ℕ) (q : Snapshot) : Prop where
  row : s.config.store.HasRow i
  published : ∀ e ∈ s.config.store.log i, e ∈ s.config.store.messages i
  registered : s.state.registeredAt = some n
  handled : messagesOf s.state.inputs = s.config.store.messagesSince n i
  snapshot : s.state.snapshot = some q
  answered : .history q.events ∈ s.state.inputs
  uncut : ∀ x ∈ s.state.inputs, x.isCut = false

/-! ### The messages -/

theorem Backend.mem_messagesSince {σ : Backend} :
    e ∈ σ.messagesSince n i ↔ ∃ x ∈ σ.published.drop n, x.1 = taskChannel i ∧ x.2 = e := by
  simp [messagesSince, and_assoc]

theorem Backend.messagesSince_sublist {σ : Backend} :
    (σ.messagesSince n i).Sublist (σ.messages i) :=
  ((List.drop_sublist n _).filter _).map _

/-- A history query has read a prefix of the log. -/
theorem Attached.exists_log_eq (h : Attached i afterSeq http clock s)
    (hrow : s.config.store.HasRow i) (hq : s.state.snapshot = some q) :
    ∃ l l', s.config.store.log i = l ++ l' ∧
      q.events = l.filter (fun e => decide (afterSeq < e.seq)) ∧
      ∀ e ∈ l', ∀ x ∈ s.config.store.published.take q.published, x.2 ≠ e := by
  obtain ⟨c, hc, hrun, hissued, hev, hpub⟩ := h.snapshot q hq
  obtain ⟨hrow₀, l', hlog⟩ := (log_of_reaches hc hrun hissued).2 hrow
  have hseqs := seqs_of_reaches hc hrow₀
  refine ⟨c.store.log i, l', hlog.symm, ?_, ?_⟩
  · rw [hev, Backend.findEventsSince_eq_drop hseqs, filter_lt_eq_drop hseqs]
  · rintro e he x hx rfl
    -- what was published by then was committed by then
    obtain ⟨rest, hrest⟩ := published_of_reaches hrun
    rw [← hrest, hpub, List.take_left] at hx
    obtain ⟨γ, -, -, hlogged⟩ := exists_logged hc
    have hpair := Backend.pairwise_log (seqs_of_reaches (hc.trans hrun) hrow)
    have hid : x.2.taskId = i :=
      (Backend.mem_log.mp (hlog ▸ List.mem_append_right _ he : x.2 ∈ s.config.store.log i)).2
    have hmem : x.2 ∈ c.store.log i :=
      Backend.mem_log.mpr ⟨hlogged.published.committed x hx (hid ▸ hrow₀), hid⟩
    rw [← hlog] at hpair
    exact absurd ((List.pairwise_append.mp hpair).2.2 _ hmem _ he) (Int.lt_irrefl _)

/-- What is told to a connection is committed. -/
theorem mem_log_of_mem_messagesSince
    (h : Watcher.Watches (initialScene http clock i afterSeq) s)
    (hrow : s.config.store.HasRow i) (he : e ∈ s.config.store.messagesSince n i) :
    e ∈ s.config.store.log i := by
  obtain ⟨γ, -, -, hlogged⟩ := exists_logged (Watcher.Watches.reaches h)
  exact hlogged.published.mem_log_of_mem_messages hrow (Backend.messagesSince_sublist.subset he)

/-! ### What the stream has emitted -/

namespace Served

/-- A stream that has not given up emits the history, and of the messages those that are above
everything before them, up to the first terminal event. -/
theorem emitted (hs : Served s n q) (h : Attached i afterSeq http clock s)
    (hroom : (Connection.early s.state).length ≤ maxLiveBufferSize) :
    StreamState.Emitted (q.events ++ aboveMark TaskEventSelect.seq
        (mark TaskEventSelect.seq afterSeq q.events) (s.config.store.messagesSince n i))
      (StreamState.run afterSeq s.state.inputs) := by
  obtain ⟨-, before, after, heq, hnone, hearly⟩ := h.exists_inputs_eq hs.snapshot hs.answered
  have hmsgs : messagesOf (before ++ after) = s.config.store.messagesSince n i := by
    rw [← hs.handled, heq, messagesOf, messagesOf, List.filterMap_append, List.filterMap_append]
    rfl
  have hside : ∀ x ∈ before ++ after, x.isHistory = false ∧ x.isCut = false := by
    refine fun x hx => ⟨hnone x hx, hs.uncut x ?_⟩
    rw [heq]
    rcases List.mem_append.mp hx with hx | hx
    · exact List.mem_append_left _ hx
    · exact List.mem_append_right _ (List.mem_cons_of_mem _ hx)
  rw [heq, ← hmsgs]
  exact StreamState.run_of_history (fun x hx => hside x (List.mem_append_left _ hx))
    (fun x hx => hside x (List.mem_append_right _ hx)) (hearly ▸ hroom)

/-- **What reaches the client.** An event that has to reach the client does so iff the history
query has read it, or it is published behind events with lower numbers only. -/
theorem mem_events_iff (hs : Served s n q)
    (h : Watcher.Watches (initialScene http clock i afterSeq) s)
    (hroom : (Connection.early s.state).length ≤ maxLiveBufferSize)
    (he : Required s.config.store i afterSeq e) :
    e ∈ (StreamState.run afterSeq s.state.inputs).events ↔
      e ∈ q.events ∨ InTurn (s.config.store.messagesSince n i) e := by
  have hattached := attached_of_watches h
  have hem := hs.emitted hattached hroom
  obtain ⟨l, l', hlog, hq, -⟩ := hattached.exists_log_eq hs.row hs.snapshot
  have hpair := Backend.pairwise_log (seqs_of_reaches (Watcher.Watches.reaches h) hs.row)
  obtain ⟨hmem, hafter, hfirst⟩ := he
  have hqpair : q.events.Pairwise fun e e' => e.seq < e'.seq := by
    rw [hlog] at hpair
    rw [hq]
    exact (List.pairwise_append.mp hpair).1.filter _
  have hlist : ∀ t ∈ q.events ++ aboveMark TaskEventSelect.seq
      (mark TaskEventSelect.seq afterSeq q.events) (s.config.store.messagesSince n i),
      t ∈ s.config.store.log i := by
    intro t ht
    rcases List.mem_append.mp ht with ht | ht
    · rw [hq] at ht
      exact hlog ▸ List.mem_append_left _ (List.mem_filter.mp ht).1
    · exact mem_log_of_mem_messagesSince h hs.row (mem_of_mem_aboveMark ht)
  have hasc : (q.events ++ aboveMark TaskEventSelect.seq
      (mark TaskEventSelect.seq afterSeq q.events) (s.config.store.messagesSince n i)).Pairwise
      fun e e' => e.seq < e'.seq :=
    List.pairwise_append.mpr ⟨hqpair, pairwise_aboveMark, fun a ha b hb =>
      (mark_lt_iff.mp (lt_of_mem_aboveMark hb)).2 a ha⟩
  rw [hem.events, mem_upToStop_iff hasc, List.mem_append, mem_aboveMark_iff]
  constructor
  · rintro ⟨hmem | ⟨l₁, l₂, heq, -, hall⟩, -⟩
    · exact .inl hmem
    · exact .inr ⟨l₁, l₂, heq, hall⟩
  · intro hturn
    refine ⟨?_, fun t ht hterm => hfirst t (hlist t ht) hterm⟩
    obtain hmem | ⟨l₁, l₂, heq, hall⟩ := hturn
    · exact .inl hmem
    by_cases hread : e ∈ q.events
    · exact .inl hread
    · refine .inr ⟨l₁, l₂, heq, mark_lt_iff.mpr ⟨hafter, fun a ha => ?_⟩, hall⟩
      -- the query has read a prefix of the log, and the event is behind it
      rw [hlog] at hmem hpair
      rcases List.mem_append.mp hmem with hmem | hmem
      · exact absurd (hq ▸ List.mem_filter.mpr ⟨hmem, decide_eq_true hafter⟩) hread
      · rw [hq] at ha
        exact (List.pairwise_append.mp hpair).2.2 a (List.mem_filter.mp ha).1 e hmem

end Served

/-- An event that a subscription which is active before the query has to pass on itself is among
its messages. -/
theorem Served.mem_messagesSince (hs : Served s n q) (h : Attached i afterSeq http clock s)
    (hfirst : n ≤ q.published) (he : Required s.config.store i afterSeq e)
    (hread : e ∉ q.events) : e ∈ s.config.store.messagesSince n i := by
  obtain ⟨l, l', hlog, hq, hnew⟩ := h.exists_log_eq hs.row hs.snapshot
  obtain ⟨hmem, hafter, -⟩ := he
  have hpub := hs.published e hmem
  rw [hlog] at hmem
  have hlate : e ∈ l' := by
    rcases List.mem_append.mp hmem with hmem | hmem
    · exact absurd (hq ▸ List.mem_filter.mpr ⟨hmem, decide_eq_true hafter⟩) hread
    · exact hmem
  obtain ⟨x, hx, hch, rfl⟩ : ∃ x ∈ s.config.store.published, x.1 = taskChannel i ∧ x.2 = e := by
    simpa [Backend.messages, and_assoc] using hpub
  refine Backend.mem_messagesSince.mpr ⟨x, ?_, hch, rfl⟩
  rw [← List.take_append_drop n s.config.store.published] at hx
  rcases List.mem_append.mp hx with hx | hx
  · have hsub : s.config.store.published.take n ⊆ s.config.store.published.take q.published :=
      (List.take_prefix_take_left hfirst).subset
    exact absurd rfl (hnew x.2 hlate x (hsub hx))
  · exact hx

/-- An event that stands among distinct messages of one log is in turn iff it is not overtaken. -/
theorem inTurn_iff_not_overtaken {ms log : List TaskEventSelect} (hms : ms.Nodup)
    (hsub : ms ⊆ log) (hlog : log.Pairwise fun e e' => e.seq < e'.seq) (he : e ∈ ms) :
    InTurn ms e ↔ ¬ Overtaken ms e := by
  have hnodup : ∀ {l₁ l₂ : List TaskEventSelect}, ms = l₁ ++ e :: l₂ → e ∉ l₁ ∧ e ∉ l₂ := by
    rintro l₁ l₂ rfl
    rw [List.nodup_append, List.nodup_cons] at hms
    exact ⟨fun hmem => hms.2.2 e hmem e List.mem_cons_self rfl, hms.2.1.1⟩
  constructor
  · rintro ⟨l₁, l₂, heq, hall⟩ ⟨l₃, l₄, heq', e', he', hlt⟩
    obtain ⟨rfl, -, -⟩ := (List.append_cons_inj_of_notMem (hnodup heq).1 (hnodup heq).2).mp
      (heq.symm.trans heq')
    exact absurd (hall e' he') (Int.not_lt.mpr (Int.le_of_lt hlt))
  · intro hnot
    obtain ⟨l₁, l₂, heq⟩ := List.append_of_mem he
    refine ⟨l₁, l₂, heq, fun e' he' => ?_⟩
    have hmem : e' ∈ log := hsub (heq ▸ List.mem_append_left _ he')
    have hne : e' ≠ e := fun h => (hnodup heq).1 (h ▸ he')
    refine Int.lt_of_not_ge fun hge => hnot ⟨l₁, l₂, heq, e', he', ?_⟩
    have hseqs : (log.map (·.seq)).Nodup := (List.pairwise_map.mpr hlog).imp Int.ne_of_lt
    exact lt_of_le_of_ne hge fun hseq =>
      hne (Table.eq_of_key_eq hseqs hmem (hsub he) hseq.symm)

/-! ### The results -/

/-- **When nothing is lost.** A subscription that is active before the history query, with room in
the buffer, passes on every event that has to reach the client iff no event that the query has not
read is overtaken on the channel by one with a higher number. -/
theorem nothing_lost_iff_not_overtaken (http : HttpClient) (clock : Timestamp) (i : String)
    (afterSeq : ℤ) (s : (connection http i afterSeq).Scene)
    (h : Watcher.Watches (initialScene http clock i afterSeq) s) (n : ℕ) (q : Snapshot)
    (hs : Served s n q) (hfirst : n ≤ q.published)
    (hroom : (Connection.early s.state).length ≤ maxLiveBufferSize) :
    (∀ e, Required s.config.store i afterSeq e →
      e ∈ (StreamState.run afterSeq s.state.inputs).events) ↔
    ∀ e, Required s.config.store i afterSeq e → e ∉ q.events →
      ¬ Overtaken (s.config.store.messagesSince n i) e := by
  obtain ⟨γ, -, -, hlogged⟩ := exists_logged (Watcher.Watches.reaches h)
  have hpair := Backend.pairwise_log (seqs_of_reaches (Watcher.Watches.reaches h) hs.row)
  have hnodup : (s.config.store.messagesSince n i).Nodup :=
    (hlogged.published.once i hs.row).sublist Backend.messagesSince_sublist
  refine forall_congr' fun e => forall_congr' fun he => ?_
  rw [hs.mem_events_iff h hroom he]
  constructor
  · rintro (hread | hturn) hnot
    · exact absurd hread hnot
    · have hmem := hs.mem_messagesSince (attached_of_watches h) hfirst he hnot
      exact (inTurn_iff_not_overtaken hnodup
        (fun _ => mem_log_of_mem_messagesSince h hs.row) hpair hmem).mp hturn
  · intro hnot
    by_cases hread : e ∈ q.events
    · exact .inl hread
    · have hmem := hs.mem_messagesSince (attached_of_watches h) hfirst he hread
      exact .inr ((inTurn_iff_not_overtaken hnodup
        (fun _ => mem_log_of_mem_messagesSince h hs.row) hpair hmem).mpr (hnot hread))

/-- **What is heard.** When the events of the task are published in the order of their numbers, one
that has to reach the client does so iff the buffer has not overflowed, and the history query has
read the event or it was published after Redis had registered the subscription. -/
theorem emitted_iff_heard (http : HttpClient) (clock : Timestamp) (i : String) (afterSeq : ℤ)
    (s : (connection http i afterSeq).Scene)
    (h : Watcher.Watches (initialScene http clock i afterSeq) s) (n : ℕ) (q : Snapshot)
    (hs : Served s n q)
    (horder : s.config.store.PublishedInOrder i)
    (e : TaskEventSelect) (he : Required s.config.store i afterSeq e) :
    e ∈ (StreamState.run afterSeq s.state.inputs).events ↔
      (Connection.early s.state).length ≤ maxLiveBufferSize ∧
        (e ∈ q.events ∨ e ∈ s.config.store.messagesSince n i) := by
  by_cases hroom : (Connection.early s.state).length ≤ maxLiveBufferSize
  · rw [hs.mem_events_iff h hroom he, and_iff_right hroom]
    refine or_congr_right ⟨fun ⟨l₁, l₂, heq, _⟩ => ?_, fun hmem => ?_⟩
    · rw [heq]
      exact List.mem_append_right _ List.mem_cons_self
    · obtain ⟨l₁, l₂, heq⟩ := List.append_of_mem hmem
      refine ⟨l₁, l₂, heq, fun e' he' => ?_⟩
      have hpair := List.Pairwise.sublist (Backend.messagesSince_sublist (n := n)) horder
      rw [heq] at hpair
      exact (List.pairwise_append.mp hpair).2.2 e' he' e List.mem_cons_self
  · obtain ⟨-, before, after, heq, hnone, hearly⟩ :=
      (attached_of_watches h).exists_inputs_eq hs.snapshot hs.answered
    have hside : ∀ x ∈ before, x.isHistory = false ∧ x.isCut = false := fun x hx =>
      ⟨hnone x (List.mem_append_left _ hx), hs.uncut x (heq ▸ List.mem_append_left _ hx)⟩
    obtain ⟨hev, -⟩ := StreamState.run_of_overflow _ (.history q.events :: after)
      hside (hearly ▸ Nat.not_le.mp hroom)
    refine iff_of_false ?_ fun hboth => hroom hboth.1
    rw [heq, hev]
    exact List.not_mem_nil

/-- **When the stream completes with the history.** The history query returns the events after
`afterSeq` of a state on the way. Once its result has arrived the stream has completed iff the
buffer has not overflowed, and the result holds a terminal event or one was delivered before, above
`afterSeq` and everything that the stream emits before it. -/
theorem completed_iff_terminal_seen (http : HttpClient) (clock : Timestamp) (i : String)
    (afterSeq : ℤ) (s : (connection http i afterSeq).Scene)
    (h : Watcher.Watches (initialScene http clock i afterSeq) s) (before : List StreamInput)
    (H : List TaskEventSelect) (heq : s.state.inputs = before ++ [.history H])
    (huncut : ∀ x ∈ before, x.isCut = false) :
    (∃ c, Reaches (fun _ _ => True) (initial http clock) c ∧
      Reaches (fun _ _ => True) c s.config ∧ H = c.store.findEventsSince i afterSeq) ∧
    ((StreamState.run afterSeq s.state.inputs).outcome = some .completed ↔
      (messagesOf before).length ≤ maxLiveBufferSize ∧ ∃ t, t.isTerminal = true ∧
        (t ∈ H ∨ ∃ l₁ l₂, messagesOf before = l₁ ++ t :: l₂ ∧ afterSeq < t.seq ∧
          ∀ e ∈ H ++ l₁, e.seq < t.seq)) := by
  obtain ⟨q, hq, hone⟩ : ∃ q, s.state.snapshot = some q ∧
      s.state.inputs.filter StreamInput.isHistory = [.history q.events] := by
    obtain hnil | ⟨-, hsome⟩ := (attached_of_watches h).histories
    · rw [heq, List.filter_append, List.filter_cons_of_pos rfl] at hnil
      simp at hnil
    · exact hsome
  rw [heq, List.filter_append, List.filter_cons_of_pos rfl, List.filter_nil] at hone
  have hnil : before.filter StreamInput.isHistory = [] :=
    List.length_eq_zero_iff.mp (Nat.add_eq_right.mp
      (List.length_append ▸ congrArg List.length hone))
  rw [hnil, List.nil_append] at hone
  obtain rfl : H = q.events := StreamInput.history.inj (List.singleton_inj.mp hone)
  obtain ⟨c, hc, hrun, -, hev, -⟩ := (attached_of_watches h).snapshot q hq
  refine ⟨⟨c, hc, hrun, hev⟩, ?_⟩
  have hnone : ∀ x ∈ before, x.isHistory = false :=
    fun x hx => by simpa using List.filter_eq_nil_iff.mp hnil x hx
  have hside : ∀ x ∈ before, x.isHistory = false ∧ x.isCut = false :=
    fun x hx => ⟨hnone x hx, huncut x hx⟩
  rw [heq]
  by_cases hroom : (messagesOf before).length ≤ maxLiveBufferSize
  · have hem : StreamState.Emitted (q.events ++ aboveMark TaskEventSelect.seq
        (mark TaskEventSelect.seq afterSeq q.events) (messagesOf (before ++ [])))
        (StreamState.run afterSeq (before ++ [.history q.events])) :=
      StreamState.run_of_history hside (by simp) hroom
    rw [List.append_nil] at hem
    have hcompleted : (StreamState.run afterSeq (before ++ [.history q.events])).outcome =
        some .completed ↔ ∃ t ∈ q.events ++ aboveMark TaskEventSelect.seq
          (mark TaskEventSelect.seq afterSeq q.events) (messagesOf before),
          t.isTerminal = true := by
      rw [hem.outcome, hem.done, ← List.any_eq_true]
      cases List.any _ TaskEventSelect.isTerminal <;> simp
    rw [and_iff_right hroom, hcompleted]
    refine exists_congr fun t => ?_
    rw [and_comm, List.mem_append, mem_aboveMark_iff]
    refine and_congr_right fun _ => or_congr_right ?_
    simp only [mark_lt_iff, List.mem_append, or_imp, forall_and, and_assoc]
  · obtain ⟨-, ho⟩ := StreamState.run_of_overflow _ [.history q.events] hside (Nat.not_le.mp hroom)
    rw [ho]
    exact iff_of_false (by simp) fun hboth => hroom hboth.1

/-! ### Tests of a scene -/

/-- The test of `Served`. -/
def isServed (s : (connection http i afterSeq).Scene) : Bool :=
  s.config.store.tasks.any (fun t => t.id == i) &&
  decide ((s.config.store.log i).length ≤ (s.config.store.messages i).length) &&
  s.state.registeredAt.any (fun n =>
    (messagesOf s.state.inputs).length == (s.config.store.messagesSince n i).length) &&
  s.state.inputs.any StreamInput.isHistory && s.state.inputs.all fun x => !x.isCut

theorem exists_served (h : Watcher.Watches (initialScene http clock i afterSeq) s)
    (hs : isServed s = true) : ∃ n q, Served s n q := by
  have hattached := attached_of_watches h
  obtain ⟨γ, -, -, hlogged⟩ := exists_logged (Watcher.Watches.reaches h)
  simp only [isServed, Bool.and_eq_true, List.any_eq_true, List.all_eq_true, decide_eq_true_eq,
    Option.any_eq_true, beq_iff_eq, Bool.not_eq_true'] at hs
  obtain ⟨⟨⟨⟨⟨t, ht, rfl⟩, hlen⟩, n, hn, hhandled⟩, x, hx, hhist⟩, huncut⟩ := hs
  have hrow : s.config.store.HasRow t.id := ⟨t, ht, rfl⟩
  obtain ⟨q, hq, hone⟩ : ∃ q, s.state.snapshot = some q ∧
      s.state.inputs.filter StreamInput.isHistory = [.history q.events] := by
    obtain hnil | ⟨-, hsome⟩ := hattached.histories
    · exact absurd hhist (List.filter_eq_nil_iff.mp hnil x hx)
    · exact hsome
  refine ⟨n, q, hrow, fun e he => ?_, hn, ?_, hq, ?_, huncut⟩
  · have hsub : s.config.store.messages t.id ⊆ s.config.store.log t.id :=
      fun _ => hlogged.published.mem_log_of_mem_messages hrow
    have hperm := (List.subperm_of_subset (hlogged.published.once t.id hrow) hsub).perm_of_length_le
      hlen
    exact hperm.mem_iff.mpr he
  · exact (hattached.registered n hn).2.eq_of_length hhandled
  · have hmem : StreamInput.history q.events ∈ s.state.inputs.filter StreamInput.isHistory := by
      rw [hone]
      exact List.mem_singleton_self _
    exact (List.mem_filter.mp hmem).1

/-- The test whether an event that has to reach the client has not. -/
def losesEvent (s : (connection http i afterSeq).Scene) : Bool :=
  (s.config.store.log i).any fun e =>
    decide (afterSeq < e.seq) &&
    (s.config.store.log i).all (fun t => !t.isTerminal || decide (e.seq ≤ t.seq)) &&
    (StreamState.run afterSeq s.state.inputs).events.all fun e' => e'.seq != e.seq

theorem exists_lost (hs : losesEvent s = true) :
    ∃ e, Required s.config.store i afterSeq e ∧
      e ∉ (StreamState.run afterSeq s.state.inputs).events := by
  simp only [losesEvent, List.any_eq_true, Bool.and_eq_true, decide_eq_true_eq, List.all_eq_true,
    Bool.or_eq_true, Bool.not_eq_true', bne_iff_ne] at hs
  obtain ⟨e, he, ⟨hafter, hfirst⟩, hnot⟩ := hs
  refine ⟨e, ⟨he, hafter, fun t ht hterm => ?_⟩, fun hmem => hnot e hmem rfl⟩
  obtain hfalse | hle := hfirst t ht
  · rw [hterm] at hfalse
    cases hfalse
  · exact hle

/-! ### Example runs -/

/-- A task is created and claimed. -/
def claimedRun : List (proxy httpRetryService).Move :=
  [.spawn (.create sampleDto "http://proxy"), .call 0 {}, .call 0 { uuid := fun _ => "secret" },
    .call 0 { uuid := fun _ => sampleId }, .call 0 {},
    .spawn (.dispatch sampleId 300), .call 1 { time := 1000 }, .call 1 {}, .call 1 {}]

/-- A progress request commits its event. -/
def progressCommits : List (proxy httpRetryService).Move :=
  [.spawn (.progress sampleId (some "Bearer secret") sampleProgress), .call 2 {}, .call 2 {},
    .call 2 {}, .call 2 {}, .call 2 {}, .call 2 {}]

/-- The task is cancelled, and the event is published. -/
def cancelPublishes : List (proxy httpRetryService).Move :=
  [.spawn (.cancel sampleId), .call 3 { time := 2000 }, .call 3 {}, .call 3 {}, .call 3 {},
    .call 3 {}, .call 3 {}, .call 3 {}]

/-- The subscription is registered and the history is queried; then the event of the progress
request is committed, and published after that of the cancellation. -/
def overtakenOnChannel : List (connection httpRetryService sampleId 0).Step :=
  claimedRun.map .pool ++ [.own .opened, .own .registered, .own .queried] ++
    progressCommits.map .pool ++ cancelPublishes.map .pool ++ [.pool (.call 2 {})] ++
    [.own .historyArrived, .own .delivered, .own .delivered]

/-- The progress event that is overtaken on the channel is lost. -/
theorem overtaken_event_lost :
    ¬ ∀ (http : HttpClient) (clock : Timestamp) (i : String) (afterSeq : ℤ)
      (s : (connection http i afterSeq).Scene),
      Watcher.Watches (initialScene http clock i afterSeq) s → ∀ n q, Served s n q →
      n ≤ q.published → (Connection.early s.state).length ≤ maxLiveBufferSize →
      ∀ e, Required s.config.store i afterSeq e →
        e ∈ (StreamState.run afterSeq s.state.inputs).events := by
  intro h
  obtain ⟨s, hw, hcheck⟩ := Watcher.exists_watches_of_replay
    (s := initialScene httpRetryService 0 sampleId 0) overtakenOnChannel
    (fun s => isServed s && losesEvent s && s.state.registeredAt == some 0 &&
      decide ((Connection.early s.state).length ≤ maxLiveBufferSize)) (by decide)
  simp only [Bool.and_eq_true, beq_iff_eq, decide_eq_true_eq] at hcheck
  obtain ⟨⟨⟨hserved, hlost⟩, hreg⟩, hroom⟩ := hcheck
  obtain ⟨n, q, hs⟩ := exists_served hw hserved
  obtain ⟨e, he, hnot⟩ := exists_lost hlost
  obtain rfl : 0 = n := Option.some.inj (hreg.symm.trans hs.registered)
  exact hnot (h _ _ _ _ s hw 0 q hs (Nat.zero_le _) hroom e he)

/-- Something was overtaken in that run. -/
theorem overtaken_of_lost :
    ∃ s : (connection httpRetryService sampleId 0).Scene,
      Watcher.Watches (initialScene httpRetryService 0 sampleId 0) s ∧ ∃ n q, Served s n q ∧
      n ≤ q.published ∧ ∃ e, Required s.config.store sampleId 0 e ∧ e ∉ q.events ∧
        Overtaken (s.config.store.messagesSince n sampleId) e := by
  obtain ⟨s, hw, hcheck⟩ := Watcher.exists_watches_of_replay
    (s := initialScene httpRetryService 0 sampleId 0) overtakenOnChannel
    (fun s => isServed s && losesEvent s && s.state.registeredAt == some 0 &&
      decide ((Connection.early s.state).length ≤ maxLiveBufferSize)) (by decide)
  simp only [Bool.and_eq_true, beq_iff_eq, decide_eq_true_eq] at hcheck
  obtain ⟨⟨⟨hserved, hlost⟩, hreg⟩, hroom⟩ := hcheck
  obtain ⟨n, q, hs⟩ := exists_served hw hserved
  obtain ⟨e, he, hnot⟩ := exists_lost hlost
  obtain rfl : 0 = n := Option.some.inj (hreg.symm.trans hs.registered)
  refine ⟨s, hw, 0, q, hs, Nat.zero_le _, ?_⟩
  by_contra hnone
  refine hnot ((nothing_lost_iff_not_overtaken httpRetryService 0 sampleId 0 s hw 0 q hs
    (Nat.zero_le _) hroom).mpr (fun e he hread hov => hnone ⟨e, he, hread, hov⟩) e he)

/-- The history is queried before the progress event is committed, and the subscription is
registered after it was published. -/
def unheard : List (connection httpRetryService sampleId 0).Step :=
  claimedRun.map .pool ++ [.own .opened, .own .queried] ++ progressCommits.map .pool ++
    [.pool (.call 2 {}), .own .registered] ++ cancelPublishes.map .pool ++
    [.own .historyArrived, .own .delivered]

/-- The progress event falls into the gap between the query and the subscription. -/
theorem unheard_event_lost :
    ¬ ∀ (http : HttpClient) (clock : Timestamp) (i : String) (afterSeq : ℤ)
      (s : (connection http i afterSeq).Scene),
      Watcher.Watches (initialScene http clock i afterSeq) s → ∀ n q, Served s n q →
      s.config.store.PublishedInOrder i →
      ∀ e, Required s.config.store i afterSeq e →
        e ∈ (StreamState.run afterSeq s.state.inputs).events := by
  intro h
  obtain ⟨s, hw, hcheck⟩ := Watcher.exists_watches_of_replay
    (s := initialScene httpRetryService 0 sampleId 0) unheard
    (fun s => isServed s && losesEvent s &&
      decide (s.config.store.PublishedInOrder sampleId)) (by decide)
  simp only [Bool.and_eq_true, decide_eq_true_eq] at hcheck
  obtain ⟨⟨hserved, hlost⟩, horder⟩ := hcheck
  obtain ⟨n, q, hs⟩ := exists_served hw hserved
  obtain ⟨e, he, hnot⟩ := exists_lost hlost
  exact hnot (h _ _ _ _ s hw n q hs horder e he)

/-- The lost event was neither read nor heard. -/
theorem unheard_of_lost :
    ∃ s : (connection httpRetryService sampleId 0).Scene,
      Watcher.Watches (initialScene httpRetryService 0 sampleId 0) s ∧ ∃ n q, Served s n q ∧
      ∃ e, Required s.config.store sampleId 0 e ∧
        e ∉ q.events ∧ e ∉ s.config.store.messagesSince n sampleId := by
  obtain ⟨s, hw, hcheck⟩ := Watcher.exists_watches_of_replay
    (s := initialScene httpRetryService 0 sampleId 0) unheard
    (fun s => isServed s && losesEvent s &&
      decide ((Connection.early s.state).length ≤ maxLiveBufferSize) &&
      decide (s.config.store.PublishedInOrder sampleId)) (by decide)
  simp only [Bool.and_eq_true, decide_eq_true_eq] at hcheck
  obtain ⟨⟨⟨hserved, hlost⟩, hroom⟩, horder⟩ := hcheck
  obtain ⟨n, q, hs⟩ := exists_served hw hserved
  obtain ⟨e, he, hnot⟩ := exists_lost hlost
  have hiff := emitted_iff_heard httpRetryService 0 sampleId 0 s hw n q hs horder e he
  refine ⟨s, hw, n, q, hs, e, he, fun hread => ?_, fun hheard => ?_⟩
  · exact hnot (hiff.mpr ⟨hroom, .inl hread⟩)
  · exact hnot (hiff.mpr ⟨hroom, .inr hheard⟩)

/-- The history of a connection that has seen nothing else. -/
def onlyHistory : List StreamInput → Option (List TaskEventSelect)
  | [.history H] => some H
  | _ => none

theorem onlyHistory_eq_some {inputs : List StreamInput} {H : List TaskEventSelect}
    (h : onlyHistory inputs = some H) : inputs = [.history H] := by
  unfold onlyHistory at h
  split at h
  · cases h
    rfl
  · cases h

/-- A client reconnects to a task that has been cancelled with the number of its last event. -/
theorem reconnected_stream_stays_open :
    ¬ ∀ (http : HttpClient) (clock : Timestamp) (i : String) (afterSeq : ℤ)
      (s : (connection http i afterSeq).Scene),
      Watcher.Watches (initialScene http clock i afterSeq) s →
      ∀ t, s.state.task = some t → t.status.isTerminal = true →
      ∀ before H, s.state.inputs = before ++ [.history H] → (∀ x ∈ before, x.isCut = false) →
        (StreamState.run afterSeq s.state.inputs).outcome = some .completed := by
  intro h
  obtain ⟨s, hw, hcheck⟩ := Watcher.exists_watches_of_replay
    (s := initialScene httpRetryService 0 sampleId 2)
    ((claimedRun ++ progressCommits ++ cancelPublishes).map .pool ++
      [.own .opened, .own .registered, .own .queried, .own .historyArrived])
    (fun s => s.state.task.any (fun t => t.status.isTerminal) &&
      (onlyHistory s.state.inputs).isSome && (StreamState.run 2 s.state.inputs).outcome == none)
    (by decide)
  simp only [Bool.and_eq_true, Option.any_eq_true, Option.isSome_iff_exists, beq_iff_eq] at hcheck
  obtain ⟨⟨⟨t, ht, hterm⟩, H, hinputs⟩, hopen⟩ := hcheck
  have := h _ _ _ _ s hw t ht hterm [] H (onlyHistory_eq_some hinputs) (by simp)
  rw [hopen] at this
  cases this

/-- A client that connects to the cancelled task for the first time sees the stream complete. -/
theorem completed_of_first_connection :
    ∃ s : (connection httpRetryService sampleId 0).Scene,
      Watcher.Watches (initialScene httpRetryService 0 sampleId 0) s ∧
      ∃ H, s.state.inputs = [.history H] ∧
        (StreamState.run 0 s.state.inputs).outcome = some .completed := by
  obtain ⟨s, hw, hcheck⟩ := Watcher.exists_watches_of_replay
    (s := initialScene httpRetryService 0 sampleId 0)
    ((claimedRun ++ progressCommits ++ cancelPublishes).map .pool ++
      [.own .opened, .own .registered, .own .queried, .own .historyArrived])
    (fun s => (onlyHistory s.state.inputs).any fun H => H.any TaskEventSelect.isTerminal)
    (by decide)
  obtain ⟨H, hinputs, hcheck⟩ := (Option.any_eq_true _ _).mp hcheck
  have heq := onlyHistory_eq_some hinputs
  obtain ⟨t, ht, hterm⟩ := List.any_eq_true.mp hcheck
  exact ⟨s, hw, H, heq, ((completed_iff_terminal_seen httpRetryService 0 sampleId 0 s hw [] H heq
    (by simp)).2.mpr ⟨Nat.zero_le _, t, hterm, .inl ht⟩)⟩

end LongRequestProxy
