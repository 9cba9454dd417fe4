import LongRequestProxy.Data.HighWater
import LongRequestProxy.Delivery.Schema
import Mathlib.Data.List.Induction

/-!
# The stream of one connection

`SseService.stream` gives a client the events of a task after a sequence number: it subscribes to
the channel of the task, then asks for the events so far, buffers the messages that arrive
meanwhile, and merges the two by a high-water mark. Here it is a state machine: each callback that
it registers is a function on the variables that they share.

Only rows are published on the channels, so a message is the row that its text parses to.

## Main definitions

* `toMessageEvent`, `heartbeatEvent`: what goes to the client.
* `StreamState`: the shared variables, and what the subscriber was given.
* `StreamState.onMessage`, `StreamState.onHistory`, `StreamState.onHeartbeat`, …: the callbacks.
* `StreamInput`, `StreamState.run`: what the connection can be told, and the state afterwards.

## Main results

* `StreamState.run_of_history`: what the stream has sent, as a function of the history and of the
  messages.
* `StreamState.run_of_overflow`: nothing is sent when too many messages precede the history.
-/

namespace LongRequestProxy

open HighWater

/-! ### What goes to the client -/

/-- A `MessageEvent` of Nest; `data` is the value whose JSON text is sent, if any. -/
structure MessageEvent where
  id : Option String := none
  type : String
  data : Option Json := none

/-- `HEARTBEAT_EVENT`. -/
def heartbeatEvent : MessageEvent := { type := "ping" }

/-- `toMessageEvent`: the columns `id`, `taskId`, `seq` and `createdAt` are left out of the data. -/
def toMessageEvent (event : TaskEventSelect) : MessageEvent where
  id := some (toString event.seq)
  type := event.eventType.text
  data := some (.obj [("eventType", .str event.eventType.text), ("payload", event.payload)])

/-- What `subscriber.next` was called with. -/
inductive Frame : Type
  | event (event : TaskEventSelect)
  | ping

namespace Frame

/-- The message that the client gets. -/
def message : Frame → MessageEvent
  | event e => toMessageEvent e
  | ping => heartbeatEvent

/-- The event that a frame carries. -/
def event? : Frame → Option TaskEventSelect
  | event e => some e
  | ping => none

end Frame

/-! ### The callbacks -/

/-- How a stream has ended. -/
inductive StreamOutcome : Type
  | completed
  | failed
  /-- The client left. -/
  | unsubscribed
  deriving DecidableEq, Repr

/-- `MAX_LIVE_BUFFER_SIZE`. -/
def maxLiveBufferSize : ℕ := 500

/-- The variables of `stream`, with what the subscriber was given. -/
structure StreamState where
  isDone : Bool := false
  historyLoaded : Bool := false
  highestHistorySeq : ℤ
  liveBuffer : List TaskEventSelect := []
  sent : List Frame := []
  outcome : Option StreamOutcome := none

/-- The event ends the stream: its type is one of `TERMINAL_EVENT_TYPES`. -/
def TaskEventSelect.isTerminal (e : TaskEventSelect) : Bool := e.eventType.isTerminal

namespace StreamState

/-- The variables when the observable is subscribed to. -/
def init (afterSeq : ℤ) : StreamState := { highestHistorySeq := afterSeq }

/-- The events sent so far. -/
def events (st : StreamState) : List TaskEventSelect := st.sent.filterMap Frame.event?

/-- `subscriber.complete()`, `subscriber.error(…)` or an unsubscription: each runs the teardown
function, which sets `isDone`; only the first one counts. -/
def close (outcome : StreamOutcome) (st : StreamState) : StreamState :=
  { st with isDone := true, outcome := st.outcome.or (some outcome) }

/-- Send an event: move the mark, and complete after a terminal event. -/
def send (event : TaskEventSelect) (mark : ℤ) (st : StreamState) : StreamState :=
  let st := { st with highestHistorySeq := mark, sent := st.sent ++ [.event event] }
  if event.isTerminal then st.close .completed else st

/-- The handler of `'message'`. -/
def onMessage (event : TaskEventSelect) (st : StreamState) : StreamState :=
  if st.isDone then st
  else if !st.historyLoaded then
    if st.liveBuffer.length ≥ maxLiveBufferSize then st.close .failed
    else { st with liveBuffer := st.liveBuffer ++ [event] }
  else if event.seq > st.highestHistorySeq then st.send event event.seq
  else st

/-- The loop over `liveBuffer`, which ends at a terminal event; the buffer is cleared. -/
def drain : List TaskEventSelect → StreamState → StreamState
  | [], st => { st with liveBuffer := [] }
  | event :: rest, st =>
    if event.seq > st.highestHistorySeq then
      let st := st.send event event.seq
      if event.isTerminal then { st with liveBuffer := [] } else drain rest st
    else drain rest st

/-- The loop over the history, which ends at a terminal event, and the loop over `liveBuffer`. -/
def replay : List TaskEventSelect → StreamState → StreamState
  | [], st => drain st.liveBuffer { st with historyLoaded := true }
  | event :: rest, st =>
    let st := st.send event (max st.highestHistorySeq event.seq)
    if event.isTerminal then st else replay rest st

/-- The history query returns. -/
def onHistory (events : List TaskEventSelect) (st : StreamState) : StreamState :=
  if st.isDone then st else replay events st

/-- The history query fails. -/
def onHistoryError (st : StreamState) : StreamState :=
  if st.isDone then st else st.close .failed

/-- The heartbeat timer. -/
def onHeartbeat (st : StreamState) : StreamState :=
  if st.isDone then st else { st with sent := st.sent ++ [.ping] }

end StreamState

/-- What a connection can be told. -/
inductive StreamInput : Type
  | message (event : TaskEventSelect)
  | history (events : List TaskEventSelect)
  | historyError
  /-- The `subscribe` callback or the handler of `'error'` gets an error. -/
  | redisError
  | heartbeat
  | unsubscribe

namespace StreamInput

/-- The event of a message. -/
def message? : StreamInput → Option TaskEventSelect
  | message event => some event
  | _ => none

/-- The result of the history query. -/
def isHistory : StreamInput → Bool
  | history _ => true
  | _ => false

/-- The connection is cut: by an error, or by the client. -/
def isCut : StreamInput → Bool
  | historyError | redisError | unsubscribe => true
  | _ => false

end StreamInput

/-- The events of the messages among some inputs, in order. -/
def messagesOf (inputs : List StreamInput) : List TaskEventSelect :=
  inputs.filterMap StreamInput.message?

namespace StreamState

/-- The callback that an input runs. -/
def step (st : StreamState) : StreamInput → StreamState
  | .message event => st.onMessage event
  | .history events => st.onHistory events
  | .historyError => st.onHistoryError
  | .redisError => st.close .failed
  | .heartbeat => st.onHeartbeat
  | .unsubscribe => st.close .unsubscribed

/-- The state after some inputs. -/
def run (afterSeq : ℤ) (inputs : List StreamInput) : StreamState :=
  inputs.foldl step (init afterSeq)

theorem run_append (afterSeq : ℤ) (l l' : List StreamInput) :
    run afterSeq (l ++ l') = l'.foldl step (run afterSeq l) :=
  List.foldl_append

/-! ### Sending -/

variable {st : StreamState} {e : TaskEventSelect} {m : ℤ} {all es : List TaskEventSelect}
  {i : StreamInput} {inputs : List StreamInput}

@[simp] theorem events_close (o : StreamOutcome) : (st.close o).events = st.events := rfl

@[simp] theorem isDone_close (o : StreamOutcome) : (st.close o).isDone = true := rfl

@[simp] theorem events_send : (st.send e m).events = st.events ++ [e] := by
  unfold send events
  split <;> simp [close, Frame.event?]

@[simp] theorem outcome_send (ho : st.outcome = none) :
    (st.send e m).outcome = if e.isTerminal then some .completed else none := by
  unfold send
  split <;> simp_all [close]

@[simp] theorem isDone_send : (st.send e m).isDone = (st.isDone || e.isTerminal) := by
  unfold send
  split <;> simp_all [close]

@[simp] theorem highestHistorySeq_send : (st.send e m).highestHistorySeq = m := by
  unfold send
  split <;> rfl

@[simp] theorem liveBuffer_send : (st.send e m).liveBuffer = st.liveBuffer := by
  unfold send
  split <;> rfl

@[simp] theorem historyLoaded_send : (st.send e m).historyLoaded = st.historyLoaded := by
  unfold send
  split <;> rfl

/-- The stream has sent the events `all` up to the first terminal one, and is done if there is
one. -/
structure Emitted (all : List TaskEventSelect) (st : StreamState) : Prop where
  events : st.events = upToStop TaskEventSelect.isTerminal all
  done : st.isDone = all.any TaskEventSelect.isTerminal
  outcome : st.outcome = if st.isDone then some .completed else none

theorem Emitted.not_isTerminal (h : Emitted all st) (hd : st.isDone = false) :
    ∀ e ∈ all, e.isTerminal = false := by
  have := List.any_eq_false.mp (h.done.symm.trans hd)
  simpa using this

/-- A stream that is done sends no further events. -/
theorem Emitted.append_of_isDone (h : Emitted all st) (hd : st.isDone = true)
    (es : List TaskEventSelect) : Emitted (all ++ es) st := by
  have hany : all.any TaskEventSelect.isTerminal = true := h.done.symm.trans hd
  refine ⟨?_, ?_, h.outcome⟩
  · rw [upToStop_append_of_any hany, h.events]
  · rw [List.any_append, hany, hd, Bool.true_or]

theorem Emitted.send (h : Emitted all st) (hd : st.isDone = false) :
    Emitted (all ++ [e]) (st.send e m) := by
  refine ⟨?_, ?_, ?_⟩
  · rw [events_send, h.events, upToStop_append_of_not (h.not_isTerminal hd),
      upToStop_eq_self (h.not_isTerminal hd), upToStop]
    split <;> rfl
  · rw [isDone_send, h.done, List.any_append, List.any_cons, List.any_nil, Bool.or_false]
  · have hnone : st.outcome = none := by rw [h.outcome, hd]; rfl
    rw [outcome_send hnone, isDone_send, hd, Bool.false_or]

/-! ### The loops -/

/-- The stream passes on what is above its mark, once the history is there. -/
structure Streaming (all : List TaskEventSelect) (m : ℤ) (st : StreamState) : Prop
    extends Emitted all st where
  loaded : st.isDone = false → st.historyLoaded = true
  mark : st.isDone = false → st.highestHistorySeq = m

theorem drain_streaming (h : Emitted all st) (hd : st.isDone = false)
    (hl : st.historyLoaded = true) :
    Streaming (all ++ aboveMark TaskEventSelect.seq st.highestHistorySeq es)
      (mark TaskEventSelect.seq st.highestHistorySeq es) (drain es st) := by
  induction es generalizing st all with
  | nil =>
    rw [aboveMark_nil, List.append_nil]
    exact ⟨⟨h.events, h.done, h.outcome⟩, fun _ => hl, fun _ => rfl⟩
  | cons e rest ih =>
    rw [drain, aboveMark, mark_cons]
    by_cases hlt : st.highestHistorySeq < e.seq
    · rw [if_pos hlt, if_pos hlt, max_eq_right hlt.le]
      have hsend : Emitted (all ++ [e]) (st.send e e.seq) := h.send hd
      cases hterm : e.isTerminal with
      | true =>
        have hdone : (st.send e e.seq).isDone = true := by simp [hterm]
        have := hsend.append_of_isDone hdone (aboveMark TaskEventSelect.seq e.seq rest)
        rw [List.append_assoc, List.singleton_append] at this
        refine ⟨⟨this.events, this.done, this.outcome⟩, fun hd' => ?_, fun hd' => ?_⟩
        · exact absurd hd' (by simp [hterm])
        · exact absurd hd' (by simp [hterm])
      | false =>
        have := ih hsend (by simp [hd, hterm]) (by simpa using hl)
        rw [highestHistorySeq_send, List.append_assoc, List.singleton_append] at this
        simpa using this
    · rw [if_neg hlt, if_neg hlt, max_eq_left (Int.not_lt.mp hlt)]
      exact ih h hd hl

theorem replay_streaming (es : List TaskEventSelect) (h : Emitted all st) (hd : st.isDone = false) :
    Streaming (all ++ (es ++ aboveMark TaskEventSelect.seq
        (mark TaskEventSelect.seq st.highestHistorySeq es) st.liveBuffer))
      (mark TaskEventSelect.seq st.highestHistorySeq (es ++ st.liveBuffer)) (replay es st) := by
  induction es generalizing st all with
  | nil =>
    refine drain_streaming (?_ : Emitted all { st with historyLoaded := true }) hd rfl
    exact ⟨h.events, h.done, h.outcome⟩
  | cons e rest ih =>
    simp only [replay, mark_cons, List.cons_append]
    have hsend : Emitted (all ++ [e]) (st.send e (max st.highestHistorySeq e.seq)) := h.send hd
    cases hterm : e.isTerminal with
    | true =>
      have hdone : (st.send e (max st.highestHistorySeq e.seq)).isDone = true := by simp [hterm]
      have := hsend.append_of_isDone hdone (rest ++ aboveMark TaskEventSelect.seq
        (mark TaskEventSelect.seq (max st.highestHistorySeq e.seq) rest) st.liveBuffer)
      rw [List.append_assoc, List.singleton_append] at this
      refine ⟨by simpa using this, fun hd' => ?_, fun hd' => ?_⟩
      · exact absurd hd' (by simp [hterm])
      · exact absurd hd' (by simp [hterm])
    | false =>
      have := ih hsend (by simp [hd, hterm])
      rw [highestHistorySeq_send, liveBuffer_send, List.append_assoc, List.singleton_append]
        at this
      simpa using this

/-! ### Before the history -/

/-- The stream waits for the history and has buffered the messages `ms`. -/
structure Waiting (afterSeq : ℤ) (ms : List TaskEventSelect) (st : StreamState) : Prop where
  isDone : st.isDone = false
  outcome : st.outcome = none
  historyLoaded : st.historyLoaded = false
  mark : st.highestHistorySeq = afterSeq
  liveBuffer : st.liveBuffer = ms
  events : st.events = []

theorem step_of_isDone (hd : st.isDone = true) (i : StreamInput) :
    (st.step i).isDone = true ∧ (st.step i).events = st.events := by
  cases i <;> simp [step, onMessage, onHistory, onHistoryError, onHeartbeat, hd]

/-- The first outcome stays. -/
theorem outcome_step {o : StreamOutcome} (ho : st.outcome = some o) (hd : st.isDone = true)
    (i : StreamInput) : (st.step i).outcome = some o := by
  cases i <;> simp [step, onMessage, onHistory, onHistoryError, onHeartbeat, close, hd, ho]

theorem foldl_step_of_isDone {o : StreamOutcome} (hd : st.isDone = true)
    (ho : st.outcome = some o) :
    (inputs.foldl step st).events = st.events ∧ (inputs.foldl step st).outcome = some o := by
  induction inputs generalizing st with
  | nil => exact ⟨rfl, ho⟩
  | cons i inputs ih =>
    obtain ⟨hd', hev⟩ := step_of_isDone hd i
    obtain ⟨hev', ho'⟩ := ih hd' (outcome_step ho hd i)
    exact ⟨hev'.trans hev, ho'⟩

/-- Before the history arrives the stream buffers messages, and gives up when there are more
than it may buffer. -/
theorem run_before_history (afterSeq : ℤ)
    (h : ∀ i ∈ inputs, i.isHistory = false ∧ i.isCut = false) :
    ((messagesOf inputs).length ≤ maxLiveBufferSize ∧
        Waiting afterSeq (messagesOf inputs) (run afterSeq inputs)) ∨
      (maxLiveBufferSize < (messagesOf inputs).length ∧ (run afterSeq inputs).isDone = true ∧
        (run afterSeq inputs).events = [] ∧ (run afterSeq inputs).outcome = some .failed) := by
  induction inputs using List.reverseRecOn with
  | nil => exact .inl ⟨Nat.zero_le _, rfl, rfl, rfl, rfl, rfl, rfl⟩
  | append_singleton inputs i ih =>
    have hrun : run afterSeq (inputs ++ [i]) = (run afterSeq inputs).step i := run_append ..
    have hmsgs : messagesOf (inputs ++ [i]) = messagesOf inputs ++ messagesOf [i] :=
      List.filterMap_append
    rw [hrun, hmsgs]
    obtain ⟨hi, hcut⟩ := h i (List.mem_append_right _ (List.mem_singleton_self i))
    rcases ih fun j hj => h j (List.mem_append_left _ hj) with ⟨hlen, hw⟩ | ⟨hlen, hd, hev, ho⟩
    · cases i with
      | message e =>
        have hm : messagesOf [.message e] = [e] := rfl
        simp only [hm, step, onMessage, hw.isDone, hw.historyLoaded, hw.liveBuffer,
          List.length_append, List.length_singleton, Bool.false_eq_true, if_false,
          Bool.not_false, if_true]
        split
        · next hfull =>
          refine .inr ⟨Nat.lt_succ_of_le hfull, rfl, hw.events, ?_⟩
          simp [close, hw.outcome]
        · next hfull =>
          exact .inl ⟨Nat.not_le.mp hfull, rfl, hw.outcome, rfl, hw.mark, rfl, hw.events⟩
      | heartbeat =>
        have hm : messagesOf [.heartbeat] = [] := rfl
        have hev : (run afterSeq inputs).onHeartbeat.events = [] := by
          have := hw.events
          simp_all [onHeartbeat, StreamState.events, hw.isDone, Frame.event?]
        rw [hm, List.append_nil]
        refine .inl ⟨hlen, ?_, ?_, ?_, ?_, ?_, hev⟩ <;>
          simp [step, onHeartbeat, hw.isDone, hw.outcome, hw.historyLoaded, hw.mark, hw.liveBuffer]
      | history events => cases hi
      | historyError => cases hcut
      | redisError => cases hcut
      | unsubscribe => cases hcut
    · obtain ⟨hd', hev'⟩ := step_of_isDone hd i
      refine .inr ⟨?_, hd', hev'.trans hev, outcome_step ho hd i⟩
      rw [List.length_append]
      omega

/-! ### The whole stream -/

theorem step_streaming (h : Streaming all m st) (hi : i.isHistory = false)
    (hcut : i.isCut = false) :
    Streaming (all ++ aboveMark TaskEventSelect.seq m (messagesOf [i]))
      (mark TaskEventSelect.seq m (messagesOf [i])) (st.step i) := by
  cases hd : st.isDone with
  | true =>
    obtain ⟨hd', hev⟩ := step_of_isDone hd i
    have hdone := h.toEmitted.append_of_isDone hd
      (aboveMark TaskEventSelect.seq m (messagesOf [i]))
    have ho : (st.step i).outcome = some .completed :=
      outcome_step (by rw [h.outcome, hd]; rfl) hd i
    refine ⟨⟨hev.trans hdone.events, hd'.trans (hd.symm.trans hdone.done), ?_⟩, ?_, ?_⟩
    · rw [ho, hd', if_pos rfl]
    · intro hf
      rw [hd'] at hf
      cases hf
    · intro hf
      rw [hd'] at hf
      cases hf
  | false =>
    obtain rfl := h.mark hd
    cases i with
    | message e =>
      have hmsgs : messagesOf [.message e] = [e] := rfl
      simp only [hmsgs, step, onMessage, hd, h.loaded hd, Bool.false_eq_true, if_false,
        Bool.not_true, aboveMark, mark_cons, mark_nil]
      split
      · next hlt =>
        rw [max_eq_right hlt.le]
        exact ⟨h.toEmitted.send hd, fun _ => by simp [h.loaded hd], fun _ => by simp⟩
      · next hlt =>
        rw [max_eq_left (Int.not_lt.mp hlt), List.append_nil]
        exact h
    | heartbeat =>
      have hmsgs : messagesOf [.heartbeat] = [] := rfl
      have hev : st.onHeartbeat.events = st.events := by
        simp [onHeartbeat, StreamState.events, hd, Frame.event?]
      rw [hmsgs, aboveMark_nil, List.append_nil, mark_nil]
      refine ⟨⟨hev.trans h.events, ?_, ?_⟩, fun _ => ?_, fun _ => ?_⟩
      · rw [← h.done]
        simp [step, onHeartbeat, hd]
      · have ho : st.outcome = none := by rw [h.outcome, hd]; rfl
        simp [step, onHeartbeat, hd, ho]
      · simpa [step, onHeartbeat, hd] using h.loaded hd
      · simp [step, onHeartbeat, hd]
    | history events => cases hi
    | historyError => cases hcut
    | redisError => cases hcut
    | unsubscribe => cases hcut

theorem foldl_streaming (h : Streaming all m st)
    (hin : ∀ i ∈ inputs, i.isHistory = false ∧ i.isCut = false) :
    Streaming (all ++ aboveMark TaskEventSelect.seq m (messagesOf inputs))
      (mark TaskEventSelect.seq m (messagesOf inputs)) (inputs.foldl step st) := by
  induction inputs generalizing st all m with
  | nil => simpa [messagesOf] using h
  | cons i inputs ih =>
    obtain ⟨⟨hi, hcut⟩, hrest⟩ := List.forall_mem_cons.mp hin
    have := ih (step_streaming h hi hcut) hrest
    have hmsgs : messagesOf (i :: inputs) = messagesOf [i] ++ messagesOf inputs :=
      List.filterMap_append (l := [i])
    rwa [List.foldl_cons, hmsgs, aboveMark_append, mark_append, ← List.append_assoc]

/-- **What the stream sends.** When at most `maxLiveBufferSize` messages precede the history `H`,
the stream sends `H` and then the messages that are above all that it has sent, up to the first
terminal event. -/
theorem run_of_history {afterSeq : ℤ} {before after : List StreamInput} {H : List TaskEventSelect}
    (hbefore : ∀ i ∈ before, i.isHistory = false ∧ i.isCut = false)
    (hafter : ∀ i ∈ after, i.isHistory = false ∧ i.isCut = false)
    (hlen : (messagesOf before).length ≤ maxLiveBufferSize) :
    Emitted (H ++ aboveMark TaskEventSelect.seq (mark TaskEventSelect.seq afterSeq H)
      (messagesOf (before ++ after))) (run afterSeq (before ++ .history H :: after)) := by
  obtain ⟨-, hw⟩ | ⟨hgt, -⟩ : _ ∨ maxLiveBufferSize < (messagesOf before).length ∧ _ :=
    run_before_history afterSeq hbefore
  · have hstart : Emitted [] (run afterSeq before) :=
      ⟨hw.events, hw.isDone, by rw [hw.outcome, hw.isDone]; rfl⟩
    have hload := replay_streaming H hstart hw.isDone
    have hrun : run afterSeq (before ++ .history H :: after) =
        after.foldl step (replay H (run afterSeq before)) := by
      rw [run_append, List.foldl_cons, step, onHistory, hw.isDone, if_neg Bool.false_ne_true]
    rw [List.nil_append, hw.mark, hw.liveBuffer, mark_append] at hload
    have := (foldl_streaming hload hafter).toEmitted
    rw [List.append_assoc, ← aboveMark_append] at this
    rw [hrun, show messagesOf (before ++ after) = messagesOf before ++ messagesOf after from
      List.filterMap_append]
    exact this
  · exact absurd hlen (Nat.not_le.mpr hgt)

/-- When more messages than `maxLiveBufferSize` precede the history, nothing is ever sent. -/
theorem run_of_overflow (afterSeq : ℤ) {before : List StreamInput} (after : List StreamInput)
    (hbefore : ∀ i ∈ before, i.isHistory = false ∧ i.isCut = false)
    (hlen : maxLiveBufferSize < (messagesOf before).length) :
    (run afterSeq (before ++ after)).events = [] ∧
      (run afterSeq (before ++ after)).outcome = some .failed := by
  obtain ⟨hle, -⟩ | ⟨-, hd, hev, ho⟩ :
      _ ∨ _ ∧ (run afterSeq before).isDone = true ∧ _ := run_before_history afterSeq hbefore
  · exact absurd hlen (Nat.not_lt.mpr hle)
  · rw [run_append]
    obtain ⟨hev', ho'⟩ := foldl_step_of_isDone hd ho
    exact ⟨hev'.trans hev, ho'⟩

end StreamState

end LongRequestProxy
