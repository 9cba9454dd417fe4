import LongRequestProxy.Data.JsNumber
import LongRequestProxy.Delivery.LogOrder
import LongRequestProxy.Delivery.StreamOrder

/-!
# Resuming a stream

A client that reconnects sends the id of the last frame that it has received as `Last-Event-ID`.
Event frames carry their number. A heartbeat has no id of its own: Nest's SSE writer gives it one
from a counter of the connection and stores it in the message object, and the heartbeat is one
object for all connections of a process. So every heartbeat has the id `1`, and a client whose last
frame was a heartbeat resumes after the first event.

## Main definitions

* `parseLastEventId`: the header, as the controller reads it.
* `writeMessage`, `writeAll`: Nest's writer.
* `EventLog`, `Visit`, `Session`: a log, what one connection is told of it, and what a client knows.
* `Session.Exact`, `Session.Safe`: exact delivery, and when it is to be expected.

## Main results

* `parseLastEventId_toString`: the header inverts the ids of events.
* `Session.Linked.step`: what the last frame says about the next header.
* `session_exact_iff_safe`: the events received are the log, exactly when no heartbeat is resumed
  from.
-/

namespace LongRequestProxy

open HighWater

/-! ### The header -/

/-- `parseLastEventId`. -/
def parseLastEventId (raw : Option String) : ℤ :=
  match raw.filter (· ≠ "") with
  | none => 0
  | some raw =>
    match jsNumber raw with
    | .finite parsed => if 0 ≤ parsed then ⌊parsed⌋ else 0
    | _ => 0

@[simp] theorem parseLastEventId_none : parseLastEventId none = 0 := rfl

theorem repr_ne_empty (k : ℤ) : k.repr ≠ "" := by
  intro h
  have hlist : k.repr.toList = [] := by rw [h]; rfl
  cases k with
  | ofNat n =>
    have htext : n.repr.toList = Nat.toDigits 10 n := Nat.toList_repr
    exact Nat.toDigits_ne_nil (htext.symm.trans hlist)
  | negSucc n => simp [Int.repr] at hlist

/-- The header inverts the id of an event exactly when the number of the event is a double. -/
theorem parseLastEventId_toString (n : ℕ) :
    parseLastEventId (some (toString (n : ℤ))) = n ↔ toDouble n = .finite n := by
  have htext : toString (n : ℤ) = toString n := rfl
  have hfilter : (some (toString (n : ℤ))).filter (· ≠ "") = some (toString n) := by
    rw [htext]
    simp [Option.filter]
  have hlarge : toDouble n ≠ .finite n → 0 < n := by
    intro hne
    by_contra hn
    exact hne (toDouble_natCast (by omega))
  unfold parseLastEventId
  rw [hfilter]
  dsimp only
  rw [jsNumber_toString_eq]
  cases hd : toDouble (n : ℚ) with
  | nan =>
    have := hlarge (by simp [hd])
    simp
    omega
  | infinite negative =>
    have := hlarge (by simp [hd])
    simp
    omega
  | finite r =>
    obtain ⟨m, rfl⟩ := exists_int_of_toDouble hd
    dsimp only
    rw [JsNumber.finite.injEq]
    split
    · rw [Int.floor_intCast]
      exact_mod_cast Iff.rfl
    · next hneg =>
      have hm : m < 0 := by exact_mod_cast not_le.mp hneg
      constructor
      · intro h0
        have := hlarge (by rw [hd]; simp; exact_mod_cast (by omega : m ≠ n))
        omega
      · intro h
        have : m = n := by exact_mod_cast h
        omega

/-! ### Nest's writer -/

/-- `SseStream.writeMessage` of Nest: a message without an id gets the next number of its
connection; the message object keeps it. -/
def writeMessage (counter : ℕ) (message : MessageEvent) : MessageEvent × ℕ :=
  if truthy message.id then (message, counter)
  else ({ message with id := some (toString (counter + 1)) }, counter + 1)

/-- What a connection writes, and the heartbeat of its process afterwards. -/
def writeAll : ℕ → MessageEvent → List Frame → List MessageEvent × MessageEvent
  | _, heartbeat, [] => ([], heartbeat)
  | counter, heartbeat, .event e :: frames =>
    let written := writeMessage counter (toMessageEvent e)
    let rest := writeAll written.2 heartbeat frames
    (written.1 :: rest.1, rest.2)
  | counter, heartbeat, .ping :: frames =>
    let written := writeMessage counter heartbeat
    let rest := writeAll written.2 written.1 frames
    (written.1 :: rest.1, rest.2)

/-- The heartbeat once it was written. -/
def stampedHeartbeat : MessageEvent := { heartbeatEvent with id := some "1" }

/-- The id that a frame is written with. -/
def Frame.writtenId : Frame → String
  | event e => toString e.seq
  | ping => "1"

theorem writeMessage_event (counter : ℕ) (e : TaskEventSelect) :
    writeMessage counter (toMessageEvent e) = (toMessageEvent e, counter) := by
  have htruthy : truthy (toMessageEvent e).id = true := by
    simp [truthy, toMessageEvent, repr_ne_empty]
  rw [writeMessage, if_pos htruthy]

/-- The frames of a connection are written with these ids, and leave the heartbeat fresh or with
the id `1`. -/
theorem writeAll_ids (counter : ℕ) (heartbeat : MessageEvent) (frames : List Frame)
    (h : heartbeat = heartbeatEvent ∧ counter = 0 ∨ heartbeat = stampedHeartbeat) :
    (writeAll counter heartbeat frames).1.map (·.id) = frames.map (fun f => some f.writtenId) ∧
      ((writeAll counter heartbeat frames).2 = heartbeatEvent ∨
        (writeAll counter heartbeat frames).2 = stampedHeartbeat) := by
  induction frames generalizing counter heartbeat with
  | nil => exact ⟨rfl, h.imp_left And.left⟩
  | cons f frames ih =>
    cases f with
    | event e =>
      obtain ⟨hids, hheart⟩ := ih _ _ h
      simp only [writeAll, writeMessage_event, List.map_cons]
      exact ⟨congrArg _ hids, hheart⟩
    | ping =>
      have hwritten : (writeMessage counter heartbeat).1 = stampedHeartbeat := by
        obtain ⟨rfl, rfl⟩ | rfl := h
        · rfl
        · rfl
      obtain ⟨hids, hheart⟩ := ih (writeMessage counter heartbeat).2 stampedHeartbeat (.inr rfl)
      simp only [writeAll, hwritten, List.map_cons]
      exact ⟨congrArg _ hids, hheart⟩

/-! ### What a connection is told -/

/-- The log of a task. -/
structure EventLog (i : String) where
  events : List TaskEventSelect
  taskId_eq : ∀ e ∈ events, e.taskId = i
  numbered : events.map (·.seq) = upTo events.length

namespace EventLog

variable {i : String} (log : EventLog i)

theorem pairwise_events : log.events.Pairwise fun e e' => e.seq < e'.seq := by
  refine List.pairwise_map.mp ?_
  rw [log.numbered]
  exact pairwise_upTo _

/-- The log when it had at most `n` events. -/
def take (n : ℕ) : EventLog i where
  events := log.events.take n
  taskId_eq e he := log.taskId_eq e (List.mem_of_mem_take he)
  numbered := by
    rw [List.map_take, log.numbered, List.length_take, upTo, upTo, ← List.map_take,
      List.take_range]

theorem filter_lt_eq (k : ℤ) :
    log.events.filter (fun e => decide (k < e.seq)) = log.events.drop k.toNat :=
  filter_lt_eq_drop log.numbered k

/-- The events up to a number are those before a position. -/
theorem filter_le_eq (n : ℕ) :
    log.events.filter (fun e => decide (e.seq ≤ (n : ℤ))) = log.events.take n := by
  refine eq_of_mem_iff (log.pairwise_events.sublist List.filter_sublist)
    (log.pairwise_events.sublist (List.take_sublist _ _)) fun e => ?_
  rw [List.mem_filter, List.mem_iff_getElem?, List.mem_iff_getElem?, decide_eq_true_eq]
  constructor
  · rintro ⟨⟨j, hj⟩, hle⟩
    have := seq_of_getElem? log.numbered hj
    exact ⟨j, by rw [List.getElem?_take_of_lt (by omega), hj]⟩
  · rintro ⟨j, hj⟩
    rw [List.getElem?_take] at hj
    split at hj
    · next hlt =>
      have := seq_of_getElem? log.numbered hj
      exact ⟨⟨j, hj⟩, by omega⟩
    · cases hj

/-- What the history query finds in the log. -/
theorem findEventsSince_eq (k : ℤ) :
    Backend.findEventsSince { events := log.events } i k = log.events.drop k.toNat := by
  have hlog : Backend.log { events := log.events } i = log.events :=
    List.filter_eq_self.mpr fun e he => by simpa using log.taskId_eq e he
  have hseqs : Backend.seqs { events := log.events } i = upTo log.events.length := by
    rw [Backend.seqs, hlog, log.numbered]
  rw [Backend.findEventsSince_eq_drop hseqs, hlog]

end EventLog

variable {i : String} {log : EventLog i}

/-- One connection to the stream of a task: how many events the log had when the subscription took
effect and when the history query was evaluated, what the connection was told before and after
the history arrived, if it did, and how many frames the client received. No message is lost or
reordered. -/
structure Visit (log : EventLog i) where
  registered : ℕ
  snapshot : ℕ
  before : List StreamInput
  after : Option (List StreamInput)
  cut : ℕ
  registered_le : registered ≤ snapshot
  uncut : ∀ x ∈ before ++ after.getD [], x.isHistory = false ∧ x.isCut = false
  delivered : messagesOf (before ++ after.getD []) <+: log.events.drop registered

namespace Visit

variable (v : Visit log) {k : ℤ}

/-- The result of the history query. -/
def history (k : ℤ) : List TaskEventSelect :=
  Backend.findEventsSince { events := (log.take v.snapshot).events } i k

/-- What the connection is told. -/
def inputs (k : ℤ) : List StreamInput :=
  v.before ++ (v.after.map fun after => .history (v.history k) :: after).getD []

/-- The messages that the connection is told of. -/
def messages : List TaskEventSelect := messagesOf (v.before ++ v.after.getD [])

/-- The stream of the connection. -/
def stream (k : ℤ) : StreamState := StreamState.run k (v.inputs k)

/-- The connection got its history in time, was told of everything after it, and was not cut. -/
structure IsComplete (k : ℤ) : Prop where
  after : v.after ≠ none
  buffered : (messagesOf v.before).length ≤ maxLiveBufferSize
  messages : ∀ e ∈ log.events, (v.snapshot : ℤ) < e.seq → e ∈ v.messages
  cut : (v.stream k).sent.length ≤ v.cut

/-- What a connection sends, when its messages cover the log up to a position after its history. -/
theorem events_stream {n : ℕ} (hafter : v.after ≠ none)
    (hlen : (messagesOf v.before).length ≤ maxLiveBufferSize) (hn : v.snapshot ≤ n)
    (hsub : v.messages.Sublist (log.take n).events)
    (hall : ∀ e ∈ (log.take n).events, (v.snapshot : ℤ) < e.seq → e ∈ v.messages) :
    (v.stream k).events =
      upToStop TaskEventSelect.isTerminal ((log.take n).events.drop k.toNat) := by
  obtain ⟨after, ha⟩ := Option.ne_none_iff_exists'.mp hafter
  have huncut := v.uncut
  have hmsgs : v.messages = messagesOf (v.before ++ after) := by rw [messages, ha]; rfl
  rw [ha, Option.getD_some] at huncut
  have hhistory : v.history k = (log.take n).events.filter
      fun e => decide (k < e.seq ∧ e.seq ≤ (v.snapshot : ℤ)) := by
    have hsnap : (log.take v.snapshot).events = (log.take n).events.take v.snapshot := by
      simp only [EventLog.take, List.take_take, min_eq_left hn]
    rw [history, EventLog.findEventsSince_eq, ← EventLog.filter_lt_eq, hsnap,
      ← EventLog.filter_le_eq, List.filter_filter]
    simp only [Bool.decide_and]
  rw [stream, inputs, ha, Option.map_some, Option.getD_some, hhistory]
  rw [hmsgs] at hsub hall
  rw [StreamState.events_of_log (log.take n).pairwise_events
    (fun x hx => huncut x (List.mem_append_left _ hx))
    (fun x hx => huncut x (List.mem_append_right _ hx)) hlen hsub hall, EventLog.filter_lt_eq]

/-- A complete connection sends the rest of the log, up to the first terminal event. -/
theorem events_of_isComplete (h : v.IsComplete k) :
    (v.stream k).events = upToStop TaskEventSelect.isTerminal (log.events.drop k.toNat) := by
  have htake : (log.take (max v.snapshot log.events.length)).events = log.events :=
    List.take_of_length_le (le_max_right _ _)
  rw [v.events_stream h.after h.buffered (le_max_left _ log.events.length), htake]
  · rw [htake]
    exact v.delivered.sublist.trans (List.drop_sublist _ _)
  · rw [htake]
    exact h.messages

/-- A connection sends a part of the log from the position on where it resumes. -/
theorem events_stream_drop : (v.stream k).events <+: log.events.drop k.toNat := by
  cases ha : v.after with
  | none =>
    have huncut := v.uncut
    rw [ha, Option.getD_none, List.append_nil] at huncut
    have hnil : (v.stream k).events = [] := by
      rw [stream, inputs, ha, Option.map_none, Option.getD_none, List.append_nil]
      obtain ⟨-, hw⟩ | ⟨-, -, hev, -⟩ := StreamState.run_before_history k huncut
      · exact hw.events
      · exact hev
    rw [hnil]
    exact List.nil_prefix
  | some after =>
    rcases Nat.lt_or_ge maxLiveBufferSize (messagesOf v.before).length with hgt | hle
    · have hnil : (v.stream k).events = [] :=
        (StreamState.run_of_overflow _ _ (fun x hx => v.uncut x (List.mem_append_left _ hx)) hgt).1
      rw [hnil]
      exact List.nil_prefix
    · have hmsgs : v.messages = (log.events.drop v.registered).take v.messages.length :=
        List.prefix_iff_eq_take.mp v.delivered
      have hle' := v.registered_le
      rw [v.events_stream (n := max v.snapshot (v.registered + v.messages.length)) (by simp [ha])
        hle (le_max_left _ _)]
      · exact upToStop_prefix_self.trans ((List.take_prefix _ _).drop _)
      · have hsub := List.drop_sublist v.registered
          (log.events.take (v.registered + v.messages.length))
        rw [← List.take_drop, ← hmsgs] at hsub
        exact hsub.trans (List.take_prefix_take_left (le_max_right _ _)).sublist
      · intro e he hlt
        obtain ⟨j, hj⟩ := List.mem_iff_getElem?.mp he
        obtain ⟨hjn, hj⟩ : j < max v.snapshot (v.registered + v.messages.length) ∧
            log.events[j]? = some e := by
          simpa [EventLog.take, List.getElem?_take] using hj
        have hseq := seq_of_getElem? log.numbered hj
        rw [hmsgs]
        refine List.mem_iff_getElem?.mpr ⟨j - v.registered, ?_⟩
        rw [List.getElem?_take_of_lt (by omega), List.getElem?_drop,
          Nat.add_sub_cancel' (by omega), hj]

end Visit

/-! ### Sessions -/

/-- What a client knows between two connections, and the heartbeat of the process that it
reaches. -/
structure Session where
  heartbeat : MessageEvent := heartbeatEvent
  /-- The last frame received. -/
  last : Option Frame := none
  /-- The id of that frame. -/
  lastEventId : Option String := none
  /-- The events received. -/
  received : List TaskEventSelect := []

/-- What happens to a session. -/
inductive SessionStep (log : EventLog i) : Type
  | visit (v : Visit log)
  /-- Another connection of the process writes a heartbeat. -/
  | elsewhere
  /-- The process is started again, or the client is sent to another one. -/
  | restart

namespace Session

variable (s : Session)

/-- Where the stream of the next connection starts. -/
def afterSeq : ℤ := parseLastEventId s.lastEventId

/-- The frames of a connection that the client receives. -/
def frames (v : Visit log) : List Frame := (v.stream s.afterSeq).sent.take v.cut

/-- The session after a connection. -/
def visit (v : Visit log) : Session :=
  let written := writeAll 0 s.heartbeat (v.stream s.afterSeq).sent
  { heartbeat := written.2
    last := (s.frames v).getLast?.or s.last
    lastEventId := ((written.1.take v.cut).getLast?.bind (·.id)).or s.lastEventId
    received := s.received ++ (s.frames v).filterMap Frame.event? }

/-- The session after a step. -/
def step : SessionStep log → Session
  | .visit v => s.visit v
  | .elsewhere => { s with heartbeat := (writeMessage 0 s.heartbeat).1 }
  | .restart => { s with heartbeat := heartbeatEvent }

/-- `P` holds of every connection of a session, with the session before it. -/
def Along (P : Session → Visit log → Prop) : Session → List (SessionStep log) → Prop
  | _, [] => True
  | s, x :: steps => (∀ v, x = .visit v → P s v) ∧ (s.step x).Along P steps

/-- The connection resumes after the events received and goes on with the log; a complete one
delivers it up to the next terminal event. -/
structure Exact (s : Session) (v : Visit log) : Prop where
  afterSeq : s.afterSeq = s.received.length
  received : (s.visit v).received <+: log.events
  complete : v.IsComplete s.afterSeq → (s.visit v).received =
    s.received ++ upToStop TaskEventSelect.isTerminal (log.events.drop s.received.length)

/-- The last frame is no heartbeat, unless exactly one event was received, and its number is a
double if it is an event. -/
structure Safe (s : Session) : Prop where
  ping : s.last = some .ping → s.received.length = 1
  event : ∀ e, s.last = some (.event e) → toDouble e.seq = .finite e.seq

/-- What the last frame says about the next header and about the events received. -/
structure Linked (s : Session) : Prop where
  heartbeat : s.heartbeat = heartbeatEvent ∨ s.heartbeat = stampedHeartbeat
  lastEventId : s.lastEventId = s.last.map Frame.writtenId
  none : s.last = none → s.received = []
  event : ∀ e, s.last = some (.event e) → s.received.getLast? = some e

variable {s}

theorem linked_start : Linked {} := ⟨.inl rfl, rfl, fun _ => rfl, fun _ h => by cases h⟩

theorem Linked.visit (h : s.Linked) (v : Visit log) : (s.visit v).Linked := by
  obtain ⟨hids, hheart⟩ := writeAll_ids 0 _ (v.stream s.afterSeq).sent
    (h.heartbeat.imp_left fun hfresh => ⟨hfresh, rfl⟩)
  -- the id of the last frame received
  have hlast : ((writeAll 0 s.heartbeat (v.stream s.afterSeq).sent).1.take v.cut).getLast?.bind
      (·.id) = (s.frames v).getLast?.map Frame.writtenId := by
    have htake := congrArg (fun l => (l.take v.cut).getLast?) hids
    simp only [← List.map_take, List.getLast?_map] at htake
    rw [frames]
    revert htake
    generalize List.getLast? (List.take v.cut (writeAll 0 s.heartbeat _).1) = written
    generalize List.getLast? (List.take v.cut (v.stream s.afterSeq).sent) = frame
    intro htake
    cases written <;> cases frame <;> simp_all
  have hid : (s.visit v).lastEventId = ((s.frames v).getLast?.map Frame.writtenId).or
      s.lastEventId := congrArg (Option.or · s.lastEventId) hlast
  rcases List.eq_nil_or_concat (s.frames v) with hnil | ⟨init, f, hframes⟩
  · have hevents : (s.visit v).received = s.received := by simp [Session.visit, hnil]
    have hsame : (s.visit v).last = s.last := by simp [Session.visit, hnil]
    refine ⟨hheart, ?_, ?_, ?_⟩
    · rw [hid, hnil, hsame]
      exact h.lastEventId
    · rw [hsame, hevents]
      exact h.none
    · rw [hsame, hevents]
      exact h.event
  · have hf : (s.visit v).last = some f := by simp [Session.visit, hframes]
    refine ⟨hheart, ?_, ?_, fun e he => ?_⟩
    · rw [hid, hf, hframes]
      simp
    · rw [hf]
      exact fun hn => by cases hn
    · obtain rfl : f = .event e := Option.some.inj (hf.symm.trans he)
      simp [Session.visit, hframes, Frame.event?]

theorem Linked.step (h : s.Linked) (x : SessionStep log) : (s.step x).Linked := by
  cases x with
  | visit v => exact h.visit v
  | elsewhere =>
    refine ⟨?_, h.lastEventId, h.none, h.event⟩
    obtain hheart | hheart := h.heartbeat
    · simp only [Session.step, hheart]
      exact .inr rfl
    · simp only [Session.step, hheart]
      exact .inr rfl
  | restart => exact ⟨.inl rfl, h.lastEventId, h.none, h.event⟩

/-- The number of the last event received, in a session that has received a part of the log. -/
theorem seq_of_received (hr : s.received <+: log.events) {e : TaskEventSelect}
    (he : s.received.getLast? = some e) : e.seq = s.received.length := by
  obtain ⟨init, hinit⟩ := List.getLast?_eq_some_iff.mp he
  have hget : log.events[init.length]? = some e := by
    obtain ⟨rest, hrest⟩ := hr
    rw [← hrest, hinit]
    simp
  have := seq_of_getElem? log.numbered hget
  rw [hinit, List.length_append, List.length_singleton]
  omega

/-- **Where a session resumes.** It resumes after the events received exactly when its last frame
is safe to resume from. -/
theorem Linked.safe_iff (h : s.Linked) (hr : s.received <+: log.events) :
    s.Safe ↔ s.afterSeq = s.received.length := by
  have hheader : s.afterSeq = parseLastEventId (s.last.map Frame.writtenId) := by
    rw [Session.afterSeq, h.lastEventId]
  rw [hheader]
  cases hlast : s.last with
  | none =>
    rw [h.none hlast]
    exact ⟨fun _ => rfl, fun _ => ⟨by simp [hlast], by simp [hlast]⟩⟩
  | some f =>
    cases f with
    | ping =>
      have hone : parseLastEventId (some (toString ((1 : ℕ) : ℤ))) = (1 : ℕ) :=
        (parseLastEventId_toString 1).mpr (toDouble_natCast (by decide))
      have hping : parseLastEventId (Option.map Frame.writtenId (some .ping)) = 1 := hone
      rw [hping]
      constructor
      · intro hs
        have := hs.ping hlast
        omega
      · intro heq
        refine ⟨fun _ => by omega, fun e he => ?_⟩
        rw [hlast] at he
        cases he
    | event e =>
      have hseq := seq_of_received hr (h.event e hlast)
      have hparse : parseLastEventId (Option.map Frame.writtenId (some (.event e))) =
          s.received.length ↔ toDouble s.received.length = .finite s.received.length := by
        rw [← parseLastEventId_toString, ← hseq]
        rfl
      have hcast : ((e.seq : ℤ) : ℚ) = (s.received.length : ℚ) := by rw [hseq]; norm_num
      rw [hparse, ← hcast]
      constructor
      · exact fun hs => hs.event e hlast
      · refine fun hd => ⟨fun hp => ?_, fun e' he' => ?_⟩
        · rw [hlast] at hp
          cases hp
        · rw [hlast] at he'
          cases he'
          exact hd

/-- The events that a connection adds, when it resumes after the events received. -/
theorem exact_of_afterSeq (hr : s.received <+: log.events) (v : Visit log)
    (h : s.afterSeq = s.received.length) : s.Exact v := by
  have hdrop : log.events.drop s.afterSeq.toNat = log.events.drop s.received.length := by
    rw [h, Int.toNat_natCast]
  have htake : s.received = log.events.take s.received.length := List.prefix_iff_eq_take.mp hr
  refine ⟨h, ?_, fun hv => ?_⟩
  · have hframes : (s.frames v).filterMap Frame.event? <+: log.events.drop s.received.length := by
      rw [← hdrop]
      exact ((List.take_prefix _ _).filterMap _).trans v.events_stream_drop
    obtain ⟨rest, hrest⟩ := hframes
    refine ⟨rest, ?_⟩
    rw [Session.visit, List.append_assoc, hrest]
    exact List.prefix_append_drop hr |>.symm
  · have hall : s.frames v = (v.stream s.afterSeq).sent := List.take_of_length_le hv.cut
    rw [Session.visit, hall, ← hdrop, ← v.events_of_isComplete hv]
    rfl

/-- A property that decides another one along a session, as long as an invariant holds. -/
theorem along_iff {P Q : Session → Visit log → Prop} {I : Session → Prop}
    (hPQ : ∀ s v, I s → (P s v ↔ Q s v)) (hI : ∀ s v, I s → P s v → I (s.visit v))
    (helse : ∀ s, I s → I (s.step (.elsewhere : SessionStep log)))
    (hrestart : ∀ s, I s → I (s.step (.restart : SessionStep log)))
    (steps : List (SessionStep log)) (hs : I s) : s.Along P steps ↔ s.Along Q steps := by
  induction steps generalizing s with
  | nil => exact Iff.rfl
  | cons x steps ih =>
    cases x with
    | visit v =>
      simp only [Along, SessionStep.visit.injEq, forall_eq']
      rw [← hPQ s v hs]
      exact and_congr_right fun hv => ih (hI s v hs hv)
    | elsewhere =>
      simp only [Along, reduceCtorEq, false_implies, implies_true, true_and]
      exact ih (helse s hs)
    | restart =>
      simp only [Along, reduceCtorEq, false_implies, implies_true, true_and]
      exact ih (hrestart s hs)

end Session

/-- **Resumption.** A session receives the log in order, each event once, and resumes after the
events received, exactly when it never resumes from a heartbeat, unless it has received one event,
nor from an event whose number is no double. -/
theorem session_exact_iff_safe (i : String) (log : EventLog i) (steps : List (SessionStep log)) :
    Session.Along (fun s v => s.Exact v) {} steps ↔ Session.Along (fun s _ => s.Safe) {} steps := by
  refine Session.along_iff (I := fun s => s.Linked ∧ s.received <+: log.events) ?_ ?_ ?_ ?_ steps
    ⟨Session.linked_start, List.nil_prefix⟩
  · rintro s v ⟨hl, hr⟩
    rw [hl.safe_iff hr]
    exact ⟨fun h => h.afterSeq, Session.exact_of_afterSeq hr v⟩
  · rintro s v ⟨hl, -⟩ h
    exact ⟨hl.visit v, h.received⟩
  · rintro s ⟨hl, hr⟩
    exact ⟨hl.step (.elsewhere : SessionStep log), hr⟩
  · rintro s ⟨hl, hr⟩
    exact ⟨hl.step (.restart : SessionStep log), hr⟩

/-! ### A heartbeat that is resumed from -/

/-- A log of two events. -/
def twoEvents : EventLog "" where
  events := [loggedEvent 1 .progress, loggedEvent 2 .completed]
  taskId_eq := by decide
  numbered := by decide

/-- A connection that is cut after a heartbeat, before its history arrives. -/
def pingVisit : Visit twoEvents where
  registered := 0
  snapshot := 0
  before := [.heartbeat]
  after := none
  cut := 1
  registered_le := by decide
  uncut := by simp [StreamInput.isHistory, StreamInput.isCut]
  delivered := List.nil_prefix

/-- A connection that gets the whole log as its history. -/
def historyVisit : Visit twoEvents where
  registered := 2
  snapshot := 2
  before := []
  after := some []
  cut := 2
  registered_le := by decide
  uncut := by simp
  delivered := List.nil_prefix

/-- After a heartbeat the client resumes behind the first event, and never receives it. -/
theorem heartbeat_skips_event :
    ¬ Session.Along (fun s v => s.Exact v) {} [.visit pingVisit, .visit historyVisit] ∧
      ((Session.visit {} pingVisit).visit historyVisit).received = [loggedEvent 2 .completed] := by
  have hsession : Session.visit {} pingVisit =
      { heartbeat := stampedHeartbeat, last := some .ping, lastEventId := some "1" } := rfl
  have hone : parseLastEventId (some (toString ((1 : ℕ) : ℤ))) = (1 : ℕ) :=
    (parseLastEventId_toString 1).mpr (toDouble_natCast (by decide))
  have hafter : (Session.visit {} pingVisit).afterSeq = 1 := by
    rw [hsession]
    exact hone
  constructor
  · intro h
    have hexact : (Session.visit {} pingVisit).afterSeq = _ := (h.2.1 historyVisit rfl).afterSeq
    rw [hafter] at hexact
    cases hexact
  · have hframes : (Session.visit {} pingVisit).frames historyVisit =
        ((historyVisit.stream 1).sent.take historyVisit.cut) := by
      rw [Session.frames, hafter]
    rw [Session.visit, hframes]
    rfl

end LongRequestProxy
