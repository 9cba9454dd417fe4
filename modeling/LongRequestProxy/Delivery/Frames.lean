import LongRequestProxy.Data.JsonText
import LongRequestProxy.Delivery.Stream
import LongRequestProxy.Store.Calls

/-!
# The texts of events

An event goes to the client as a frame with the JSON text of its payload. On the live path its row
has been a text before: it was published with `JSON.stringify` and is read with `JSON.parse`. The
frame is the same on both paths.

The declared type of an event is a union with the own fields of each variant next to the event
type. But the row keeps the own fields in the column `payload`, and the frame is made of the columns
of the row: so the own fields are one level further down, and only an event without own fields is
sent as declared.

## Main definitions

* `TaskEventSelect.object`: a row as an object of JavaScript.
* `Json.toMessageEvent`, `replayFrame`, `liveFrame`: the frame of an event on the two paths.
* `IsPayload`, `IsDelivered`: what is declared.

## Main results

* `liveFrame_eq_replayFrame`: the paths agree.
* `message_textFrame`: the messages of the stream are these frames.
* `delivered_iff_cancelled`: the events that are sent as declared.
* `progress_is_nested`: one that is not.
-/

namespace LongRequestProxy

/-! ### Dates -/

/-- The year, the month and the day of the month of a day that is counted from 1970. -/
def civilDate (day : ℤ) : ℤ × ℤ × ℤ :=
  let shifted := day + 719468
  let era := shifted / 146097
  let dayOfEra := shifted % 146097
  let yearOfEra :=
    (dayOfEra - dayOfEra / 1460 + dayOfEra / 36524 - dayOfEra / 146096) / 365
  let dayOfYear := dayOfEra - (365 * yearOfEra + yearOfEra / 4 - yearOfEra / 100)
  let month := (5 * dayOfYear + 2) / 153
  let year := yearOfEra + era * 400
  (if month < 10 then year else year + 1, if month < 10 then month + 3 else month - 9,
    dayOfYear - (153 * month + 2) / 5 + 1)

/-- The digits of a number, with zeros in front. -/
def zeroPadded (width : ℕ) (n : ℤ) : List Char :=
  let digits := Nat.toDigits 10 n.natAbs
  List.replicate (width - digits.length) '0' ++ digits

/-- `Date.prototype.toISOString`. -/
def Timestamp.toISOString (t : Timestamp) : String :=
  let date := civilDate (t / 86400000)
  let ms := t % 86400000
  let year :=
    if 0 ≤ date.1 ∧ date.1 ≤ 9999 then zeroPadded 4 date.1
    else (if date.1 < 0 then '-' else '+') :: zeroPadded 6 date.1
  .ofList (year ++ '-' :: zeroPadded 2 date.2.1 ++ '-' :: zeroPadded 2 date.2.2 ++
    'T' :: zeroPadded 2 (ms / 3600000) ++ ':' :: zeroPadded 2 (ms / 60000 % 60) ++
    ':' :: zeroPadded 2 (ms / 1000 % 60) ++ '.' :: zeroPadded 3 (ms % 1000) ++ ['Z'])

/-! ### Frames -/

open Json

/-- A row as an object of JavaScript; the text that `JSON.stringify` makes of a date is the one that
`toISOString` returns. -/
def TaskEventSelect.object (e : TaskEventSelect) : Json :=
  .obj [("id", .str e.id), ("taskId", .str e.taskId), ("seq", .num e.seq 0),
    ("eventType", .str e.eventType.text), ("payload", e.payload),
    ("createdAt", .str e.createdAt.toISOString)]

/-- A `MessageEvent` with its text. -/
structure TextFrame where
  id : String
  type : String
  data : String

/-- `String` of a number. -/
def textOfNumber (mantissa exponent : ℤ) : String :=
  .ofList (numberText (lowest mantissa exponent).1 (lowest mantissa exponent).2)

/-- `toMessageEvent`, of an object of JavaScript; `none` when it has no number or no type. -/
def Json.toMessageEvent (event : Json) : Option TextFrame :=
  let eventPayload := event.without ["id", "taskId", "seq", "createdAt"]
  match event.member? "seq", eventPayload.member? "eventType" with
  | some (.num mantissa exponent), some (.str type) =>
    some ⟨textOfNumber mantissa exponent, type, eventPayload.stringify⟩
  | _, _ => none

/-- The frame of an event that is replayed: of the row that was found. -/
def replayFrame (e : TaskEventSelect) : Option TextFrame := e.object.toMessageEvent

/-- The frame of an event that is published: of the row that the message is read as. -/
def liveFrame (e : TaskEventSelect) : Option TextFrame :=
  (parse e.object.stringify).bind Json.toMessageEvent

/-- What is left of a row when the columns are taken off that the client does not get. -/
def TaskEventSelect.eventPayload (e : TaskEventSelect) : Json :=
  .obj [("eventType", .str e.eventType.text), ("payload", e.payload)]

variable {e : TaskEventSelect}

/-- The frames of the stream, with their texts. -/
theorem replayFrame_eq (e : TaskEventSelect) :
    replayFrame e = some ⟨textOfNumber e.seq 0, e.eventType.text, e.eventPayload.stringify⟩ :=
  rfl

theorem canonical_object (e : TaskEventSelect) :
    e.object.canonical = .obj [("id", .str e.id), ("taskId", .str e.taskId),
      ("seq", .ofDecimal e.seq 0), ("eventType", .str e.eventType.text),
      ("payload", e.payload.canonical), ("createdAt", .str e.createdAt.toISOString)] := by
  rw [TaskEventSelect.object, canonical_obj (by simp)]
  rfl

theorem canonical_eventPayload (e : TaskEventSelect) :
    e.eventPayload.canonical =
      .obj [("eventType", .str e.eventType.text), ("payload", e.payload.canonical)] := by
  rw [TaskEventSelect.eventPayload, canonical_obj (by simp)]
  rfl

theorem textOfNumber_lowest (m e : ℤ) :
    textOfNumber (lowest m e).1 (lowest m e).2 = textOfNumber m e := by
  rw [textOfNumber, lowest_eq (isLowest_lowest m e) rfl]
  rfl

/-- **Both paths yield the same frame.** -/
theorem liveFrame_eq_replayFrame (e : TaskEventSelect) : liveFrame e = replayFrame e := by
  have hframe : e.object.canonical.toMessageEvent =
      some ⟨textOfNumber (lowest e.seq 0).1 (lowest e.seq 0).2, e.eventType.text,
        e.eventPayload.canonical.stringify⟩ := by
    rw [canonical_object, canonical_eventPayload]
    rfl
  rw [liveFrame, parse_stringify, Option.bind_some, hframe, replayFrame_eq, textOfNumber_lowest,
    stringify_canonical]

/-- The id of a frame is the number of the event. -/
theorem textOfNumber_int {n : ℤ} (hn : n.natAbs < 10 ^ 21) : textOfNumber n 0 = toString n := by
  rw [textOfNumber, numberText_int hn, String.ofList_toList]

/-- A message of the stream with its text. -/
def MessageEvent.textFrame (message : MessageEvent) : Option TextFrame := do
  let id ← message.id
  let data ← message.data
  return ⟨id, message.type, data.stringify⟩

/-- The messages of the stream are these frames. -/
theorem message_textFrame (hseq : e.seq.natAbs ≤ 2 ^ 53) :
    (Frame.event e).message.textFrame = replayFrame e := by
  rw [replayFrame_eq, textOfNumber_int (by omega)]
  rfl

/-! ### What is declared -/

/-- The value is one of the type `TaskEventPayload`: the variant of the event type, with its own
fields at the same level. -/
structure IsPayload (type : TaskEventType) (own : List (String × Json)) (v : Json) : Prop where
  eventType : v.member? "eventType" = some (.str type.text)
  own : ∀ f ∈ own, v.member? f.1 = some f.2.canonical

/-- The event is delivered as declared, on both paths. -/
def IsDelivered (e : TaskEventSelect) (own : List (String × Json)) : Prop :=
  ∃ frame, replayFrame e = some frame ∧ liveFrame e = some frame ∧ frame.id = toString e.seq ∧
    frame.type = e.eventType.text ∧ ∃ v, parse frame.data = some v ∧ IsPayload e.eventType own v

/-- The fields of an input that belong to its variant. -/
def InsertEventInput.ownFields : InsertEventInput → List (String × Json)
  | progress _ n => [("progress", .num n 0)]
  | completed _ data => [("data", data)]
  | failed _ error => [("error", error.json)]
  | cancelled _ => []

theorem InsertEventInput.payloadFields_eq (input : InsertEventInput) :
    input.payloadFields = .obj input.ownFields := by cases input <;> rfl

/-- The rows that the program inserts, with the fields that they were given: those of
`insertEventInTx`, and those of the timeout sweeper. -/
inductive StoredEvent : TaskEventSelect → List (String × Json) → Prop
  | inserted (input : InsertEventInput) (eventId : String) (seq : ℤ) (createdAt : Timestamp) :
    StoredEvent (input.row eventId seq createdAt) input.ownFields
  | expired (σ : Backend) (p : ℕ) (eventId taskId : String) :
    StoredEvent (expiryEvent σ p eventId taskId) [("error", timeoutError.json)]

/-- The own fields of the variants. -/
theorem StoredEvent.key {own : List (String × Json)} (h : StoredEvent e own) :
    ∀ f ∈ own, f.1 ≠ "eventType" ∧ f.1 ≠ "payload" := by
  cases h with
  | inserted input eventId seq createdAt =>
    cases input <;> simp [InsertEventInput.ownFields]
  | expired σ p eventId taskId => simp

/-- Only a cancelled event has no own fields. -/
theorem StoredEvent.own_eq_nil_iff {own : List (String × Json)} (h : StoredEvent e own) :
    own = [] ↔ e.eventType = .cancelled := by
  cases h with
  | inserted input eventId seq createdAt =>
    cases input <;>
      simp [InsertEventInput.ownFields, InsertEventInput.row, InsertEventInput.eventType]
  | expired σ p eventId taskId => simp [expiryEvent]

/-- The data of a frame has the event type and the column, and no other field. -/
theorem isPayload_iff {own : List (String × Json)}
    (hkeys : ∀ f ∈ own, f.1 ≠ "eventType" ∧ f.1 ≠ "payload") :
    IsPayload e.eventType own e.eventPayload.canonical ↔ own = [] := by
  rw [canonical_eventPayload]
  constructor
  · rintro ⟨-, hown⟩
    refine List.eq_nil_iff_forall_not_mem.mpr fun f hf => ?_
    obtain ⟨htype, hpayload⟩ := hkeys f hf
    have hfield := hown f hf
    have hnone : (Json.obj [("eventType", .str e.eventType.text),
        ("payload", e.payload.canonical)]).member? f.1 = none :=
      List.lookup_eq_none_iff.mpr (by simp [htype, hpayload])
    rw [hnone] at hfield
    cases hfield
  · rintro rfl
    exact ⟨rfl, by simp⟩

theorem isDelivered_iff {own : List (String × Json)} (hseq : e.seq.natAbs ≤ 2 ^ 53)
    (hkeys : ∀ f ∈ own, f.1 ≠ "eventType" ∧ f.1 ≠ "payload") :
    IsDelivered e own ↔ own = [] := by
  have hid : textOfNumber e.seq 0 = toString e.seq := textOfNumber_int (by omega)
  have hparse := parse_stringify e.eventPayload
  unfold IsDelivered
  rw [liveFrame_eq_replayFrame, replayFrame_eq, hid]
  constructor
  · rintro ⟨frame, hframe, -, -, -, v, hv, hpayload⟩
    obtain rfl := Option.some.inj hframe
    rw [hparse] at hv
    obtain rfl := Option.some.inj hv
    exact (isPayload_iff hkeys).mp hpayload
  · intro hown
    exact ⟨_, rfl, rfl, rfl, rfl, _, hparse, (isPayload_iff hkeys).mpr hown⟩

/-- **The frames of events.** For every event that the program inserts, by `insertEventInTx` or in
the timeout sweeper, replay and the live path yield the same frame, whose id is the decimal number
of the event and whose type is its event type. The data decode as declared if and only if the event
is a cancelled one. -/
theorem delivered_iff_cancelled (e : TaskEventSelect) (own : List (String × Json))
    (h : StoredEvent e own) (hseq : e.seq.natAbs ≤ 2 ^ 53) :
    (∃ frame, replayFrame e = some frame ∧ liveFrame e = some frame ∧
      frame.id = toString e.seq ∧ frame.type = e.eventType.text) ∧
    (IsDelivered e own ↔ e.eventType = .cancelled) := by
  constructor
  · rw [liveFrame_eq_replayFrame, replayFrame_eq, textOfNumber_int (by omega)]
    exact ⟨_, rfl, rfl, rfl, rfl⟩
  · rw [isDelivered_iff hseq h.key, h.own_eq_nil_iff]

/-- The event of a cancellation is delivered as declared. -/
theorem cancellation_delivered : IsDelivered ((InsertEventInput.cancelled "t").row "e" 1 0) [] :=
  (delivered_iff_cancelled _ _ (.inserted (.cancelled "t") "e" 1 0) (by decide)).2.mpr rfl

/-- The first event of a task reports a progress of 50 percent: the client finds the number one
level further down than declared. -/
theorem progress_is_nested :
    ¬ ∀ (e : TaskEventSelect) (own : List (String × Json)), StoredEvent e own →
      e.seq.natAbs ≤ 2 ^ 53 → IsDelivered e own := by
  intro h
  have hstored : StoredEvent ((InsertEventInput.progress "t" 50).row "e" 1 0)
      [("progress", .num 50 0)] := .inserted (.progress "t" 50) "e" 1 0
  have hnil := (isDelivered_iff (by decide) hstored.key).mp (h _ _ hstored (by decide))
  cases hnil

end LongRequestProxy
