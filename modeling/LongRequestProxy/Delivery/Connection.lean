import LongRequestProxy.Async.Watcher
import LongRequestProxy.Delivery.LogOrder
import LongRequestProxy.Delivery.Stream

/-!
# Connections of the stream

A connection watches the system: it asks Postgres for the task and then for the history, it has
Redis register a subscription, and it is told of every message published on the channel of the
task from the registration on, in the order of publication. The SUBSCRIBE command and the history
query are sent together, to different servers, so that either may take effect first.

## Main definitions

* `Connection`, `connection`: what has happened to one connection, as a watcher of the system.
* `Backend.messagesSince`: the messages that a registered client is sent.
* `Attached`: what holds of a connection in every state reached.

## Main results

* `attached_of_watches`: the invariant holds in every state reached.
* `Attached.exists_inputs_eq`: the shape of what a connection was told.
-/

namespace LongRequestProxy

open Async Service

/-- What the history query has read, and how many messages had been published by then. -/
structure Snapshot where
  events : List TaskEventSelect
  published : ℕ

/-- What has happened to one connection. -/
structure Connection where
  /-- The row that `findById` has returned. -/
  task : Option TaskSelect := none
  /-- How many messages had been published when Redis registered the subscription. -/
  registeredAt : Option ℕ := none
  snapshot : Option Snapshot := none
  /-- What the callbacks of the stream were called with. -/
  inputs : List StreamInput := []

/-- What can happen to a connection. -/
inductive ConnectionEvent : Type
  /-- `findById` returns a row, and the observable is subscribed to. -/
  | opened
  /-- Redis registers the SUBSCRIBE. -/
  | registered
  /-- Postgres evaluates the history query. -/
  | queried
  /-- The next message of the channel is handled. -/
  | delivered
  /-- The result of the history query arrives. -/
  | historyArrived
  | historyFailed
  | redisFailed
  | heartbeat
  | clientLeft

/-- The messages published on the channel of a task after the first `n` publications. -/
def Backend.messagesSince (σ : Backend) (n : ℕ) (i : String) : List TaskEventSelect :=
  ((σ.published.drop n).filter fun x => x.1 == taskChannel i).map (·.2)

namespace Connection

variable (k : Connection)

/-- A callback of the stream is called. -/
def tell (x : StreamInput) : Connection := { k with inputs := k.inputs ++ [x] }

/-- The history query has returned or failed. -/
def isAnswered : Bool := k.inputs.any fun
  | .history _ | .historyError => true
  | _ => false

/-- What an event does to a connection to the task `i`. -/
def react (i : String) (afterSeq : ℤ) (σ : Backend) (k : Connection) :
    ConnectionEvent → Option Connection
  | .opened =>
    if k.task.isNone then (σ.findTask i).map fun t => { k with task := some t } else none
  | .registered =>
    if k.task.isSome && k.registeredAt.isNone then
      some { k with registeredAt := some σ.published.length }
    else none
  | .queried =>
    if k.task.isSome && k.snapshot.isNone then
      some { k with snapshot := some ⟨σ.findEventsSince i afterSeq, σ.published.length⟩ }
    else none
  | .delivered =>
    k.registeredAt.bind fun n =>
      (σ.messagesSince n i)[(messagesOf k.inputs).length]?.map fun e => k.tell (.message e)
  | .historyArrived =>
    if k.isAnswered then none else k.snapshot.map fun s => k.tell (.history s.events)
  | .historyFailed =>
    if k.task.isSome && !k.isAnswered then some (k.tell .historyError) else none
  | .redisFailed => if k.task.isSome then some (k.tell .redisError) else none
  | .heartbeat => if k.task.isSome then some (k.tell .heartbeat) else none
  | .clientLeft => if k.task.isSome then some (k.tell .unsubscribe) else none

end Connection

/-- A connection to the task `i`, for the events after `afterSeq`. -/
abbrev connection (http : HttpClient) (i : String) (afterSeq : ℤ) : Watcher (proxy http) where
  State := Connection
  Event := ConnectionEvent
  start := {}
  react := Connection.react i afterSeq

/-- The system before its first request, and a connection that has not been made. -/
def initialScene (http : HttpClient) (clock : Timestamp) (i : String) (afterSeq : ℤ) :
    (connection http i afterSeq).Scene :=
  ⟨initial http clock, {}⟩

variable {http : HttpClient} {clock : Timestamp} {i : String} {afterSeq : ℤ}
  {c c' : (proxy http).Config} {σ : Backend} {k k' : Connection}

/-! ### The publications along a run -/

/-- Publications are appended. -/
theorem published_of_move {m : (proxy http).Move} (h : c.move m = some c') :
    c.store.published <+: c'.store.published := by
  obtain ⟨time, hs⟩ | ⟨p, hs⟩ | ⟨p, o, req, x, k, v, σ, -, -, -, hx, hs⟩ := store_cases_of_move h
  · rw [hs]
  · rw [hs]
    exact List.prefix_refl _
  · have hcall : c.store.published <+: σ.published := by
      obtain hsame | ⟨channel, event, -, rfl⟩ := exec_published_cases hx
      · exact hsame ▸ List.prefix_refl _
      · exact List.prefix_append _ _
    obtain hs | hs := hs
    · rwa [hs]
    · rw [hs]
      exact hcall

theorem published_of_reaches (h : Reaches (fun _ _ => True) c c') :
    c.store.published <+: c'.store.published := by
  induction h with
  | refl => exact List.prefix_refl _
  | tail _ hstep ih =>
    obtain ⟨m, -, hm⟩ := hstep
    exact ih.trans (published_of_move hm)

theorem messagesSince_mono {σ σ' : Backend} (h : σ.published <+: σ'.published) (n : ℕ) :
    σ.messagesSince n i <+: σ'.messagesSince n i :=
  ((h.drop n).filter _).map _

/-! ### The invariant -/

namespace Connection

theorem isAnswered_tell {x : StreamInput} (h : k.isAnswered = true) :
    (k.tell x).isAnswered = true := by
  unfold isAnswered at h ⊢
  rw [tell, List.any_append, h, Bool.true_or]

theorem messagesOf_tell {x : StreamInput} :
    messagesOf (k.tell x).inputs = messagesOf k.inputs ++ x.message?.toList := by
  rw [tell, messagesOf, List.filterMap_append]
  cases x <;> rfl

theorem filter_isHistory_tell {x : StreamInput} (h : x.isHistory = false) :
    (k.tell x).inputs.filter StreamInput.isHistory = k.inputs.filter StreamInput.isHistory := by
  simp [tell, h]

end Connection

/-- What holds of a connection in every state reached. -/
structure Attached (i : String) (afterSeq : ℤ) (http : HttpClient) (clock : Timestamp)
    (s : (connection http i afterSeq).Scene) : Prop where
  issued : s.state.task ≠ none → i ∈ s.config.store.issued
  unregistered : s.state.registeredAt = none → messagesOf s.state.inputs = []
  registered : ∀ n, s.state.registeredAt = some n → n ≤ s.config.store.published.length ∧
    messagesOf s.state.inputs <+: s.config.store.messagesSince n i
  /-- The snapshot is one of an earlier state. -/
  snapshot : ∀ q, s.state.snapshot = some q → ∃ c,
    Reaches (fun _ _ => True) (initial http clock) c ∧
    Reaches (fun _ _ => True) c s.config ∧ i ∈ c.store.issued ∧
    q.events = c.store.findEventsSince i afterSeq ∧ q.published = c.store.published.length
  /-- The query returns once, what it has read. -/
  histories : s.state.inputs.filter StreamInput.isHistory = [] ∨
    Connection.isAnswered s.state = true ∧ ∃ q, s.state.snapshot = some q ∧
      s.state.inputs.filter StreamInput.isHistory = [.history q.events]

namespace Attached

theorem initial : Attached i afterSeq http clock (initialScene http clock i afterSeq) where
  issued h := absurd rfl h
  unregistered _ := rfl
  registered n h := by cases h
  snapshot q h := by cases h
  histories := .inl rfl

/-- The system makes a move. -/
theorem of_move {s : (connection http i afterSeq).Scene} {m : (proxy http).Move}
    (h : Attached i afterSeq http clock s)
    (hs : Reaches (fun _ _ => True) (LongRequestProxy.initial http clock) s.config)
    (hm : s.config.move m = some c) : Attached i afterSeq http clock ⟨c, s.state⟩ where
  issued ht := (log_of_move hs hm (h.issued ht)).1
  unregistered := h.unregistered
  registered n hn := by
    obtain ⟨hle, hmsgs⟩ := h.registered n hn
    have hpre := published_of_move hm
    exact ⟨hle.trans hpre.length_le, hmsgs.trans (messagesSince_mono hpre n)⟩
  snapshot q hq := by
    obtain ⟨c₀, hc₀, hrun, hrest⟩ := h.snapshot q hq
    exact ⟨c₀, hc₀, hrun.tail ⟨m, trivial, hm⟩, hrest⟩
  histories := h.histories

/-- A callback that is neither of a message nor of the history is called. -/
theorem tell {s : (connection http i afterSeq).Scene} (h : Attached i afterSeq http clock s)
    {x : StreamInput} (hx : x.message? = none) (hhist : x.isHistory = false) :
    Attached i afterSeq http clock ⟨s.config, Connection.tell s.state x⟩ where
  issued := h.issued
  unregistered hn := by
    simpa [Connection.messagesOf_tell, hx] using h.unregistered hn
  registered n hn := by
    simpa [Connection.messagesOf_tell, hx] using h.registered n hn
  snapshot := h.snapshot
  histories := by
    rw [Connection.filter_isHistory_tell hhist]
    refine h.histories.imp_right fun ⟨hans, hq⟩ => ⟨Connection.isAnswered_tell hans, hq⟩

/-- An event of the connection. -/
theorem of_react {s : (connection http i afterSeq).Scene} {x : ConnectionEvent}
    (h : Attached i afterSeq http clock s)
    (hs : Reaches (fun _ _ => True) (LongRequestProxy.initial http clock) s.config)
    (hx : Connection.react i afterSeq s.config.store s.state x = some k) :
    Attached i afterSeq http clock ⟨s.config, k⟩ := by
  obtain ⟨γ, -, -, hlogged⟩ := exists_logged hs
  cases x with
  | opened =>
    simp only [Connection.react] at hx
    split at hx
    · obtain ⟨t, ht, rfl⟩ := Option.map_eq_some_iff.mp hx
      refine { h with issued := fun _ => ?_ }
      have hid : t.id = i := by simpa using List.find?_some ht
      exact hid ▸ hlogged.tracked.rowIds.issued t (List.mem_of_find?_eq_some ht)
    · cases hx
  | registered =>
    simp only [Connection.react] at hx
    split at hx
    · next hopen =>
      cases hx
      have hnone := h.unregistered (by simpa using (Bool.and_eq_true_iff.mp hopen).2)
      refine { h with unregistered := fun hn => ?_, registered := fun n hn => ?_ }
      · cases hn
      · cases hn
        exact ⟨Nat.le_refl _, hnone ▸ List.nil_prefix⟩
    · cases hx
  | queried =>
    simp only [Connection.react] at hx
    split at hx
    · next hopen =>
      cases hx
      obtain ⟨hsome, hsnap⟩ := Bool.and_eq_true_iff.mp hopen
      have hissued := h.issued (Option.isSome_iff_ne_none.mp hsome)
      refine { h with snapshot := fun q hq => ?_, histories := .inl ?_ }
      · cases hq
        exact ⟨s.config, hs, .refl, hissued, rfl, rfl⟩
      · obtain hnil | ⟨-, q, hq, -⟩ := h.histories
        · exact hnil
        · rw [hq] at hsnap
          cases hsnap
    · cases hx
  | delivered =>
    obtain ⟨n, hn, hx⟩ := Option.bind_eq_some_iff.mp hx
    obtain ⟨e, he, rfl⟩ := Option.map_eq_some_iff.mp hx
    refine { h with unregistered := fun hnone => ?_, registered := fun m hm => ?_, histories := ?_ }
    · exact absurd (hn.symm.trans hnone) (by simp)
    · obtain rfl : n = m := Option.some.inj (hn.symm.trans hm)
      obtain ⟨hle, hpre⟩ := h.registered n hn
      refine ⟨hle, ?_⟩
      obtain ⟨rest, hrest⟩ := hpre
      rw [← hrest, List.getElem?_append_right (Nat.le_refl _), Nat.sub_self] at he
      obtain ⟨rest, rfl⟩ := List.head?_eq_some_iff.mp (List.head?_eq_getElem? .. ▸ he)
      exact ⟨rest, by rw [← hrest, Connection.messagesOf_tell]; simp [StreamInput.message?]⟩
    · rw [Connection.filter_isHistory_tell rfl]
      exact h.histories.imp_right fun ⟨hans, hq⟩ => ⟨Connection.isAnswered_tell hans, hq⟩
  | historyArrived =>
    simp only [Connection.react] at hx
    split at hx
    · cases hx
    · next hans =>
      obtain ⟨q, hq, rfl⟩ := Option.map_eq_some_iff.mp hx
      refine { h with unregistered := fun hn => ?_, registered := fun n hn => ?_, histories := ?_ }
      · simpa [Connection.messagesOf_tell, StreamInput.message?] using h.unregistered hn
      · simpa [Connection.messagesOf_tell, StreamInput.message?] using h.registered n hn
      · obtain hnil | ⟨hans', -⟩ := h.histories
        · refine .inr ⟨by simp [Connection.tell, Connection.isAnswered], q, hq, ?_⟩
          simp [Connection.tell, hnil, StreamInput.isHistory]
        · exact absurd hans' hans
  | historyFailed =>
    simp only [Connection.react] at hx
    split at hx
    · cases hx
      exact h.tell rfl rfl
    · cases hx
  | redisFailed | heartbeat | clientLeft =>
    simp only [Connection.react] at hx
    split at hx
    · cases hx
      exact h.tell rfl rfl
    · cases hx

end Attached

/-- **Connections are told what happens.** The invariant holds in every state reached. -/
theorem attached_of_watches {s : (connection http i afterSeq).Scene}
    (h : Watcher.Watches (initialScene http clock i afterSeq) s) :
    Attached i afterSeq http clock s :=
  h.invariant (fun _ _ _ hu hm ht => ht.of_move (Watcher.Watches.reaches hu) hm)
    (fun _ _ _ hu hx ht => ht.of_react (Watcher.Watches.reaches hu) hx) Attached.initial

/-- The messages that are handled before the history. -/
def Connection.early (k : Connection) : List TaskEventSelect :=
  messagesOf (k.inputs.takeWhile fun x => !x.isHistory)

/-- A connection whose history query has returned was told the result once. -/
theorem Attached.exists_inputs_eq {s : (connection http i afterSeq).Scene}
    (h : Attached i afterSeq http clock s) {q : Snapshot} (hq : s.state.snapshot = some q)
    {H : List TaskEventSelect} (hH : StreamInput.history H ∈ s.state.inputs) :
    H = q.events ∧ ∃ before after, s.state.inputs = before ++ .history q.events :: after ∧
      (∀ x ∈ before ++ after, x.isHistory = false) ∧
      Connection.early s.state = messagesOf before := by
  have hmem : StreamInput.history H ∈ s.state.inputs.filter StreamInput.isHistory :=
    List.mem_filter.mpr ⟨hH, rfl⟩
  obtain hnil | ⟨-, q', hq', hone⟩ := h.histories
  · rw [hnil] at hmem
    cases hmem
  · obtain rfl : q' = q := Option.some.inj (hq'.symm.trans hq)
    rw [hone] at hmem
    obtain ⟨before, after, heq, hbefore, -, hafter⟩ := List.filter_eq_cons_iff.mp hone
    have hnone : ∀ x ∈ before, x.isHistory = false := fun x hx => by simpa using hbefore x hx
    refine ⟨by simpa using hmem, before, after, heq, fun x hx => ?_, ?_⟩
    · rcases List.mem_append.mp hx with hx | hx
      · exact hnone x hx
      · simpa using List.filter_eq_nil_iff.mp hafter x hx
    · have htake : s.state.inputs.takeWhile (fun x => !x.isHistory) = before := by
        rw [heq, List.takeWhile_append_of_pos fun x hx => by simp [hnone x hx]]
        simp [StreamInput.isHistory]
      rw [Connection.early, htake]

end LongRequestProxy
