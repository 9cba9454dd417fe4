import LongRequestProxy.Async.Discipline
import Mathlib.Data.List.Induction

/-!
# Traces of a pool

What a run has done, step by step: the trace of a run lists its moves, each with the configurations
before and after it. Statements about the order of steps, or about who made them, are about traces.

## Main definitions

* `Service.Transition`: one move that was made.
* `Service.Trace`: the traces of the runs from a configuration.
* `Service.Config.trace`: the trace of a list of moves, when they are possible.
* `Service.CallsBounded`: the calls that were made, and those that can still be made, are bounded.

## Main results

* `Service.Trace.split`: the run before a step, the step, and the run after it.
* `Service.Trace.invariant`, `Discipline.exists_observed_trace`: the rules for invariants of traces.
* `Service.Trace.countP_le`: a program makes no more calls of a kind than its body can.
-/

namespace LongRequestProxy.Async

namespace Service

/-- A move that was made, with the configurations before and after it. -/
structure Transition (S : Service) : Type where
  before : S.Config
  move : S.Move
  after : S.Config

variable {S : Service} {c₀ c c' : S.Config} {l l₁ l₂ : List S.Transition} {x : S.Transition}

/-- `l` lists what a run from `c₀` to `c` has done. -/
inductive Trace (c₀ : S.Config) : List S.Transition → S.Config → Prop
  | nil : Trace c₀ [] c₀
  | snoc {l : List S.Transition} {c c' : S.Config} {m : S.Move} (h : Trace c₀ l c)
      (hm : c.move m = some c') : Trace c₀ (l ++ [⟨c, m, c'⟩]) c'

namespace Trace

/-- A traced run is a run. -/
theorem reaches (h : Trace c₀ l c) : Reaches (fun _ _ => True) c₀ c := by
  induction h with
  | nil => exact .refl
  | snoc _ hm ih => exact ih.tail ⟨_, trivial, hm⟩

theorem single {m : S.Move} (hm : c.move m = some c') : Trace c [⟨c, m, c'⟩] c' := snoc nil hm

theorem append (h : Trace c₀ l₁ c) (h' : Trace c l₂ c') : Trace c₀ (l₁ ++ l₂) c' := by
  induction h' with
  | nil => rwa [List.append_nil]
  | snoc _ hm ih =>
    rw [← List.append_assoc]
    exact ih.snoc hm

/-- The trace of a run that ends with a step. -/
theorem snoc_inv (h : Trace c₀ (l ++ [x]) c) :
    Trace c₀ l x.before ∧ x.before.move x.move = some x.after ∧ x.after = c := by
  generalize hl : l ++ [x] = l' at h
  cases h with
  | nil => simp at hl
  | snoc h hm =>
    obtain ⟨rfl, rfl⟩ := List.append_inj' hl rfl |>.imp_right List.singleton_inj.mp
    exact ⟨h, hm, rfl⟩

theorem append_inv (h : Trace c₀ (l₁ ++ l₂) c) : ∃ d, Trace c₀ l₁ d ∧ Trace d l₂ c := by
  induction l₂ using List.reverseRecOn generalizing c with
  | nil =>
    rw [List.append_nil] at h
    exact ⟨c, h, nil⟩
  | append_singleton l₂ x ih =>
    rw [← List.append_assoc] at h
    obtain ⟨hinit, hm, rfl⟩ := h.snoc_inv
    obtain ⟨d, h₁, h₂⟩ := ih hinit
    exact ⟨d, h₁, h₂.snoc hm⟩

/-- The run before a step, the step, and the run after it. -/
theorem split (h : Trace c₀ (l₁ ++ x :: l₂) c) :
    Trace c₀ l₁ x.before ∧ x.before.move x.move = some x.after ∧ Trace x.after l₂ c := by
  rw [← List.singleton_append, ← List.append_assoc] at h
  obtain ⟨d, h₁, h₂⟩ := h.append_inv
  obtain ⟨hinit, hm, rfl⟩ := h₁.snoc_inv
  exact ⟨hinit, hm, h₂⟩

/-- A step of a run happens in a configuration that the run reaches. -/
theorem reaches_of_mem (h : Trace c₀ l c) (hx : x ∈ l) :
    Reaches (fun _ _ => True) c₀ x.before ∧ x.before.move x.move = some x.after ∧
      Reaches (fun _ _ => True) x.after c := by
  obtain ⟨l₁, l₂, rfl⟩ := List.append_of_mem hx
  obtain ⟨h₁, hm, h₂⟩ := h.split
  exact ⟨h₁.reaches, hm, h₂.reaches⟩

/-- Of two steps of a run one comes first. -/
theorem reaches_or_reaches (h : Trace c₀ l c) {y : S.Transition} (hx : x ∈ l) (hy : y ∈ l) :
    Reaches (fun _ _ => True) x.before y.before ∨ Reaches (fun _ _ => True) y.before x.before := by
  obtain ⟨l₁, l₂, rfl⟩ := List.append_of_mem hx
  obtain ⟨h₁, hm, h₂⟩ := h.split
  rcases List.mem_append.mp hy with hy | hy
  · obtain ⟨-, hmy, hafter⟩ := h₁.reaches_of_mem hy
    exact .inr (hafter.head ⟨_, trivial, hmy⟩)
  · rcases List.mem_cons.mp hy with rfl | hy
    · exact .inl .refl
    · exact .inl ((h₂.reaches_of_mem hy).1.head ⟨_, trivial, hm⟩)

/-- **Invariant rule.** What every step of a run preserves holds of the whole run. -/
theorem invariant {I : List S.Transition → S.Config → Prop} (h : Trace c₀ l c) (h0 : I [] c₀)
    (hstep : ∀ l c m c', Trace c₀ l c → c.move m = some c' → I l c → I (l ++ [⟨c, m, c'⟩]) c') :
    I l c := by
  induction h with
  | nil => exact h0
  | snoc h hm ih => exact hstep _ _ _ _ h hm ih

end Trace

/-- Every run has a trace. -/
theorem exists_trace (h : Reaches (fun _ _ => True) c₀ c) : ∃ l, Trace c₀ l c := by
  induction h with
  | refl => exact ⟨[], .nil⟩
  | tail _ hm ih =>
    obtain ⟨m, -, hm⟩ := hm
    obtain ⟨l, hl⟩ := ih
    exact ⟨_, hl.snoc hm⟩

namespace Config

/-- The trace of a list of moves, with the configuration that they lead to. -/
def trace (c : S.Config) : List S.Move → Option (List S.Transition × S.Config)
  | [] => some ([], c)
  | m :: ms => (c.move m).bind fun d => (d.trace ms).map fun y => (⟨c, m, d⟩ :: y.1, y.2)

theorem trace_of_trace_eq_some {ms : List S.Move} (h : c.trace ms = some (l, c')) :
    Trace c l c' := by
  induction ms generalizing c l with
  | nil =>
    cases h
    exact .nil
  | cons m ms ih =>
    obtain ⟨d, hd, hrest⟩ := Option.bind_eq_some_iff.mp h
    obtain ⟨⟨l', d'⟩, hl', heq⟩ := Option.map_eq_some_iff.mp hrest
    cases heq
    exact (Trace.single hd).append (ih hl')

/-- Moves whose trace passes a check. -/
theorem exists_trace_of_check (ms : List S.Move) (check : List S.Transition → S.Config → Bool)
    (h : (c.trace ms).any (fun y => check y.1 y.2) = true) :
    ∃ l d, Trace c l d ∧ check l d = true := by
  obtain ⟨⟨l, d⟩, hy, hcheck⟩ := (Option.any_eq_true _ _).mp h
  exact ⟨l, d, trace_of_trace_eq_some hy, hcheck⟩

end Config

/-! ### How often a program makes a call -/

namespace Proc

/-- The request that a program serves. -/
def request : S.Proc → S.Request
  | .running req _ => req
  | .crashed req => req

/-- The program makes at most `n` more calls that pass the test. -/
def AtMost (t : S.Call → Bool) (n : ℕ) : S.Proc → Prop
  | .running _ P => P.AtMost t n
  | .crashed _ => True

end Proc

namespace Config

/-- The requests that have started programs. -/
def requests (c : S.Config) : List S.Request := c.procs.map Proc.request

theorem request_mem_requests {c : S.Config} {p : ℕ} {req : S.Request}
    {P : Prog S.Call S.Reply S.Answer} (hp : c.procs[p]? = some (.running req P)) :
    req ∈ c.requests := List.mem_map.mpr ⟨_, List.mem_of_getElem? hp, rfl⟩

/-- A program goes on to serve its request. -/
theorem map_request_set {procs : List S.Proc} {p : ℕ} {pr : S.Proc} (hp : procs[p]? = some pr)
    (pr' : S.Proc) (h : pr'.request = pr.request) : (procs.set p pr').map Proc.request =
      procs.map Proc.request := by
  obtain ⟨hlt, rfl⟩ := List.getElem?_eq_some_iff.mp hp
  have hlt' : p < (procs.map Proc.request).length := by simpa using hlt
  have hget : (procs.map Proc.request)[p] = procs[p].request := by simp
  rw [List.map_set, h, ← hget, List.set_getElem_self]

/-- Programs are added at the end, and keep their requests. -/
theorem requests_prefix_of_move {c c' : S.Config} {m : S.Move} (hm : c.move m = some c') :
    c.requests <+: c'.requests := by
  obtain ⟨req, -, -, rfl⟩ | ⟨p, o, req, x, k, r, s', -, hp, -, rfl⟩ |
    ⟨p, req, x, k, -, hp, rfl⟩ | ⟨a, s', -, -, rfl⟩ := move_cases hm
  · simp [requests]
  · exact ⟨[], by simp [requests, map_request_set hp (.running req (k r)) rfl]⟩
  · exact ⟨[], by simp [requests, map_request_set hp (.crashed req) rfl]⟩
  · exact List.prefix_refl _

/-- Requests are never forgotten. -/
theorem requests_of_move {c c' : S.Config} {m : S.Move} (hm : c.move m = some c') :
    c.requests ⊆ c'.requests :=
  (requests_prefix_of_move hm).subset

theorem getElem?_requests {c : S.Config} {p : ℕ} {pr : S.Proc} (hp : c.procs[p]? = some pr) :
    c.requests[p]? = some pr.request := by
  rw [requests, List.getElem?_map, hp, Option.map_some]

/-- Along a run every program goes on to serve its request. -/
theorem exists_proc_of_reaches {allow : S.Config → S.Move → Prop} {c c' : S.Config} {p : ℕ}
    {pr : S.Proc} (h : Reaches allow c c') (hp : c.procs[p]? = some pr) :
    ∃ pr', c'.procs[p]? = some pr' ∧ pr'.request = pr.request := by
  have hprefixed : c.requests <+: c'.requests := by
    clear hp
    induction h with
    | refl => exact List.prefix_refl _
    | tail _ hstep ih =>
      obtain ⟨m, -, hm⟩ := hstep
      exact ih.trans (requests_prefix_of_move hm)
  obtain ⟨hlt, hget⟩ := List.getElem?_eq_some_iff.mp (getElem?_requests hp)
  have hreq := List.prefix_iff_getElem?.mp hprefixed p hlt
  rw [hget, requests, List.getElem?_map] at hreq
  exact Option.map_eq_some_iff.mp hreq

end Config

/-- The step is a call of program `p` that passes the test. -/
def Transition.calls (t : S.Call → Bool) (p : ℕ) (x : S.Transition) : Bool :=
  (x.before.callOf x.move).any fun y => decide (y.1 = p) && t y.2.2

theorem Transition.calls_eq_true {t : S.Call → Bool} {p : ℕ} :
    x.calls t p = true ↔ ∃ o y, x.before.callOf x.move = some (p, o, y) ∧ t y = true := by
  unfold calls
  rw [Option.any_eq_true]
  constructor
  · rintro ⟨⟨q, o, y⟩, hy, hcheck⟩
    obtain ⟨rfl, ht⟩ : q = p ∧ t y = true := by simpa using hcheck
    exact ⟨o, y, hy, ht⟩
  · rintro ⟨o, y, hy, ht⟩
    exact ⟨_, hy, by simp [ht]⟩

/-- What a program can still do after a call, together with the call. -/
theorem Proc.AtMost.of_call {t : S.Call → Bool} {n : ℕ} {req : S.Request} {y : S.Call}
    {k : S.Reply y → Prog S.Call S.Reply S.Answer} (h : Proc.AtMost t n (.running req (.call y k)))
    (r : S.Reply y) :
    ∃ i, Proc.AtMost t i (.running req (k r)) ∧ (if t y = true then 1 else 0) + i ≤ n := by
  simp only [Proc.AtMost, Prog.AtMost] at h
  split at h
  · next ht =>
    obtain ⟨i, rfl, hk⟩ := h
    exact ⟨i, hk r, Nat.le_of_eq (by rw [if_pos ht, Nat.add_comm])⟩
  · next ht => exact ⟨n, h r, Nat.le_of_eq (by rw [if_neg ht, Nat.zero_add])⟩

/-- The programs that serve the request have made, and can still make, at most `n` calls that pass
the test; programs that have not started have made none. -/
structure CallsBounded (t : S.Call → Bool) (req : S.Request) (n : ℕ) (l : List S.Transition)
    (c : S.Config) : Prop where
  unborn : ∀ q, c.procs.length ≤ q → l.countP (Transition.calls t q) = 0
  bounded : ∀ (q : ℕ) (pr : S.Proc), c.procs[q]? = some pr → pr.request = req →
    ∃ k, pr.AtMost t k ∧ l.countP (Transition.calls t q) + k ≤ n

namespace CallsBounded

variable {t : S.Call → Bool} {req : S.Request} {n : ℕ}

/-- A program starts. -/
theorem spawn (h : CallsBounded t req n l c) (hbody : (S.body req).AtMost t n)
    (req' : S.Request) : CallsBounded t req n l
      { c with procs := c.procs ++ [.running req' (S.body req')] } := by
  refine ⟨fun q hq => h.unborn q (by simp at hq; omega), fun q pr hq hpr => ?_⟩
  rcases Nat.lt_trichotomy q c.procs.length with hlt | rfl | hgt
  · rw [List.getElem?_append_left hlt] at hq
    exact h.bounded q pr hq hpr
  · rw [List.getElem?_append_right (Nat.le_refl _), Nat.sub_self] at hq
    cases hq
    obtain rfl : req' = req := hpr
    refine ⟨n, hbody, ?_⟩
    rw [h.unborn _ (Nat.le_refl _)]
    exact Nat.le_of_eq (Nat.zero_add _)
  · rw [List.getElem?_eq_none (by simpa using Nat.succ_le_of_lt hgt)] at hq
    cases hq

/-- A program goes on, with a call that is counted or without one. -/
theorem set (h : CallsBounded t req n l c) {p : ℕ} {pr pr' : S.Proc} {st : S.Store}
    {x : S.Transition} (hp : c.procs[p]? = some pr) (hsame : pr'.request = pr.request)
    (hother : ∀ q, p ≠ q → x.calls t q = false)
    (hself : ∀ j, pr.AtMost t j →
      ∃ i, pr'.AtMost t i ∧ (if x.calls t p = true then 1 else 0) + i ≤ j) :
    CallsBounded t req n (l ++ [x]) ⟨st, c.procs.set p pr'⟩ := by
  obtain ⟨hlt, -⟩ := List.getElem?_eq_some_iff.mp hp
  refine ⟨fun q hq => ?_, fun q pr₁ hq hpr => ?_⟩
  · rw [List.length_set] at hq
    rw [List.countP_append, List.countP_singleton, h.unborn q hq, hother q (by omega)]
    rfl
  · rw [List.countP_append, List.countP_singleton]
    by_cases hpq : p = q
    · subst hpq
      rw [List.getElem?_set_self hlt] at hq
      cases hq
      obtain ⟨j, hj, hle⟩ := h.bounded p pr hp (hsame.symm.trans hpr)
      obtain ⟨i, hi, hij⟩ := hself j hj
      exact ⟨i, hi, by omega⟩
    · rw [List.getElem?_set_ne hpq] at hq
      rw [hother q hpq]
      exact h.bounded q pr₁ hq hpr

/-- Every move keeps the bound. -/
theorem of_move (h : CallsBounded t req n l c) (hbody : (S.body req).AtMost t n) {c' : S.Config}
    {m : S.Move} (hm : c.move m = some c') : CallsBounded t req n (l ++ [⟨c, m, c'⟩]) c' := by
  obtain ⟨req', rfl, -, rfl⟩ | ⟨p, o, req', y, k, r, s', rfl, hp, -, rfl⟩ |
    ⟨p, req', y, k, rfl, hp, rfl⟩ | ⟨a, s', rfl, -, rfl⟩ := Config.move_cases hm
  · obtain ⟨hunborn, hbounded⟩ := h.spawn hbody req'
    exact ⟨by simpa [Transition.calls, Config.callOf] using hunborn,
      by simpa [Transition.calls, Config.callOf] using hbounded⟩
  · have hcall : c.callOf (.call p o) = some (p, o, y) :=
      Config.callOf_eq_some.mpr ⟨rfl, req', k, hp⟩
    refine h.set hp rfl (fun q hpq => ?_) fun j hj => ?_
    · simp [Transition.calls, hcall, hpq]
    · simpa [Transition.calls, hcall] using hj.of_call r
  · refine h.set hp rfl (fun _ _ => rfl) fun j _ => ⟨j, trivial, ?_⟩
    exact Nat.le_of_eq (Nat.zero_add j)
  · exact ⟨by simpa [Transition.calls, Config.callOf] using h.unborn,
      by simpa [Transition.calls, Config.callOf] using h.bounded⟩

end CallsBounded

/-- **Calls are bounded.** A program makes no more calls that pass a test than its body can make
along any path. -/
theorem Trace.countP_le {t : S.Call → Bool} {req : S.Request} {n : ℕ} {st : S.Store}
    (hbody : (S.body req).AtMost t n) (h : Trace ⟨st, []⟩ l c) {p : ℕ} {pr : S.Proc}
    (hp : c.procs[p]? = some pr) (hreq : pr.request = req) :
    l.countP (Transition.calls t p) ≤ n := by
  have hbounded : CallsBounded t req n l c :=
    h.invariant (I := CallsBounded t req n) ⟨fun _ _ => rfl, fun q pr hq => (by cases hq)⟩
      fun _ _ _ _ _ hm hl => hl.of_move hbody hm
  obtain ⟨k, -, hk⟩ := hbounded.bounded p pr hp hreq
  exact Nat.le_of_add_right_le hk

end Service

/-! ### Observed traces -/

namespace Discipline

open Service

variable {S : Service} {D : Discipline S}

/-- **Invariant rule for observed runs.** Along every trace the summaries of the programs can be
observed, and what every observed step preserves holds of the whole trace. -/
theorem exists_observed_trace {I : List S.Transition → D.Observed → Prop} {s : D.Observed}
    {l : List S.Transition} {c : S.Config} (h : Trace s.config l c) (h0 : I [] s)
    (hstep : ∀ l t m t', Trace s.config l t.config → Runs (fun _ _ => True) s t →
      t.move m = some t' → I l t → I (l ++ [⟨t.config, m, t'.config⟩]) t') :
    ∃ γ, Runs (fun _ _ => True) s ⟨c, γ⟩ ∧ I l ⟨c, γ⟩ := by
  induction h with
  | nil => exact ⟨s.locals, .refl, h0⟩
  | @snoc l c c' m h hm ih =>
    obtain ⟨γ, hruns, hI⟩ := ih
    obtain ⟨γ', hmove⟩ := Observed.exists_move (D := D) (s := ⟨c, γ⟩) hm
    exact ⟨γ', hruns.tail ⟨m, trivial, hmove⟩, hstep l ⟨c, γ⟩ m _ h hruns hmove hI⟩

end Discipline

end LongRequestProxy.Async
