import LongRequestProxy.Async.Program
import Mathlib.Logic.Relation

/-!
# Pools of asynchronous programs over a shared store

A `Service` starts one program for each request it admits. The programs of all requests run
interleaved over one store: a move of the pool starts a program, lets one program await its
next call, kills one program between two of its calls, or changes the store from outside (a
clock, an expiry). The reply to a call is fixed by the store and an *oracle* chosen with the
move, so that the nondeterminism of the outside world is data of the run and a run can be
replayed by evaluation.

## Main definitions

* `Service`: the calls, replies, store and programs of a service.
* `Service.Config`, `Service.Move`, `Service.Config.move`: the pool, and what one move does to it.
* `Service.Config.nextCall`, `Service.Config.callOf`: the call that a program awaits next, and the
  call that a move makes.
* `Service.Reaches allow`: the runs all of whose moves satisfy `allow`.
* `Service.Config.replay`: running a list of moves, with a check of each.

## Main results

* `Service.Config.move_cases`: everything a move can do.
* `Service.Config.Returned.of_move`: a program that has returned does nothing more.
* `Service.Config.running_of_move`, `Service.Reaches.program_invariant`: how programs go on.
* `Service.Reaches.store_invariant`: a property of the store that every call, kill and outside
  change preserves holds in every reachable store.
* `Service.reaches_of_replay`: replayed runs are runs.
-/

namespace LongRequestProxy.Async

/-- A service over a shared store: its calls and their effects, and the program that serves
each request. A call is refused (`none`) when it has to wait, or when the oracle is not a
possible outcome. -/
structure Service where
  /-- The calls a program may await. -/
  Call : Type
  /-- The replies to a call. -/
  Reply : Call → Type
  /-- The outcomes that the outside world chooses for a call. -/
  Oracle : Type
  /-- The state shared by all programs. -/
  Store : Type
  /-- The requests that start programs. -/
  Request : Type
  /-- What a program returns. -/
  Answer : Type
  /-- The changes of the store that no program makes. -/
  Ambient : Type
  /-- The effect of a call awaited by the program with the given number. -/
  perform : ℕ → Oracle → Store → (c : Call) → Option (Reply c × Store)
  /-- What the death of a program does to the store. -/
  abort : ℕ → Store → Store
  /-- A change of the store from outside. -/
  ambient : Ambient → Store → Option Store
  /-- Whether a request can arrive. -/
  admits : Store → Request → Bool
  /-- The program that serves a request. -/
  body : Request → Prog Call Reply Answer

namespace Service

/-- A started program: what it still has to do, or that it was killed. -/
inductive Proc (S : Service) : Type
  | running (req : S.Request) (P : Prog S.Call S.Reply S.Answer)
  | crashed (req : S.Request)

/-- The store and the programs started so far; a program's number is its position. -/
structure Config (S : Service) : Type where
  store : S.Store
  procs : List S.Proc

/-- The moves of a pool. -/
inductive Move (S : Service) : Type
  | spawn (req : S.Request)
  | call (p : ℕ) (o : S.Oracle)
  | crash (p : ℕ)
  | ambient (a : S.Ambient)

variable {S : Service}

namespace Config

/-- The call that a move makes, with its program and its oracle. -/
def callOf (c : S.Config) : S.Move → Option (ℕ × S.Oracle × S.Call)
  | .call p o =>
    match c.procs[p]? with
    | some (.running _ (.call x _)) => some (p, o, x)
    | _ => none
  | _ => none

/-- The call that a program awaits next. -/
def nextCall (c : S.Config) (p : ℕ) : Option S.Call :=
  match c.procs[p]? with
  | some (.running _ (.call x _)) => some x
  | _ => none

/-- Program `p` was started and has neither returned nor been killed. -/
def InFlight (c : S.Config) (p : ℕ) : Prop :=
  ∃ req x k, c.procs[p]? = some (.running req (.call x k))

/-- Program `p` served `req` and returned `a`. -/
def Returned (c : S.Config) (p : ℕ) (req : S.Request) (a : S.Answer) : Prop :=
  c.procs[p]? = some (.running req (.ret a))

theorem nextCall_eq_some {c : S.Config} {p : ℕ} {x : S.Call} :
    c.nextCall p = some x ↔ ∃ req k, c.procs[p]? = some (.running req (.call x k)) := by
  constructor
  · intro h
    unfold nextCall at h
    split at h
    · next req y k hp =>
      cases h
      exact ⟨req, k, hp⟩
    · cases h
  · rintro ⟨req, k, hp⟩
    simp [nextCall, hp]

/-- The test whether a program is in flight. -/
def isInFlight (c : S.Config) (p : ℕ) : Bool :=
  match c.procs[p]? with
  | some (.running _ (.call _ _)) => true
  | _ => false

theorem isInFlight_of_inFlight {c : S.Config} {p : ℕ} (h : c.InFlight p) :
    c.isInFlight p = true := by
  obtain ⟨req, x, k, hp⟩ := h
  simp [isInFlight, hp]

/-- No operation is in flight. -/
def Quiescent (c : S.Config) : Prop :=
  ∀ p, ¬ c.InFlight p

/-- The test of quiescence. -/
def isQuiescent (c : S.Config) : Bool :=
  c.procs.all fun
    | .running _ (.call _ _) => false
    | _ => true

theorem isQuiescent_iff {c : S.Config} : c.isQuiescent = true ↔ c.Quiescent := by
  unfold isQuiescent Quiescent InFlight
  rw [List.all_eq_true]
  constructor
  · rintro h p ⟨req, x, k, hp⟩
    cases h _ (List.mem_of_getElem? hp)
  · intro h pr hpr
    obtain ⟨p, hp⟩ := List.getElem?_of_mem hpr
    split
    · next req x k => exact absurd ⟨req, x, k, hp⟩ (h p)
    · rfl

/-- What a move does; `none` when it is not possible. -/
def move (c : S.Config) : S.Move → Option S.Config
  | .spawn req =>
    if S.admits c.store req then
      some { c with procs := c.procs ++ [.running req (S.body req)] }
    else none
  | .call p o =>
    match c.procs[p]? with
    | some (.running req (.call x k)) =>
      (S.perform p o c.store x).map fun y =>
        { store := y.2, procs := c.procs.set p (.running req (k y.1)) }
    | _ => none
  | .crash p =>
    match c.procs[p]? with
    | some (.running req (.call _ _)) =>
      some { store := S.abort p c.store, procs := c.procs.set p (.crashed req) }
    | _ => none
  | .ambient a => (S.ambient a c.store).map fun s => { c with store := s }

theorem callOf_eq_some {c : S.Config} {m : S.Move} {p : ℕ} {o : S.Oracle} {x : S.Call} :
    c.callOf m = some (p, o, x) ↔
      m = .call p o ∧ ∃ req k, c.procs[p]? = some (.running req (.call x k)) := by
  constructor
  · intro h
    cases m with
    | call q o' =>
      simp only [callOf] at h
      split at h
      · next req y k hq =>
        cases h
        exact ⟨rfl, req, k, hq⟩
      · cases h
    | _ => cases h
  · rintro ⟨rfl, req, k, hp⟩
    simp [callOf, hp]

/-- Everything that one move can do. -/
theorem move_cases {c c' : S.Config} {m : S.Move} (h : c.move m = some c') :
    (∃ req, m = .spawn req ∧ S.admits c.store req = true ∧
      c' = { c with procs := c.procs ++ [.running req (S.body req)] }) ∨
    (∃ p o req x k r s', m = .call p o ∧ c.procs[p]? = some (.running req (.call x k)) ∧
      S.perform p o c.store x = some (r, s') ∧
      c' = { store := s', procs := c.procs.set p (.running req (k r)) }) ∨
    (∃ p req x k, m = .crash p ∧ c.procs[p]? = some (.running req (.call x k)) ∧
      c' = { store := S.abort p c.store, procs := c.procs.set p (.crashed req) }) ∨
    (∃ a s', m = .ambient a ∧ S.ambient a c.store = some s' ∧ c' = { c with store := s' }) := by
  cases m with
  | spawn req =>
    simp only [move] at h
    split at h
    · next had => exact .inl ⟨req, rfl, had, (Option.some.inj h).symm⟩
    · cases h
  | call p o =>
    simp only [move] at h
    split at h
    · next req x k hp =>
      obtain ⟨⟨r, s'⟩, hs, rfl⟩ := Option.map_eq_some_iff.mp h
      exact .inr (.inl ⟨p, o, req, x, k, r, s', rfl, hp, hs, rfl⟩)
    · cases h
  | crash p =>
    simp only [move] at h
    split at h
    · next req x k hp =>
      exact .inr (.inr (.inl ⟨p, req, x, k, rfl, hp, (Option.some.inj h).symm⟩))
    · cases h
  | ambient a =>
    obtain ⟨s', hs, rfl⟩ := Option.map_eq_some_iff.mp h
    exact .inr (.inr (.inr ⟨a, s', rfl, hs, rfl⟩))

/-- A program changes by its own steps only. -/
theorem proc_of_move_of_ne {c c' : S.Config} {m : S.Move} {p : ℕ} {pr : S.Proc}
    (h : c.procs[p]? = some pr) (hm : c.move m = some c') (hcall : ∀ o, m ≠ .call p o)
    (hcrash : m ≠ .crash p) : c'.procs[p]? = some pr := by
  obtain ⟨req', -, -, rfl⟩ | ⟨q, o, req', x, k, r, s', rfl, -, -, rfl⟩ |
    ⟨q, req', x, k, rfl, -, rfl⟩ | ⟨a', s', -, -, rfl⟩ := move_cases hm
  · rw [List.getElem?_append_left (List.getElem?_eq_some_iff.mp h).1]
    exact h
  · rw [List.getElem?_set_ne fun heq => hcall o (by rw [heq])]
    exact h
  · rw [List.getElem?_set_ne fun heq => hcrash (by rw [heq])]
    exact h
  · exact h

/-- A program that has returned does nothing more. -/
theorem Returned.of_move {c c' : S.Config} {m : S.Move} {p : ℕ} {req : S.Request} {a : S.Answer}
    (h : c.Returned p req a) (hm : c.move m = some c') : c'.Returned p req a := by
  refine proc_of_move_of_ne h hm ?_ ?_
  · rintro o rfl
    simp [move, show c.procs[p]? = _ from h] at hm
  · rintro rfl
    simp [move, show c.procs[p]? = _ from h] at hm

/-- A program that has returned is not in flight. -/
theorem Returned.not_inFlight {c : S.Config} {p : ℕ} {req : S.Request} {a : S.Answer}
    (h : c.Returned p req a) : ¬ c.InFlight p := by
  rintro ⟨req', x, k, hp⟩
  rw [show c.procs[p]? = _ from h] at hp
  cases hp

/-- Where a running program comes from: it did nothing, it was resumed with a reply, or it was
started. -/
theorem running_of_move {c c' : S.Config} {m : S.Move} {p : ℕ} {req : S.Request}
    {P : Prog S.Call S.Reply S.Answer} (hm : c.move m = some c')
    (hp : c'.procs[p]? = some (.running req P)) :
    (c.procs[p]? = some (.running req P) ∧ m ≠ .crash p ∧ ∀ o, m ≠ .call p o) ∨
    (∃ o x k r, m = .call p o ∧ c.procs[p]? = some (.running req (.call x k)) ∧
      S.perform p o c.store x = some (r, c'.store) ∧ P = k r) ∨
    (m = .spawn req ∧ p = c.procs.length ∧ P = S.body req) := by
  obtain ⟨req', rfl, -, rfl⟩ | ⟨q, o, req', x, k, r, s', rfl, hq, hs, rfl⟩ |
    ⟨q, req', x, k, rfl, hq, rfl⟩ | ⟨a, s', rfl, -, rfl⟩ := move_cases hm
  · rcases Nat.lt_trichotomy p c.procs.length with hlt | rfl | hgt
    · rw [List.getElem?_append_left hlt] at hp
      exact .inl ⟨hp, by simp, by simp⟩
    · rw [List.getElem?_append_right (Nat.le_refl _), Nat.sub_self] at hp
      cases hp
      exact .inr (.inr ⟨rfl, rfl, rfl⟩)
    · rw [List.getElem?_eq_none (by simpa using Nat.succ_le_of_lt hgt)] at hp
      cases hp
  · obtain ⟨hlt, -⟩ := List.getElem?_eq_some_iff.mp hq
    by_cases hpq : q = p
    · subst hpq
      rw [List.getElem?_set_self hlt] at hp
      cases hp
      exact .inr (.inl ⟨o, x, k, r, rfl, hq, hs, rfl⟩)
    · rw [List.getElem?_set_ne hpq] at hp
      exact .inl ⟨hp, by simp, by simp [hpq]⟩
  · obtain ⟨hlt, -⟩ := List.getElem?_eq_some_iff.mp hq
    by_cases hpq : q = p
    · subst hpq
      rw [List.getElem?_set_self hlt] at hp
      cases hp
    · rw [List.getElem?_set_ne hpq] at hp
      exact .inl ⟨hp, by simp [hpq], by simp⟩
  · exact .inl ⟨hp, by simp, by simp⟩

theorem procs_length_le_of_move {c c' : S.Config} {m : S.Move} (hm : c.move m = some c') :
    c.procs.length ≤ c'.procs.length := by
  obtain ⟨_, -, -, rfl⟩ | ⟨_, _, _, _, _, _, _, -, -, -, rfl⟩ | ⟨_, _, _, _, -, -, rfl⟩ |
    ⟨_, _, -, -, rfl⟩ := move_cases hm <;> simp

/-- A call that a program awaits, when it is made. -/
theorem perform_of_callOf {c c' : S.Config} {m : S.Move} {p : ℕ} {o : S.Oracle} {x : S.Call}
    (hx : c.callOf m = some (p, o, x)) (h : c.move m = some c') :
    ∃ r, S.perform p o c.store x = some (r, c'.store) := by
  obtain ⟨rfl, req, k, hp⟩ := callOf_eq_some.mp hx
  simp only [move, hp] at h
  obtain ⟨⟨r, s'⟩, hs, rfl⟩ := Option.map_eq_some_iff.mp h
  exact ⟨r, hs⟩

/-- Running a list of moves, each of which must pass the check `ok` where it is made. -/
def replay (ok : S.Config → S.Move → Bool) (c : S.Config) : List S.Move → Option S.Config
  | [] => some c
  | m :: ms => if ok c m then (c.move m).bind fun d => d.replay ok ms else none

end Config

/-! ### Runs -/

/-- The pool moves from `c` to `c'` by a move that `allow` permits in `c`. -/
def Moves (allow : S.Config → S.Move → Prop) (c c' : S.Config) : Prop :=
  ∃ m, allow c m ∧ c.move m = some c'

/-- A run from `c` to `c'` all of whose moves are permitted by `allow`. -/
def Reaches (allow : S.Config → S.Move → Prop) : S.Config → S.Config → Prop :=
  Relation.ReflTransGen (Moves allow)

variable {allow : S.Config → S.Move → Prop} {c c' : S.Config}

theorem Reaches.mono {allow' : S.Config → S.Move → Prop} (h : Reaches allow c c')
    (hmono : ∀ d m, allow d m → allow' d m) : Reaches allow' c c' :=
  Relation.ReflTransGen.mono (r := Moves allow) (p := Moves allow')
    (fun _ _ ⟨m, hm, hs⟩ => ⟨m, hmono _ m hm, hs⟩) _ _ h

/-- Moves need to be permitted in the configurations reached only. -/
theorem Reaches.mono_of_reaches {allow' : S.Config → S.Move → Prop} (h : Reaches allow c c')
    (hmono : ∀ d m, Reaches allow c d → allow d m → allow' d m) : Reaches allow' c c' := by
  induction h with
  | refl => exact .refl
  | tail hreach hmove ih =>
    obtain ⟨m, ha, hm⟩ := hmove
    exact ih.tail ⟨m, hmono _ m hreach ha, hm⟩

/-- **Invariant rule.** A property of configurations that every permitted move preserves holds
along every run. -/
theorem Reaches.invariant {I : S.Config → Prop}
    (hstep : ∀ d m d', I d → allow d m → d.move m = some d' → I d') (h : Reaches allow c c')
    (hc : I c) : I c' := by
  induction h with
  | refl => exact hc
  | tail _ hm ih =>
    obtain ⟨m, ha, hs⟩ := hm
    exact hstep _ m _ ih ha hs

/-- **Invariant rule for programs.** What holds of the body of every request, and of a program
after every reply to its next call, holds of every running program. -/
theorem Reaches.program_invariant {I : S.Request → Prog S.Call S.Reply S.Answer → Prop}
    {st : S.Store} (hbody : ∀ req, I req (S.body req))
    (hstep : ∀ req x k r, I req (.call x k) → I req (k r)) (h : Reaches allow ⟨st, []⟩ c) {p : ℕ}
    {req : S.Request} {P : Prog S.Call S.Reply S.Answer}
    (hp : c.procs[p]? = some (.running req P)) : I req P := by
  refine Reaches.invariant (I := fun c => ∀ p req P, c.procs[p]? = some (.running req P) → I req P)
    (fun c m c' hc _ hm p req P hp => ?_) h (fun p req P hp => by cases hp) p req P hp
  obtain ⟨hold, -⟩ | ⟨o, x, k, r, -, hold, -, rfl⟩ | ⟨-, -, rfl⟩ := Config.running_of_move hm hp
  · exact hc p req P hold
  · exact hstep req x k r (hc p req _ hold)
  · exact hbody req

/-- **Invariant rule for stores.** A property of the store that every permitted call, every
kill and every permitted outside change preserves holds along every run, whatever the programs
are. -/
theorem Reaches.store_invariant {I : S.Store → Prop}
    (hcall : ∀ (d : S.Config) m p o x r s', allow d m → d.callOf m = some (p, o, x) →
      I d.store → S.perform p o d.store x = some (r, s') → I s')
    (habort : ∀ p s, I s → I (S.abort p s))
    (hambient : ∀ (d : S.Config) a s', allow d (.ambient a) → I d.store →
      S.ambient a d.store = some s' → I s')
    (h : Reaches allow c c') (hc : I c.store) : I c'.store := by
  refine Reaches.invariant (I := fun d => I d.store) (fun d m d' hd ha hs => ?_) h hc
  obtain ⟨req, rfl, -, rfl⟩ | ⟨p, o, req, x, k, r, s', rfl, hx, hp, rfl⟩ |
    ⟨p, req, x, k, rfl, -, rfl⟩ | ⟨a, s', rfl, hsa, rfl⟩ := Config.move_cases hs
  · exact hd
  · exact hcall d _ p o x r s' ha (Config.callOf_eq_some.mpr ⟨rfl, req, k, hx⟩) hd hp
  · exact habort p d.store hd
  · exact hambient d a s' ha hd hsa

/-- Replaying permitted moves gives a run. -/
theorem reaches_of_replay {ok : S.Config → S.Move → Bool} {ms : List S.Move}
    (hok : ∀ d m, ok d m = true → allow d m) (h : c.replay ok ms = some c') :
    Reaches allow c c' := by
  induction ms generalizing c with
  | nil =>
    cases h
    exact .refl
  | cons m ms ih =>
    simp only [Config.replay] at h
    split at h
    · next hm =>
      obtain ⟨d, hd, hrest⟩ := Option.bind_eq_some_iff.mp h
      exact .head ⟨m, hok c m hm, hd⟩ (ih hrest)
    · cases h

/-- A replay whose end passes a check reaches a configuration that passes it. -/
theorem exists_reaches_of_replay (ok : S.Config → S.Move → Bool) (ms : List S.Move)
    (check : S.Config → Bool) (hok : ∀ d m, ok d m = true → allow d m)
    (h : (c.replay ok ms).any check = true) : ∃ d, Reaches allow c d ∧ check d = true := by
  obtain ⟨d, hd, hcheck⟩ := (Option.any_eq_true _ _).mp h
  exact ⟨d, reaches_of_replay hok hd, hcheck⟩

end Service

end LongRequestProxy.Async
