import LongRequestProxy.Async.Pool
import Mathlib.Logic.Function.Basic

/-!
# Disciplines of asynchronous programs

What a program has done so far is a function of the calls that it has made and of the replies
that it got. A `Discipline` summarises it in a *local* value, which each reply moves on, and says
which calls a program may await in which situation. That the programs of a service obey a
discipline is a fact about the programs alone, with no store in sight. An invariant of a pool of
obeying programs is then proved call by call, whichever program makes the call.

## Main definitions

* `Discipline`, `Discipline.follows`: disciplines and the programs that follow them.
* `Discipline.Observed`: a configuration with the local values of its programs.
* `Discipline.Sound`: every program of the service follows the discipline.
* `Discipline.Runs`: the runs of observed configurations.

## Main results

* `Discipline.follows_bind`, `Discipline.followsExcept_bind`, …: the rules for compound programs.
* `Discipline.exists_runs`: every run of the pool can be observed.
* `Discipline.Observed.move_cases`, `Discipline.Observed.locals_cases`: everything a move can do.
* `Discipline.Sound.obeys`: in every configuration reached the programs follow the discipline.
* `Discipline.Observed.running_cases`, `Discipline.Sound.summary_invariant`: where the running
  programs come from, and what therefore holds of all of them.
-/

namespace LongRequestProxy.Async

open Function Service

/-- What the programs of a service may do next, as a function of what they have done. -/
structure Discipline (S : Service) where
  /-- A summary of what a program has done. -/
  Local : Type
  /-- The summary of a program that has done nothing. -/
  start : Local
  /-- The summary after a call and its reply. -/
  next : Local → (x : S.Call) → S.Reply x → Local
  /-- The program of the request may await the call. -/
  awaits : S.Request → Local → S.Call → Prop
  /-- The program of the request may return the answer. -/
  returns : S.Request → S.Answer → Local → Prop
  /-- A reply that the call can get. -/
  possible : (x : S.Call) → S.Reply x → Prop

namespace Discipline

variable {S : Service} (D : Discipline S) {req : S.Request} {α β ε : Type}

/-- Started with the summary `w`, the program obeys the discipline, and `Q` holds of its value and
of the summary when it returns. -/
def follows (req : S.Request) (Q : α → D.Local → Prop) :
    Prog S.Call S.Reply α → D.Local → Prop
  | .ret a, w => Q a w
  | .call x k, w => D.awaits req w x ∧ ∀ r, D.possible x r → follows req Q (k r) (D.next w x r)

variable {D} {Q Q' : α → D.Local → Prop} {w : D.Local}

theorem follows_mono {P : Prog S.Call S.Reply α} (h : D.follows req Q P w)
    (hQ : ∀ a w, Q a w → Q' a w) : D.follows req Q' P w := by
  induction P generalizing w with
  | ret a => exact hQ a w h
  | call x k ih => exact ⟨h.1, fun r hr => ih r (h.2 r hr)⟩

theorem follows_bind {P : Prog S.Call S.Reply α} {f : α → Prog S.Call S.Reply β}
    {Q : β → D.Local → Prop} (h : D.follows req (fun a => D.follows req Q (f a)) P w) :
    D.follows req Q (P >>= f) w := by
  induction P generalizing w with
  | ret a => exact h
  | call x k ih => exact ⟨h.1, fun r hr => ih r (h.2 r hr)⟩

/-- A throwing program obeys the discipline; `Q` holds of its value, or `E` of its error. -/
def followsExcept (D : Discipline S) (req : S.Request) (Q : α → D.Local → Prop)
    (E : ε → D.Local → Prop) (P : ExceptT ε (Prog S.Call S.Reply) α) : D.Local → Prop :=
  D.follows req (fun r w => match r with
    | .ok a => Q a w
    | .error e => E e w) P.run

variable {E E' : ε → D.Local → Prop}

@[simp] theorem followsExcept_pure (a : α) : D.followsExcept req Q E (pure a) w ↔ Q a w := Iff.rfl

@[simp] theorem followsExcept_throw (e : ε) :
    D.followsExcept req Q E (throw e : ExceptT ε (Prog S.Call S.Reply) α) w ↔ E e w := Iff.rfl

theorem followsExcept_mono {P : ExceptT ε (Prog S.Call S.Reply) α}
    (h : D.followsExcept req Q E P w) (hQ : ∀ a w, Q a w → Q' a w) (hE : ∀ e w, E e w → E' e w) :
    D.followsExcept req Q' E' P w := by
  refine follows_mono h fun r w hr => ?_
  cases r with
  | ok a => exact hQ a w hr
  | error e => exact hE e w hr

theorem followsExcept_bind {P : ExceptT ε (Prog S.Call S.Reply) α}
    {f : α → ExceptT ε (Prog S.Call S.Reply) β} {Q : β → D.Local → Prop}
    (h : D.followsExcept req (fun a => D.followsExcept req Q E (f a)) E P w) :
    D.followsExcept req Q E (P >>= f) w := by
  unfold followsExcept
  rw [ExceptT.run_bind]
  refine follows_bind (follows_mono h fun r w hr => ?_)
  cases r with
  | ok a => exact hr
  | error e => exact hr

theorem followsExcept_tryCatch {P : ExceptT ε (Prog S.Call S.Reply) α}
    {f : ε → ExceptT ε (Prog S.Call S.Reply) α}
    (h : D.followsExcept req Q (fun e => D.followsExcept req Q E (f e)) P w) :
    D.followsExcept req Q E (tryCatch P f) w := by
  unfold followsExcept
  rw [ExceptT.run_tryCatch]
  refine follows_bind (follows_mono h fun r w hr => ?_)
  cases r with
  | ok a => exact hr
  | error e => exact hr

/-- A program each of whose calls is allowed by, and keeps, a property of the summary. -/
theorem follows_of_uses {p : S.Call → Prop} {I : D.Local → Prop} {P : Prog S.Call S.Reply α}
    (hP : P.Uses p) (hcall : ∀ x w, p x → I w → D.awaits req w x ∧
      ∀ r, D.possible x r → I (D.next w x r))
    (hw : I w) (hQ : ∀ a w, I w → Q a w) : D.follows req Q P w := by
  induction P generalizing w with
  | ret a => exact hQ a w hw
  | call x k ih =>
    obtain ⟨hawaits, hnext⟩ := hcall x w hP.1 hw
    exact ⟨hawaits, fun r hr => ih r (hP.2 r) (hnext r hr)⟩

/-- A program all of whose calls are allowed in every situation. -/
theorem follows_of_forall {P : Prog S.Call S.Reply α} (hcall : ∀ x w, D.awaits req w x)
    (hQ : ∀ a w, Q a w) : D.follows req Q P w := by
  induction P generalizing w with
  | ret a => exact hQ a w
  | call x k ih => exact ⟨hcall x w, fun r _ => ih r⟩

/-! ### Observed runs -/

variable (D)

/-- A configuration with the summary of each of its programs. -/
structure Observed : Type where
  config : S.Config
  locals : ℕ → D.Local

variable {D}

namespace Observed

variable {s s' : D.Observed} {m : S.Move}

/-- The summaries after a move. -/
def after (s : D.Observed) : S.Move → ℕ → D.Local
  | .spawn _ => s.locals
  | .call p o =>
    match s.config.procs[p]? with
    | some (.running _ (.call x _)) =>
      match S.perform p o s.config.store x with
      | some (r, _) => update s.locals p (D.next (s.locals p) x r)
      | none => s.locals
    | _ => s.locals
  | .crash p => update s.locals p D.start
  | .ambient _ => s.locals

/-- What a move does; `none` when it is not possible. -/
def move (s : D.Observed) (m : S.Move) : Option D.Observed :=
  (s.config.move m).map fun c => ⟨c, s.after m⟩

theorem config_move (h : s.move m = some s') : s.config.move m = some s'.config := by
  obtain ⟨c, hc, rfl⟩ := Option.map_eq_some_iff.mp h
  exact hc

/-- Every move can be observed. -/
theorem exists_move {c' : S.Config} (h : s.config.move m = some c') :
    ∃ γ, s.move m = some ⟨c', γ⟩ := ⟨s.after m, by rw [move, h]; rfl⟩

/-- Everything that one move can do. -/
theorem move_cases (h : s.move m = some s') :
    (∃ req, m = .spawn req ∧ S.admits s.config.store req = true ∧
      s' = ⟨⟨s.config.store, s.config.procs ++ [.running req (S.body req)]⟩, s.locals⟩) ∨
    (∃ p o req x k r σ, m = .call p o ∧ s.config.procs[p]? = some (.running req (.call x k)) ∧
      S.perform p o s.config.store x = some (r, σ) ∧
      s' = ⟨⟨σ, s.config.procs.set p (.running req (k r))⟩,
        update s.locals p (D.next (s.locals p) x r)⟩) ∨
    (∃ p req x k, m = .crash p ∧ s.config.procs[p]? = some (.running req (.call x k)) ∧
      s' = ⟨⟨S.abort p s.config.store, s.config.procs.set p (.crashed req)⟩,
        update s.locals p D.start⟩) ∨
    (∃ a σ, m = .ambient a ∧ S.ambient a s.config.store = some σ ∧
      s' = ⟨⟨σ, s.config.procs⟩, s.locals⟩) := by
  obtain ⟨c, hc, rfl⟩ := Option.map_eq_some_iff.mp h
  obtain ⟨req, rfl, had, rfl⟩ | ⟨p, o, req, x, k, r, σ, rfl, hp, hs, rfl⟩ |
    ⟨p, req, x, k, rfl, hp, rfl⟩ | ⟨a, σ, rfl, hs, rfl⟩ := Config.move_cases hc
  · exact .inl ⟨req, rfl, had, rfl⟩
  · exact .inr (.inl ⟨p, o, req, x, k, r, σ, rfl, hp, hs, by simp [after, hp, hs]⟩)
  · exact .inr (.inr (.inl ⟨p, req, x, k, rfl, hp, rfl⟩))
  · exact .inr (.inr (.inr ⟨a, σ, rfl, hs, rfl⟩))

/-- Everything that one move can do to the summary of a program. -/
theorem locals_cases (h : s.move m = some s') (q : ℕ) :
    (s'.locals q = s.locals q ∧ ∀ o x, s.config.callOf m ≠ some (q, o, x)) ∨
    (∃ o req x k r, m = .call q o ∧ s.config.procs[q]? = some (.running req (.call x k)) ∧
      S.perform q o s.config.store x = some (r, s'.config.store) ∧
      s'.locals q = D.next (s.locals q) x r) ∨
    m = .crash q ∧ s'.locals q = D.start := by
  obtain ⟨req, rfl, -, rfl⟩ | ⟨p, o, req, x, k, r, σ, rfl, hp, hs, rfl⟩ |
    ⟨p, req, x, k, rfl, -, rfl⟩ | ⟨a, σ, rfl, -, rfl⟩ := move_cases h
  · exact .inl ⟨rfl, fun _ _ h => by cases h⟩
  · by_cases hq : q = p
    · subst hq
      exact .inr (.inl ⟨o, req, x, k, r, rfl, hp, hs, update_self ..⟩)
    · refine .inl ⟨update_of_ne hq .., fun o' x' h => ?_⟩
      rw [Config.callOf_eq_some.mpr ⟨rfl, req, k, hp⟩] at h
      cases h
      exact hq rfl
  · by_cases hq : q = p
    · subst hq
      exact .inr (.inr ⟨rfl, update_self ..⟩)
    · exact .inl ⟨update_of_ne hq .., fun _ _ h => by cases h⟩
  · exact .inl ⟨rfl, fun _ _ h => by cases h⟩

/-- What a call does to its program. -/
theorem call_cases {p : ℕ} {o : S.Oracle} (h : s.move (.call p o) = some s') :
    ∃ req x k r, s.config.procs[p]? = some (.running req (.call x k)) ∧
      S.perform p o s.config.store x = some (r, s'.config.store) ∧
      s'.config.procs[p]? = some (.running req (k r)) ∧
      s'.locals p = D.next (s.locals p) x r := by
  obtain ⟨_, hspawn, -⟩ | ⟨q, o', req, x, k, r, σ, hcall, hp, hs, rfl⟩ | ⟨_, _, _, _, hcrash, -⟩ |
    ⟨_, _, hambient, -⟩ := move_cases h
  · cases hspawn
  · cases hcall
    obtain ⟨hlt, -⟩ := List.getElem?_eq_some_iff.mp hp
    exact ⟨req, x, k, r, hp, hs, List.getElem?_set_self hlt, update_self ..⟩
  · cases hcrash
  · cases hambient

end Observed

variable {allow : S.Config → S.Move → Prop} {s s' : D.Observed} {m : S.Move}

/-- One permitted move of an observed configuration. -/
def Moves (allow : S.Config → S.Move → Prop) (s s' : D.Observed) : Prop :=
  ∃ m, allow s.config m ∧ s.move m = some s'

/-- A run of an observed configuration all of whose moves are permitted by `allow`. -/
def Runs (allow : S.Config → S.Move → Prop) : D.Observed → D.Observed → Prop :=
  Relation.ReflTransGen (Moves allow)

theorem Runs.mono {allow' : S.Config → S.Move → Prop} (h : Runs allow s s')
    (hmono : ∀ d m, allow d m → allow' d m) : Runs allow' s s' :=
  Relation.ReflTransGen.mono (r := Moves allow) (p := Moves allow')
    (fun _ _ ⟨m, hm, hs⟩ => ⟨m, hmono _ m hm, hs⟩) _ _ h

/-- An observed run is a run. -/
theorem Runs.reaches (h : Runs allow s s') : Reaches allow s.config s'.config := by
  induction h with
  | refl => exact .refl
  | tail _ hm ih =>
    obtain ⟨m, ha, hs⟩ := hm
    exact ih.tail ⟨m, ha, Observed.config_move hs⟩

/-- Every run can be observed. -/
theorem exists_runs (s : D.Observed) {c : S.Config} (h : Reaches allow s.config c) :
    ∃ γ, Runs allow s ⟨c, γ⟩ := by
  induction h with
  | refl => exact ⟨s.locals, .refl⟩
  | tail _ hm ih =>
    obtain ⟨m, ha, hs⟩ := hm
    obtain ⟨γ, hγ⟩ := ih
    obtain ⟨γ', hγ'⟩ := Observed.exists_move (s := ⟨_, γ⟩) hs
    exact ⟨γ', hγ.tail ⟨m, ha, hγ'⟩⟩

/-- **Invariant rule.** What every permitted move of a configuration reached preserves holds in
every configuration reached. -/
theorem Runs.invariant {I : D.Observed → Prop} (h : Runs allow s s')
    (hstep : ∀ t m t', Runs allow s t → allow t.config m → t.move m = some t' → I t → I t')
    (hs : I s) : I s' := by
  induction h with
  | refl => exact hs
  | tail hrun hm ih =>
    obtain ⟨m, ha, hm⟩ := hm
    exact hstep _ m _ hrun ha hm ih

/-! ### Sound disciplines -/

variable (D)

/-- Every program of the service follows the discipline, and calls get possible replies. -/
structure Sound : Prop where
  body : ∀ req, D.follows req (D.returns req) (S.body req) D.start
  reply : ∀ p o σ x r σ', S.perform p o σ x = some (r, σ') → D.possible x r

variable {D}

/-- What a program of the pool is, in view of its summary. -/
def ProcObeys (w : D.Local) : Option S.Proc → Prop
  | some (.running req P) => D.follows req (D.returns req) P w
  | some (.crashed _) | none => w = D.start

/-- Every program of the configuration obeys the discipline. -/
def Observed.Obeys (s : D.Observed) : Prop := ∀ p, ProcObeys (s.locals p) s.config.procs[p]?

/-- The configuration before the first request. -/
theorem Observed.obeys_of_no_procs {st : S.Store} :
    Observed.Obeys (D := D) ⟨⟨st, []⟩, fun _ => D.start⟩ :=
  fun _ => rfl

namespace Observed.Obeys

variable {p : ℕ} {req : S.Request}

/-- A running program follows the discipline from its summary on. -/
theorem running (h : s.Obeys) {P : Prog S.Call S.Reply S.Answer}
    (hp : s.config.procs[p]? = some (.running req P)) :
    D.follows req (D.returns req) P (s.locals p) := by
  have hproc := h p
  rwa [hp] at hproc

/-- The next call of a program is one that it may await. -/
theorem awaits (h : s.Obeys) {x : S.Call} {k : S.Reply x → Prog S.Call S.Reply S.Answer}
    (hp : s.config.procs[p]? = some (.running req (.call x k))) : D.awaits req (s.locals p) x :=
  (h.running hp).1

/-- What a program has returned is something that it may return. -/
theorem returns (h : s.Obeys) {a : S.Answer} (hp : s.config.Returned p req a) :
    D.returns req a (s.locals p) :=
  h.running hp

/-- A program whose summary is not the one at the start runs. -/
theorem exists_running (h : s.Obeys) (hp : s.locals p ≠ D.start) :
    ∃ req P, s.config.procs[p]? = some (.running req P) := by
  have hproc := h p
  cases hc : s.config.procs[p]? with
  | none =>
    rw [hc] at hproc
    exact absurd hproc hp
  | some pr =>
    cases pr with
    | crashed req =>
      rw [hc] at hproc
      exact absurd hproc hp
    | running req P => exact ⟨req, P, rfl⟩

/-- A program whose summary is not the one at the start is in flight, or has returned with it. -/
theorem inFlight_or_returned (h : s.Obeys) (hp : s.locals p ≠ D.start) :
    (∃ req x k, s.config.procs[p]? = some (.running req (.call x k)) ∧
      D.awaits req (s.locals p) x) ∨
    ∃ req a, s.config.Returned p req a ∧ D.returns req a (s.locals p) := by
  obtain ⟨req, P, hc⟩ := h.exists_running hp
  cases P with
  | ret a => exact .inr ⟨req, a, hc, h.returns hc⟩
  | call x k => exact .inl ⟨req, x, k, hc, h.awaits hc⟩

/-- One program changes, with its summary. -/
theorem set (h : s.Obeys) {pr pr' : S.Proc} {w : D.Local} {σ : S.Store}
    (hp : s.config.procs[p]? = some pr) (hpr : ProcObeys w (some pr')) :
    Observed.Obeys ⟨⟨σ, s.config.procs.set p pr'⟩, update s.locals p w⟩ := by
  obtain ⟨hlt, -⟩ := List.getElem?_eq_some_iff.mp hp
  intro q
  dsimp only
  by_cases hq : p = q
  · subst hq
    rwa [update_self, List.getElem?_set_self hlt]
  · rw [update_of_ne (Ne.symm hq), List.getElem?_set_ne hq]
    exact h q

end Observed.Obeys

/-- Where a running program comes from, with its summary: it did nothing, it was resumed with a
reply, or it was started. -/
theorem Observed.running_cases (hs : s.Obeys) (hm : s.move m = some s') {q : ℕ} {req : S.Request}
    {P : Prog S.Call S.Reply S.Answer} (hq : s'.config.procs[q]? = some (.running req P)) :
    (s.config.procs[q]? = some (.running req P) ∧ s'.locals q = s.locals q ∧
      ∀ o x, s.config.callOf m ≠ some (q, o, x)) ∨
    (∃ o x k r, m = .call q o ∧ s.config.procs[q]? = some (.running req (.call x k)) ∧
      S.perform q o s.config.store x = some (r, s'.config.store) ∧ P = k r ∧
      s'.locals q = D.next (s.locals q) x r) ∨
    (m = .spawn req ∧ P = S.body req ∧ s'.locals q = D.start) := by
  obtain ⟨req', rfl, -, rfl⟩ | ⟨p, o, req', x, k, r, σ, rfl, hp, hx, rfl⟩ |
    ⟨p, req', x, k, rfl, hp, rfl⟩ | ⟨a, σ, rfl, -, rfl⟩ := Observed.move_cases hm
  · rcases Nat.lt_trichotomy q s.config.procs.length with hlt | rfl | hgt
    · rw [List.getElem?_append_left hlt] at hq
      exact .inl ⟨hq, rfl, fun _ _ h => by cases h⟩
    · rw [List.getElem?_append_right (Nat.le_refl _), Nat.sub_self] at hq
      have hproc := hs s.config.procs.length
      rw [List.getElem?_eq_none (Nat.le_refl _)] at hproc
      cases hq
      exact .inr (.inr ⟨rfl, rfl, hproc⟩)
    · rw [List.getElem?_eq_none (by simpa using Nat.succ_le_of_lt hgt)] at hq
      cases hq
  · obtain ⟨hlt, -⟩ := List.getElem?_eq_some_iff.mp hp
    by_cases hqp : q = p
    · subst hqp
      rw [List.getElem?_set_self hlt] at hq
      cases hq
      exact .inr (.inl ⟨o, x, k, r, rfl, hp, hx, rfl, update_self ..⟩)
    · rw [List.getElem?_set_ne (Ne.symm hqp)] at hq
      refine .inl ⟨hq, update_of_ne hqp .., fun o' x' h => ?_⟩
      rw [Config.callOf_eq_some.mpr ⟨rfl, req', k, hp⟩] at h
      cases h
      exact hqp rfl
  · obtain ⟨hlt, -⟩ := List.getElem?_eq_some_iff.mp hp
    by_cases hqp : q = p
    · subst hqp
      rw [List.getElem?_set_self hlt] at hq
      cases hq
    · rw [List.getElem?_set_ne (Ne.symm hqp)] at hq
      exact .inl ⟨hq, update_of_ne hqp .., fun _ _ h => by cases h⟩
  · exact .inl ⟨hq, rfl, fun _ _ h => by cases h⟩

/-- Moves keep the programs obeying. -/
theorem Sound.obeys_move (hD : D.Sound) (h : s.Obeys) (hm : s.move m = some s') : s'.Obeys := by
  obtain ⟨req, -, -, rfl⟩ | ⟨p, o, req, x, k, r, σ, -, hp, hs, rfl⟩ |
    ⟨p, req, x, k, -, hp, rfl⟩ | ⟨a, σ, -, -, rfl⟩ := Observed.move_cases hm
  · intro p
    have hproc := h p
    dsimp only
    rcases Nat.lt_trichotomy p s.config.procs.length with hlt | rfl | hgt
    · rwa [List.getElem?_append_left hlt]
    · rw [List.getElem?_eq_none (Nat.le_refl _)] at hproc
      rw [List.getElem?_append_right (Nat.le_refl _), Nat.sub_self]
      have hstart : s.locals s.config.procs.length = D.start := hproc
      rw [hstart]
      exact hD.body req
    · rw [List.getElem?_eq_none (Nat.le_of_lt hgt)] at hproc
      rwa [List.getElem?_eq_none (by simpa using Nat.succ_le_of_lt hgt)]
  · exact h.set hp ((h.running hp).2 r (hD.reply _ _ _ _ _ _ hs))
  · exact h.set hp rfl
  · exact h

/-- **Obedience.** In every configuration reached the programs follow the discipline. -/
theorem Sound.obeys (hD : D.Sound) (h : Runs allow s s') (hs : s.Obeys) : s'.Obeys :=
  h.invariant (fun _ _ _ _ _ hm ht => hD.obeys_move ht hm) hs

/-- **Invariant rule for summaries.** What holds of every request and the summary at its start,
and is preserved by every reply to a call that may be awaited, holds of all running programs. -/
theorem Sound.summary_invariant (hD : D.Sound) {I : S.Request → D.Local → Prop}
    (hstart : ∀ req, I req D.start)
    (hnext : ∀ req w x r, D.awaits req w x → D.possible x r → I req w → I req (D.next w x r))
    (h : Runs allow s s') (hs : s.Obeys) (hprocs : s.config.procs = []) {p : ℕ}
    {req : S.Request} {P : Prog S.Call S.Reply S.Answer}
    (hp : s'.config.procs[p]? = some (.running req P)) : I req (s'.locals p) := by
  refine (h.invariant (I := fun t => t.Obeys ∧
    ∀ p req P, t.config.procs[p]? = some (.running req P) → I req (t.locals p)) ?_ ⟨hs, ?_⟩).2 p
      req P hp
  · intro t m t' _ _ hm ⟨ht, hI⟩
    refine ⟨hD.obeys_move ht hm, fun p req P hp => ?_⟩
    obtain ⟨hold, heq, -⟩ | ⟨o, x, k, r, -, hold, hx, -, heq⟩ | ⟨-, -, heq⟩ :=
      Observed.running_cases ht hm hp
    · rw [heq]
      exact hI p req P hold
    · rw [heq]
      exact hnext req _ x r (ht.awaits hold) (hD.reply _ _ _ _ _ _ hx) (hI p req _ hold)
    · rw [heq]
      exact hstart req
  · intro p req P hp
    rw [hprocs] at hp
    cases hp

end Discipline

end LongRequestProxy.Async
