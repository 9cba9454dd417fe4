import LongRequestProxy.Async.Trace

/-!
# Histories

The history of a program lists the calls that it has made, each with its reply. The body of its
request and its history determine what the program still has to do, and its history determines its
summary under every discipline. So a fact about the point that a program has reached is a fact
about the points of its body, and can be combined with what a discipline says of it.

## Main definitions

* `Prog.After P log Q`: what is left of a program after some answered calls.
* `Prog.Always possible φ P log`: `φ` holds at every point of a program.
* `Discipline.history`: the discipline that allows everything and remembers everything.
* `Discipline.remembering`: the disciplines that remember everything.
* `Discipline.Observed.summarised`: the summaries that histories determine.

## Main results

* `Prog.Always.after`: what holds at every point holds at the points that are reached.
* `Discipline.after_of_runs`: a running program is what its history has left of its body.
* `Discipline.point_of_runs`: what holds at every point of the bodies holds of the pool.
* `Discipline.exists_mem_of_summary`: what a summary comes to know, a reply has told.
* `Discipline.runs_summarised`: a run observed by histories is observed by summaries too.
* `Discipline.exists_history`: the history of a program is what the trace shows of it.
-/

namespace LongRequestProxy.Async

open Function Service

namespace Prog

variable {C : Type} {R : C → Type} {α : Type} {P Q : Prog C R α}
  {log log' : List ((c : C) × R c)} {c : C} {k : R c → Prog C R α}

/-- `Q` is left of the program after the answered calls. -/
inductive After : Prog C R α → List ((c : C) × R c) → Prog C R α → Prop
  | nil (P : Prog C R α) : After P [] P
  | cons {c : C} {k : R c → Prog C R α} {r : R c} {log : List ((c : C) × R c)} {Q : Prog C R α}
      (h : After (k r) log Q) : After (.call c k) (⟨c, r⟩ :: log) Q

theorem After.snoc (h : P.After log (.call c k)) (r : R c) :
    P.After (log ++ [⟨c, r⟩]) (k r) := by
  generalize hQ : Prog.call c k = Q at h
  induction h with
  | nil P =>
    subst hQ
    exact .cons (.nil _)
  | cons _ ih => exact .cons (ih hQ)

/-- From the program on, which has got the replies `log` so far, `φ` holds at every point that is
reached with possible replies. -/
def Always (possible : (c : C) → R c → Prop) (φ : List ((c : C) × R c) → Prog C R α → Prop) :
    Prog C R α → List ((c : C) × R c) → Prop
  | .ret a, log => φ log (.ret a)
  | .call c k, log =>
    φ log (.call c k) ∧ ∀ r, possible c r → (k r).Always possible φ (log ++ [⟨c, r⟩])

variable {possible : (c : C) → R c → Prop} {φ : List ((c : C) × R c) → Prog C R α → Prop}

theorem Always.after (h : P.Always possible φ log) (hQ : P.After log' Q)
    (hlog : ∀ e ∈ log', possible e.1 e.2) : φ (log ++ log') Q := by
  induction hQ generalizing log with
  | nil P =>
    rw [List.append_nil]
    cases P with
    | ret a => exact h
    | call c k => exact h.1
  | @cons c k r log' Q _ ih =>
    rw [List.forall_mem_cons] at hlog
    have := ih (h.2 r hlog.1) hlog.2
    rwa [List.append_assoc] at this

end Prog

namespace Discipline

variable {S : Service} {allow : S.Config → S.Move → Prop} {st : S.Store} {p : ℕ} {req : S.Request}
  {P : Prog S.Call S.Reply S.Answer} {m : S.Move}

/-- A program may do everything, and what it has done is remembered. -/
abbrev history (S : Service) : Discipline S where
  Local := List ((x : S.Call) × S.Reply x)
  start := []
  next log x r := log ++ [⟨x, r⟩]
  awaits _ _ _ := True
  returns _ _ _ := True
  possible _ _ := True

theorem history_sound : (history S).Sound where
  body req := by
    have hall : ∀ (P : Prog S.Call S.Reply S.Answer) log,
        (history S).follows req (fun _ _ => True) P log := by
      intro P
      induction P with
      | ret a => exact fun _ => trivial
      | call x k ih => exact fun _ => ⟨trivial, fun r _ => ih r _⟩
    exact hall _ _
  reply _ _ _ _ _ _ _ := trivial

variable {s s' : (history S).Observed}

theorem history_obeys (h : Runs allow ⟨⟨st, []⟩, fun _ => []⟩ s) : s.Obeys :=
  history_sound.obeys h Observed.obeys_of_no_procs

/-- A running program is what its history has left of its body. -/
theorem after_of_runs (h : Runs allow ⟨⟨st, []⟩, fun _ => []⟩ s)
    (hp : s.config.procs[p]? = some (.running req P)) :
    (S.body req).After (s.locals p) P := by
  refine h.invariant (I := fun s : (history S).Observed => ∀ p req P,
    s.config.procs[p]? = some (.running req P) → (S.body req).After (s.locals p) P) ?_
    (fun p req P hp => by cases hp) p req P hp
  intro t m t' hrun _ hm ih p req P hp
  obtain ⟨hold, heq, -⟩ | ⟨o, x, k, r, -, hold, -, rfl, heq⟩ | ⟨-, rfl, heq⟩ :=
    Observed.running_cases (history_obeys hrun) hm hp
  · rw [heq]
    exact ih p req P hold
  · rw [heq]
    exact (ih p req _ hold).snoc r
  · rw [heq]
    exact .nil _

/-- What holds of every reply holds of the replies in a history. -/
theorem forall_mem_history {possible : (x : S.Call) → S.Reply x → Prop}
    (hpossible : ∀ p o σ x r σ', S.perform p o σ x = some (r, σ') → possible x r)
    (h : Runs allow ⟨⟨st, []⟩, fun _ => []⟩ s) : ∀ p, ∀ e ∈ s.locals p, possible e.1 e.2 := by
  refine h.invariant (I := fun s : (history S).Observed =>
    ∀ p, ∀ e ∈ s.locals p, possible e.1 e.2) ?_ fun _ _ he => by cases he
  intro t m t' _ _ hm ih p e he
  obtain ⟨heq, -⟩ | ⟨o, req, x, k, r, -, -, hx, heq⟩ | ⟨-, heq⟩ := Observed.locals_cases hm p
  · exact ih p e (heq ▸ he)
  · rw [heq] at he
    rcases List.mem_append.mp he with he | he
    · exact ih p e he
    · rw [List.mem_singleton.mp he]
      exact hpossible _ _ _ _ _ _ hx
  · rw [heq] at he
    cases he

/-- What holds at every point of the bodies holds where the running programs are. -/
theorem point_of_runs {possible : (x : S.Call) → S.Reply x → Prop}
    (hpossible : ∀ p o σ x r σ', S.perform p o σ x = some (r, σ') → possible x r)
    {φ : List ((x : S.Call) × S.Reply x) → Prog S.Call S.Reply S.Answer → Prop}
    (hbody : (S.body req).Always possible φ []) (h : Runs allow ⟨⟨st, []⟩, fun _ => []⟩ s)
    (hp : s.config.procs[p]? = some (.running req P)) : φ (s.locals p) P :=
  hbody.after (after_of_runs h hp) (forall_mem_history hpossible h p)

/-! ### Summaries -/

variable (D : Discipline S)

/-- The summary that a history determines. -/
def summary (log : List ((x : S.Call) × S.Reply x)) : D.Local :=
  log.foldl (fun w e => D.next w e.1 e.2) D.start

/-- What a summary comes to know, a reply of the history has told. -/
theorem exists_mem_of_summary {D : Discipline S} {K : D.Local → Prop}
    {T : (x : S.Call) → S.Reply x → Prop} (hstart : ¬ K D.start)
    (hnext : ∀ w x r, K (D.next w x r) → K w ∨ T x r) {log : List ((x : S.Call) × S.Reply x)}
    (h : K (D.summary log)) : ∃ e ∈ log, T e.1 e.2 := by
  induction log using List.reverseRecOn with
  | nil => exact absurd h hstart
  | append_singleton log e ih =>
    rw [summary, List.foldl_append] at h
    obtain hold | htold := hnext _ e.1 e.2 h
    · obtain ⟨e', he', htold⟩ := ih hold
      exact ⟨e', List.mem_append_left _ he', htold⟩
    · exact ⟨e, List.mem_append_right _ (List.mem_singleton_self e), htold⟩

/-- A discipline that says what may be awaited after a history. -/
abbrev remembering (S : Service)
    (awaits : S.Request → List ((x : S.Call) × S.Reply x) → S.Call → Prop)
    (possible : (x : S.Call) → S.Reply x → Prop) : Discipline S where
  Local := List ((x : S.Call) × S.Reply x)
  start := []
  next log x r := log ++ [⟨x, r⟩]
  awaits := awaits
  returns _ _ _ := True
  possible := possible

theorem summary_remembering
    {awaits : S.Request → List ((x : S.Call) × S.Reply x) → S.Call → Prop}
    {possible : (x : S.Call) → S.Reply x → Prop} (log : List ((x : S.Call) × S.Reply x)) :
    (remembering S awaits possible).summary log = log := by
  induction log using List.reverseRecOn with
  | nil => rfl
  | append_singleton log e ih =>
    rw [summary, List.foldl_append]
    exact congrArg (· ++ [e]) ih

/-- The configuration with the summaries that the histories determine. -/
def Observed.summarised (s : (history S).Observed) : D.Observed :=
  ⟨s.config, fun p => D.summary (s.locals p)⟩

theorem summary_update (γ : ℕ → List ((x : S.Call) × S.Reply x)) (p : ℕ)
    (log : List ((x : S.Call) × S.Reply x)) :
    (fun q => D.summary (update γ p log q)) =
      update (fun q => D.summary (γ q)) p (D.summary log) := by
  funext q
  by_cases hq : q = p
  · subst hq
    simp
  · simp [hq]

theorem move_summarised (h : s.move m = some s') :
    (s.summarised D).move m = some (s'.summarised D) := by
  have hconfig := Observed.config_move h
  rw [Observed.move]
  change (s.config.move m).map _ = _
  rw [hconfig, Option.map_some, Option.some.injEq, Observed.summarised, Observed.mk.injEq]
  refine ⟨rfl, ?_⟩
  obtain ⟨req, rfl, -, rfl⟩ | ⟨p, o, req, x, k, r, σ, rfl, hp, hx, rfl⟩ |
    ⟨p, req, x, k, rfl, -, rfl⟩ | ⟨a, σ, rfl, -, rfl⟩ := Observed.move_cases h
  · rfl
  · have hafter : (s.summarised D).after (.call p o) =
        update (s.summarised D).locals p (D.next ((s.summarised D).locals p) x r) := by
      simp only [Observed.after, Observed.summarised, hp, hx]
    have hsummary : D.summary (s.locals p ++ [⟨x, r⟩]) = D.next (D.summary (s.locals p)) x r :=
      List.foldl_append ..
    exact hafter.trans ((summary_update D s.locals p _).trans (by rw [hsummary]; rfl)).symm
  · exact (summary_update D s.locals p []).symm
  · rfl

/-- A run observed by histories is observed by summaries too. -/
theorem runs_summarised (h : Runs allow s s') :
    Runs allow (s.summarised D) (s'.summarised D) := by
  induction h with
  | refl => exact .refl
  | tail _ hm ih =>
    obtain ⟨m, ha, hm⟩ := hm
    exact ih.tail ⟨m, ha, move_summarised D hm⟩

/-! ### Histories along traces -/

variable {l : List S.Transition} {c : S.Config} {x : S.Transition}

/-- With this step program `p` has made the call and got the reply. -/
def Performs (p : ℕ) (e : (x : S.Call) × S.Reply x) (x : S.Transition) : Prop :=
  ∃ o, x.before.callOf x.move = some (p, o, e.1) ∧
    S.perform p o x.before.store e.1 = some (e.2, x.after.store)

theorem Performs.call {e : (x : S.Call) × S.Reply x} (h : Performs p e x) :
    ∃ o, x.move = .call p o := by
  obtain ⟨o, hcall, -⟩ := h
  exact ⟨o, (Config.callOf_eq_some.mp hcall).1⟩

/-- The histories of the running programs list the calls that the trace shows of them. -/
structure Lists (l : List S.Transition) (s : (history S).Observed) : Prop where
  started : ∀ x ∈ l, ∀ p o, x.move = .call p o → p < s.config.procs.length
  mem_iff : ∀ p req P, s.config.procs[p]? = some (.running req P) →
    ∀ e, e ∈ s.locals p ↔ ∃ x ∈ l, Performs p e x

theorem Lists.of_move (h : Lists l s) (hrun : Runs allow ⟨⟨st, []⟩, fun _ => []⟩ s)
    (hm : s.move m = some s') : Lists (l ++ [⟨s.config, m, s'.config⟩]) s' := by
  have hmove := Observed.config_move hm
  have hlen := Config.procs_length_le_of_move hmove
  refine ⟨fun x hx p o hxm => ?_, fun p req P hp e => ?_⟩
  · rcases List.mem_append.mp hx with hx | hx
    · exact Nat.lt_of_lt_of_le (h.started x hx p o hxm) hlen
    · rw [List.mem_singleton.mp hx] at hxm
      obtain rfl : m = .call p o := hxm
      obtain ⟨_, _, _, _, hp, -⟩ := Observed.call_cases hm
      exact Nat.lt_of_lt_of_le (List.getElem?_eq_some_iff.mp hp).1 hlen
  simp only [List.mem_append, List.mem_singleton, or_and_right, exists_or, exists_eq_left]
  obtain ⟨hold, hloc, hnone⟩ | ⟨o, x, k, r, rfl, hold, hx, -, hloc⟩ | ⟨rfl, -, hloc⟩ :=
    Observed.running_cases (history_obeys hrun) hm hp
  · rw [hloc, h.mem_iff p req P hold]
    refine (or_iff_left ?_).symm
    rintro ⟨o, hcall, -⟩
    exact hnone o _ hcall
  · have hcall : s.config.callOf (.call p o) = some (p, o, x) :=
      Config.callOf_eq_some.mpr ⟨rfl, req, k, hold⟩
    rw [hloc, List.mem_append, h.mem_iff p req _ hold, List.mem_singleton]
    refine or_congr_right ⟨fun he => he ▸ ⟨o, hcall, hx⟩, ?_⟩
    obtain ⟨y, r'⟩ := e
    rintro ⟨o', hcall', hx'⟩
    dsimp only at hcall' hx'
    rw [hcall] at hcall'
    cases hcall'
    rw [hx] at hx'
    cases hx'
    rfl
  · -- a program that was just started has done nothing
    rw [hloc]
    refine iff_of_false (by simp) ?_
    rintro (⟨x, hxl, hx⟩ | hx)
    · obtain ⟨o, hxm⟩ := hx.call
      obtain ⟨hold, -⟩ | ⟨_, _, _, _, hspawn, -⟩ | ⟨-, hlast, -⟩ := Config.running_of_move hmove hp
      · obtain ⟨heq, -⟩ | ⟨_, _, _, _, _, hspawn, -⟩ | ⟨hspawn, -⟩ := Observed.locals_cases hm p
        · have hmem := (h.mem_iff p req _ hold e).mpr ⟨x, hxl, hx⟩
          rw [← heq, hloc] at hmem
          cases hmem
        · cases hspawn
        · cases hspawn
      · cases hspawn
      · exact absurd (h.started x hxl p o hxm) (by omega)
    · obtain ⟨o, hxm⟩ := hx.call
      cases hxm

/-- **Histories and traces.** Along every trace the histories of the running programs list the
calls that the trace shows of them. -/
theorem exists_history (h : Trace ⟨st, []⟩ l c) :
    ∃ γ, Runs (fun _ _ => True) ⟨⟨st, []⟩, fun _ => []⟩ ⟨c, γ⟩ ∧ Lists l ⟨c, γ⟩ :=
  exists_observed_trace (D := history S) (s := ⟨⟨st, []⟩, fun _ => []⟩) (I := Lists) h
    ⟨fun x hx => (by cases hx), fun p req P hp => (by cases hp)⟩
    fun _ _ _ _ _ hrun hm hl => hl.of_move hrun hm

end Discipline

end LongRequestProxy.Async
