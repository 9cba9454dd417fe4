import LongRequestProxy.Async.Pool

/-!
# Watchers of a pool

A watcher reads the shared store of a pool and keeps a state of its own. Its steps are interleaved
with the moves of the pool and change nothing there, so that every run of the two is a run of the
pool when the watcher is forgotten.

## Main definitions

* `Watcher`: the events of a watcher, and how it reacts to them.
* `Watcher.Scene`, `Watcher.Scene.step`: a pool with its watcher, and what one step does to them.
* `Watcher.Watches`: the runs of the two.
* `Watcher.family`: any number of watchers as one.

## Main results

* `Watcher.Watches.reaches`: the pool makes a run of its own.
* `Watcher.Watches.invariant`: the rule for invariants of both.
* `Watcher.exists_watches_of_replay`: replayed runs are runs.
* `Watcher.Watches.member`: every member of a family makes a run of its own.
-/

namespace LongRequestProxy.Async

open Service

/-- A part of the system that reads the store of a service and does not write it. -/
structure Watcher (S : Service) where
  State : Type
  Event : Type
  start : State
  /-- What an event does to the watcher, in view of the store; `none` when it cannot happen. -/
  react : S.Store → State → Event → Option State

namespace Watcher

variable {S : Service} {W : Watcher S}

variable (W) in
/-- A pool with its watcher. -/
structure Scene : Type where
  config : S.Config
  state : W.State

variable (W) in
/-- The steps of a pool with its watcher. -/
inductive Step : Type
  | pool (m : S.Move)
  | own (e : W.Event)

namespace Scene

/-- What one step does; `none` when it is not possible. -/
def step (s : W.Scene) : W.Step → Option W.Scene
  | .pool m => (s.config.move m).map fun c => { s with config := c }
  | .own e => (W.react s.config.store s.state e).map fun w => { s with state := w }

/-- Running a list of steps. -/
def replay (s : W.Scene) : List W.Step → Option W.Scene
  | [] => some s
  | a :: as => (s.step a).bind fun t => t.replay as

/-- Everything that one step can do. -/
theorem step_cases {s t : W.Scene} {a : W.Step} (h : s.step a = some t) :
    (∃ m c, a = .pool m ∧ s.config.move m = some c ∧ t = ⟨c, s.state⟩) ∨
    ∃ e w, a = .own e ∧ W.react s.config.store s.state e = some w ∧ t = ⟨s.config, w⟩ := by
  cases a with
  | pool m =>
    obtain ⟨c, hc, rfl⟩ := Option.map_eq_some_iff.mp h
    exact .inl ⟨m, c, rfl, hc, rfl⟩
  | own e =>
    obtain ⟨w, hw, rfl⟩ := Option.map_eq_some_iff.mp h
    exact .inr ⟨e, w, rfl, hw, rfl⟩

end Scene

/-- A run of a pool with its watcher. -/
def Watches : W.Scene → W.Scene → Prop :=
  Relation.ReflTransGen fun s t => ∃ a, s.step a = some t

variable {s t : W.Scene}

/-- Without its watcher the pool makes a run of its own. -/
theorem Watches.reaches (h : Watches s t) : Reaches (fun _ _ => True) s.config t.config := by
  induction h with
  | refl => exact .refl
  | tail _ hstep ih =>
    obtain ⟨a, ha⟩ := hstep
    obtain ⟨m, c, -, hm, rfl⟩ | ⟨e, w, -, -, rfl⟩ := Scene.step_cases ha
    · exact ih.tail ⟨m, trivial, hm⟩
    · exact ih

/-- **Invariant rule.** What the moves of the pool and the events of the watcher preserve holds
along every run. -/
theorem Watches.invariant {I : W.Scene → Prop} (h : Watches s t)
    (hpool : ∀ u m c, Watches s u → u.config.move m = some c → I u → I ⟨c, u.state⟩)
    (hown : ∀ u e w, Watches s u → W.react u.config.store u.state e = some w → I u →
      I ⟨u.config, w⟩)
    (hs : I s) : I t := by
  induction h with
  | refl => exact hs
  | tail hrun hstep ih =>
    obtain ⟨a, ha⟩ := hstep
    obtain ⟨m, c, -, hm, rfl⟩ | ⟨e, w, -, hw, rfl⟩ := Scene.step_cases ha
    · exact hpool _ m c hrun hm ih
    · exact hown _ e w hrun hw ih

/-- Replaying steps gives a run. -/
theorem watches_of_replay {as : List W.Step} (h : s.replay as = some t) : Watches s t := by
  induction as generalizing s with
  | nil =>
    cases h
    exact .refl
  | cons a as ih =>
    obtain ⟨u, hu, hrest⟩ := Option.bind_eq_some_iff.mp h
    exact .head ⟨a, hu⟩ (ih hrest)

/-- A replay whose end passes a check reaches a scene that passes it. -/
theorem exists_watches_of_replay (as : List W.Step) (check : W.Scene → Bool)
    (h : (s.replay as).any check = true) : ∃ t, Watches s t ∧ check t = true := by
  obtain ⟨t, ht, hcheck⟩ := (Option.any_eq_true _ _).mp h
  exact ⟨t, watches_of_replay ht, hcheck⟩

/-! ### Families -/

section Family

variable {ι : Type} [DecidableEq ι]

/-- Any number of watchers of one pool; an event is one of a member. -/
abbrev family (W : ι → Watcher S) : Watcher S where
  State := ∀ k, (W k).State
  Event := Σ k, (W k).Event
  start k := (W k).start
  react σ w e := ((W e.1).react σ (w e.1) e.2).map fun v => Function.update w e.1 v

variable {W : ι → Watcher S} {s t : (family W).Scene}

/-- The pool with one member of a family. -/
def Scene.member (s : (family W).Scene) (k : ι) : (W k).Scene := ⟨s.config, s.state k⟩

/-- Every member of a family makes a run of its own. -/
theorem Watches.member (h : Watches s t) (k : ι) :
    (W k).Watches (s.member k) (t.member k) := by
  induction h with
  | refl => exact .refl
  | @tail t u _ hstep ih =>
    obtain ⟨a, ha⟩ := hstep
    obtain ⟨m, c, -, hm, rfl⟩ | ⟨⟨j, e⟩, w, -, hw, rfl⟩ := Scene.step_cases ha
    · exact ih.tail ⟨.pool m, by simp [Scene.step, Scene.member, hm]⟩
    · obtain ⟨v, hv, rfl⟩ := Option.map_eq_some_iff.mp hw
      by_cases hj : j = k
      · subst hj
        refine ih.tail ⟨.own e, ?_⟩
        have hv : (W j).react t.config.store (t.state j) e = some v := hv
        simp [Scene.step, Scene.member, hv]
      · have hsame : Scene.member ⟨t.config, Function.update t.state j v⟩ k = t.member k := by
          simp [Scene.member, Function.update_of_ne (Ne.symm hj)]
        exact hsame ▸ ih

end Family

end Watcher

end LongRequestProxy.Async
