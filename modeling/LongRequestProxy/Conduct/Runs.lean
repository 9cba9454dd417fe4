import LongRequestProxy.Conduct.Functions

/-!
# Runs of the observed system

An invariant of the shared state and of the summaries of all functions is proved call by call:
for calls that take effect and return, and for what is left when a call throws or a process
dies. A call whose reply gets lost does both.

## Main definitions

* `observed`: the system before its first request, with the summaries of its functions.
* `Summary.Remains`: what is left of a summary when the open transaction is gone.

## Main results

* `exists_observed`: every run of the system can be observed.
* `runs_invariant`: the rule for invariants.
-/

namespace LongRequestProxy

open Async Discipline Service Function

variable {http : HttpClient} {clock : Timestamp}
  {allow : (proxy http).Config → (proxy http).Move → Prop}

/-- The system before its first request. -/
def observed (http : HttpClient) (clock : Timestamp) : (discipline http).Observed :=
  ⟨initial http clock, fun _ => {}⟩

theorem observed_obeys : (observed http clock).Obeys := Observed.obeys_of_no_procs

/-- Every run of the system can be observed, and its functions obey the discipline. -/
theorem exists_observed {c : (proxy http).Config} (h : Reaches allow (initial http clock) c) :
    ∃ γ, Runs allow (observed http clock) ⟨c, γ⟩ ∧
      Observed.Obeys (D := discipline http) ⟨c, γ⟩ := by
  obtain ⟨γ, hγ⟩ := exists_runs (observed http clock) h
  exact ⟨γ, hγ, (discipline_sound http).obeys hγ observed_obeys⟩

theorem obeys_of_runs {s : (discipline http).Observed} (h : Runs allow (observed http clock) s) :
    s.Obeys :=
  (discipline_sound http).obeys h observed_obeys

/-! ### What is left after an error -/

namespace Summary

variable {w w' : Summary} {c : Await}

/-- The summary `w'` is what is left of `w` when the open transaction is gone. -/
structure Remains (w w' : Summary) : Prop where
  found : w'.found = none ∨ w'.found = w.found
  inserted : w'.inserted = none ∨ w'.inserted = w.inserted
  claimed : w'.claimed = none ∨ w'.claimed = w.claimed
  updated : w'.updated = none ∨ w'.updated = w.updated
  old : w'.old = [] ∨ w'.old = w.old
  tx : w'.tx = {}
  due : w'.due = []
  owed : w'.owed.Sublist w.owed
  enqueued : w'.enqueued.Sublist w.enqueued

theorem remains_start (w : Summary) : w.Remains {} :=
  ⟨.inl rfl, .inl rfl, .inl rfl, .inl rfl, .inl rfl, rfl, rfl, List.nil_sublist _,
    List.nil_sublist _⟩

theorem remains_afterError (w : Summary) (c : Await) : w.Remains (w.afterError c) := by
  constructor
  case owed =>
    cases c
    case publish => exact List.tail_sublist _
    all_goals exact List.Sublist.refl _
  all_goals cases c <;> first | exact .inl rfl | exact .inr rfl | rfl

/-- What is left when the reply of a call gets lost. -/
theorem remains_of_afterValue (w : Summary) (c : Await) (v : c.Val) :
    (w.afterValue c v).Remains (w.afterError c) := by
  cases c with
  | updateTask id write =>
    refine ⟨?_, ?_, .inl rfl, .inl rfl, ?_, rfl, rfl, ?_, ?_⟩ <;> cases write <;>
      first | exact .inr rfl | exact List.Sublist.refl _
  | txCancelTask id now =>
    cases v <;> exact ⟨.inr rfl, .inr rfl, .inr rfl, .inr rfl, .inr rfl, rfl, rfl,
      List.Sublist.refl _, List.Sublist.refl _⟩
  | enqueue job =>
    exact ⟨.inr rfl, .inr rfl, .inr rfl, .inr rfl, .inr rfl, rfl, rfl, List.Sublist.refl _,
      List.sublist_cons_self _ _⟩
  | txCommit =>
    exact ⟨.inr rfl, .inr rfl, .inr rfl, .inr rfl, .inr rfl, rfl, rfl,
      List.sublist_append_left _ _, List.Sublist.refl _⟩
  | _ =>
    refine ⟨?_, ?_, ?_, ?_, ?_, rfl, rfl, List.Sublist.refl _, List.Sublist.refl _⟩ <;>
      first | exact .inl rfl | exact .inr rfl

end Summary

/-! ### The rule -/

/-- **Rule for invariants.** A property of the shared state and of the summaries that holds before
the first request, is preserved by calls that take effect and return, survives the loss of a
transaction, and does not depend on the clock, holds along every run. -/
theorem runs_invariant {J : Backend → (ℕ → Summary) → Prop} {s : (discipline http).Observed}
    (hok : ∀ (t : (discipline http).Observed) p o req x k v σ',
      Runs allow (observed http clock) t → allow t.config (.call p o) →
      t.config.procs[p]? = some (.running req (.call x k)) → (t.locals p).Awaits req x →
      (x.isRemote = true → o.fault ≠ .failed) → x.PossibleValue v → J t.config.store t.locals →
      exec p o t.config.store x = some (.ok (v, σ')) →
      J σ' (update t.locals p ((t.locals p).afterValue x v)))
    (hdrop : ∀ σ γ p w, J σ γ → (γ p).Remains w → J (σ.rollback p) (update γ p w))
    (hclock : ∀ σ γ time, J σ γ → J { σ with clock := time } γ)
    (h : Runs allow (observed http clock) s) (h0 : J { clock := clock } fun _ => {}) :
    J s.config.store s.locals := by
  refine Runs.invariant (I := fun s => J s.config.store s.locals) h ?_ h0
  intro t m t' hrun ha hm ht
  obtain ⟨req, -, -, rfl⟩ | ⟨p, o, req, x, k, r, σ, rfl, hp, hs, rfl⟩ |
    ⟨p, req, x, k, -, -, rfl⟩ | ⟨time, σ, -, hs, rfl⟩ := Observed.move_cases hm
  · exact ht
  · have hawaits := (obeys_of_runs hrun).awaits hp
    have hvalue : ∀ v σ', (x.isRemote = true → o.fault ≠ .failed) →
        exec p o t.config.store x = some (.ok (v, σ')) →
        J σ' (update t.locals p ((t.locals p).afterValue x v)) := fun v σ' hf hx =>
      hok t p o req x k v σ' hrun ha hp hawaits hf (possibleValue_of_exec hx) ht hx
    obtain ⟨e, rfl, rfl, -⟩ | ⟨v, rfl, hx, hf⟩ | ⟨v, σ₁, rfl, hx, hf, rfl⟩ := perform_cases hs
    · exact hdrop _ _ p _ ht ((t.locals p).remains_afterError x)
    · exact hvalue v σ hf hx
    · have := hdrop _ _ p ((t.locals p).afterError x) (hvalue v σ₁ (by simp [hf]) hx) (by
        rw [update_self]
        exact (t.locals p).remains_of_afterValue x v)
      rwa [update_idem] at this
  · exact hdrop _ _ p _ ht (t.locals p).remains_start
  · simp only [proxy, Backend.tick] at hs
    split at hs
    · cases hs
      exact hclock _ _ time ht
    · cases hs

end LongRequestProxy
