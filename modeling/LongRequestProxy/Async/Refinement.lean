import LongRequestProxy.Async.Pool
import Mathlib.Order.Basic

/-!
# Refinement of abstract machines

A pool of programs *refines* an abstract machine when each of its moves is, seen through an
abstraction function, one step of the machine or none at all. Only the states reached from a start
matter, so that a refinement may rest on an invariant of the pool. What is then proved about the
machine alone, with no program in sight, holds of the pool.

## Main definitions

* `Machine`: states and steps.
* `Service.Refines allow start M abs`: the pool, started at `start`, refines `M`.

## Main results

* `Service.Refines.run`: runs of the pool are runs of the machine.
* `Service.Refines.comp`: refinements compose.
* `Service.Refines.invariant`: invariants of the machine are invariants of the pool.
* `Service.Refines.monotone`: what no step of the machine lowers, no run of the pool lowers.
-/

namespace LongRequestProxy.Async

/-- An abstract machine. -/
structure Machine where
  State : Type
  Step : State → State → Prop

namespace Machine

variable {M : Machine} {a b : M.State}

/-- What every step preserves, every run preserves. -/
theorem invariant {I : M.State → Prop} (hstep : ∀ a b, M.Step a b → I a → I b)
    (h : Relation.ReflTransGen M.Step a b) (hI : I a) : I b := by
  induction h with
  | refl => exact hI
  | tail _ hab ih => exact hstep _ _ hab ih

/-- What no step lowers, no run lowers. -/
theorem monotone {β : Type} [Preorder β] {rank : M.State → β}
    (hstep : ∀ a b, M.Step a b → rank a ≤ rank b) (h : Relation.ReflTransGen M.Step a b) :
    rank a ≤ rank b := by
  induction h with
  | refl => exact le_rfl
  | tail _ hab ih => exact ih.trans (hstep _ _ hab)

end Machine

namespace Service

variable {S : Service}

/-- Every permitted move from a state reached is a step of the machine, or none. -/
def Refines (allow : S.Config → S.Move → Prop) (start : S.Config) (M : Machine)
    (abs : S.Config → M.State) : Prop :=
  ∀ c m c', Reaches allow start c → allow c m → c.move m = some c' →
    Relation.ReflGen M.Step (abs c) (abs c')

namespace Refines

variable {allow : S.Config → S.Move → Prop} {start c c' : S.Config} {M : Machine}
  {abs : S.Config → M.State}

/-- **Simulation.** A run of the pool is a run of the machine. -/
theorem run (h : Refines allow start M abs) (hc : Reaches allow start c)
    (hrun : Reaches allow c c') : Relation.ReflTransGen M.Step (abs c) (abs c') := by
  induction hrun with
  | refl => exact .refl
  | tail hreach hmove ih =>
    obtain ⟨m, ha, hm⟩ := hmove
    exact ih.trans (h _ m _ (hc.trans hreach) ha hm).to_reflTransGen

/-- What every step of the machine preserves, every run of the pool preserves. -/
theorem invariant (h : Refines allow start M abs) {I : M.State → Prop}
    (hstep : ∀ a b, M.Step a b → I a → I b) (hc : Reaches allow start c)
    (hrun : Reaches allow c c') (hI : I (abs c)) : I (abs c') :=
  Machine.invariant hstep (h.run hc hrun) hI

/-- What no step of the machine lowers, no run of the pool lowers. -/
theorem monotone {β : Type} [Preorder β] (h : Refines allow start M abs) (rank : M.State → β)
    (hstep : ∀ a b, M.Step a b → rank a ≤ rank b) (hc : Reaches allow start c)
    (hrun : Reaches allow c c') : rank (abs c) ≤ rank (abs c') :=
  Machine.monotone hstep (h.run hc hrun)

/-- A machine that the pool refines may itself refine another. -/
theorem comp {N : Machine} (h : Refines allow start M abs) {f : M.State → N.State}
    (hf : ∀ a b, M.Step a b → Relation.ReflGen N.Step (f a) (f b)) :
    Refines allow start N fun c => f (abs c) := fun c m c' hc ha hm => by
  have hstep := h c m c' hc ha hm
  dsimp only
  generalize abs c = a at hstep ⊢
  generalize abs c' = b at hstep ⊢
  cases hstep with
  | refl => exact .refl
  | single hab => exact hf _ _ hab

end Refines

end Service

end LongRequestProxy.Async
