import Mathlib.Control.Basic
import Mathlib.Tactic.Common

/-!
# Asynchronous programs as trees of awaited calls

An asynchronous function runs synchronously between two awaits, so all that other functions
can observe of it is the sequence of calls it awaits. `Prog C R α` is such a function as a
tree: a node is an awaited call `c : C`, its children are indexed by the replies `R c`, and a
leaf is the value returned. Trees are well-founded, so a loop without a bound is a program only
together with a number of iterations after which it is cut off.

* `Prog.bind` makes programs a lawful monad; `ExceptT ε (Prog C R)` are then the programs that
  may throw, with the `try … catch …` of do notation.
* `Prog.Uses p P` says that every call that `P` can ever await, whatever the replies, satisfies
  the predicate `p`.
* `Prog.AtMost p P n` says that `P` awaits at most `n` calls that pass the test `p`.
* `Prog.runAlone h P s` runs `P` with nothing interleaved, each call answered by `h`; it is
  `none` when a call is refused.

## Main results

* `Prog.Uses.bind`, `Prog.Uses.tryCatch`: the calls of a compound program.
* `Prog.AtMost.bind`, `Prog.AtMost.tryCatch`: how many calls a compound program makes.
* `Prog.runAlone_bind`, `Prog.runAlone_bindExcept`, `Prog.runAlone_tryCatch`: running a compound
  program alone.
* `Prog.runAlone_frame`, `Prog.runAlone_map`: what a run leaves alone, and runs on a part of a
  state.
-/

namespace LongRequestProxy.Async

/-- A program that awaits calls `c : C`, is resumed with replies in `R c`, and returns an `α`. -/
inductive Prog (C : Type) (R : C → Type) (α : Type) : Type
  | ret (a : α) : Prog C R α
  | call (c : C) (k : R c → Prog C R α) : Prog C R α

namespace Prog

variable {C : Type} {R : C → Type} {α β σ ε : Type}

/-- Sequencing: every leaf of `P` is replaced by the program that `f` gives for its value. -/
def bind (P : Prog C R α) (f : α → Prog C R β) : Prog C R β :=
  match P with
  | .ret a => f a
  | .call c k => .call c fun r => (k r).bind f

instance : Monad (Prog C R) where
  pure := .ret
  bind := bind

@[simp] theorem ret_bind (a : α) (f : α → Prog C R β) : (ret a >>= f) = f a := rfl

@[simp] theorem call_bind (c : C) (k : R c → Prog C R α) (f : α → Prog C R β) :
    (call c k >>= f) = call c fun r => k r >>= f := rfl

@[simp] theorem pure_eq_ret (a : α) : (pure a : Prog C R α) = ret a := rfl

theorem id_map_prog (P : Prog C R α) : id <$> P = P := by
  change P.bind (fun a => ret (id a)) = P
  induction P with
  | ret a => rfl
  | call c k ih => exact congrArg (call c) (funext ih)

theorem bind_assoc_prog {γ : Type} (P : Prog C R α) (f : α → Prog C R β) (g : β → Prog C R γ) :
    P >>= f >>= g = P >>= fun a => f a >>= g := by
  change (P.bind f).bind g = P.bind fun a => (f a).bind g
  induction P with
  | ret a => rfl
  | call c k ih => exact congrArg (call c) (funext ih)

instance : LawfulMonad (Prog C R) :=
  LawfulMonad.mk' _ id_map_prog (fun _ _ => rfl) bind_assoc_prog

/-- The program that awaits `c` and returns its reply. -/
def await (c : C) : Prog C R (R c) := .call c .ret

/-! ### The calls a program can make -/

/-- Every call that `P` can await, for some replies to the earlier ones, satisfies `p`. -/
def Uses (p : C → Prop) : Prog C R α → Prop
  | .ret _ => True
  | .call c k => p c ∧ ∀ r, (k r).Uses p

@[simp] theorem uses_ret (p : C → Prop) (a : α) : (ret a : Prog C R α).Uses p := trivial

theorem Uses.bind {p : C → Prop} {P : Prog C R α} {f : α → Prog C R β} (hP : P.Uses p)
    (hf : ∀ a, (f a).Uses p) : (P >>= f).Uses p := by
  induction P with
  | ret a => exact hf a
  | call c k ih => exact ⟨hP.1, fun r => ih r (hP.2 r)⟩

theorem Uses.mono {p q : C → Prop} {P : Prog C R α} (hP : P.Uses p) (hpq : ∀ c, p c → q c) :
    P.Uses q := by
  induction P with
  | ret a => trivial
  | call c k ih => exact ⟨hpq c hP.1, fun r => ih r (hP.2 r)⟩

/-- The calls of a throwing program are those of its first part and of its continuation. -/
theorem Uses.bindExcept {p : C → Prop} {P : ExceptT ε (Prog C R) α}
    {f : α → ExceptT ε (Prog C R) β} (hP : P.run.Uses p) (hf : ∀ a, (f a).run.Uses p) :
    (P >>= f).run.Uses p := by
  rw [ExceptT.run_bind]
  refine hP.bind fun r => ?_
  cases r with
  | ok a => exact hf a
  | error e => trivial

theorem Uses.tryCatch {p : C → Prop} {P : ExceptT ε (Prog C R) α}
    {h : ε → ExceptT ε (Prog C R) α} (hP : P.run.Uses p) (hh : ∀ e, (h e).run.Uses p) :
    (tryCatch P h).run.Uses p := by
  rw [ExceptT.run_tryCatch]
  refine hP.bind fun r => ?_
  cases r with
  | ok a => trivial
  | error e => exact hh e

/-! ### How often a program makes a call -/

/-- Along every path `P` awaits at most `n` calls that pass the test `p`. -/
def AtMost (p : C → Bool) : Prog C R α → ℕ → Prop
  | .ret _, _ => True
  | .call c k, n => if p c then ∃ m, n = m + 1 ∧ ∀ r, (k r).AtMost p m else ∀ r, (k r).AtMost p n

theorem AtMost.mono {p : C → Bool} {P : Prog C R α} {n m : ℕ} (hP : P.AtMost p n) (h : n ≤ m) :
    P.AtMost p m := by
  induction P generalizing n m with
  | ret a => trivial
  | call c k ih =>
    simp only [AtMost] at hP ⊢
    split at hP
    · next hc =>
      obtain ⟨n, rfl, hk⟩ := hP
      obtain ⟨m, rfl⟩ : ∃ i, m = i + 1 := ⟨m - 1, by omega⟩
      rw [if_pos hc]
      exact ⟨m, rfl, fun r => ih r (hk r) (Nat.le_of_succ_le_succ h)⟩
    · next hc =>
      rw [if_neg hc]
      exact fun r => ih r (hP r) h

theorem AtMost.bind {p : C → Bool} {P : Prog C R α} {f : α → Prog C R β} {n m : ℕ}
    (hP : P.AtMost p n) (hf : ∀ a, (f a).AtMost p m) : (P >>= f).AtMost p (n + m) := by
  induction P generalizing n with
  | ret a => exact (hf a).mono (Nat.le_add_left m n)
  | call c k ih =>
    simp only [call_bind, AtMost] at hP ⊢
    split at hP
    · next hc =>
      obtain ⟨n, rfl, hk⟩ := hP
      rw [if_pos hc]
      exact ⟨n + m, Nat.add_right_comm n 1 m, fun r => ih r (hk r)⟩
    · next hc =>
      rw [if_neg hc]
      exact fun r => ih r (hP r)

/-- A program whose calls all fail the test. -/
theorem AtMost.of_uses {p : C → Bool} {P : Prog C R α} (hP : P.Uses fun c => p c = false) (n : ℕ) :
    P.AtMost p n := by
  induction P generalizing n with
  | ret a => trivial
  | call c k ih =>
    simp only [AtMost, hP.1, Bool.false_eq_true, if_false]
    exact fun r => ih r (hP.2 r) n

theorem AtMost.bindExcept {p : C → Bool} {P : ExceptT ε (Prog C R) α}
    {f : α → ExceptT ε (Prog C R) β} {n m : ℕ} (hP : P.run.AtMost p n)
    (hf : ∀ a, (f a).run.AtMost p m) : (P >>= f).run.AtMost p (n + m) := by
  rw [ExceptT.run_bind]
  refine hP.bind fun r => ?_
  cases r with
  | ok a => exact hf a
  | error e => trivial

theorem AtMost.tryCatch {p : C → Bool} {P : ExceptT ε (Prog C R) α}
    {h : ε → ExceptT ε (Prog C R) α} {n m : ℕ} (hP : P.run.AtMost p n)
    (hh : ∀ e, (h e).run.AtMost p m) : (tryCatch P h).run.AtMost p (n + m) := by
  rw [ExceptT.run_tryCatch]
  refine hP.bind fun r => ?_
  cases r with
  | ok a => trivial
  | error e => exact hh e

/-! ### Running a program alone -/

/-- Run `P` with nothing interleaved: each call is answered by the handler `h`, which may also
refuse it. -/
def runAlone (h : σ → (c : C) → Option (R c × σ)) : Prog C R α → σ → Option (α × σ)
  | .ret a, s => some (a, s)
  | .call c k, s => (h s c).bind fun x => (k x.1).runAlone h x.2

variable {h : σ → (c : C) → Option (R c × σ)}

@[simp] theorem runAlone_ret (a : α) (s : σ) :
    (ret a : Prog C R α).runAlone h s = some (a, s) := rfl

@[simp] theorem runAlone_call (c : C) (k : R c → Prog C R α) (s : σ) :
    (call c k).runAlone h s = (h s c).bind fun x => (k x.1).runAlone h x.2 := rfl

theorem runAlone_bind (P : Prog C R α) (f : α → Prog C R β) (s : σ) :
    (P >>= f).runAlone h s = (P.runAlone h s).bind fun x => (f x.1).runAlone h x.2 := by
  induction P generalizing s with
  | ret a => rfl
  | call c k ih =>
    simp only [call_bind, runAlone_call, Option.bind_assoc]
    exact congrArg _ (funext fun x => ih x.1 x.2)

theorem runAlone_bindExcept (P : ExceptT ε (Prog C R) α) (f : α → ExceptT ε (Prog C R) β) (s : σ) :
    (P >>= f).run.runAlone h s = (P.run.runAlone h s).bind fun x => match x.1 with
      | .ok a => (f a).run.runAlone h x.2
      | .error e => some (.error e, x.2) := by
  rw [ExceptT.run_bind, runAlone_bind]
  refine congrArg _ (funext fun x => ?_)
  cases x.1 <;> rfl

theorem runAlone_tryCatch (P : ExceptT ε (Prog C R) α) (f : ε → ExceptT ε (Prog C R) α) (s : σ) :
    (tryCatch P f).run.runAlone h s = (P.run.runAlone h s).bind fun x => match x.1 with
      | .ok a => some (.ok a, x.2)
      | .error e => (f e).run.runAlone h x.2 := by
  rw [ExceptT.run_tryCatch, runAlone_bind]
  refine congrArg _ (funext fun x => ?_)
  cases x.1 <;> rfl

/-- Calls that keep an observation of the state keep it along a run. -/
theorem runAlone_frame {τ : Type} {p : C → Prop} {f : σ → τ} {P : Prog C R α} (hP : P.Uses p)
    (hcall : ∀ s c r s', p c → h s c = some (r, s') → f s' = f s) {s s' : σ} {a : α}
    (hrun : P.runAlone h s = some (a, s')) : f s' = f s := by
  induction P generalizing s with
  | ret b =>
    cases hrun
    rfl
  | call c k ih =>
    obtain ⟨⟨r, s₁⟩, hc, hrest⟩ := Option.bind_eq_some_iff.mp hrun
    exact (ih r (hP.2 r) hrest).trans (hcall s c r s₁ hP.1 hc)

/-- A program runs on a part of a state as it runs on that part alone. -/
theorem runAlone_map {τ : Type} {p : C → Prop} {h' : τ → (c : C) → Option (R c × τ)} {f : σ → τ}
    {P : Prog C R α} (hP : P.Uses p)
    (hcall : ∀ s c, p c → h' (f s) c = (h s c).map fun x => (x.1, f x.2)) (s : σ) :
    P.runAlone h' (f s) = (P.runAlone h s).map fun x => (x.1, f x.2) := by
  induction P generalizing s with
  | ret a => rfl
  | call c k ih =>
    rw [runAlone_call, runAlone_call, hcall s c hP.1, Option.map_bind, Option.bind_map]
    exact congrArg _ (funext fun x => ih x.1 (hP.2 x.1) x.2)

end Prog

end LongRequestProxy.Async
