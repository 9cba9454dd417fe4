import LongRequestProxy.Async.Program

/-!
# Total correctness of programs that run alone

A throwing program that runs with nothing interleaved ends with a value or with an error. `Ends`
says that it does end, and what holds then.

## Main definitions

* `Prog.Ends h P Q E s`: started in the state `s`, the program `P` ends with a value that satisfies
  `Q` or with an error that satisfies `E`.

## Main results

* `Prog.Ends.bind`, `Prog.Ends.tryCatch`: the rules for compound programs.
-/

namespace LongRequestProxy.Async.Prog

variable {C : Type} {R : C → Type} {α β σ ε : Type}

/-- Run alone, with each call answered by `h`, the program ends. -/
def Ends (h : σ → (c : C) → Option (R c × σ)) (P : ExceptT ε (Prog C R) α) (Q : α → σ → Prop)
    (E : ε → σ → Prop) (s : σ) : Prop :=
  (∃ a s', P.run.runAlone h s = some (.ok a, s') ∧ Q a s') ∨
    ∃ e s', P.run.runAlone h s = some (.error e, s') ∧ E e s'

namespace Ends

variable {h : σ → (c : C) → Option (R c × σ)} {P : ExceptT ε (Prog C R) α} {Q Q' : α → σ → Prop}
  {E E' : ε → σ → Prop} {s : σ}

theorem pure {a : α} (ha : Q a s) : Ends h (pure a) Q E s := .inl ⟨a, s, rfl, ha⟩

theorem mono (hP : Ends h P Q E s) (hQ : ∀ a s, Q a s → Q' a s) (hE : ∀ e s, E e s → E' e s) :
    Ends h P Q' E' s := by
  obtain ⟨a, s', hrun, ha⟩ | ⟨e, s', hrun, he⟩ := hP
  · exact .inl ⟨a, s', hrun, hQ a s' ha⟩
  · exact .inr ⟨e, s', hrun, hE e s' he⟩

/-- Sequencing. -/
theorem bind {f : α → ExceptT ε (Prog C R) β} {Q : β → σ → Prop}
    (hP : Ends h P (fun a => Ends h (f a) Q E) E s) : Ends h (P >>= f) Q E s := by
  unfold Ends
  rw [runAlone_bindExcept]
  obtain ⟨a, s', hrun, ha⟩ | ⟨e, s', hrun, he⟩ := hP
  · rw [hrun]
    exact ha
  · rw [hrun]
    exact .inr ⟨e, s', rfl, he⟩

theorem tryCatch {f : ε → ExceptT ε (Prog C R) α}
    (hP : Ends h P Q (fun e => Ends h (f e) Q E) s) : Ends h (tryCatch P f) Q E s := by
  unfold Ends
  rw [runAlone_tryCatch]
  obtain ⟨a, s', hrun, ha⟩ | ⟨e, s', hrun, he⟩ := hP
  · rw [hrun]
    exact .inl ⟨a, s', rfl, ha⟩
  · rw [hrun]
    exact he

end Ends

end LongRequestProxy.Async.Prog
