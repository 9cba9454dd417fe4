import LongRequestProxy.System

/-!
# Verifying the calls of the program

The rules by which the functions of the program are verified against a ghost protocol over the
system. A call that throws has aborted the open transaction of its program, whether it had no
effect or only its reply got lost; what the program then still owns is its ghost value with
`drop` applied.

## Main definitions

* `Drops`: a throwing call leaves its program with what `drop` keeps of its ghost value.
* `Keeps`: functions that keep a property of the ghost value of their program.

## Main results

* `wpx_call`, `wpx_call_of_drops`: the rules for a call.
* `wpx_frame`: the rule for a call that leaves the invariant alone.
* `Keeps.of_uses`: the rule for functions whose calls keep a property of what they own.
-/

namespace LongRequestProxy

open Async Function

variable {http : HttpClient} {Φ : Protocol (proxy http)} {drop : Φ.Ghost → Φ.Ghost} {α : Type}
  {g : Φ.Ghost} {s : Backend} {E : JsError → Φ.Ghost → Backend → Prop}

/-- **Rule for calls.** -/
theorem wpx_call {c : Await} {Q : c.Val → Φ.Ghost → Backend → Prop}
    (hsafe : ∀ p o σ γ, Φ.inv σ γ → γ p = g → Φ.allows p σ c o → Φ.safe p σ c o)
    (hok : ∀ p o σ γ v σ', Φ.inv σ γ → γ p = g → Φ.allows p σ c o →
      exec p o σ c = some (.ok (v, σ')) → (c.isRemote = true → o.fault ≠ .failed) →
      ∃ g', Φ.inv σ' (update γ p g') ∧ Q v g' σ')
    (hlost : ∀ p o σ γ v σ', Φ.inv σ γ → γ p = g → Φ.allows p σ c o →
      exec p o σ c = some (.ok (v, σ')) → o.fault = .lostReply →
      perform p o σ c = some (.error .unavailable, σ'.rollback p) →
      ∃ g', Φ.inv (σ'.rollback p) (update γ p g') ∧ E .unavailable g' (σ'.rollback p))
    (herr : ∀ p o σ γ e, Φ.inv σ γ → γ p = g → Φ.allows p σ c o →
      perform p o σ c = some (.error e, σ.rollback p) →
      ∃ g', Φ.inv (σ.rollback p) (update γ p g') ∧ E e g' (σ.rollback p)) :
    Φ.wpx (call c) Q E g s := by
  intro p o σ γ r σ' hinv hg ha hp
  refine ⟨hsafe p o σ γ hinv hg ha, ?_⟩
  obtain ⟨e, rfl, rfl, -⟩ | ⟨v, rfl, hx, hf⟩ | ⟨v, σ₁, rfl, hx, hf, rfl⟩ := perform_cases hp
  · exact herr p o σ γ e hinv hg ha hp
  · exact hok p o σ γ v σ' hinv hg ha hx hf
  · exact hlost p o σ γ v σ₁ hinv hg ha hx hf hp

/-- When a call throws, the invariant holds for what `drop` keeps of the ghost value of its
program. -/
def Drops (Φ : Protocol (proxy http)) (drop : Φ.Ghost → Φ.Ghost) : Prop :=
  ∀ p o σ c e σ₀ γ, Φ.allows p σ c o → perform p o σ c = some (.error e, σ₀.rollback p) →
    Φ.inv σ₀ γ → Φ.inv (σ₀.rollback p) (update γ p (drop (γ p)))

/-- A call of a protocol all of whose calls are safe, and in which a throwing call leaves its
program with what `drop` keeps. -/
theorem wpx_call_of_drops (hΦ : Drops Φ drop) {c : Await} {Q : c.Val → Φ.Ghost → Backend → Prop}
    (hsafe : ∀ p σ o, Φ.safe p σ c o)
    (hok : ∀ p o σ γ v σ', Φ.inv σ γ → γ p = g → Φ.allows p σ c o →
      exec p o σ c = some (.ok (v, σ')) →
      ∃ g', Φ.inv σ' (update γ p g') ∧ Q v g' σ' ∧ ∀ σ'', E .unavailable (drop g') σ'')
    (herr : ∀ e σ, E e (drop g) σ) : Φ.wpx (call c) Q E g s := by
  refine wpx_call (fun p o σ _ _ _ _ => hsafe p σ o) (fun p o σ γ v σ' hinv hg ha hx _ => ?_)
    (fun p o σ γ v σ' hinv hg ha hx _ hp => ?_) fun p o σ γ e hinv hg ha hp => ?_
  · obtain ⟨g', hinv', hQ, -⟩ := hok p o σ γ v σ' hinv hg ha hx
    exact ⟨g', hinv', hQ⟩
  · obtain ⟨g', hinv', -, hE⟩ := hok p o σ γ v σ' hinv hg ha hx
    refine ⟨drop g', ?_, hE _⟩
    have := hΦ p o σ c .unavailable σ' _ ha hp hinv'
    rwa [update_self, update_idem] at this
  · refine ⟨drop g, ?_, herr e _⟩
    have := hΦ p o σ c e σ γ ha hp hinv
    rwa [hg] at this

/-- A call that leaves the invariant alone, whatever the program owns. -/
theorem wpx_frame (hΦ : Drops Φ drop) {c : Await} {Q : c.Val → Φ.Ghost → Backend → Prop}
    (hsafe : ∀ p σ o, Φ.safe p σ c o)
    (hframe : ∀ p o σ γ v σ', Φ.inv σ γ → exec p o σ c = some (.ok (v, σ')) → Φ.inv σ' γ)
    (hQ : ∀ v σ, Q v g σ) (hE : ∀ e σ, E e (drop g) σ) : Φ.wpx (call c) Q E g s := by
  refine wpx_call_of_drops hΦ hsafe
    (fun p o σ γ v σ' hinv hg _ hx => ⟨g, ?_, hQ v σ', hE _⟩) hE
  rw [← hg, update_eq_self]
  exact hframe p o σ γ v σ' hinv hx

/-! ### Functions that keep a property of what they own -/

/-- The function, started with something that satisfies `I`, ends so, whether it returns or
throws. -/
def Keeps (Φ : Protocol (proxy http)) (I : Φ.Ghost → Prop) (P : Async α) : Prop :=
  ∀ g s, I g → Φ.wpx P (fun _ g' _ => I g') (fun _ g' _ => I g') g s

/-- A function each of whose calls keeps the property. -/
theorem Keeps.of_uses {I : Φ.Ghost → Prop} {p : Await → Prop} {P : Async α} (hP : P.run.Uses p)
    (hcall : ∀ c, p c → Keeps Φ I (call c)) : Keeps Φ I P := by
  refine fun g s hg => Protocol.wp_of_uses_of_await hP (fun c g s hc hg => ?_) hg fun r g s hg => ?_
  · refine Protocol.wp_mono (hcall c hc g s hg) fun r g s hr => ?_
    cases r with
    | ok a => exact hr
    | error e => exact hr
  · cases r with
    | ok a => exact hg
    | error e => exact hg

end LongRequestProxy
