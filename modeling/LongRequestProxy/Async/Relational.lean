import LongRequestProxy.Async.Pool
import Mathlib.Data.List.Forall2

/-!
# Runs that look alike

Two programs are related when they make calls that correspond, and remain related after replies
that correspond; which calls and replies do is a parameter. When the servers answer calls that
correspond with replies that correspond, every run of a pool has a counterpart: another run of the
same service whose programs are related, one by one, to those of the first.

## Main definitions

* `Prog.Links`, `Prog.Related`: programs that make corresponding calls.
* `Service.Similarity`: stores, requests and calls that correspond, and what the servers guarantee.
* `Service.Similarity.Similar`: pools that look alike.

## Main results

* `Prog.Related.bind`, `Prog.RelatedExcept.bind`, `Prog.RelatedExcept.tryCatch`: the rules for
  compound programs.
* `Service.Similarity.run`: every run has a counterpart.
-/

namespace LongRequestProxy.Async

namespace Prog

variable {C : Type} {R : C → Type} {α β γ δ ε : Type}

/-- Which calls correspond, and which replies to them then do. -/
abbrev Links (C : Type) (R : C → Type) : Type := (x y : C) → (R x → R y → Prop) → Prop

/-- The programs make calls that correspond, and return values that `A` relates. -/
inductive Related (L : Links C R) (A : α → β → Prop) : Prog C R α → Prog C R β → Prop
  | ret {a : α} {b : β} (h : A a b) : Related L A (.ret a) (.ret b)
  | call {x y : C} {V : R x → R y → Prop} {k : R x → Prog C R α} {l : R y → Prog C R β}
      (hlink : L x y V) (hk : ∀ r s, V r s → Related L A (k r) (l s)) :
      Related L A (.call x k) (.call y l)

namespace Related

variable {L : Links C R} {A : α → β → Prop} {B : γ → δ → Prop} {P : Prog C R α} {Q : Prog C R β}

theorem mono {A' : α → β → Prop} (h : Related L A P Q) (hA : ∀ a b, A a b → A' a b) :
    Related L A' P Q := by
  induction h with
  | ret h => exact .ret (hA _ _ h)
  | call hlink _ ih => exact .call hlink ih

/-- Sequencing. -/
theorem bind {f : α → Prog C R γ} {g : β → Prog C R δ} (h : Related L A P Q)
    (hfg : ∀ a b, A a b → Related L B (f a) (g b)) : Related L B (P >>= f) (Q >>= g) := by
  induction h with
  | ret h => exact hfg _ _ h
  | call hlink _ ih => exact .call hlink ih

/-- A program whose calls all correspond to themselves is related to itself. -/
theorem of_uses {A : α → α → Prop} {p : C → Prop} {P : Prog C R α} (hP : P.Uses p)
    (hp : ∀ x, p x → L x x Eq) (hA : ∀ a, A a a) : Related L A P P := by
  induction P with
  | ret a => exact .ret (hA a)
  | call x k ih =>
    refine .call (hp x hP.1) ?_
    rintro r _ rfl
    exact ih r (hP.2 r)

end Related

/-! ### Programs that throw -/

/-- Two outcomes: values that `A` relates, or the same error. -/
inductive Agree (A : α → β → Prop) : Except ε α → Except ε β → Prop
  | ok {a : α} {b : β} (h : A a b) : Agree A (.ok a) (.ok b)
  | error (e : ε) : Agree A (.error e) (.error e)

/-- Related programs that throw the same errors. -/
def RelatedExcept (L : Links C R) (A : α → β → Prop) (P : ExceptT ε (Prog C R) α)
    (Q : ExceptT ε (Prog C R) β) : Prop := Related L (Agree A) P.run Q.run

namespace RelatedExcept

variable {L : Links C R} {A : α → β → Prop} {B : γ → δ → Prop} {P : ExceptT ε (Prog C R) α}
  {Q : ExceptT ε (Prog C R) β}

theorem pure {a : α} {b : β} (h : A a b) :
    RelatedExcept L A (pure a : ExceptT ε (Prog C R) α) (pure b) := .ret (.ok h)

theorem throw (e : ε) :
    RelatedExcept L A (throw e : ExceptT ε (Prog C R) α) (throw e) := .ret (.error e)

/-- Sequencing. -/
theorem bind {f : α → ExceptT ε (Prog C R) γ} {g : β → ExceptT ε (Prog C R) δ}
    (h : RelatedExcept L A P Q) (hfg : ∀ a b, A a b → RelatedExcept L B (f a) (g b)) :
    RelatedExcept L B (P >>= f) (Q >>= g) := by
  unfold RelatedExcept
  rw [ExceptT.run_bind, ExceptT.run_bind]
  refine Related.bind h fun r s hrs => ?_
  cases hrs with
  | ok hab => exact hfg _ _ hab
  | error e => exact .ret (.error e)

theorem tryCatch {f : ε → ExceptT ε (Prog C R) α} {g : ε → ExceptT ε (Prog C R) β}
    (h : RelatedExcept L A P Q) (hfg : ∀ e, RelatedExcept L A (f e) (g e)) :
    RelatedExcept L A (tryCatch P f) (tryCatch Q g) := by
  unfold RelatedExcept
  rw [ExceptT.run_tryCatch, ExceptT.run_tryCatch]
  refine Related.bind h fun r s hrs => ?_
  cases hrs with
  | ok hab => exact .ret (.ok hab)
  | error e => exact hfg e

/-- A program whose calls all correspond to themselves is related to itself. -/
theorem of_uses {A : α → α → Prop} {p : C → Prop} {P : ExceptT ε (Prog C R) α} (hP : P.run.Uses p)
    (hp : ∀ x, p x → L x x Eq) (hA : ∀ a, A a a) : RelatedExcept L A P P := by
  refine Related.of_uses hP hp fun r => ?_
  cases r with
  | ok a => exact .ok (hA a)
  | error e => exact .error e

end RelatedExcept

end Prog

namespace Service

/-- What corresponds in two runs of one service, and what its servers guarantee about it. -/
structure Similarity (S : Service) : Type where
  /-- The calls and replies that correspond. -/
  links : Prog.Links S.Call S.Reply
  /-- The stores that correspond. -/
  stores : S.Store → S.Store → Prop
  /-- The requests that correspond. -/
  requests : S.Request → S.Request → Prop
  exists_request : ∀ req, ∃ req', requests req req'
  admits : ∀ {s s' req req'}, stores s s' → requests req req' → S.admits s req = true →
    S.admits s' req' = true
  body : ∀ {req req'}, requests req req' →
    Prog.Related links Eq (S.body req) (S.body req')
  perform : ∀ {p o s s' x y V r t}, stores s s' → links x y V → S.perform p o s x = some (r, t) →
    ∃ o' r' t', S.perform p o' s' y = some (r', t') ∧ V r r' ∧ stores t t'
  abort : ∀ {s s'}, stores s s' → ∀ p, stores (S.abort p s) (S.abort p s')
  ambient : ∀ {s s' a t}, stores s s' → S.ambient a s = some t →
    ∃ t', S.ambient a s' = some t' ∧ stores t t'

namespace Similarity

variable {S : Service} (M : Similarity S)

/-- Two programs of a pool that look alike. -/
inductive SimilarProc : S.Proc → S.Proc → Prop
  | running {req req' : S.Request} {P Q : Prog S.Call S.Reply S.Answer}
      (hreq : M.requests req req') (h : Prog.Related M.links Eq P Q) :
      SimilarProc (.running req P) (.running req' Q)
  | crashed {req req' : S.Request} (hreq : M.requests req req') :
      SimilarProc (.crashed req) (.crashed req')

/-- Two pools that look alike, program by program. -/
structure Similar (c c' : S.Config) : Prop where
  store : M.stores c.store c'.store
  procs : List.Forall₂ M.SimilarProc c.procs c'.procs

variable {M} {c c' d : S.Config}

namespace Similar

theorem proc (h : M.Similar c c') {p : ℕ} {pr : S.Proc} (hp : c.procs[p]? = some pr) :
    ∃ pr', c'.procs[p]? = some pr' ∧ M.SimilarProc pr pr' := by
  obtain ⟨hlt, rfl⟩ := List.getElem?_eq_some_iff.mp hp
  have hlt' : p < c'.procs.length := h.procs.length_eq ▸ hlt
  exact ⟨_, List.getElem?_eq_getElem hlt', h.procs.get hlt hlt'⟩

/-- Programs that have returned have returned the same. -/
theorem returned_iff (h : M.Similar c c') (p : ℕ) (a : S.Answer) :
    (∃ req, c.Returned p req a) ↔ ∃ req', c'.Returned p req' a := by
  constructor
  · rintro ⟨req, hret⟩
    obtain ⟨_, hp, hproc⟩ := h.proc hret
    cases hproc with
    | running _ hrel =>
      cases hrel with
      | ret heq => exact ⟨_, heq ▸ hp⟩
  · rintro ⟨req', hret⟩
    obtain ⟨hlt, hp⟩ := List.getElem?_eq_some_iff.mp hret
    have hlt' : p < c.procs.length := h.procs.length_eq ▸ hlt
    have hproc := h.procs.get hlt' hlt
    rw [List.get_eq_getElem, List.get_eq_getElem, hp] at hproc
    cases hq : c.procs[p] with
    | crashed req => rw [hq] at hproc; cases hproc
    | running req P =>
      rw [hq] at hproc
      cases hproc with
      | running _ hrel =>
        cases hrel with
        | ret heq => exact ⟨req, List.getElem?_eq_some_iff.mpr ⟨hlt', heq ▸ hq⟩⟩

/-- Programs in flight await calls that correspond. -/
theorem running (h : M.Similar c c') {p : ℕ} {req : S.Request} {x : S.Call}
    {k : S.Reply x → Prog S.Call S.Reply S.Answer}
    (hp : c.procs[p]? = some (.running req (.call x k))) :
    ∃ req' y V l, M.requests req req' ∧ M.links x y V ∧
      (∀ r s, V r s → Prog.Related M.links Eq (k r) (l s)) ∧
      c'.procs[p]? = some (.running req' (.call y l)) := by
  obtain ⟨_, hp', hproc⟩ := h.proc hp
  cases hproc with
  | running hreq h =>
    cases h with
    | call hlink hk => exact ⟨_, _, _, _, hreq, hlink, hk, hp'⟩

theorem set (h : M.Similar c c') {s s' : S.Store} (hs : M.stores s s') {pr pr' : S.Proc}
    (hpr : M.SimilarProc pr pr') (p : ℕ) :
    M.Similar ⟨s, c.procs.set p pr⟩ ⟨s', c'.procs.set p pr'⟩ where
  store := hs
  procs := by
    refine List.forall₂_iff_get.mpr ⟨?_, fun i hi hi' => ?_⟩
    · simpa using h.procs.length_eq
    · simp only [List.get_eq_getElem, List.getElem_set]
      split
      · exact hpr
      · exact h.procs.get (by simpa using hi) (by simpa using hi')

/-- **A move has a counterpart.** -/
theorem move (h : M.Similar c c') {m : S.Move} (hm : c.move m = some d) :
    ∃ m' d', c'.move m' = some d' ∧ M.Similar d d' := by
  obtain ⟨req, rfl, hadmits, rfl⟩ | ⟨p, o, req, x, k, r, t, rfl, hp, hx, rfl⟩ |
    ⟨p, req, x, k, rfl, hp, rfl⟩ | ⟨a, t, rfl, ha, rfl⟩ := Config.move_cases hm
  · obtain ⟨req', hreq⟩ := M.exists_request req
    refine ⟨.spawn req', { c' with procs := c'.procs ++ [.running req' (S.body req')] }, ?_,
      h.store, List.rel_append h.procs (.cons (.running hreq (M.body hreq)) .nil)⟩
    simp only [Config.move, M.admits h.store hreq hadmits, if_true]
  · obtain ⟨req', y, V, l, hreq, hlink, hk, hp'⟩ := h.running hp
    obtain ⟨o', r', t', hy, hV, ht⟩ := M.perform h.store hlink hx
    refine ⟨.call p o', ⟨t', c'.procs.set p (.running req' (l r'))⟩, ?_,
      h.set ht (.running hreq (hk r r' hV)) p⟩
    simp only [Config.move, hp', hy]
    rfl
  · obtain ⟨req', y, V, l, hreq, -, -, hp'⟩ := h.running hp
    refine ⟨.crash p, ⟨S.abort p c'.store, c'.procs.set p (.crashed req')⟩, ?_,
      h.set (M.abort h.store p) (.crashed hreq) p⟩
    simp only [Config.move, hp']
  · obtain ⟨t', ha', ht⟩ := M.ambient h.store ha
    refine ⟨.ambient a, { c' with store := t' }, ?_, ht, h.procs⟩
    simp only [Config.move, ha']
    rfl

end Similar

/-- **Every run has a counterpart**, which looks alike all along. -/
theorem run {allow : S.Config → S.Move → Prop} {l : List S.Config} (h : M.Similar c c')
    (hl : List.IsChain (Moves allow) (c :: l)) :
    ∃ l', List.IsChain (Moves fun _ _ => True) (c' :: l') ∧ List.Forall₂ M.Similar l l' := by
  induction l generalizing c c' with
  | nil => exact ⟨[], .singleton _, .nil⟩
  | cons d l ih =>
    obtain ⟨⟨m, -, hm⟩, hl⟩ := List.isChain_cons_cons.mp hl
    obtain ⟨m', d', hm', hd⟩ := h.move hm
    obtain ⟨l', hl', hsimilar⟩ := ih hd hl
    exact ⟨d' :: l', .cons_cons ⟨m', trivial, hm'⟩ hl', .cons hd hsimilar⟩

end Similarity

end Service

end LongRequestProxy.Async
