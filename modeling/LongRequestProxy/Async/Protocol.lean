import LongRequestProxy.Async.Pool
import Mathlib.Logic.Pairwise

/-!
# Ghost protocols for pools of asynchronous programs

A fact about all interleavings of a pool is proved program by program. A `Protocol` gives each
program a ghost value (what the program currently owns: a lock it holds, a write it still owes)
and states an invariant of the store and of all ghost values together. A program is *verified*
by `Protocol.wp`, its weakest precondition under arbitrary interference: at every call the
invariant holds of whatever store the other programs have left behind; the call must be safe
there, and must re-establish the invariant for some new ghost value of the calling program alone.
The program's own ghost value is all it remembers across a call; its post-condition sees the
store of the moment at which it returns.

## Main definitions

* `Protocol`, `Protocol.wp`: ghost protocols and verified programs.
* `Protocol.Covers`: a protocol that is sound for the runs permitted by `allow`.
* `Protocol.Good`: what a protocol guarantees of a configuration of the pool.

## Main results

* `Protocol.wp_bind`, `Protocol.wpx_seq`, `Protocol.wpx_tryCatch`, `Protocol.wp_mono`: the rules
  for compound programs.
* `Protocol.wp_of_uses`, `Protocol.wp_of_uses_of_await`: programs verified call by call.
* `Protocol.Covers.reaches`: every reachable configuration is good.
* `Protocol.Covers.safe`: every call of a run is safe where it is made.
* `Protocol.Covers.returns`: a program that returns satisfies its post-condition at that moment.
-/

namespace LongRequestProxy.Async

open Function Service

/-- A ghost value for each program, the invariant that relates them to the store, the calls that
the protocol reckons with, and what makes a call safe. -/
structure Protocol (S : Service) where
  /-- What a program can own. -/
  Ghost : Type
  /-- The ghost value of a program that has not started, or has just started. -/
  idle : Ghost
  /-- The ghost value of a program that was killed. -/
  dead : Ghost
  /-- The invariant of the store and of the ghost values of all programs. -/
  inv : S.Store → (ℕ → Ghost) → Prop
  /-- The calls of a program, in a store, that the protocol reckons with. -/
  allows : ℕ → S.Store → S.Call → S.Oracle → Prop
  /-- What the program with the given number must make sure of before it makes a call. -/
  safe : ℕ → S.Store → S.Call → S.Oracle → Prop

namespace Protocol

variable {S : Service} (Φ : Protocol S) {α β ε : Type}

/-- A program verified against the protocol, from ghost value `g`: every call, made in a store
with the invariant, is safe and re-establishes the invariant for a new ghost value of the caller.
The store argument is the one in which the program starts; only a program that returns at once
looks at it. -/
def wp : Prog S.Call S.Reply α → (α → Φ.Ghost → S.Store → Prop) → Φ.Ghost → S.Store → Prop
  | .ret a, Q, g, s => Q a g s
  | .call x k, Q, g, _ => ∀ p o s γ r s', Φ.inv s γ → γ p = g → Φ.allows p s x o →
      S.perform p o s x = some (r, s') →
      Φ.safe p s x o ∧ ∃ g', Φ.inv s' (update γ p g') ∧ wp (k r) Q g' s'

variable {Φ} {Q Q' : α → Φ.Ghost → S.Store → Prop} {g : Φ.Ghost} {s : S.Store}

@[simp] theorem wp_ret (a : α) : Φ.wp (.ret a) Q g s ↔ Q a g s := Iff.rfl

theorem wp_mono {P : Prog S.Call S.Reply α} (h : Φ.wp P Q g s)
    (hQ : ∀ a g s, Q a g s → Q' a g s) : Φ.wp P Q' g s := by
  induction P generalizing g s with
  | ret a => exact hQ a g s h
  | call x k ih =>
    intro p o s γ r s' hinv hg ha hp
    obtain ⟨hsafe, g', hinv', hk⟩ := h p o s γ r s' hinv hg ha hp
    exact ⟨hsafe, g', hinv', ih r hk⟩

theorem wp_bind {P : Prog S.Call S.Reply α} {f : α → Prog S.Call S.Reply β}
    {Q : β → Φ.Ghost → S.Store → Prop} (h : Φ.wp P (fun a g s => Φ.wp (f a) Q g s) g s) :
    Φ.wp (P >>= f) Q g s := by
  induction P generalizing g s with
  | ret a => exact h
  | call x k ih =>
    intro p o s γ r s' hinv hg ha hp
    obtain ⟨hsafe, g', hinv', hk⟩ := h p o s γ r s' hinv hg ha hp
    exact ⟨hsafe, g', hinv', ih r hk⟩

/-- A throwing program is verified for its value with `Q` and for its error with `E`. -/
def wpx (Φ : Protocol S) (P : ExceptT ε (Prog S.Call S.Reply) α)
    (Q : α → Φ.Ghost → S.Store → Prop) (E : ε → Φ.Ghost → S.Store → Prop) :
    Φ.Ghost → S.Store → Prop :=
  Φ.wp P.run fun r g s => match r with
    | .ok a => Q a g s
    | .error e => E e g s

variable {E E' : ε → Φ.Ghost → S.Store → Prop}

@[simp] theorem wpx_pure (a : α) : Φ.wpx (pure a) Q E g s ↔ Q a g s := Iff.rfl

@[simp] theorem wpx_throw (e : ε) :
    Φ.wpx (throw e : ExceptT ε (Prog S.Call S.Reply) α) Q E g s ↔ E e g s := Iff.rfl

theorem wpx_mono {P : ExceptT ε (Prog S.Call S.Reply) α} (h : Φ.wpx P Q E g s)
    (hQ : ∀ a g s, Q a g s → Q' a g s) (hE : ∀ e g s, E e g s → E' e g s) :
    Φ.wpx P Q' E' g s := by
  refine wp_mono h fun r g s hr => ?_
  cases r with
  | ok a => exact hQ a g s hr
  | error e => exact hE e g s hr

theorem wpx_bind {P : ExceptT ε (Prog S.Call S.Reply) α}
    {f : α → ExceptT ε (Prog S.Call S.Reply) β} {Q : β → Φ.Ghost → S.Store → Prop}
    (h : Φ.wpx P (fun a g s => Φ.wpx (f a) Q E g s) E g s) : Φ.wpx (P >>= f) Q E g s := by
  unfold wpx
  rw [ExceptT.run_bind]
  refine wp_bind (wp_mono h fun r g s hr => ?_)
  cases r with
  | ok a => exact hr
  | error e => exact hr

/-- Sequencing by an intermediate post-condition. -/
theorem wpx_seq {P : ExceptT ε (Prog S.Call S.Reply) α}
    {f : α → ExceptT ε (Prog S.Call S.Reply) β} {M : α → Φ.Ghost → S.Store → Prop}
    {Q : β → Φ.Ghost → S.Store → Prop} (h : Φ.wpx P M E g s)
    (hf : ∀ a g s, M a g s → Φ.wpx (f a) Q E g s) : Φ.wpx (P >>= f) Q E g s :=
  wpx_bind (wpx_mono h hf fun _ _ _ he => he)

theorem wpx_tryCatch {P : ExceptT ε (Prog S.Call S.Reply) α}
    {f : ε → ExceptT ε (Prog S.Call S.Reply) α}
    (h : Φ.wpx P Q (fun e g s => Φ.wpx (f e) Q E g s) g s) :
    Φ.wpx (tryCatch P f) Q E g s := by
  unfold wpx
  rw [ExceptT.run_tryCatch]
  refine wp_bind (wp_mono h fun r g s hr => ?_)
  cases r with
  | ok a => exact hr
  | error e => exact hr

/-- A program whose calls re-establish the invariant without any ghost value of its own. -/
theorem wp_of_uses {p : S.Call → Prop} {P : Prog S.Call S.Reply α} (hP : P.Uses p)
    (hcall : ∀ q o s γ x r s', p x → Φ.inv s γ → γ q = g → Φ.allows q s x o →
      S.perform q o s x = some (r, s') → Φ.safe q s x o ∧ Φ.inv s' (update γ q g))
    (hQ : ∀ a s, Q a g s) : Φ.wp P Q g s := by
  induction P generalizing s with
  | ret a => exact hQ a s
  | call x k ih =>
    intro q o s γ r s' hinv hg ha hp
    obtain ⟨hsafe, hinv'⟩ := hcall q o s γ x r s' hP.1 hinv hg ha hp
    exact ⟨hsafe, g, hinv', ih r (hP.2 r)⟩

/-- A program each of whose calls keeps a property of the ghost value of its caller. -/
theorem wp_of_uses_of_await {p : S.Call → Prop} {I : Φ.Ghost → Prop} {P : Prog S.Call S.Reply α}
    (hP : P.Uses p) (hcall : ∀ x g s, p x → I g → Φ.wp (.await x) (fun _ g' _ => I g') g s)
    (hg : I g) (hQ : ∀ a g s, I g → Q a g s) : Φ.wp P Q g s := by
  induction P generalizing g s with
  | ret a => exact hQ a g s hg
  | call x k ih =>
    intro p o s γ r s' hinv hγ ha hp
    obtain ⟨hsafe, g', hinv', hg'⟩ := hcall x g s hP.1 hg p o s γ r s' hinv hγ ha hp
    exact ⟨hsafe, g', hinv', ih r (hP.2 r) hg'⟩

/-- A relation between the ghost values of different programs, when that of one program changes. -/
theorem pairwise_update {γ : ℕ → β} {R : β → β → Prop} {p : ℕ} {b : β}
    (hsymm : ∀ x y, R x y → R y x) (h : Pairwise fun q q' => R (γ q) (γ q'))
    (hp : ∀ q, q ≠ p → R b (γ q)) : Pairwise fun q q' => R (update γ p b q) (update γ p b q') := by
  intro q q' hne
  by_cases hq : q = p
  · subst hq
    rw [update_self, update_of_ne hne.symm]
    exact hp q' hne.symm
  · by_cases hq' : q' = p
    · subst hq'
      rw [update_self, update_of_ne hq]
      exact hsymm _ _ (hp q hq)
    · rw [update_of_ne hq, update_of_ne hq']
      exact h hne

/-! ### Soundness over runs -/

variable (Φ) (post : S.Request → S.Answer → Φ.Ghost → S.Store → Prop)

/-- What the protocol guarantees of a program of the pool: a running one is verified from its
ghost value. -/
def ProcGood (g : Φ.Ghost) : Option S.Proc → Prop
  | some (.running req P) => ∃ s, Φ.wp P (post req) g s
  | some (.crashed _) => g = Φ.dead
  | none => g = Φ.idle

/-- The invariant holds for ghost values from which every program of the pool is verified. -/
structure Good (c : S.Config) (γ : ℕ → Φ.Ghost) : Prop where
  inv : Φ.inv c.store γ
  procs : ∀ p, Φ.ProcGood post (γ p) c.procs[p]?

/-- The protocol covers the runs permitted by `allow`. -/
structure Covers (allow : S.Config → S.Move → Prop) : Prop where
  /-- Every program that a request starts is verified. -/
  body : ∀ c req, allow c (.spawn req) → S.admits c.store req = true →
    ∀ s, Φ.wp (S.body req) (post req) Φ.idle s
  /-- The calls of permitted moves are the ones that the protocol reckons with. -/
  calls : ∀ c p o req x k, allow c (.call p o) → c.procs[p]? = some (.running req (.call x k)) →
    Φ.allows p c.store x o
  /-- A killed program can give up what it owns. -/
  crash : ∀ c p γ, allow c (.crash p) → Φ.inv c.store γ →
    Φ.inv (S.abort p c.store) (update γ p Φ.dead)
  /-- Outside changes preserve the invariant. -/
  ambient : ∀ c a s' γ, allow c (.ambient a) → Φ.Good post c γ →
    S.ambient a c.store = some s' → Φ.inv s' γ

variable {Φ post} {allow : S.Config → S.Move → Prop} {c c' : S.Config} {γ : ℕ → Φ.Ghost}

theorem Good.of_no_procs {st : S.Store} (h : Φ.inv st fun _ => Φ.idle) :
    Φ.Good post ⟨st, []⟩ fun _ => Φ.idle :=
  ⟨h, fun _ => rfl⟩

/-- A running program is verified from its ghost value. -/
theorem Good.running (h : Φ.Good post c γ) {p : ℕ} {req : S.Request}
    {P : Prog S.Call S.Reply S.Answer} (hp : c.procs[p]? = some (.running req P)) :
    ∃ s, Φ.wp P (post req) (γ p) s := by
  have hproc := h.procs p
  rwa [hp] at hproc

/-- A program that owns something is in flight, or has returned with a post-condition that
lets it keep it. -/
theorem Good.inFlight_or_returned (h : Φ.Good post c γ) {p : ℕ} (hp : γ p ≠ Φ.idle)
    (hdead : γ p ≠ Φ.dead) :
    c.InFlight p ∨ ∃ req a s, c.Returned p req a ∧ post req a (γ p) s := by
  have hproc := h.procs p
  cases hc : c.procs[p]? with
  | none => rw [hc] at hproc; exact absurd hproc hp
  | some pr =>
    rw [hc] at hproc
    cases pr with
    | crashed req => exact absurd hproc hdead
    | running req P =>
      cases P with
      | ret a =>
        obtain ⟨s, hs⟩ := hproc
        exact .inr ⟨req, a, s, hc, hs⟩
      | call x k => exact .inl ⟨req, x, k, hc⟩

private theorem getElem?_set_update {γ : ℕ → Φ.Ghost} {p : ℕ} {g : Φ.Ghost} {pr pr' : S.Proc}
    (hp : c.procs[p]? = some pr) (hpr : Φ.ProcGood post g (some pr'))
    (h : ∀ q, Φ.ProcGood post (γ q) c.procs[q]?) (q : ℕ) :
    Φ.ProcGood post (update γ p g q) (c.procs.set p pr')[q]? := by
  obtain ⟨hlt, -⟩ := List.getElem?_eq_some_iff.mp hp
  by_cases hq : p = q
  · subst hq
    rwa [update_self, List.getElem?_set_self hlt]
  · rw [update_of_ne (Ne.symm hq), List.getElem?_set_ne hq]
    exact h q

namespace Covers

variable (hΦ : Φ.Covers post allow)
include hΦ

/-- One call of a good configuration: it is safe, and the caller has a next ghost value from
which the rest of its program is verified in the store it leaves. -/
theorem call (hc : Φ.Good post c γ) {p : ℕ} {o : S.Oracle} {req : S.Request} {x : S.Call}
    {k : S.Reply x → Prog S.Call S.Reply S.Answer} {r : S.Reply x} {s' : S.Store}
    (ha : allow c (.call p o)) (hp : c.procs[p]? = some (.running req (.call x k)))
    (hs : S.perform p o c.store x = some (r, s')) :
    Φ.safe p c.store x o ∧ ∃ g', Φ.inv s' (update γ p g') ∧ Φ.wp (k r) (post req) g' s' := by
  obtain ⟨s, hwp⟩ := hc.running hp
  exact hwp p o c.store γ r s' hc.inv rfl (hΦ.calls c p o req x k ha hp) hs

/-- **Step rule.** A permitted move takes good configurations to good configurations. -/
theorem move (hc : Φ.Good post c γ) {m : S.Move} (ha : allow c m) (hm : c.move m = some c') :
    ∃ γ', Φ.Good post c' γ' := by
  obtain ⟨req, rfl, had, rfl⟩ | ⟨p, o, req, x, k, r, s', rfl, hp, hs, rfl⟩ |
    ⟨p, req, x, k, rfl, hp, rfl⟩ | ⟨a, s', rfl, hs, rfl⟩ := Config.move_cases hm
  · refine ⟨γ, hc.inv, fun p => ?_⟩
    have hproc := hc.procs p
    rcases Nat.lt_trichotomy p c.procs.length with hlt | rfl | hgt
    · rwa [List.getElem?_append_left hlt]
    · rw [List.getElem?_eq_none (Nat.le_refl _)] at hproc
      rw [List.getElem?_append_right (Nat.le_refl _), Nat.sub_self]
      have hidle : γ c.procs.length = Φ.idle := hproc
      exact ⟨c.store, hidle ▸ hΦ.body c req ha had c.store⟩
    · rw [List.getElem?_eq_none (Nat.le_of_lt hgt)] at hproc
      rwa [List.getElem?_eq_none (by simpa using Nat.succ_le_of_lt hgt)]
  · obtain ⟨-, g', hinv', hk⟩ := hΦ.call hc ha hp hs
    exact ⟨update γ p g', hinv', getElem?_set_update hp ⟨s', hk⟩ hc.procs⟩
  · exact ⟨update γ p Φ.dead, hΦ.crash c p γ ha hc.inv, getElem?_set_update hp rfl hc.procs⟩
  · exact ⟨γ, hΦ.ambient c a s' γ ha hc hs, hc.procs⟩

/-- **Run rule.** Every configuration that a permitted run reaches is good. -/
theorem reaches (hc : Φ.Good post c γ) (h : Reaches allow c c') : ∃ γ', Φ.Good post c' γ' :=
  Reaches.invariant (I := fun d => ∃ γ, Φ.Good post d γ)
    (fun _ _ _ ⟨_, hd⟩ ha hm => hΦ.move hd ha hm) h ⟨γ, hc⟩

/-- **Safety rule.** A call that is made in a good configuration is safe there. -/
theorem safe (hc : Φ.Good post c γ) {m : S.Move} (ha : allow c m) {p : ℕ} {o : S.Oracle}
    {x : S.Call} (hx : c.callOf m = some (p, o, x)) (hm : c.move m = some c') :
    Φ.safe p c.store x o := by
  obtain ⟨r, hs⟩ := Config.perform_of_callOf hx hm
  obtain ⟨rfl, req, k, hp⟩ := Config.callOf_eq_some.mp hx
  exact (hΦ.call hc ha hp hs).1

/-- **Return rule.** A program that returns with a call satisfies its post-condition in the
store which that call leaves. -/
theorem returns (hc : Φ.Good post c γ) {p : ℕ} {o : S.Oracle} {req : S.Request} {a : S.Answer}
    (ha : allow c (.call p o)) (hm : c.move (.call p o) = some c') (hret : c'.Returned p req a) :
    ∃ γ', Φ.Good post c' γ' ∧ post req a (γ' p) c'.store := by
  obtain ⟨_, hspawn, -⟩ | ⟨q, o', req', x, k, r, s', hcall, hp, hs, rfl⟩ | ⟨_, _, _, _, hcr, -⟩ |
    ⟨_, _, ham, -⟩ := Config.move_cases hm
  · cases hspawn
  · cases hcall
    obtain ⟨-, g', hinv', hk⟩ := hΦ.call hc ha hp hs
    obtain ⟨hlt, -⟩ := List.getElem?_eq_some_iff.mp hp
    refine ⟨update γ p g', ⟨hinv', getElem?_set_update hp ⟨s', hk⟩ hc.procs⟩, ?_⟩
    simp only [Config.Returned, List.getElem?_set_self hlt, Option.some.injEq,
      Proc.running.injEq] at hret
    obtain ⟨rfl, hkr⟩ := hret
    rw [hkr] at hk
    simpa using hk
  · cases hcr
  · cases ham

end Covers

end Protocol

end LongRequestProxy.Async
