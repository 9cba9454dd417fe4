import LongRequestProxy.Async.Pool
import Mathlib.Logic.Hydra

/-!
# Completing a pool

When can all programs of a pool that are in flight be brought to their end, with no new request?
Programs are well-founded trees, so it is enough that some program in flight can always go on.
That follows when the programs that wait do so in order: each waits for one of lower rank.

## Main definitions

* `Prog.Resumes`: what a reply leaves of a program.
* `Service.CallsOnly allow`: the moves that make a call which `allow` permits.

## Main results

* `Service.wellFounded_resumes`: no program can be resumed forever.
* `Service.exists_ready_of_rank`: ordered waiting leaves a program that need not wait.
* `Service.not_cyclic_of_rank`: nobody waits for itself, not even through others.
* `Service.exists_quiescent`: a pool in which some program can always go on can be completed.
* `Service.reaches_of_runAlone`: a program that runs alone is a run of the pool.
* `Service.exists_alone`: with nothing in flight a request is served as its program runs alone.
-/

namespace LongRequestProxy.Async

namespace Prog

variable {C : Type} {R : C → Type} {α : Type}

/-- The first program is what a reply leaves of the second. -/
inductive Resumes : Prog C R α → Prog C R α → Prop
  | intro (c : C) (k : R c → Prog C R α) (r : R c) : Resumes (k r) (.call c k)

theorem acc_resumes (P : Prog C R α) : Acc Resumes P := by
  induction P with
  | ret a => exact ⟨_, fun Q hQ => by cases hQ⟩
  | call c k ih => exact ⟨_, fun Q hQ => by cases hQ with | intro _ _ r => exact ih r⟩

end Prog

namespace Service

variable {S : Service} {allow : S.Config → S.Move → Prop}

/-- A started program that a reply leaves of another. -/
inductive Proc.Resumes : S.Proc → S.Proc → Prop
  | running {req : S.Request} {P Q : Prog S.Call S.Reply S.Answer} (h : Prog.Resumes P Q) :
      Proc.Resumes (.running req P) (.running req Q)

/-- No program can be resumed forever. -/
theorem wellFounded_resumes : WellFounded (Proc.Resumes (S := S)) := by
  refine ⟨fun pr => ?_⟩
  cases pr with
  | crashed req => exact ⟨_, fun pr h => by cases h⟩
  | running req P =>
    induction P.acc_resumes with
    | intro P _ ih =>
      refine ⟨_, fun pr h => ?_⟩
      cases h with
      | running h => exact ih _ h

/-! ### Waiting in order -/

section Rank

variable {c : S.Config} {waits : ℕ → ℕ → Prop} {rank : ℕ → ℕ}

/-- If a program that is not ready waits for one of lower rank, then some program is ready. -/
theorem exists_ready_of_rank (rank : ℕ → ℕ) (ready : ℕ → Prop)
    (hwait : ∀ p, c.InFlight p → ready p ∨ ∃ q, c.InFlight q ∧ rank q < rank p)
    (h : ¬ c.Quiescent) : ∃ p, c.InFlight p ∧ ready p := by
  obtain ⟨p, hp⟩ : ∃ p, c.InFlight p := by
    by_contra hnone
    exact h fun p hp => hnone ⟨p, hp⟩
  generalize hn : rank p = n
  induction n using Nat.strong_induction_on generalizing p with
  | _ n ih =>
    obtain hready | ⟨q, hq, hlt⟩ := hwait p hp
    · exact ⟨p, hp, hready⟩
    · exact ih (rank q) (hn ▸ hlt) q hq rfl

/-- Along a chain of waiting programs the rank goes down. -/
theorem rank_lt_of_transGen (hwait : ∀ p q, waits p q → rank q < rank p) {p q : ℕ}
    (h : Relation.TransGen waits p q) : rank q < rank p := by
  induction h with
  | single hpq => exact hwait _ _ hpq
  | tail _ hqr ih => exact (hwait _ _ hqr).trans ih

/-- Nobody waits for itself, not even through others. -/
theorem not_cyclic_of_rank (hwait : ∀ p q, waits p q → rank q < rank p) (p : ℕ) :
    ¬ Relation.TransGen waits p p := fun h => lt_irrefl _ (rank_lt_of_transGen hwait h)

end Rank

/-! ### Completion -/

/-- The move makes a call, and `allow` permits it. -/
def CallsOnly (allow : S.Config → S.Move → Prop) (c : S.Config) (m : S.Move) : Prop :=
  (∃ p o, m = .call p o) ∧ allow c m

/-- A call leaves fewer programs to complete. -/
theorem cutExpand_of_call {c c' : S.Config} {p : ℕ} {o : S.Oracle}
    (h : c.move (.call p o) = some c') :
    Relation.CutExpand Proc.Resumes (c'.procs : Multiset S.Proc) (c.procs : Multiset S.Proc) := by
  obtain ⟨_, hspawn, -⟩ | ⟨q, o', req, x, k, r, s', hcall, hq, -, rfl⟩ | ⟨_, _, _, _, hcrash, -⟩ |
    ⟨_, _, hambient, -⟩ := Config.move_cases h
  · cases hspawn
  · obtain ⟨hlt, hget⟩ := List.getElem?_eq_some_iff.mp hq
    have hold : (c.procs : Multiset S.Proc) =
        (c.procs.eraseIdx q : Multiset S.Proc) + {.running req (.call x k)} := by
      rw [← hget, Multiset.add_comm, Multiset.singleton_add, Multiset.cons_coe]
      exact Multiset.coe_eq_coe.mpr (List.getElem_cons_eraseIdx_perm hlt).symm
    have hnew : (c.procs.set q (.running req (k r)) : Multiset S.Proc) =
        (c.procs.eraseIdx q : Multiset S.Proc) + {.running req (k r)} := by
      rw [Multiset.add_comm, Multiset.singleton_add, Multiset.cons_coe]
      exact Multiset.coe_eq_coe.mpr (List.set_perm_cons_eraseIdx hlt _)
    rw [hold, hnew]
    exact Relation.cutExpand_add_single _ (.running (.intro x k r))
  · cases hcrash
  · cases hambient

/-- **Completion.** When an invariant lets some program in flight go on, whenever there is one,
and is kept by that, then all programs can be brought to their end. -/
theorem exists_quiescent {I : S.Config → Prop}
    (hready : ∀ d, I d → ¬ d.Quiescent → ∃ p o d', allow d (.call p o) ∧
      d.move (.call p o) = some d' ∧ I d') {c : S.Config} (hc : I c) :
    ∃ c', Reaches (CallsOnly allow) c c' ∧ I c' ∧ c'.Quiescent := by
  have hwf : WellFounded fun d d' : S.Config =>
      Relation.CutExpand Proc.Resumes (d.procs : Multiset S.Proc) (d'.procs : Multiset S.Proc) :=
    InvImage.wf (fun d : S.Config => (d.procs : Multiset S.Proc)) wellFounded_resumes.cutExpand
  induction c using hwf.induction with
  | _ c ih =>
    by_cases hq : c.Quiescent
    · exact ⟨c, .refl, hc, hq⟩
    · obtain ⟨p, o, d, hallow, hm, hd⟩ := hready c hc hq
      obtain ⟨c', hreach, hI, hquiet⟩ := ih d (cutExpand_of_call hm) hd
      exact ⟨c', .head ⟨_, ⟨⟨p, o, rfl⟩, hallow⟩, hm⟩ hreach, hI, hquiet⟩

/-- **A program that runs alone** is a run of the pool, in which only this program goes on. -/
theorem reaches_of_runAlone {c : S.Config} {p : ℕ} {o : S.Oracle} {req : S.Request}
    {P : Prog S.Call S.Reply S.Answer} {a : S.Answer} {s : S.Store}
    (hallow : ∀ d : S.Config, allow d (.call p o)) (hp : c.procs[p]? = some (.running req P))
    (hrun : P.runAlone (S.perform p o) c.store = some (a, s)) :
    Reaches allow c ⟨s, c.procs.set p (.running req (.ret a))⟩ := by
  induction P generalizing c with
  | ret b =>
    cases hrun
    obtain ⟨hlt, hget⟩ := List.getElem?_eq_some_iff.mp hp
    rw [← hget, List.set_getElem_self]
    exact .refl
  | call x k ih =>
    obtain ⟨⟨r, s₁⟩, hx, hrest⟩ := Option.bind_eq_some_iff.mp hrun
    have hlt := (List.getElem?_eq_some_iff.mp hp).1
    have hm : c.move (.call p o) = some ⟨s₁, c.procs.set p (.running req (k r))⟩ := by
      simp only [Config.move, hp, hx]
      rfl
    have htail := ih r (c := ⟨s₁, c.procs.set p (.running req (k r))⟩)
      (List.getElem?_set_self hlt) hrest
    rw [List.set_set] at htail
    exact .head ⟨_, hallow c, hm⟩ htail

/-- With nothing in flight a request can be served: its program runs alone. -/
theorem exists_alone {c : S.Config} {o : S.Oracle} {req : S.Request} {a : S.Answer} {s : S.Store}
    (hc : c.Quiescent) (hadmits : S.admits c.store req = true) (hspawn : allow c (.spawn req))
    (hcall : ∀ d : S.Config, allow d (.call c.procs.length o))
    (hrun : (S.body req).runAlone (S.perform c.procs.length o) c.store = some (a, s)) :
    ∃ c', Reaches allow c c' ∧ c'.Quiescent ∧ c'.store = s ∧
      c'.Returned c.procs.length req a := by
  let d : S.Config := { c with procs := c.procs ++ [.running req (S.body req)] }
  have hd : c.move (.spawn req) = some d := by simp only [Config.move, hadmits, if_true, d]
  have hlast : d.procs[c.procs.length]? = some (.running req (S.body req)) :=
    List.getElem?_concat_length
  have hret : (d.procs.set c.procs.length (.running req (.ret a)))[c.procs.length]? =
      some (.running req (.ret a)) :=
    List.getElem?_set_self (List.getElem?_eq_some_iff.mp hlast).1
  refine ⟨_, .head ⟨_, hspawn, hd⟩ (reaches_of_runAlone hcall hlast hrun), ?_, rfl, hret⟩
  rintro q ⟨req', x, k, hq⟩
  by_cases heq : q = c.procs.length
  · subst heq
    rw [hret] at hq
    cases hq
  · rw [List.getElem?_set_ne (Ne.symm heq)] at hq
    have hlt : q < c.procs.length := by
      have hsome := (List.getElem?_eq_some_iff.mp hq).1
      simp only [d, List.length_append, List.length_singleton] at hsome
      omega
    exact hc q ⟨req', x, k, by rwa [List.getElem?_append_left hlt] at hq⟩

end Service

end LongRequestProxy.Async
