import LongRequestProxy.Executor.Claims
import LongRequestProxy.Executor.Outcomes

/-!
# The posts of a task

A dispatch job can be delivered any number of times: the queue starts it again when its worker has
stalled. The claim guards against that. With the client of the program nothing takes a claim back,
so that the first run to claim a task is the only one that ever posts it.

## Main definitions

* `Service.Transition.postsTask`: the step is a POST request of a dispatch job of the task.

## Main results

* `pairwise_claims`: in every run a task is claimed at most once.
* `posted_at_most_thrice`: one program posts the task, with at most three requests.
-/

namespace LongRequestProxy

open Async Service Function

variable {clock : Timestamp} {l : List (proxy httpRetryService).Transition}
  {c : (proxy httpRetryService).Config} {id : String}

/-! ### One claim in a run -/

/-- After a claim the task is not `PENDING`, and stays so. -/
theorem not_pending_of_claims (h : Trace (initial httpRetryService clock) l c)
    {x : (proxy httpRetryService).Transition} (hx : x ∈ l) {p : ℕ} (hclaim : Claims p id x) :
    ¬ HasStatus c id .pending := by
  obtain ⟨l₁, l₂, rfl⟩ := List.append_of_mem hx
  obtain ⟨h₁, hm, h₂⟩ := h.split
  have hreach := h₁.reaches.tail ⟨x.move, trivial, hm⟩
  obtain ⟨δ, hδ⟩ := ledger_of_reaches hreach
  obtain ⟨t, ht, hid, hs⟩ := hclaim.after
  refine not_pending_of_trace hreach h₂ (hid ▸ hδ.issued t ht) (fun hpending => ?_)
    fun z hz q hrev => ?_
  · cases status_unique hδ hpending ⟨t, ht, hid, hs⟩
  · obtain ⟨o, hcall⟩ := hrev.call
    exact not_awaits_revert (hreach.trans (h₂.reaches_of_mem hz).1) z.move q o id hcall

/-- **A task is claimed at most once.** -/
theorem pairwise_claims (h : Trace (initial httpRetryService clock) l c) (id : String) :
    l.Pairwise fun x y => ∀ p q, Claims p id x → ¬ Claims q id y := by
  refine h.invariant (I := fun l _ => l.Pairwise fun x y => ∀ p q, Claims p id x → ¬ Claims q id y)
    .nil ?_
  intro l d m d' hd hm ih
  refine List.pairwise_append.mpr ⟨ih, List.pairwise_singleton _ _, fun x hx y hy p q hclaim => ?_⟩
  obtain rfl := List.mem_singleton.mp hy
  exact fun hagain => not_pending_of_claims hd hx hclaim hagain.before

/-- Whoever posts the task has claimed it in the run, so that all posts come from one program. -/
theorem posts_of_one (h : Trace (initial httpRetryService clock) l c)
    {x y : (proxy httpRetryService).Transition} (hx : x ∈ l) (hy : y ∈ l) {p q : ℕ}
    (hp : Posts p id x) (hq : Posts q id y) : p = q := by
  have hclaims : ∀ z ∈ l, ∀ r, Posts r id z → ∃ w ∈ l, Claims r id w := by
    intro z hz r hr
    obtain ⟨l₁, l₂, rfl⟩ := List.append_of_mem hz
    obtain ⟨γ, hγ, hclaims⟩ := exists_claims h.split.1
    obtain ⟨w, hw, hclaim⟩ := hclaims r id (holds_of_isPosting (obeys_of_runs hγ) hr.posting)
    exact ⟨w, List.mem_append_left _ hw, hclaim⟩
  obtain ⟨w, hw, hclaim⟩ := hclaims x hx p hp
  obtain ⟨w', hw', hclaim'⟩ := hclaims y hy q hq
  obtain ⟨i, hi, rfl⟩ := List.mem_iff_getElem.mp hw
  obtain ⟨j, hj, rfl⟩ := List.mem_iff_getElem.mp hw'
  have honce := List.pairwise_iff_getElem.mp (pairwise_claims h id)
  rcases Nat.lt_trichotomy i j with hlt | rfl | hlt
  · exact absurd hclaim' (honce i j hi hj hlt p q hclaim)
  · obtain ⟨o, _, _, hcall⟩ := hclaim.call
    obtain ⟨o', _, _, hcall'⟩ := hclaim'.call
    exact congrArg Prod.fst (Option.some.inj (hcall.symm.trans hcall'))
  · exact absurd hclaim (honce j i hj hi hlt q p hclaim')

/-! ### The requests -/

/-- The task of the dispatch job that a request starts. -/
def Request.dispatchedTask : Request → Option String
  | dispatch taskId _ => some taskId
  | _ => none

/-- With this step a dispatch job of the task starts a POST request. -/
def Async.Service.Transition.postsTask {http : HttpClient} (id : String)
    (x : (proxy http).Transition) : Bool :=
  (x.before.callOf x.move).any fun y => y.2.2.isPost &&
    (x.before.procs[y.1]?).any fun pr => pr.request.dispatchedTask == some id

theorem Request.dispatchedTask_eq_some {req : Request} {id : String} :
    req.dispatchedTask = some id ↔ ∃ timeoutSeconds, req = .dispatch id timeoutSeconds := by
  cases req <;> simp [dispatchedTask]

theorem postsTask_iff {http : HttpClient} {x : (proxy http).Transition} :
    x.postsTask id = true ↔ ∃ p, Posts p id x := by
  unfold Transition.postsTask
  rw [Option.any_eq_true]
  constructor
  · rintro ⟨⟨p, o, y⟩, hcall, hcheck⟩
    simp only [Bool.and_eq_true, Option.any_eq_true, beq_iff_eq] at hcheck
    obtain ⟨hpost, pr, hpr, hreq⟩ := hcheck
    obtain ⟨-, req, k, hp⟩ := Config.callOf_eq_some.mp hcall
    rw [hp] at hpr
    cases hpr
    obtain ⟨timeoutSeconds, rfl⟩ := Request.dispatchedTask_eq_some.mp hreq
    have hhttp : y.IsHttp := by cases y <;> trivial
    exact ⟨p, ⟨timeoutSeconds, y, k, hp, hhttp⟩, Transition.calls_eq_true.mpr ⟨o, y, hcall, hpost⟩⟩
  · rintro ⟨p, ⟨timeoutSeconds, x', k, hp, -⟩, hcalls⟩
    obtain ⟨o, y, hcall, hpost⟩ := Transition.calls_eq_true.mp hcalls
    refine ⟨_, hcall, ?_⟩
    simp [hpost, hp, Proc.request, Request.dispatchedTask]

/-- **At most three posts.** However often the dispatch jobs of a task are delivered, and however
they interleave, the task is claimed at most once, only one program ever posts it, and that with
at most three requests. -/
theorem posted_at_most_thrice (clock : Timestamp) (l : List (proxy httpRetryService).Transition)
    (c : (proxy httpRetryService).Config) (h : Trace (initial httpRetryService clock) l c)
    (id : String) :
    (l.Pairwise fun x y => ∀ p q, Claims p id x → ¬ Claims q id y) ∧
    (∀ x ∈ l, ∀ y ∈ l, ∀ p q, Posts p id x → Posts q id y → p = q) ∧
    l.countP (Transition.postsTask id) ≤ 3 := by
  refine ⟨pairwise_claims h id, fun x hx y hy p q => posts_of_one h hx hy, ?_⟩
  by_cases hnone : ∃ x ∈ l, x.postsTask id = true
  · obtain ⟨x, hx, hposts⟩ := hnone
    obtain ⟨p, hp⟩ := postsTask_iff.mp hposts
    obtain ⟨timeoutSeconds, y, k, hproc, -⟩ := hp.posting
    obtain ⟨-, hm, hafter⟩ := h.reaches_of_mem hx
    obtain ⟨pr, hpr, hreq⟩ :=
      Config.exists_proc_of_reaches (hafter.head ⟨_, trivial, hm⟩) hproc
    calc l.countP (Transition.postsTask id)
        ≤ l.countP (Transition.calls Await.isPost p) := by
          refine List.countP_mono_left fun z hz hzposts => ?_
          obtain ⟨q, hq⟩ := postsTask_iff.mp hzposts
          obtain rfl := posts_of_one h hx hz hp hq
          exact hq.call
      _ ≤ 3 := by
          refine h.countP_le ?_ hpr hreq
          exact Prog.AtMost.bindExcept (n := 3) (m := 0) (dispatch_atMost id timeoutSeconds)
            fun _ => trivial
  · rw [List.countP_eq_zero.mpr fun x hx hposts => hnone ⟨x, hx, hposts⟩]
    exact Nat.zero_le 3

/-- Three posts of the run that claimed the task fail; then its job is delivered once more. -/
def redeliveredTask : List (proxy httpRetryService).Move :=
  let refused : Oracle := { http := .error { code := some "ECONNREFUSED", message := "refused" } }
  claimedTask ++ [.call 1 refused, .call 1 {}, .call 1 {}, .call 1 refused, .call 1 {}, .call 1 {},
    .call 1 refused, .call 1 { time := 2000 }, .call 1 {}, .spawn (.dispatch sampleId 300),
    .call 2 { time := 3000 }, .call 2 {}]

/-- The second delivery finds nothing to claim, and does not post. -/
theorem redeliveredTask_posted_thrice :
    ∃ l c, Trace (initial httpRetryService 0) l c ∧ HasStatus c sampleId .failed ∧
      l.countP (Transition.postsTask sampleId) = 3 := by
  obtain ⟨l, c, h, hcheck⟩ := Config.exists_trace_of_check (c := initial httpRetryService 0)
    redeliveredTask (fun l c => decide (3 ≤ l.countP (Transition.postsTask sampleId)) &&
      c.store.tasks.any fun t => t.id == sampleId && t.status == .failed) (by decide)
  simp only [Bool.and_eq_true, List.any_eq_true, beq_iff_eq, decide_eq_true_eq] at hcheck
  obtain ⟨hposts, t, ht, hid, hs⟩ := hcheck
  refine ⟨l, c, h, ⟨t, ht, hid, hs⟩, Nat.le_antisymm ?_ hposts⟩
  exact (posted_at_most_thrice 0 l c h sampleId).2.2

end LongRequestProxy
