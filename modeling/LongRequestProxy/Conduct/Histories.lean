import LongRequestProxy.Async.History
import LongRequestProxy.Conduct.Jobs
import LongRequestProxy.Conduct.Runs

/-!
# Histories of the functions

The history of a function lists its calls with their replies. Some facts about a task are made by
one function, once and for good: its row is inserted, the task is ended. Such a function owns the
task, and when only the owner enqueues a job of the task, then the job is there only if the history
of the owner shows that it was enqueued.

## Main definitions

* `History`, `recorded`: the system with the histories of its functions.
* `Owners`: every task has one owner, and its jobs were enqueued by it.

## Main results

* `owners_of_move`: what moves have to do for that.
-/

namespace LongRequestProxy

open Async Service Discipline

variable {http : HttpClient} {clock : Timestamp}
  {allow : (proxy http).Config → (proxy http).Move → Prop}

/-! ### Histories -/

/-- The calls of a function with their replies. -/
abbrev History : Type := List ((x : Await) × Reply x)

/-- The summary that a history determines. -/
def History.summary (log : History) : Summary := log.foldl (fun w e => w.next e.1 e.2) {}

/-- The system before its first request, with the histories of its functions. -/
def recorded (http : HttpClient) (clock : Timestamp) : (history (proxy http)).Observed :=
  ⟨initial http clock, fun _ => []⟩

theorem exists_recorded {c : (proxy http).Config} (h : Reaches allow (initial http clock) c) :
    ∃ γ, Runs allow (recorded http clock) ⟨c, γ⟩ :=
  exists_runs (recorded http clock) h

theorem observed_of_recorded {s : (history (proxy http)).Observed}
    (h : Runs allow (recorded http clock) s) :
    Runs allow (observed http clock) (s.summarised (discipline http)) :=
  runs_summarised (discipline http) h

/-! ### Owners -/

variable {s s' : (history (proxy http)).Observed} {m : (proxy http).Move}
  {Owns : (history (proxy http)).Observed → ℕ → String → Prop} {Taken : Backend → String → Prop}
  {Belongs : Job → String → Prop}

/-- Every task has at most one owner, after which it is taken for good, and the jobs that belong to
the task were enqueued by the owner. -/
structure Owners (Owns : (history (proxy http)).Observed → ℕ → String → Prop)
    (Taken : Backend → String → Prop) (Belongs : Job → String → Prop)
    (s : (history (proxy http)).Observed) : Prop where
  once : ∀ i p q, Owns s p i → Owns s q i → p = q
  taken : ∀ i p, Owns s p i → Taken s.config.store i
  queued : ∀ i job, Belongs job i → job ∈ s.config.store.queue → Taken s.config.store i ∧
    ∀ p, Owns s p i → ∃ r, (⟨.enqueue job, r⟩ : (x : Await) × Reply x) ∈ s.locals p

/-- **Rule for owners.** A function becomes the owner of a task with a call that takes the task,
what is taken stays taken, and only the owner enqueues the jobs. -/
theorem owners_of_move (hm : s.move m = some s')
    (howns : ∀ i p, Owns s' p i → (Owns s p i ∧ s.locals p ⊆ s'.locals p) ∨
      (∃ o, m = .call p o) ∧ ¬ Taken s.config.store i ∧ Taken s'.config.store i)
    (htaken : ∀ i, Taken s.config.store i → Taken s'.config.store i)
    (henqueue : ∀ i p req job k, Belongs job i →
      s.config.procs[p]? = some (.running req (.call (.enqueue job) k)) → Owns s p i)
    (hs : Owners Owns Taken Belongs s) : Owners Owns Taken Belongs s' where
  once i p q hp hq := by
    obtain ⟨hp, -⟩ | ⟨⟨o, hmp⟩, hfree, -⟩ := howns i p hp
    · obtain ⟨hq, -⟩ | ⟨-, hfree, -⟩ := howns i q hq
      · exact hs.once i p q hp hq
      · exact absurd (hs.taken i p hp) hfree
    · obtain ⟨hq, -⟩ | ⟨⟨o', hmq⟩, -⟩ := howns i q hq
      · exact absurd (hs.taken i q hq) hfree
      · rw [hmp] at hmq
        cases hmq
        rfl
  taken i p hp := by
    obtain ⟨hp, -⟩ | ⟨-, -, htake⟩ := howns i p hp
    · exact htaken i (hs.taken i p hp)
    · exact htake
  queued i job hjob hmem := by
    obtain hold | ⟨p, o, req, k, rfl, hp⟩ := queue_of_move (Observed.config_move hm) hmem
    · obtain ⟨htake, hposted⟩ := hs.queued i job hjob hold
      refine ⟨htaken i htake, fun p hp => ?_⟩
      obtain ⟨hp, hsub⟩ | ⟨-, hfree, -⟩ := howns i p hp
      · obtain ⟨r, hr⟩ := hposted p hp
        exact ⟨r, hsub hr⟩
      · exact absurd htake hfree
    · have hown := henqueue i p req job k hjob hp
      have htake := hs.taken i p hown
      refine ⟨htaken i htake, fun q hq => ?_⟩
      obtain ⟨hq, -⟩ | ⟨-, hfree, -⟩ := howns i q hq
      · obtain rfl := hs.once i p q hown hq
        obtain ⟨-, hnone⟩ | ⟨o', req', x, k', r, -, hp', -, heq⟩ | ⟨hcrash, -⟩ :=
          Observed.locals_cases hm p
        · exact absurd (Config.callOf_eq_some.mpr ⟨rfl, req, k, hp⟩) (hnone o _)
        · rw [hp] at hp'
          cases hp'
          rw [heq]
          exact ⟨r, List.mem_append_right _ (List.mem_singleton_self _)⟩
        · cases hcrash
      · exact absurd htake hfree

end LongRequestProxy
