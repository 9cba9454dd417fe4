import LongRequestProxy.System

/-!
# The jobs of the queues

No job is ever taken out of the record of the queues: a worker may get a job any number of times.
So a worker that runs a job finds that the job was enqueued, by one of the functions that do so.

## Main definitions

* `Request.delivers`: the job that starts a worker.

## Main results

* `queue_of_move`: what a move adds to the queues.
* `job_mem_of_running`: the jobs of running workers were enqueued.
-/

namespace LongRequestProxy

open Async Service

variable {http : HttpClient} {clock : Timestamp} {c c' : (proxy http).Config}
  {m : (proxy http).Move}
  {allow : (proxy http).Config → (proxy http).Move → Prop}

/-- What a move adds to the queues. -/
theorem queue_of_move (hm : c.move m = some c') {job : Job}
    (hjob : job ∈ c'.store.queue) :
    job ∈ c.store.queue ∨
      ∃ p o req k, m = .call p o ∧ c.procs[p]? = some (.running req (.call (.enqueue job) k)) := by
  obtain ⟨time, hσ⟩ | ⟨p, hσ⟩ | ⟨p, o, req, x, k, v, σ, rfl, hp, -, hx, hσ⟩ :=
    store_cases_of_move hm
  · rw [hσ] at hjob
    exact .inl hjob
  · rw [hσ] at hjob
    exact .inl hjob
  · have hqueue : c'.store.queue = σ.queue := by
      obtain hσ | hσ := hσ <;> rw [hσ]
      rfl
    obtain hsame | ⟨job', rfl, hadd⟩ := exec_queue_cases hx
    · rw [hqueue, hsame] at hjob
      exact .inl hjob
    · rw [hqueue, hadd] at hjob
      rcases List.mem_append.mp hjob with hjob | hjob
      · exact .inl hjob
      · rw [List.mem_singleton.mp hjob]
        exact .inr ⟨p, o, req, k, rfl, hp⟩

/-- Jobs stay in the record of the queues. -/
theorem queue_subset_of_move (hm : c.move m = some c') : c.store.queue ⊆ c'.store.queue := by
  obtain ⟨time, hσ⟩ | ⟨p, hσ⟩ | ⟨p, o, req, x, k, v, σ, -, -, -, hx, hσ⟩ := store_cases_of_move hm
  · rw [hσ]
    exact List.Subset.refl _
  · rw [hσ]
    exact List.Subset.refl _
  · have hqueue : c'.store.queue = σ.queue := by
      obtain hσ | hσ := hσ <;> rw [hσ]
      rfl
    rw [hqueue]
    obtain hsame | ⟨job, -, hadd⟩ := exec_queue_cases hx
    · rw [hsame]
      exact List.Subset.refl _
    · rw [hadd]
      exact List.subset_append_left _ _

/-- The job that starts the function of the request. -/
def Request.delivers : Request → Option Job
  | dispatch taskId timeoutSeconds => some (.dispatch taskId timeoutSeconds)
  | notifyCancel taskId => some (.cancel taskId)
  | notifyWebhook taskId => some (.webhook taskId)
  | _ => none

theorem Request.mem_queue_of_admitted {σ : Backend} {req : Request} {job : Job}
    (h : req.admitted σ = true) (hreq : req.delivers = some job) : job ∈ σ.queue := by
  cases req with
  | dispatch taskId timeoutSeconds =>
    cases hreq
    exact List.contains_iff_mem.mp h
  | notifyCancel taskId =>
    cases hreq
    exact List.contains_iff_mem.mp h
  | notifyWebhook taskId =>
    cases hreq
    exact List.contains_iff_mem.mp h
  | _ => cases hreq

/-- **Delivered jobs were enqueued.** -/
theorem job_mem_of_running (h : Reaches allow (initial http clock) c) {p : ℕ} {req : Request}
    {P : Prog Await Reply (Except JsError Response)} {job : Job}
    (hp : c.procs[p]? = some (.running req P)) (hreq : req.delivers = some job) :
    job ∈ c.store.queue := by
  refine Reaches.invariant (I := fun d : (proxy http).Config => ∀ p req P job,
    d.procs[p]? = some (.running req P) → req.delivers = some job → job ∈ d.store.queue) ?_ h
    (fun p req P job hp => by cases hp) p req P job hp hreq
  intro d m d' hd _ hm p req P job hp hreq
  obtain ⟨hold, -⟩ | ⟨o, x, k, r, -, hold, -⟩ | ⟨rfl, -⟩ := Config.running_of_move hm hp
  · exact queue_subset_of_move hm (hd p req P job hold hreq)
  · exact queue_subset_of_move hm (hd p req _ job hold hreq)
  · obtain ⟨req', hspawn, hadmits, rfl⟩ | ⟨_, _, _, _, _, _, _, hcall, -⟩ |
      ⟨_, _, _, _, hcrash, -⟩ | ⟨_, _, hambient, -⟩ := Config.move_cases hm
    · cases hspawn
      exact Request.mem_queue_of_admitted hadmits hreq
    · cases hcall
    · cases hcrash
    · cases hambient

end LongRequestProxy
