import LongRequestProxy.Async.Refinement
import LongRequestProxy.Tasks.Atomicity
import LongRequestProxy.Tasks.Deadline

/-!
# The life of a task

What happens to one task, with all the others and all transactions out of sight: it is created
`PENDING`, its row is written by guarded writes, one after another, and it is deleted once. The
system refines this machine, for each id, and the machine refines the one of the statuses alone.

## Main definitions

* `Life`, `lifeOf`, `lifecycle`: the row of a task, and its steps.
* `TaskStage`, `Life.stage`, `stages`: its status, and the edges between statuses.

## Main results

* `life_refines`: the system refines the lifecycle of every task.
* `stages_refines`: its status follows the edges.
-/

namespace LongRequestProxy

open Async Discipline Service Function

/-- A task whose id is not issued, that has a row, or that had one. -/
inductive Life : Type
  | unborn
  | alive (t : TaskSelect)
  | gone

/-- The steps in the life of a task. With `reverts` a dispatch may be reverted. -/
inductive Life.Step (reverts : Prop) : Life → Life → Prop
  | create (dto : CreateTaskDto) (now : Timestamp) (token id : String) (createdAt : Timestamp) :
    Step reverts .unborn (.alive ((dto.values now token).row id createdAt))
  | write (w : TaskWrite) (t : TaskSelect) (hw : w.isDispatchRevert = true → reverts)
    (ht : SatisfiesChecks t = true) (hm : w.Matches t = true)
    (hc : SatisfiesChecks (w.apply t) = true) : Step reverts (.alive t) (.alive (w.apply t))
  | delete (t : TaskSelect) : Step reverts (.alive t) .gone

/-- The lifecycle of a task. -/
abbrev lifecycle (reverts : Prop) : Machine := ⟨Life, Life.Step reverts⟩

/-- The life of the task `id` in a state. -/
def lifeOf (σ : Backend) (id : String) : Life :=
  match σ.findTask id with
  | some t => .alive t
  | none => if σ.issued.contains id then .gone else .unborn

section LifeOf

variable {σ : Backend} {id : String} {t : TaskSelect}

theorem findTask_eq_some (hids : σ.RowIds) : σ.findTask id = some t ↔ t ∈ σ.tasks ∧ t.id = id := by
  constructor
  · intro h
    exact ⟨List.mem_of_find?_eq_some h, by simpa using List.find?_some h⟩
  · rintro ⟨ht, rfl⟩
    cases hfind : σ.findTask t.id with
    | none => simpa using List.find?_eq_none.mp hfind t ht
    | some u =>
      have hid : u.id = t.id := by simpa using List.find?_some hfind
      rw [Table.eq_of_key_eq hids.nodup (List.mem_of_find?_eq_some hfind) ht hid]

theorem lifeOf_of_mem (hids : σ.RowIds) (ht : t ∈ σ.tasks) : lifeOf σ t.id = .alive t := by
  rw [lifeOf, (findTask_eq_some hids).mpr ⟨ht, rfl⟩]

theorem lifeOf_of_not_issued (hids : σ.RowIds) (hid : id ∉ σ.issued) : lifeOf σ id = .unborn := by
  cases hfind : σ.findTask id with
  | none => simp [lifeOf, hfind, hid]
  | some t =>
    obtain ⟨ht, rfl⟩ := (findTask_eq_some hids).mp hfind
    exact absurd (hids.issued t ht) hid

theorem lifeOf_of_no_row (hid : id ∈ σ.issued) (hnone : ¬ σ.HasRow id) : lifeOf σ id = .gone := by
  have hfind : σ.findTask id = none :=
    List.find?_eq_none.mpr fun t ht => by simpa using fun heq : t.id = id => hnone ⟨t, ht, heq⟩
  simp [lifeOf, hfind, hid]

end LifeOf

variable {http : HttpClient} {clock : Timestamp} {c c' : (proxy http).Config}
  {m : (proxy http).Move} {allow : (proxy http).Config → (proxy http).Move → Prop}

/-- An id that a move issues is that of a row. -/
theorem hasRow_of_move (hm : c.move m = some c') {id : String} (hold : id ∉ c.store.issued)
    (hnew : id ∈ c'.store.issued) : c'.store.HasRow id := by
  obtain ⟨time, hσ⟩ | ⟨p, hσ⟩ | ⟨p, o, req, x, k, v, σ, rfl, hp, hf, hx, hσ⟩ :=
    store_cases_of_move hm
  · rw [hσ] at hnew
    exact absurd hnew hold
  · rw [hσ] at hnew
    exact absurd hnew hold
  · have hrow : id ∈ σ.issued → σ.HasRow id := by
      intro hid
      obtain ⟨-, hi⟩ | ⟨dto, now, token, -, -, ht, hi⟩ | ⟨_, -, -, hi⟩ | ⟨_, _, -, -, hi⟩ |
        ⟨-, rfl⟩ := exec_tasks_cases hx
      · exact absurd (hi ▸ hid) hold
      · rw [hi] at hid
        rcases List.mem_cons.mp hid with rfl | hid
        · exact ⟨_, ht ▸ List.mem_append_right _ (List.mem_singleton_self _), rfl⟩
        · exact absurd hid hold
      · exact absurd (hi ▸ hid) hold
      · exact absurd (hi ▸ hid) hold
      · exact absurd hid hold
    obtain hσ | hσ := hσ <;> rw [hσ] at hnew ⊢
    · exact hrow hnew
    · exact hrow hnew

/-- **The system refines the lifecycle of every task.** Whatever functions run, fail or die, each
move is one step in the life of a task, or none. -/
theorem life_refines {reverts : Prop} (hrev : ∀ c m, Reaches allow (initial http clock) c →
      allow c m → revertsDispatch c m = true → reverts) (id : String) :
    (proxy http).Refines allow (initial http clock) (lifecycle reverts)
      fun c => lifeOf c.store id := by
  intro c m c' hreach ha hm
  have htrue : ∀ d, Reaches allow (initial http clock) d →
      Reaches (fun _ _ => True) (initial http clock) d := fun d hd => hd.mono fun _ _ _ => trivial
  have hids : ∀ d, Reaches allow (initial http clock) d → d.store.RowIds := fun d hd => by
    obtain ⟨γ, hγ, -⟩ := exists_observed hd
    exact (tracked_of_runs hγ).rowIds
  have hc := hids c hreach
  have hc' := hids c' (hreach.tail ⟨m, ha, hm⟩)
  by_cases hrow : c'.store.HasRow id
  · obtain ⟨t', ht', rfl⟩ := hrow
    dsimp only
    rw [lifeOf_of_mem hc' ht']
    obtain ht | ⟨dto, now, token, id, createdAt, hnew, rfl⟩ |
      ⟨w, r, hr, hw, hmatch, hchecks, rfl⟩ := row_of_move hreach hm ht'
    · rw [lifeOf_of_mem hc ht]
    · have hunborn : lifeOf c.store ((dto.values now token).row id createdAt).id = .unborn :=
        lifeOf_of_not_issued hc hnew
      rw [hunborn]
      exact .single (.create dto now token id createdAt)
    · rw [w.apply_id r, lifeOf_of_mem hc hr]
      refine .single (.write w r (fun hrevert => ?_)
        ((reaches_rowHistory (htrue c hreach)).committed r hr).satisfiesChecks hmatch hchecks)
      obtain ⟨now, rfl | rfl⟩ | ⟨p, o, hcall, hf⟩ := hw
      · cases hrevert
      · cases hrevert
      · exact hrev c m hreach ha
          (makesWrite_iff.mpr ⟨p, o, w, r, hr, hcall, hrevert, hf, hmatch⟩)
  · dsimp only
    by_cases hissued : id ∈ c'.store.issued
    · rw [lifeOf_of_no_row hissued hrow]
      by_cases hold : c.store.HasRow id
      · obtain ⟨t, ht, rfl⟩ := hold
        rw [lifeOf_of_mem hc ht]
        exact .single (.delete t)
      · have hi : id ∈ c.store.issued := by
          by_contra hnot
          exact hrow (hasRow_of_move hm hnot hissued)
        rw [lifeOf_of_no_row hi hold]
    · rw [lifeOf_of_not_issued hc' hissued,
        lifeOf_of_not_issued hc fun h => hissued (issued_subset_of_move hm h)]

/-- **The life of a task.** Between any two states of a run, whatever else happens in it, each task
takes steps of its lifecycle and nothing else: its row is created once, written by one guarded
write after another, and deleted once. -/
theorem life_of_task (http : HttpClient) (clock : Timestamp) (c c' : (proxy http).Config)
    (hc : Reaches (fun _ _ => True) (initial http clock) c) (h : Reaches (fun _ _ => True) c c')
    (id : String) :
    Relation.ReflTransGen (Life.Step True) (lifeOf c.store id) (lifeOf c'.store id) :=
  (life_refines (fun _ _ _ _ _ => trivial) id).run hc h

/-- The life of the task that the example run completes. -/
theorem completedRun_life : ∃ t : TaskSelect, t.status = .completed ∧
    Relation.ReflTransGen (Life.Step True) .unborn (.alive t) := by
  obtain ⟨c, hc, hcheck⟩ : ∃ c, Reaches (fun _ _ => True) (initial httpRetryService 0) c ∧
      (c.store.findTask sampleId).any (fun t => t.status == .completed) = true :=
    exists_reaches_of_replay (fun _ _ => true) completedRun _ (fun _ _ _ => trivial) (by decide)
  cases hfind : c.store.findTask sampleId with
  | none => simp [hfind] at hcheck
  | some t =>
    have hlife := life_of_task httpRetryService 0 _ c .refl hc sampleId
    have hstart : lifeOf (initial httpRetryService 0).store sampleId = .unborn := rfl
    rw [hstart, lifeOf, hfind] at hlife
    exact ⟨t, by simpa [hfind] using hcheck, hlife⟩

/-! ### Statuses -/

/-- How far a task is. -/
inductive TaskStage : Type
  | unborn
  | at (s : TaskStatus)
  | gone
  deriving DecidableEq

/-- The edges between the statuses of a task. -/
inductive TaskStage.Step (reverts : Prop) : TaskStage → TaskStage → Prop
  | create : Step reverts .unborn (.at .pending)
  | claim : Step reverts (.at .pending) (.at .processing)
  | revert (h : reverts) : Step reverts (.at .processing) (.at .pending)
  | cancelPending : Step reverts (.at .pending) (.at .cancelled)
  | finish (s : TaskStatus) (hs : s.isTerminal = true) : Step reverts (.at .processing) (.at s)
  | delete (s : TaskStatus) : Step reverts (.at s) .gone

/-- The machine of the statuses. -/
abbrev stages (reverts : Prop) : Machine := ⟨TaskStage, TaskStage.Step reverts⟩

/-- How far a task is, in its life. -/
def Life.stage : Life → TaskStage
  | .unborn => .unborn
  | .alive t => .at t.status
  | .gone => .gone

/-- A guarded write follows an edge, or leaves the status alone. -/
theorem TaskWrite.stage_step {reverts : Prop} {w : TaskWrite} {t : TaskSelect}
    (hw : w.isDispatchRevert = true → reverts) (ht : SatisfiesChecks t = true)
    (hm : w.Matches t = true) (hc : SatisfiesChecks (w.apply t) = true) :
    Relation.ReflGen (TaskStage.Step reverts) (.at t.status) (.at (w.apply t).status) := by
  have hexpiry := (TaskWrite.satisfiesChecks_apply_iff ht hm).mp hc
  rw [TaskWrite.matches_iff] at hm
  cases w with
  | progress n => exact .refl
  | dispatchClaim now timeoutSeconds =>
    rw [show t.status = .pending from hm]
    exact .single .claim
  | dispatchRevert =>
    rw [show t.status = .processing from hm]
    exact .single (.revert (hw rfl))
  | cancel now =>
    obtain hs | hs := hm
    · rw [hs]
      exact .single .cancelPending
    · rw [hs]
      exact .single (.finish _ rfl)
  | expire now =>
    obtain ⟨hs | hs, -⟩ := (TaskWrite.isOverdue_iff now t).mp hm
    · exact absurd ⟨trivial, hs⟩ hexpiry
    · rw [hs]
      exact .single (.finish _ rfl)
  | _ =>
    rw [show t.status = .processing from hm]
    exact .single (.finish _ rfl)

/-- The lifecycle refines the machine of the statuses. -/
theorem Life.stage_step {reverts : Prop} {a b : Life} (h : Life.Step reverts a b) :
    Relation.ReflGen (TaskStage.Step reverts) a.stage b.stage := by
  cases h with
  | create dto now token id createdAt => exact .single .create
  | write w t hw ht hm hc => exact TaskWrite.stage_step hw ht hm hc
  | delete t => exact .single (.delete t.status)

/-- **The statuses of every task follow the edges.** -/
theorem stages_refines {reverts : Prop} (hrev : ∀ c m, Reaches allow (initial http clock) c →
      allow c m → revertsDispatch c m = true → reverts) (id : String) :
    (proxy http).Refines allow (initial http clock) (stages reverts)
      fun c => (lifeOf c.store id).stage :=
  (life_refines hrev id).comp fun _ _ => Life.stage_step

end LongRequestProxy
