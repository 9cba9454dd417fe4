import Mathlib.Data.List.Pairwise
import Mathlib.Order.MinMax

/-!
# De-duplication by a high-water mark

A consumer of keyed events remembers the highest key that it has passed on, passes on an event
whose key is higher, and drops every other event. It is a left-to-right maxima filter: it never
passes on an event twice, and it drops an event that arrives behind one with a higher key. The
consumer may also stop at the first event of some kind.

## Main definitions

* `HighWater.mark key m l`: the mark after the events `l`, from mark `m`.
* `HighWater.aboveMark key m l`: the events of `l` that are passed on from mark `m`.
* `HighWater.upToStop stop l`: the events of `l` up to and including the first one that satisfies
  `stop`.

## Main results

* `HighWater.mem_aboveMark_iff`: an event is passed on iff it is above the mark and above every
  event before it.
* `HighWater.pairwise_aboveMark`: what is passed on is strictly ascending.
* `HighWater.mem_upToStop_iff`: what remains of an ascending list that is cut.
-/

namespace LongRequestProxy.HighWater

variable {ε κ : Type} [LinearOrder κ] {key : ε → κ} {stop : ε → Bool} {m : κ} {e : ε}
  {l l' : List ε}

/-- The mark after the events of a list: the highest of its keys and of the mark before. -/
def mark (key : ε → κ) (m : κ) (l : List ε) : κ := l.foldl (fun m e => max m (key e)) m

/-- The events that are passed on. -/
def aboveMark (key : ε → κ) : κ → List ε → List ε
  | _, [] => []
  | m, e :: l => if m < key e then e :: aboveMark key (key e) l else aboveMark key m l

/-- The events up to and including the first one that stops. -/
def upToStop (stop : ε → Bool) : List ε → List ε
  | [] => []
  | e :: l => if stop e then [e] else e :: upToStop stop l

/-! ### The mark -/

@[simp] theorem mark_nil : mark key m [] = m := rfl

@[simp] theorem mark_cons : mark key m (e :: l) = mark key (max m (key e)) l := rfl

theorem mark_append : mark key m (l ++ l') = mark key (mark key m l) l' :=
  List.foldl_append

theorem mark_lt_iff {k : κ} : mark key m l < k ↔ m < k ∧ ∀ e ∈ l, key e < k := by
  induction l generalizing m with
  | nil => simp
  | cons e l ih => rw [mark_cons, ih, max_lt_iff, List.forall_mem_cons, and_assoc]

/-! ### What is passed on -/

@[simp] theorem aboveMark_nil : aboveMark key m [] = [] := rfl

theorem aboveMark_append :
    aboveMark key m (l ++ l') = aboveMark key m l ++ aboveMark key (mark key m l) l' := by
  induction l generalizing m with
  | nil => rfl
  | cons e l ih =>
    rw [List.cons_append, aboveMark, aboveMark, mark_cons]
    split
    · next h => rw [ih, max_eq_right h.le, List.cons_append]
    · next h => rw [ih, max_eq_left (not_lt.mp h)]

/-- An event is passed on iff, where it stands in the list, its key is above the mark and above
the keys of all events before it. -/
theorem mem_aboveMark_iff :
    e ∈ aboveMark key m l ↔
      ∃ l₁ l₂, l = l₁ ++ e :: l₂ ∧ m < key e ∧ ∀ e' ∈ l₁, key e' < key e := by
  constructor
  · intro h
    induction l generalizing m with
    | nil => cases h
    | cons x l ih =>
      rw [aboveMark] at h
      split at h
      · next hx =>
        rcases List.mem_cons.mp h with rfl | h
        · exact ⟨[], l, rfl, hx, by simp⟩
        · obtain ⟨l₁, l₂, rfl, hlt, hall⟩ := ih h
          exact ⟨x :: l₁, l₂, rfl, hx.trans hlt, List.forall_mem_cons.mpr ⟨hlt, hall⟩⟩
      · next hx =>
        obtain ⟨l₁, l₂, rfl, hlt, hall⟩ := ih h
        have hx' : key x < key e := (not_lt.mp hx).trans_lt hlt
        exact ⟨x :: l₁, l₂, rfl, hlt, List.forall_mem_cons.mpr ⟨hx', hall⟩⟩
  · rintro ⟨l₁, l₂, rfl, hlt, hall⟩
    rw [aboveMark_append, aboveMark, if_pos (mark_lt_iff.mpr ⟨hlt, hall⟩)]
    exact List.mem_append_right _ List.mem_cons_self

theorem mem_of_mem_aboveMark (h : e ∈ aboveMark key m l) : e ∈ l := by
  obtain ⟨l₁, l₂, rfl, -⟩ := mem_aboveMark_iff.mp h
  exact List.mem_append_right _ List.mem_cons_self

theorem lt_of_mem_aboveMark (h : e ∈ aboveMark key m l) : m < key e := by
  obtain ⟨-, -, -, hlt, -⟩ := mem_aboveMark_iff.mp h
  exact hlt

/-- What is passed on is strictly ascending. -/
theorem pairwise_aboveMark : (aboveMark key m l).Pairwise fun e e' => key e < key e' := by
  induction l generalizing m with
  | nil => exact .nil
  | cons e l ih =>
    rw [aboveMark]
    split
    · exact .cons (fun e' he' => lt_of_mem_aboveMark he') ih
    · exact ih

/-- An ascending list above the mark is passed on whole. -/
theorem mem_aboveMark_of_pairwise (hl : l.Pairwise fun e e' => key e < key e') (he : e ∈ l)
    (hm : m < key e) : e ∈ aboveMark key m l := by
  obtain ⟨l₁, l₂, rfl⟩ := List.append_of_mem he
  refine mem_aboveMark_iff.mpr ⟨l₁, l₂, rfl, hm, fun e' he' => ?_⟩
  exact (List.pairwise_append.mp hl).2.2 e' he' e List.mem_cons_self

/-! ### Stopping -/

theorem upToStop_append_of_not (h : ∀ e ∈ l, stop e = false) :
    upToStop stop (l ++ l') = l ++ upToStop stop l' := by
  induction l with
  | nil => rfl
  | cons e l ih =>
    obtain ⟨he, hl⟩ := List.forall_mem_cons.mp h
    rw [List.cons_append, upToStop, he, if_neg Bool.false_ne_true, ih hl, List.cons_append]

theorem upToStop_append_of_any (h : l.any stop = true) :
    upToStop stop (l ++ l') = upToStop stop l := by
  induction l with
  | nil => cases h
  | cons e l ih =>
    rw [List.cons_append, upToStop, upToStop]
    split
    · rfl
    · next he => rw [ih (by simpa [he] using h)]

theorem upToStop_eq_self (h : ∀ e ∈ l, stop e = false) : upToStop stop l = l := by
  have hnil : upToStop stop (l ++ []) = l ++ upToStop stop [] := upToStop_append_of_not h
  simpa [upToStop] using hnil

theorem upToStop_prefix_self : upToStop stop l <+: l := by
  induction l with
  | nil => exact List.nil_prefix
  | cons e l ih =>
    rw [upToStop]
    split
    · exact ⟨l, rfl⟩
    · exact (List.prefix_cons_inj e).mpr ih

theorem upToStop_sublist : (upToStop stop l).Sublist l := upToStop_prefix_self.sublist

@[simp] theorem any_upToStop : (upToStop stop l).any stop = l.any stop := by
  induction l with
  | nil => rfl
  | cons e l ih =>
    rw [upToStop]
    split
    · next he => simp [he]
    · next he => simp [he, ih]

/-- An event of an ascending list remains when the list is cut iff no event below it stops. -/
theorem mem_upToStop_iff (hl : l.Pairwise fun e e' => key e < key e') :
    e ∈ upToStop stop l ↔ e ∈ l ∧ ∀ t ∈ l, stop t = true → key e ≤ key t := by
  induction l with
  | nil => simp [upToStop]
  | cons x l ih =>
    obtain ⟨hx, hl⟩ := List.pairwise_cons.mp hl
    rw [upToStop]
    cases hstop : stop x with
    | true =>
      rw [if_pos rfl, List.mem_singleton]
      constructor
      · rintro rfl
        refine ⟨List.mem_cons_self, fun t ht _ => ?_⟩
        rcases List.mem_cons.mp ht with rfl | ht
        · exact le_rfl
        · exact (hx t ht).le
      · rintro ⟨he, hall⟩
        rcases List.mem_cons.mp he with rfl | he
        · rfl
        · exact absurd (hall x List.mem_cons_self hstop) (not_le.mpr (hx e he))
    | false =>
      simp only [Bool.false_eq_true, if_false, List.mem_cons, ih hl]
      constructor
      · rintro (rfl | ⟨he, hall⟩)
        · refine ⟨.inl rfl, ?_⟩
          rintro t (rfl | ht) -
          · exact le_rfl
          · exact (hx t ht).le
        · refine ⟨.inr he, ?_⟩
          rintro t (rfl | ht) hs
          · rw [hstop] at hs
            cases hs
          · exact hall t ht hs
      · rintro ⟨rfl | he, hall⟩
        · exact .inl rfl
        · exact .inr ⟨he, fun t ht hs => hall t (.inr ht) hs⟩

end LongRequestProxy.HighWater
