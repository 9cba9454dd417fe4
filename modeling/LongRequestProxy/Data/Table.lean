import Mathlib.Data.List.Nodup

/-!
# Tables as lists of rows

A table is the list of its rows, `key` is a column that is unique in it. An UPDATE maps the rows
that its WHERE clause matches and keeps their order, an INSERT appends, a DELETE filters.

## Main definitions

* `Table.update m f T`: `UPDATE T SET … WHERE m`, each matching row `r` becoming `f r`.

## Main results

* `Table.mem_update`: the rows after an UPDATE.
* `Table.map_key_update`: an UPDATE that keeps a column of every row keeps it in the table.
* `Table.eq_of_key_eq`, `Table.filter_key_eq`: a value in a unique column determines the row.
-/

namespace LongRequestProxy.Table

variable {ρ κ : Type} {key : ρ → κ} {m : ρ → Bool} {f : ρ → ρ} {T : List ρ} {r : ρ}

/-- The table after an UPDATE. -/
def update (m : ρ → Bool) (f : ρ → ρ) (T : List ρ) : List ρ :=
  T.map fun r => if m r then f r else r

/-- A row after an UPDATE is the new version of a row that matched, or a row that did not. -/
theorem mem_update :
    r ∈ update m f T ↔ ∃ s ∈ T, (m s = true ∧ r = f s) ∨ (m s = false ∧ r = s) := by
  simp only [update, List.mem_map]
  refine exists_congr fun s => and_congr_right fun _ => ?_
  cases hm : m s <;> simp [eq_comm]

theorem map_key_update (hf : ∀ r, key (f r) = key r) : (update m f T).map key = T.map key := by
  simp only [update, List.map_map]
  refine List.map_congr_left fun r _ => ?_
  simp only [Function.comp_apply]
  split <;> simp [hf]

/-- An UPDATE of rows that a filter drops, and goes on dropping. -/
theorem filter_update {g : ρ → Bool} (h : ∀ r, m r = true → g r = false ∧ g (f r) = false) :
    (update m f T).filter g = T.filter g := by
  induction T with
  | nil => rfl
  | cons r T ih =>
    simp only [update, List.map_cons] at ih ⊢
    cases hm : m r with
    | true => simp [h r hm, ih]
    | false => simp [List.filter_cons, ih]

/-- One UPDATE after another that does not match the new rows. -/
theorem update_update {m' : ρ → Bool} (h : ∀ r, m r = true → m' (f r) = false) :
    update m' f (update m f T) = update (fun r => m r || m' r) f T := by
  rw [update, update, update, List.map_map]
  refine List.map_congr_left fun r _ => ?_
  rw [Function.comp_apply]
  cases hm : m r with
  | true => simp [h r hm]
  | false => simp

theorem countP_update_le {P : ρ → Bool} (hf : ∀ r, P (f r) = true → P r = true) :
    (update m f T).countP P ≤ T.countP P := by
  rw [update, List.countP_map]
  refine List.countP_mono_left fun r _ h => ?_
  simp only [Function.comp_apply] at h
  split at h
  · exact hf r h
  · exact h

/-- An UPDATE that makes a row fail a test, and makes no row pass it. -/
theorem countP_update_lt {P : ρ → Bool} (hf : ∀ r, P (f r) = true → P r = true) (hr : r ∈ T)
    (hm : m r = true) (hold : P r = true) (hnew : P (f r) = false) :
    (update m f T).countP P < T.countP P := by
  obtain ⟨T₁, T₂, rfl⟩ := List.append_of_mem hr
  have h₁ := countP_update_le (m := m) (T := T₁) hf
  have h₂ := countP_update_le (m := m) (T := T₂) hf
  simp only [update, List.map_append, List.map_cons, List.countP_append, List.countP_cons, hm,
    if_true, hold, hnew, Bool.false_eq_true, if_false] at h₁ h₂ ⊢
  omega

/-- The rows that either condition matches, those of the first one counted first. -/
theorem length_filter_or (p q : ρ → Bool) :
    (T.filter fun r => p r || q r).length =
      (T.filter p).length + ((T.filter fun r => !p r).filter q).length := by
  induction T with
  | nil => rfl
  | cons r T ih =>
    cases hp : p r with
    | true =>
      simp only [List.filter_cons, hp, Bool.true_or, if_true, Bool.not_true, Bool.false_eq_true,
        if_false, List.length_cons, ih]
      omega
    | false =>
      cases hq : q r with
      | true =>
        simp only [List.filter_cons, hp, hq, Bool.or_true, if_true, Bool.not_false,
          Bool.false_eq_true, if_false, List.length_cons, ih]
        omega
      | false => simpa [hp, hq] using ih

/-- In a unique column a value determines the row. -/
theorem eq_of_key_eq (hT : (T.map key).Nodup) {r s : ρ} (hr : r ∈ T) (hs : s ∈ T)
    (h : key r = key s) : r = s :=
  List.inj_on_of_nodup_map hT hr hs h

theorem nodup_filter_key (hT : (T.map key).Nodup) (p : ρ → Bool) :
    ((T.filter p).map key).Nodup :=
  hT.sublist (List.filter_sublist.map key)

theorem nodup_append_key (hT : (T.map key).Nodup) (hr : ∀ s ∈ T, key s ≠ key r) :
    ((T ++ [r]).map key).Nodup := by
  rw [List.map_append, List.nodup_append]
  refine ⟨hT, List.nodup_singleton _, fun k hk k' hk' => ?_⟩
  obtain ⟨s, hs, rfl⟩ := List.mem_map.mp hk
  rw [List.map_singleton, List.mem_singleton] at hk'
  subst hk'
  exact hr s hs

/-- The rows with the key of a given row. -/
theorem filter_key_eq [DecidableEq κ] (hT : (T.map key).Nodup) (hr : r ∈ T) :
    T.filter (fun s => key s == key r) = [r] := by
  induction T with
  | nil => cases hr
  | cons s T ih =>
    rw [List.map_cons, List.nodup_cons] at hT
    rcases List.mem_cons.mp hr with rfl | hr
    · have hnone : T.filter (fun s => key s == key r) = [] :=
        List.filter_eq_nil_iff.mpr fun t ht => by
          simpa using fun heq : key t = key r => hT.1 (heq ▸ List.mem_map_of_mem ht)
      rw [List.filter_cons_of_pos (by simp), hnone]
    · have hne : key s ≠ key r := fun heq => hT.1 (heq ▸ List.mem_map_of_mem hr)
      rw [List.filter_cons_of_neg (by simpa using hne), ih hT.2 hr]

end LongRequestProxy.Table
