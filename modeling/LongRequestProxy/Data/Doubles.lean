import LongRequestProxy.Data.JsNumber
import Mathlib.Tactic.Linarith

/-!
# The range of the doubles

The nearest double of a number is at least one, and finite, exactly between two thresholds: half a
unit of the last place below one, and half a unit below `2 ^ 1024`. A tie at a threshold is rounded
up, since the neighbour above is the even one.

## Main results

* `le_roundHalfEven_iff`: rounding to the nearest integer and even bounds.
* `exists_one_le_toDouble_iff`: the numbers that become finite doubles of at least one.
-/

namespace LongRequestProxy

variable {v x r : ℚ} {k : ℤ}

/-! ### Rounding -/

/-- Rounding reaches an even integer from half a unit below it. -/
theorem le_roundHalfEven_iff (hk : k % 2 = 0) : k ≤ roundHalfEven x ↔ (k : ℚ) - 1 / 2 ≤ x := by
  have hlow := Int.floor_le x
  have hhigh := Int.lt_floor_add_one x
  unfold roundHalfEven
  rcases lt_trichotomy ⌊x⌋ (k - 1) with hlt | heq | hgt
  · -- far below
    have hcast : (⌊x⌋ : ℚ) + 2 ≤ k := by exact_mod_cast (by omega : ⌊x⌋ + 2 ≤ k)
    refine iff_of_false ?_ (by linarith)
    split <;> omega
  · -- the unit below: the floor is odd, so that ties go up
    have hcast : (⌊x⌋ : ℚ) = k - 1 := by rw [heq]; push_cast; ring
    have hodd : ¬ ⌊x⌋ % 2 = 0 := by omega
    split
    · next h =>
      obtain h | ⟨-, h⟩ := h
      · exact iff_of_false (by omega) (by linarith)
      · exact absurd h hodd
    · next h =>
      refine iff_of_true (by omega) ?_
      by_contra hx
      exact h (.inl (by linarith))
  · have hcast : (k : ℚ) ≤ ⌊x⌋ := by exact_mod_cast (by omega : k ≤ ⌊x⌋)
    refine iff_of_true ?_ (by linarith)
    split <;> omega

theorem roundHalfEven_le (x : ℚ) : (roundHalfEven x : ℚ) ≤ x + 1 / 2 := by
  have hlow := Int.floor_le x
  unfold roundHalfEven
  split
  · linarith
  · next h =>
    have hhalf : 1 / 2 ≤ x - ⌊x⌋ := by
      by_contra hx
      exact h (.inl (by linarith))
    push_cast
    linarith

/-! ### The unit of the last place -/

theorem doubleUnit_pos (v : ℚ) : 0 < doubleUnit v := by
  unfold doubleUnit
  exact zpow_pos (by norm_num) _

theorem log_eq {e : ℤ} (hv : 0 < v) (hlow : (2 : ℚ) ^ e ≤ v) (hhigh : v < 2 ^ (e + 1)) :
    Int.log 2 v = e := by
  have hle : e ≤ Int.log 2 v := (Int.zpow_le_iff_le_log (by decide) hv).mp (by exact_mod_cast hlow)
  have hlt : Int.log 2 v < e + 1 :=
    (Int.lt_zpow_iff_log_lt (by decide) hv).mp (by exact_mod_cast hhigh)
  omega

/-- The number before the overflow check of `toDouble`. -/
def roundedValue (v : ℚ) : ℚ := roundHalfEven (v / doubleUnit v) * doubleUnit v

theorem toDouble_eq_finite : toDouble v = .finite r ↔ r = roundedValue v ∧ r < 2 ^ 1024 := by
  unfold toDouble
  dsimp only
  change (if roundedValue v < 2 ^ 1024 then JsNumber.finite (roundedValue v)
    else .infinite false) = _ ↔ _
  split
  · next h =>
    constructor
    · intro heq
      cases heq
      exact ⟨rfl, h⟩
    · rintro ⟨rfl, -⟩
      rfl
  · next h =>
    refine iff_of_false (fun heq => by cases heq) ?_
    rintro ⟨rfl, hlt⟩
    exact h hlt

theorem roundedValue_nonneg (hv : 0 ≤ v) : 0 ≤ roundedValue v := by
  have hunit := doubleUnit_pos v
  have hround : 0 ≤ roundHalfEven (v / doubleUnit v) := by
    rw [le_roundHalfEven_iff rfl]
    have := div_nonneg hv hunit.le
    push_cast
    linarith
  exact mul_nonneg (by exact_mod_cast hround) hunit.le

/-- Where rounding reaches a power of two. -/
theorem zpow_le_roundedValue_iff {e j : ℤ} (hunit : doubleUnit v = 2 ^ j) (hj : j < e) :
    (2 : ℚ) ^ e ≤ roundedValue v ↔ (2 : ℚ) ^ e - 2 ^ (j - 1) ≤ v := by
  obtain ⟨d, hd⟩ : ∃ d : ℕ, e - j = d + 1 := ⟨(e - j - 1).toNat, by omega⟩
  have hpos : (0 : ℚ) < 2 ^ j := zpow_pos (by norm_num) _
  have hsplit : (2 : ℚ) ^ e = ((2 ^ (d + 1) : ℤ) : ℚ) * 2 ^ j := by
    push_cast
    rw [← zpow_natCast, ← zpow_add₀ (by norm_num)]
    congr 1
    push_cast
    omega
  have hhalf : (2 : ℚ) ^ (j - 1) = 1 / 2 * 2 ^ j := by
    rw [zpow_sub₀ (by norm_num), zpow_one]
    ring
  have heven : (2 ^ (d + 1) : ℤ) % 2 = 0 := by
    rw [pow_succ]
    exact Int.mul_emod_left _ _
  unfold roundedValue
  rw [hunit, hsplit, hhalf, mul_le_mul_iff_left₀ hpos, Int.cast_le, le_roundHalfEven_iff heven,
    ← sub_mul, le_div_iff₀ hpos]

/-! ### The thresholds -/

/-- **The numbers that are rounded up to a power of two**: from half a unit below it. -/
theorem two_zpow_le_roundedValue_iff {e : ℤ} (he : -1021 ≤ e) (hv : 0 ≤ v) :
    (2 : ℚ) ^ e ≤ roundedValue v ↔ (2 : ℚ) ^ e - 2 ^ (e - 54) ≤ v := by
  have hpos : ∀ j : ℤ, (0 : ℚ) < 2 ^ j := fun j => zpow_pos (by norm_num) j
  have hmono : ∀ {i j : ℤ}, i ≤ j → (2 : ℚ) ^ i ≤ 2 ^ j := fun h =>
    zpow_le_zpow_right₀ (by norm_num) h
  have hdouble : (2 : ℚ) ^ e = 2 * 2 ^ (e - 1) := by
    rw [zpow_sub₀ (by norm_num), zpow_one]
    ring
  have hsmall : (2 : ℚ) ^ (e - 54) ≤ 2 ^ (e - 1) := hmono (by omega)
  rcases le_or_gt ((2 : ℚ) ^ e) v with hge | hlt
  · -- from the power on, the power of two below the number is kept
    have hv' : 0 < v := (hpos e).trans_le hge
    have hlog : e ≤ Int.log 2 v :=
      (Int.zpow_le_iff_le_log (by decide) hv').mp (by exact_mod_cast hge)
    have hself : (2 : ℚ) ^ Int.log 2 v ≤ v := by
      exact_mod_cast Int.zpow_log_le_self (b := 2) (by decide) hv'
    have hunit : doubleUnit v = 2 ^ (Int.log 2 v - 52) := by
      unfold doubleUnit
      rw [max_eq_left (by omega)]
    have hreach := (zpow_le_roundedValue_iff hunit (by omega : Int.log 2 v - 52 < Int.log 2 v)).mpr
      (by linarith [hpos (Int.log 2 v - 52 - 1)])
    exact iff_of_true ((hmono hlog).trans hreach) (by linarith [hpos (e - 54)])
  · rcases le_or_gt ((2 : ℚ) ^ (e - 1)) v with hge | hlow
    · -- in the binade below, the threshold is half a unit below the power
      have hlog : Int.log 2 v = e - 1 :=
        log_eq ((hpos _).trans_le hge) hge (by rwa [sub_add_cancel])
      have hunit : doubleUnit v = 2 ^ (e - 53) := by
        unfold doubleUnit
        rw [hlog, max_eq_left (by omega)]
        congr 1
        omega
      rw [zpow_le_roundedValue_iff hunit (by omega), show e - 53 - 1 = e - 54 by omega]
    · refine iff_of_false ?_ (by linarith)
      rw [not_le]
      rcases hv.eq_or_lt with rfl | hv'
      · have hzero : roundedValue 0 = 0 := by
          have hround : roundHalfEven 0 = 0 := by
            unfold roundHalfEven
            norm_num
          rw [roundedValue, zero_div, hround, Int.cast_zero, zero_mul]
        rw [hzero]
        exact hpos e
      · have hlog : Int.log 2 v < e - 1 :=
          (Int.lt_zpow_iff_log_lt (by decide) hv').mp (by exact_mod_cast hlow)
        have hunit : doubleUnit v ≤ 2 ^ (e - 53) := hmono (by omega)
        have hhalf : (2 : ℚ) ^ (e - 53) = 2 * 2 ^ (e - 54) := by
          rw [show e - 53 = 1 + (e - 54) by omega, zpow_add₀ (by norm_num), zpow_one]
        have hround := mul_le_mul_of_nonneg_right (roundHalfEven_le (v / doubleUnit v))
          (doubleUnit_pos v).le
        rw [add_mul, div_mul_cancel₀ _ (doubleUnit_pos v).ne'] at hround
        calc roundedValue v ≤ v + 1 / 2 * doubleUnit v := hround
          _ < 2 ^ e := by linarith

/-- **The finite doubles from one on.** -/
theorem exists_one_le_toDouble_iff (hv : 0 ≤ v) :
    (∃ r, toDouble v = .finite r ∧ 1 ≤ r) ↔
      1 - 1 / 2 ^ 54 ≤ v ∧ v < 2 ^ 1024 - 2 ^ 970 := by
  have hone : 1 ≤ roundedValue v ↔ 1 - 1 / 2 ^ 54 ≤ v := by
    have := two_zpow_le_roundedValue_iff (e := 0) (by decide) hv
    norm_num at this ⊢
    exact this
  have hlarge : 2 ^ 1024 ≤ roundedValue v ↔ 2 ^ 1024 - 2 ^ 970 ≤ v := by
    have := two_zpow_le_roundedValue_iff (e := 1024) (by decide) hv
    rwa [show (1024 - 54 : ℤ) = 970 by decide, zpow_ofNat, zpow_ofNat] at this
  simp only [toDouble_eq_finite]
  constructor
  · rintro ⟨r, ⟨rfl, hlt⟩, hge⟩
    refine ⟨hone.mp hge, not_le.mp fun h => ?_⟩
    exact absurd hlt (not_lt.mpr (hlarge.mpr h))
  · rintro ⟨hge, hlt⟩
    exact ⟨_, ⟨rfl, not_le.mp fun h => absurd hlt (not_lt.mpr (hlarge.mp h))⟩, hone.mpr hge⟩

end LongRequestProxy
