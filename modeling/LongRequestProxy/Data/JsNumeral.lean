import LongRequestProxy.Data.Doubles
import LongRequestProxy.Data.JsText

/-!
# The numerals of `Number`

The texts that `Number` reads as numbers, apart from the function: decimal literals with or without
a point and an exponent, and the literals with the prefixes `0x`, `0o` and `0b`. A numeral is read
as the double nearest to the number that it denotes.

## Main definitions

* `DecimalLiteral`, `IsNumeral`: the literals without a minus sign, and what they denote.

## Main results

* `numericLiteral_of_isNumeral`: numerals are read as the nearest double.
* `isNumeral_of_numericLiteral`: the texts read as finite numbers of at least one are numerals.
* `one_le_jsNumber_iff`: the texts that `Number` reads as finite numbers of at least one.
-/

namespace LongRequestProxy

/-! ### The grammar -/

/-- The text consists of digits. -/
def AllDigits (s : List Char) : Prop := ∀ c ∈ s, c.isDigit = true

/-- An exponent, or nothing. -/
inductive IsExponent : List Char → ℤ → Prop
  | none : IsExponent [] 0
  | some {c : Char} {s : List Char} {e : ℤ} (hc : c = 'e' ∨ c = 'E')
    (he : signedInteger s = some e) : IsExponent (c :: s) e

/-- A decimal literal: digits, perhaps with a point before, among or after them, and perhaps an
exponent. -/
structure DecimalLiteral where
  whole : List Char
  point : Bool
  fraction : List Char
  exponentText : List Char
  exponent : ℤ
  whole_digits : AllDigits whole
  fraction_digits : AllDigits fraction
  fraction_nil : point = false → fraction = []
  ne_nil : whole ≠ [] ∨ fraction ≠ []
  isExponent : IsExponent exponentText exponent

namespace DecimalLiteral

variable (d : DecimalLiteral)

/-- The text from the point on. -/
def afterWhole : List Char := (if d.point then '.' :: d.fraction else []) ++ d.exponentText

/-- The text of the literal. -/
def text : List Char := d.whole ++ d.afterWhole

/-- The number that the literal denotes. -/
def value : ℚ :=
  Nat.ofDigitChars 10 (d.whole ++ d.fraction) 0 * 10 ^ (d.exponent - d.fraction.length)

theorem value_nonneg : 0 ≤ d.value :=
  mul_nonneg (Nat.cast_nonneg _) (zpow_nonneg (by norm_num) _)

end DecimalLiteral

/-- The letters that give the base of an integer literal. -/
def baseOf (c : Char) : Option ℕ :=
  if c = 'x' ∨ c = 'X' then some 16
  else if c = 'o' ∨ c = 'O' then some 8
  else if c = 'b' ∨ c = 'B' then some 2
  else none

/-- The values of the digits of a text in a base. -/
def digitValues (base : ℕ) (s : List Char) : Option (List ℕ) :=
  s.mapM fun c => (hexDigit c).filter (· < base)

/-- The literals without a minus sign, and the numbers that they denote. -/
inductive IsNumeral : List Char → ℚ → Prop
  | decimal (d : DecimalLiteral) : IsNumeral d.text d.value
  | plus (d : DecimalLiteral) : IsNumeral ('+' :: d.text) d.value
  | based {c : Char} {s : List Char} {base : ℕ} {digits : List ℕ} (hc : baseOf c = some base)
    (hs : digitValues base s = some digits) (hne : digits ≠ []) :
    IsNumeral ('0' :: c :: s) (digits.foldl (fun n d => base * n + d) 0 : ℕ)

theorem IsNumeral.nonneg {s : List Char} {v : ℚ} (h : IsNumeral s v) : 0 ≤ v := by
  cases h with
  | decimal d => exact d.value_nonneg
  | plus d => exact d.value_nonneg
  | based _ _ _ => exact Nat.cast_nonneg _

/-! ### Decimal literals -/

theorem signedInteger_mem {s : List Char} {e : ℤ} (h : signedInteger s = some e) {c : Char}
    (hc : c ∈ s) : c.isDigit = true ∨ c = '+' ∨ c = '-' := by
  have hdigits : ∀ {t : List Char}, decimalDigits t ≠ none → ∀ c ∈ t, c.isDigit = true := by
    intro t ht
    obtain ⟨n, hn⟩ := Option.ne_none_iff_exists'.mp ht
    exact (decimalDigits_eq_some.mp hn).2.1
  unfold signedInteger at h
  split at h
  · rcases List.mem_cons.mp hc with rfl | hc
    · exact .inr (.inl rfl)
    · exact .inl (hdigits (fun hnone => by simp [hnone] at h) c hc)
  · rcases List.mem_cons.mp hc with rfl | hc
    · exact .inr (.inr rfl)
    · exact .inl (hdigits (fun hnone => by simp [hnone] at h) c hc)
  · exact .inl (hdigits (fun hnone => by simp [hnone] at h) c hc)

theorem IsExponent.head {s : List Char} {e : ℤ} (h : IsExponent s e) :
    ∀ c ∈ s.head?, c = 'e' ∨ c = 'E' := by
  cases h with
  | none => simp
  | some hc _ => simpa using hc

theorem isExponent_iff {s : List Char} {e : ℤ} : IsExponent s e ↔ exponentPart s = some e := by
  cases s with
  | nil =>
    constructor
    · intro h
      cases h
      rfl
    · intro h
      cases h
      exact .none
  | cons c s =>
    simp only [exponentPart]
    constructor
    · intro h
      cases h with
      | some hc he => rwa [if_pos hc]
    · intro h
      split at h
      · next hc => exact .some hc h
      · cases h

theorem span_digits {s rest : List Char} (hs : AllDigits s)
    (hrest : ∀ c ∈ rest.head?, c.isDigit = false) :
    (s ++ rest).span Char.isDigit = (s, rest) := by
  rw [List.span_eq_takeWhile_dropWhile, takeWhile_append_of_head hs hrest]
  congr 1
  rw [List.dropWhile_append_of_pos hs]
  cases rest with
  | nil => rfl
  | cons c rest => rw [List.dropWhile_cons, hrest c rfl, if_neg Bool.false_ne_true]

namespace DecimalLiteral

variable (d : DecimalLiteral)

/-- The characters of decimal literals. -/
theorem mem_text {c : Char} (hc : c ∈ d.text) :
    c.isDigit = true ∨ c ∈ ['.', 'e', 'E', '+', '-'] := by
  rcases List.mem_append.mp hc with hc | hc
  · exact .inl (d.whole_digits c hc)
  · rcases List.mem_append.mp hc with hc | hc
    · split at hc
      · rcases List.mem_cons.mp hc with rfl | hc
        · simp
        · exact .inl (d.fraction_digits c hc)
      · cases hc
    · have hexp := d.isExponent
      generalize d.exponentText = text, d.exponent = e at hc hexp
      cases hexp with
      | none => cases hc
      | some hletter he =>
        rcases List.mem_cons.mp hc with rfl | hc
        · obtain rfl | rfl := hletter <;> simp
        · obtain h | rfl | rfl := signedInteger_mem he hc
          · exact .inl h
          · simp
          · simp

theorem afterWhole_head : ∀ c ∈ d.afterWhole.head?, c.isDigit = false := by
  intro c hc
  unfold afterWhole at hc
  split at hc
  · cases hc
    decide
  · rw [List.nil_append] at hc
    obtain rfl | rfl := d.isExponent.head c hc <;> decide

theorem fractionPart_afterWhole : fractionPart d.afterWhole = (d.fraction, d.exponentText) := by
  have hexp : ∀ c ∈ d.exponentText.head?, c.isDigit = false := fun c hc => by
    obtain rfl | rfl := d.isExponent.head c hc <;> decide
  unfold afterWhole
  cases hpoint : d.point with
  | true => exact span_digits d.fraction_digits hexp
  | false =>
    rw [d.fraction_nil hpoint]
    have hhead := d.isExponent.head
    generalize d.exponentText = text at hhead
    unfold fractionPart
    split
    · next heq =>
      have := hhead '.' (by simp_all)
      simp at this
    · simp_all

/-- A decimal literal is read as the double nearest to its number. -/
theorem unsignedDecimal_text : unsignedDecimal d.text = toDouble d.value := by
  have hinf : d.text ≠ "Infinity".toList := by
    intro heq
    have := d.mem_text (c := 'I') (by rw [heq]; decide)
    simp at this
  have hspan : d.text.span Char.isDigit = (d.whole, d.afterWhole) :=
    span_digits d.whole_digits d.afterWhole_head
  have hsome : ¬ (d.whole = [] ∧ d.fraction = []) := by
    rintro ⟨hw, hf⟩
    exact d.ne_nil.elim (absurd hw) (absurd hf)
  unfold unsignedDecimal
  rw [if_neg hinf]
  dsimp only
  rw [hspan]
  dsimp only
  rw [d.fractionPart_afterWhole]
  dsimp only
  rw [if_neg hsome, isExponent_iff.mp d.isExponent]
  rfl

end DecimalLiteral

/-- A text that is read as a finite number without a sign is a decimal literal. -/
theorem exists_decimalLiteral {s : List Char} {r : ℚ} (h : unsignedDecimal s = .finite r) :
    ∃ d : DecimalLiteral, d.text = s := by
  unfold unsignedDecimal at h
  split at h
  · cases h
  · dsimp only at h
    rw [List.span_eq_takeWhile_dropWhile] at h
    dsimp only at h
    split at h
    · cases h
    · next hsome =>
      split at h
      · cases h
      · next e he =>
        have hall : ∀ t : List Char, AllDigits (t.takeWhile Char.isDigit) := fun t c hc =>
          List.mem_takeWhile_imp hc
        have hsplit := List.takeWhile_append_dropWhile (p := Char.isDigit) (l := s)
        generalize s.dropWhile Char.isDigit = rest at he hsome hsplit
        by_cases hpoint : ∃ t, rest = '.' :: t
        · obtain ⟨t, rfl⟩ := hpoint
          simp only [fractionPart, List.span_eq_takeWhile_dropWhile] at he hsome
          refine ⟨⟨_, true, _, _, e, hall s, hall t, by simp, ?_, isExponent_iff.mpr he⟩, ?_⟩
          · tauto
          · rw [DecimalLiteral.text, DecimalLiteral.afterWhole, if_pos rfl, List.cons_append,
              List.takeWhile_append_dropWhile, hsplit]
        · have hfraction : fractionPart rest = ([], rest) := by
            unfold fractionPart
            split
            · next t => exact absurd ⟨t, rfl⟩ hpoint
            · rfl
          rw [hfraction] at he hsome
          refine ⟨⟨_, false, [], _, e, hall s, by simp [AllDigits], by simp, ?_,
            isExponent_iff.mpr he⟩, ?_⟩
          · tauto
          · rw [DecimalLiteral.text, DecimalLiteral.afterWhole, if_neg Bool.false_ne_true,
              List.nil_append, hsplit]

/-! ### Numerals -/

theorem nonDecimalDigits_eq {base : ℕ} {s : List Char} {digits : List ℕ}
    (hs : digitValues base s = some digits) (hne : digits ≠ []) :
    nonDecimalDigits base s =
      toDouble ((digits.foldl (fun n d => base * n + d) 0 : ℕ) : ℚ) := by
  obtain ⟨d, ds, rfl⟩ := List.exists_cons_of_ne_nil hne
  unfold nonDecimalDigits
  rw [show (s.mapM fun c => (hexDigit c).filter (· < base)) = some (d :: ds) from hs]

theorem numericLiteral_based {c : Char} {base : ℕ} (hc : baseOf c = some base) (s : List Char) :
    numericLiteral ('0' :: c :: s) = nonDecimalDigits base s := by
  unfold baseOf at hc
  unfold numericLiteral
  split at hc
  · next h =>
    cases hc
    exact if_pos h
  · next hx =>
    split at hc
    · next h =>
      cases hc
      exact (if_neg hx).trans (if_pos h)
    · next ho =>
      split at hc
      · next h =>
        cases hc
        exact (if_neg hx).trans ((if_neg ho).trans (if_pos h))
      · cases hc

theorem numericLiteral_unbased {c : Char} (hc : baseOf c = none) (s : List Char) :
    numericLiteral ('0' :: c :: s) = unsignedDecimal ('0' :: c :: s) := by
  unfold baseOf at hc
  unfold numericLiteral
  split at hc
  · cases hc
  · next hx =>
    split at hc
    · cases hc
    · next ho =>
      split at hc
      · cases hc
      · next hb => exact (if_neg hx).trans ((if_neg ho).trans (if_neg hb))

namespace DecimalLiteral

variable (d : DecimalLiteral)

/-- No letter of a base is in a decimal literal. -/
theorem not_mem_text {c : Char} {base : ℕ} (hc : baseOf c = some base) : c ∉ d.text := by
  intro hmem
  have hchars := d.mem_text hmem
  unfold baseOf at hc
  split at hc
  · next h => obtain rfl | rfl := h <;> simp [Char.isDigit] at hchars
  · split at hc
    · next h => obtain rfl | rfl := h <;> simp [Char.isDigit] at hchars
    · split at hc
      · next h => obtain rfl | rfl := h <;> simp [Char.isDigit] at hchars
      · cases hc

/-- A decimal literal starts with a digit or the point. -/
theorem exists_head : ∃ c t, d.text = c :: t ∧ (c.isDigit = true ∨ c = '.') := by
  unfold text
  cases hw : d.whole with
  | cons c t => exact ⟨c, _, rfl, .inl (d.whole_digits c (by rw [hw]; exact List.mem_cons_self))⟩
  | nil =>
    cases hp : d.point with
    | true => exact ⟨'.', d.fraction ++ d.exponentText, by simp [afterWhole, hp], .inr rfl⟩
    | false => exact absurd (d.fraction_nil hp) (d.ne_nil.resolve_left (by simp [hw]))

theorem numericLiteral_text : numericLiteral d.text = unsignedDecimal d.text := by
  obtain ⟨c, t, htext, hc⟩ := d.exists_head
  have hne : ∀ e : Char, e.isDigit = false → e ≠ '.' → c ≠ e := by
    rintro e he hpoint rfl
    obtain h | h := hc
    · rw [he] at h
      cases h
    · exact hpoint h
  by_cases hzero : ∃ c' t', d.text = '0' :: c' :: t'
  · obtain ⟨c', t', htext'⟩ := hzero
    rw [htext']
    refine numericLiteral_unbased (Option.eq_none_iff_forall_not_mem.mpr fun base hbase => ?_) t'
    exact d.not_mem_text hbase (by rw [htext']; simp)
  · rw [htext] at hzero ⊢
    unfold numericLiteral
    split
    · next heq => exact absurd (List.cons.inj heq).1 (hne '+' (by decide) (by decide))
    · next heq => exact absurd (List.cons.inj heq).1 (hne '-' (by decide) (by decide))
    · next c' t' heq => exact absurd ⟨c', t', heq⟩ hzero
    · rfl

end DecimalLiteral

/-- **Numerals are read as the nearest double.** -/
theorem numericLiteral_of_isNumeral {s : List Char} {v : ℚ} (h : IsNumeral s v) :
    numericLiteral s = toDouble v := by
  cases h with
  | decimal d => exact d.numericLiteral_text.trans d.unsignedDecimal_text
  | plus d => exact d.unsignedDecimal_text
  | based hc hs hne => exact (numericLiteral_based hc _).trans (nonDecimalDigits_eq hs hne)

/-- The finite numbers of texts without a sign are not negative. -/
theorem unsignedDecimal_nonneg {s : List Char} {r : ℚ} (h : unsignedDecimal s = .finite r) :
    0 ≤ r := by
  obtain ⟨d, rfl⟩ := exists_decimalLiteral h
  rw [d.unsignedDecimal_text] at h
  obtain ⟨rfl, -⟩ := toDouble_eq_finite.mp h
  exact roundedValue_nonneg d.value_nonneg

/-- A text that is read as a finite number of at least one is a numeral. -/
theorem isNumeral_of_numericLiteral {s : List Char} {r : ℚ} (h : numericLiteral s = .finite r)
    (hr : 1 ≤ r) : ∃ v, IsNumeral s v := by
  have hdecimal : ∀ {t : List Char}, unsignedDecimal t = .finite r → ∃ v, IsNumeral t v := by
    intro t ht
    obtain ⟨d, rfl⟩ := exists_decimalLiteral ht
    exact ⟨_, .decimal d⟩
  by_cases hzero : ∃ c t, s = '0' :: c :: t
  · obtain ⟨c, t, rfl⟩ := hzero
    cases hc : baseOf c with
    | none =>
      rw [numericLiteral_unbased hc] at h
      exact hdecimal h
    | some base =>
      rw [numericLiteral_based hc] at h
      unfold nonDecimalDigits at h
      split at h
      · next digit digits hs => exact ⟨_, .based hc hs (List.cons_ne_nil _ _)⟩
      · cases h
  · unfold numericLiteral at h
    split at h
    · obtain ⟨d, rfl⟩ := exists_decimalLiteral h
      exact ⟨_, .plus d⟩
    · -- a minus sign makes the number negative
      next t =>
      cases ht : unsignedDecimal t with
      | nan =>
        rw [ht] at h
        cases h
      | infinite negative =>
        rw [ht] at h
        cases h
      | finite r' =>
        rw [ht] at h
        have hneg : -r' = r := by simpa [JsNumber.neg] using h
        have := unsignedDecimal_nonneg ht
        linarith
    · next c t => exact absurd ⟨c, t, rfl⟩ hzero
    · exact hdecimal h

theorem not_isNumeral_nil {v : ℚ} : ¬ IsNumeral [] v := by
  intro h
  generalize hs : ([] : List Char) = s at h
  cases h with
  | decimal d =>
    obtain ⟨c, t, htext, -⟩ := d.exists_head
    rw [htext] at hs
    cases hs
  | plus d => cases hs
  | based _ _ _ => cases hs

/-- **The texts read as finite numbers of at least one**: white space around a numeral whose number
is not rounded to less than one or to infinity. -/
theorem one_le_jsNumber_iff (s : String) :
    (∃ r, jsNumber s = .finite r ∧ 1 ≤ r) ↔
      ∃ v, IsNumeral (jsTrim s.toList) v ∧ 1 - 1 / 2 ^ 54 ≤ v ∧ v < 2 ^ 1024 - 2 ^ 970 := by
  have hnumber : ∀ {t : List Char}, jsTrim s.toList = t → t ≠ [] →
      jsNumber s = numericLiteral t := by
    rintro t rfl hne
    unfold jsNumber
    split
    · next hnil => exact absurd hnil hne
    · rfl
  by_cases hne : jsTrim s.toList = []
  · rw [hne]
    refine iff_of_false ?_ fun ⟨v, hv, _⟩ => not_isNumeral_nil hv
    rintro ⟨r, hr, hone⟩
    have hzero : jsNumber s = .finite 0 := by
      unfold jsNumber
      rw [hne]
    rw [hzero] at hr
    cases hr
    norm_num at hone
  · rw [hnumber rfl hne]
    constructor
    · rintro ⟨r, hr, hone⟩
      obtain ⟨v, hv⟩ := isNumeral_of_numericLiteral hr hone
      rw [numericLiteral_of_isNumeral hv] at hr
      exact ⟨v, hv, (exists_one_le_toDouble_iff hv.nonneg).mp ⟨r, hr, hone⟩⟩
    · rintro ⟨v, hv, hrange⟩
      rw [numericLiteral_of_isNumeral hv]
      exact (exists_one_le_toDouble_iff hv.nonneg).mpr hrange

end LongRequestProxy
