import LongRequestProxy.Data.JsNumeral
import LongRequestProxy.Data.Json

/-!
# The texts of JSON numbers

JavaScript writes a number with as few digits as possible, and with an exponent only when the
number is very large or very small. What is written is read as the same number.

## Main definitions

* `lowest`: the notation of a number whose mantissa has no zeros at its end.
* `numberText`: how a number is written.
* `readNumber`: how a number is read.

## Main results

* `IsLowest.unique`: two numbers in lowest terms that are equal have the same notation.
* `readNumber_numberText`: what is written is read as the same number.
* `numberText_int`: integers are written in decimal digits.
-/

namespace LongRequestProxy

/-! ### Lowest terms -/

/-- The number `mantissa * 10 ^ exponent`. -/
def decimalValue (mantissa exponent : ℤ) : ℚ := mantissa * 10 ^ exponent

/-- The mantissa has no zeros at its end. -/
def IsLowest (mantissa exponent : ℤ) : Prop := mantissa % 10 ≠ 0 ∨ mantissa = 0 ∧ exponent = 0

/-- Take at most so many zeros off the mantissa. -/
def stripZeros : ℕ → ℤ → ℤ → ℤ × ℤ
  | 0, mantissa, exponent => (mantissa, exponent)
  | fuel + 1, mantissa, exponent =>
    if mantissa % 10 = 0 then stripZeros fuel (mantissa / 10) (exponent + 1)
    else (mantissa, exponent)

/-- The notation of the number without zeros at the end of the mantissa. -/
def lowest (mantissa exponent : ℤ) : ℤ × ℤ :=
  if mantissa = 0 then (0, 0) else stripZeros mantissa.natAbs mantissa exponent

theorem exists_stripZeros {fuel : ℕ} {m e : ℤ} (hm : m ≠ 0) (hfuel : m.natAbs ≤ fuel) :
    (stripZeros fuel m e).1 % 10 ≠ 0 ∧ ∃ z : ℕ, (stripZeros fuel m e).2 = e + z ∧
      m = (stripZeros fuel m e).1 * 10 ^ z := by
  induction fuel generalizing m e with
  | zero => omega
  | succ fuel ih =>
    rw [stripZeros]
    split
    · next hzero =>
      obtain ⟨hlow, z, hexp, hmant⟩ := ih (m := m / 10) (e := e + 1) (by omega) (by omega)
      refine ⟨hlow, z + 1, ?_, ?_⟩
      · rw [hexp]
        push_cast
        ring
      · calc m = m / 10 * 10 := by omega
          _ = (stripZeros fuel (m / 10) (e + 1)).1 * 10 ^ z * 10 := congrArg (· * 10) hmant
          _ = (stripZeros fuel (m / 10) (e + 1)).1 * 10 ^ (z + 1) := by rw [pow_succ, mul_assoc]
    · next hlow => exact ⟨hlow, 0, by simp, by simp⟩

theorem exists_lowest {m : ℤ} (hm : m ≠ 0) (e : ℤ) :
    (lowest m e).1 % 10 ≠ 0 ∧ ∃ z : ℕ, (lowest m e).2 = e + z ∧ m = (lowest m e).1 * 10 ^ z := by
  rw [lowest, if_neg hm]
  exact exists_stripZeros hm (le_refl _)

theorem isLowest_lowest (m e : ℤ) : IsLowest (lowest m e).1 (lowest m e).2 := by
  by_cases hm : m = 0
  · rw [lowest, if_pos hm]
    exact .inr ⟨rfl, rfl⟩
  · exact .inl (exists_lowest hm e).1

theorem decimalValue_lowest (m e : ℤ) :
    decimalValue (lowest m e).1 (lowest m e).2 = decimalValue m e := by
  by_cases hm : m = 0
  · simp [lowest, hm, decimalValue]
  · obtain ⟨-, z, hexp, hmant⟩ := exists_lowest hm e
    have hcast : (m : ℚ) = (lowest m e).1 * 10 ^ z := by exact_mod_cast hmant
    unfold decimalValue
    rw [hexp, hcast, zpow_add₀ (by norm_num), zpow_natCast]
    ring

theorem decimalValue_neg (m e : ℤ) : decimalValue (-m) e = -decimalValue m e := by
  unfold decimalValue
  push_cast
  ring

/-- A mantissa without zeros at its end determines the exponent. -/
theorem IsLowest.exponent_le {m e m' e' : ℤ} (hm : m % 10 ≠ 0)
    (h : decimalValue m e = decimalValue m' e') : e' ≤ e := by
  by_contra hlt
  obtain ⟨d, hd⟩ := Int.le.dest (show e + 1 ≤ e' by omega)
  have hpow : (10 : ℚ) ^ e' = 10 ^ e * 10 ^ (d + 1) := by
    rw [← hd, add_assoc, zpow_add₀ (by norm_num), add_comm (1 : ℤ)]
    norm_cast
  have hmant : (m : ℚ) = m' * 10 ^ (d + 1) := by
    have hne : (10 : ℚ) ^ e ≠ 0 := zpow_ne_zero _ (by norm_num)
    unfold decimalValue at h
    rw [hpow] at h
    refine mul_right_cancel₀ hne (h.trans ?_)
    ring
  have hint : m = m' * 10 ^ (d + 1) := by exact_mod_cast hmant
  rw [pow_succ, ← mul_assoc] at hint
  omega

/-- **Lowest terms.** Equal numbers in lowest terms have the same notation. -/
theorem IsLowest.unique {m e m' e' : ℤ} (h : IsLowest m e) (h' : IsLowest m' e')
    (heq : decimalValue m e = decimalValue m' e') : m = m' ∧ e = e' := by
  have hpow : ∀ x : ℤ, (10 : ℚ) ^ x ≠ 0 := fun x => zpow_ne_zero _ (by norm_num)
  obtain hm | ⟨rfl, rfl⟩ := h
  · obtain hm' | ⟨rfl, rfl⟩ := h'
    · obtain rfl : e = e' :=
        le_antisymm (exponent_le hm' heq.symm) (exponent_le hm heq)
      have hcast := mul_right_cancel₀ (hpow e) heq
      exact ⟨by exact_mod_cast hcast, rfl⟩
    · have hzero : (m : ℚ) = 0 := by simpa [decimalValue, hpow] using heq
      have : m = 0 := by exact_mod_cast hzero
      omega
  · obtain hm' | ⟨rfl, rfl⟩ := h'
    · have hzero : (m' : ℚ) = 0 := by simpa [decimalValue, hpow, eq_comm] using heq
      have : m' = 0 := by exact_mod_cast hzero
      omega
    · exact ⟨rfl, rfl⟩

/-- A number in lowest terms, whatever the notation that it was given in. -/
theorem lowest_eq {m e m' e' : ℤ} (h : IsLowest m e)
    (heq : decimalValue m' e' = decimalValue m e) : lowest m' e' = (m, e) := by
  obtain ⟨hm, he⟩ := (isLowest_lowest m' e').unique h ((decimalValue_lowest m' e').trans heq)
  exact Prod.ext hm he

/-- The number as a JSON value. -/
def Json.ofDecimal (mantissa exponent : ℤ) : Json :=
  .num (lowest mantissa exponent).1 (lowest mantissa exponent).2

theorem Json.ofDecimal_eq {m e m' e' : ℤ} (h : IsLowest m e)
    (heq : decimalValue m' e' = decimalValue m e) : Json.ofDecimal m' e' = .num m e := by
  rw [ofDecimal, lowest_eq h heq]

/-! ### Writing -/

/-- The parts of a decimal notation without a sign. -/
structure NumberParts where
  whole : List Char
  fraction : List Char := []
  exponent : Option ℤ := none

namespace NumberParts

/-- The part from the letter `e` on. -/
def exponentText : Option ℤ → List Char
  | none => []
  | some x => 'e' :: (if x < 0 then '-' else '+') :: Nat.toDigits 10 x.natAbs

/-- The text of a notation. -/
def text (d : NumberParts) : List Char :=
  d.whole ++ (if d.fraction = [] then [] else '.' :: d.fraction) ++ exponentText d.exponent

/-- The number that a notation denotes is `mantissa * 10 ^ scale`. -/
def mantissa (d : NumberParts) : ℕ := Nat.ofDigitChars 10 (d.whole ++ d.fraction) 0

/-- The power of ten of the last digit. -/
def scale (d : NumberParts) : ℤ := d.exponent.getD 0 - d.fraction.length

/-- The notation follows the grammar: no zeros in front. -/
structure WellFormed (d : NumberParts) : Prop where
  whole_digits : AllDigits d.whole
  whole_ne_nil : d.whole ≠ []
  whole_head : d.whole = ['0'] ∨ d.whole.head? ≠ some '0'
  fraction_digits : AllDigits d.fraction

end NumberParts

/-- Where the point goes: `Number::toString` of the number with these digits and this exponent. -/
def layout (digits : List Char) (exponent : ℤ) : NumberParts :=
  let point : ℤ := digits.length + exponent
  if digits.length ≤ point ∧ point ≤ 21 then
    { whole := digits ++ List.replicate exponent.toNat '0' }
  else if 0 < point ∧ point ≤ 21 then
    { whole := digits.take point.toNat, fraction := digits.drop point.toNat }
  else if -6 < point ∧ point ≤ 0 then
    { whole := ['0'], fraction := List.replicate (-point).toNat '0' ++ digits }
  else
    { whole := digits.take 1, fraction := digits.drop 1, exponent := some (point - 1) }

/-- `Number::toString`. -/
def numberText (mantissa exponent : ℤ) : List Char :=
  (if mantissa < 0 then ['-'] else []) ++
    (layout (Nat.toDigits 10 mantissa.natAbs) exponent).text

/-- Positive numbers are written without zeros in front. -/
theorem head_toDigits {n : ℕ} (hn : n ≠ 0) : (Nat.toDigits 10 n).head? ≠ some '0' := by
  induction n using Nat.strong_induction_on with
  | _ n ih =>
    rw [Nat.toDigits_eq_if (by decide)]
    split
    · next hlt =>
      have hdigit : ∀ d < 10, d ≠ 0 → some (Nat.digitChar d) ≠ some '0' := by decide
      exact hdigit n hlt hn
    · next hle =>
      rw [List.head?_append_of_ne_nil _ Nat.toDigits_ne_nil]
      exact ih (n / 10) (by omega) (by omega)

theorem allDigits_toDigits (n : ℕ) : AllDigits (Nat.toDigits 10 n) := fun _ hc =>
  Nat.isDigit_of_mem_toDigits (by decide) (by decide) hc

theorem allDigits_zeros (n : ℕ) : AllDigits (List.replicate n '0') := fun c hc => by
  rw [List.eq_of_mem_replicate hc]
  decide

theorem AllDigits.append {s s' : List Char} (h : AllDigits s) (h' : AllDigits s') :
    AllDigits (s ++ s') := fun c hc => (List.mem_append.mp hc).elim (h c) (h' c)

/-- What is written follows the grammar. -/
theorem wellFormed_layout {n : ℕ} {e : ℤ} (h : n ≠ 0 ∨ e = 0) :
    (layout (Nat.toDigits 10 n) e).WellFormed := by
  have hdigits := allDigits_toDigits n
  have hne : Nat.toDigits 10 n ≠ [] := Nat.toDigits_ne_nil
  by_cases hn : n = 0
  · obtain rfl : e = 0 := h.resolve_left (absurd hn)
    subst hn
    exact ⟨hdigits, hne, .inl rfl, by simp [layout, AllDigits]⟩
  have hhead := head_toDigits hn
  generalize Nat.toDigits 10 n = digits at hdigits hne hhead
  -- the digits in front of the point are not empty, and no zero comes first
  have htake : ∀ k : ℕ, k ≠ 0 → digits.take k ≠ [] ∧ (digits.take k).head? ≠ some '0' := by
    intro k hk
    rw [List.head?_take, if_neg hk]
    exact ⟨by simp [hk, hne], hhead⟩
  have hsub : ∀ {s : List Char}, s ⊆ digits → AllDigits s := fun hs c hc => hdigits c (hs hc)
  unfold layout
  dsimp only
  split
  · exact ⟨hdigits.append (allDigits_zeros _), by simp [hne],
      .inr (by rwa [List.head?_append_of_ne_nil _ hne]), by simp [AllDigits]⟩
  · split
    · next hpos =>
      obtain ⟨hnil, hzero⟩ := htake (digits.length + e).toNat (by omega)
      exact ⟨hsub (List.take_subset _ _), hnil, .inr hzero, hsub (List.drop_subset _ _)⟩
    · split
      · exact ⟨by simp [AllDigits], by simp, .inl rfl, (allDigits_zeros _).append hdigits⟩
      · obtain ⟨hnil, hzero⟩ := htake 1 (by decide)
        exact ⟨hsub (List.take_subset _ _), hnil, .inr hzero, hsub (List.drop_subset _ _)⟩

/-- What is written denotes the number. -/
theorem decimalValue_layout (n : ℕ) (e : ℤ) :
    decimalValue (layout (Nat.toDigits 10 n) e).mantissa (layout (Nat.toDigits 10 n) e).scale =
      decimalValue n e := by
  have hvalue : Nat.ofDigitChars 10 (Nat.toDigits 10 n) 0 = n := Nat.ofDigitChars_ten_toDigits
  have hpos : 0 < (Nat.toDigits 10 n).length := Nat.length_toDigits_pos
  generalize Nat.toDigits 10 n = digits at hvalue hpos
  unfold layout
  dsimp only
  split
  · next hlarge =>
    obtain ⟨k, rfl⟩ := Int.eq_ofNat_of_zero_le (show 0 ≤ e by omega)
    simp [NumberParts.mantissa, NumberParts.scale, decimalValue, Nat.ofDigitChars_append, hvalue,
      mul_comm]
  · split
    · next hpoint =>
      have hlen : ((digits.drop (digits.length + e).toNat).length : ℤ) = -e := by
        rw [List.length_drop]
        omega
      simp only [NumberParts.mantissa, NumberParts.scale, List.take_append_drop, hvalue,
        Option.getD_none, hlen, sub_neg_eq_add, zero_add]
    · split
      · next hsmall =>
        have hlen : ((List.replicate (-(digits.length + e)).toNat '0' ++ digits).length : ℤ) =
            -e := by
          rw [List.length_append, List.length_replicate]
          omega
        have hzeros : Nat.ofDigitChars 10
            (['0'] ++ (List.replicate (-(digits.length + e)).toNat '0' ++ digits)) 0 = n := by
          rw [Nat.ofDigitChars_append, Nat.ofDigitChars_append,
            show Nat.ofDigitChars 10 ['0'] 0 = 0 from rfl, Nat.ofDigitChars_replicate_zero,
            Nat.mul_zero, hvalue]
        simp only [NumberParts.mantissa, NumberParts.scale, hzeros, Option.getD_none, hlen,
          sub_neg_eq_add, zero_add]
      · have hscale : (digits.length + e - 1) - ((digits.drop 1).length : ℤ) = e := by
          rw [List.length_drop]
          omega
        simp only [NumberParts.mantissa, NumberParts.scale, List.take_append_drop, hvalue,
          Option.getD_some, hscale]

/-! ### Reading -/

/-- As many digits as there are, at least one, and the rest of the text. -/
def readDigits (s : List Char) : Option (List Char × List Char) :=
  let r := s.span Char.isDigit
  if r.1 = [] then none else some r

/-- The digits in front of the point: a zero alone, or digits without a zero in front. -/
def readWhole (s : List Char) : Option (List Char × List Char) :=
  (readDigits s).filter fun r => r.1 = ['0'] ∨ r.1.head? ≠ some '0'

/-- The digits after the point, if there is one. -/
def readFraction : List Char → Option (List Char × List Char)
  | '.' :: s => readDigits s
  | s => some ([], s)

/-- The digits of an exponent, with or without a sign. -/
def readSigned : List Char → Option (ℤ × List Char)
  | '+' :: s => (readDigits s).map fun r => ((Nat.ofDigitChars 10 r.1 0 : ℤ), r.2)
  | '-' :: s => (readDigits s).map fun r => (-(Nat.ofDigitChars 10 r.1 0 : ℤ), r.2)
  | s => (readDigits s).map fun r => ((Nat.ofDigitChars 10 r.1 0 : ℤ), r.2)

/-- The exponent, if there is one. -/
def readExponent : List Char → Option (ℤ × List Char)
  | [] => some (0, [])
  | c :: s => if c = 'e' ∨ c = 'E' then readSigned s else some (0, c :: s)

/-- A number without a sign, as a mantissa and an exponent. -/
def readUnsigned (s : List Char) : Option ((ℕ × ℤ) × List Char) := do
  let (whole, s) ← readWhole s
  let (fraction, s) ← readFraction s
  let (exponent, s) ← readExponent s
  return ((Nat.ofDigitChars 10 (whole ++ fraction) 0, exponent - fraction.length), s)

/-- A number of JSON. It is kept as it is written; JavaScript keeps the nearest double, whose
shortest notation it writes again. -/
def readNumber : List Char → Option (Json × List Char)
  | '-' :: s => (readUnsigned s).map fun r => (.ofDecimal (-(r.1.1 : ℤ)) r.1.2, r.2)
  | s => (readUnsigned s).map fun r => (.ofDecimal r.1.1 r.1.2, r.2)

/-- A number that is followed by the text ends there. -/
def EndsNumber (rest : List Char) : Prop :=
  ∀ c ∈ rest.head?, c.isDigit = false ∧ c ≠ '.' ∧ c ≠ 'e' ∧ c ≠ 'E'

theorem EndsNumber.not_isDigit {rest : List Char} (h : EndsNumber rest) :
    ∀ c ∈ rest.head?, c.isDigit = false := fun c hc => (h c hc).1

theorem readDigits_append {s rest : List Char} (hs : AllDigits s) (hne : s ≠ [])
    (hrest : ∀ c ∈ rest.head?, c.isDigit = false) : readDigits (s ++ rest) = some (s, rest) := by
  rw [readDigits, span_digits hs hrest]
  exact if_neg hne

namespace NumberParts

variable {rest : List Char}

/-- The exponent is read as it is written. -/
theorem readExponent_exponentText (exponent : Option ℤ) (hrest : EndsNumber rest) :
    readExponent (exponentText exponent ++ rest) = some (exponent.getD 0, rest) := by
  cases exponent with
  | none =>
    cases rest with
    | nil => rfl
    | cons c rest =>
      obtain ⟨-, -, he, hE⟩ := hrest c rfl
      exact if_neg (by simp [he, hE])
  | some x =>
    have hread := readDigits_append (allDigits_toDigits x.natAbs) Nat.toDigits_ne_nil
      hrest.not_isDigit
    unfold exponentText
    rw [List.cons_append, readExponent, if_pos (.inl rfl), List.cons_append]
    split
    · next hneg =>
      simp only [readSigned, hread, Option.map_some, Nat.ofDigitChars_ten_toDigits,
        Option.getD_some]
      congr 2
      omega
    · next hpos =>
      simp only [readSigned, hread, Option.map_some, Nat.ofDigitChars_ten_toDigits,
        Option.getD_some]
      congr 2
      omega

theorem exponentText_head (exponent : Option ℤ) (hrest : EndsNumber rest) :
    ∀ c ∈ (exponentText exponent ++ rest).head?, c.isDigit = false ∧ c ≠ '.' := by
  intro c hc
  cases exponent with
  | none =>
    obtain ⟨hdigit, hpoint, -⟩ := hrest c hc
    exact ⟨hdigit, hpoint⟩
  | some x =>
    cases hc
    decide

/-- The fraction is read as it is written. -/
theorem readFraction_text {fraction : List Char} (hdigits : AllDigits fraction)
    (exponent : Option ℤ) (hrest : EndsNumber rest) :
    readFraction ((if fraction = [] then [] else '.' :: fraction) ++
        (exponentText exponent ++ rest)) = some (fraction, exponentText exponent ++ rest) := by
  have hhead := exponentText_head exponent hrest
  split
  · next hnil =>
    subst hnil
    generalize exponentText exponent ++ rest = s at hhead
    rw [List.nil_append]
    unfold readFraction
    split
    · exact absurd rfl (hhead '.' rfl).2
    · rfl
  · next hne => exact readDigits_append hdigits hne fun c hc => (hhead c hc).1

/-- **Notations are read as the numbers that they denote.** -/
theorem readUnsigned_text {d : NumberParts} (h : d.WellFormed) (hrest : EndsNumber rest) :
    readUnsigned (d.text ++ rest) = some ((d.mantissa, d.scale), rest) := by
  have hhead : ∀ c ∈ ((if d.fraction = [] then [] else '.' :: d.fraction) ++
      (exponentText d.exponent ++ rest)).head?, c.isDigit = false := by
    intro c hc
    split at hc
    · exact (exponentText_head d.exponent hrest c hc).1
    · cases hc
      decide
  have hwhole : readWhole (d.text ++ rest) = some (d.whole,
      (if d.fraction = [] then [] else '.' :: d.fraction) ++
        (exponentText d.exponent ++ rest)) := by
    rw [text, List.append_assoc, List.append_assoc, readWhole,
      readDigits_append h.whole_digits h.whole_ne_nil hhead, Option.filter_some,
      if_pos (by simpa using h.whole_head)]
  unfold readUnsigned
  rw [hwhole]
  simp only [Option.bind_eq_bind, Option.bind_some, readFraction_text h.fraction_digits _ hrest,
    readExponent_exponentText _ hrest]
  rfl

/-- A notation starts with a digit. -/
theorem WellFormed.exists_head {d : NumberParts} (h : d.WellFormed) :
    ∃ c s, d.text = c :: s ∧ c.isDigit = true := by
  obtain ⟨c, s, hs⟩ := List.exists_cons_of_ne_nil h.whole_ne_nil
  refine ⟨c, s ++ (if d.fraction = [] then [] else '.' :: d.fraction) ++ exponentText d.exponent,
    ?_, h.whole_digits c (by simp [hs])⟩
  rw [text, hs]
  rfl

end NumberParts

theorem wellFormed_of_isLowest {m e : ℤ} (h : IsLowest m e) :
    (layout (Nat.toDigits 10 m.natAbs) e).WellFormed := by
  refine wellFormed_layout ?_
  obtain hm | ⟨-, he⟩ := h
  · exact .inl (by omega)
  · exact .inr he

/-- **What is written is read as the same number.** -/
theorem readNumber_numberText {m e : ℤ} (h : IsLowest m e) {rest : List Char}
    (hrest : EndsNumber rest) :
    readNumber (numberText m e ++ rest) = some (.num m e, rest) := by
  have hwf := wellFormed_of_isLowest h
  have hread := NumberParts.readUnsigned_text hwf hrest
  have hvalue := decimalValue_layout m.natAbs e
  obtain ⟨c, s, hs, hc⟩ := hwf.exists_head
  rw [numberText, List.append_assoc]
  split
  · next hneg =>
    rw [List.cons_append, List.nil_append, readNumber, hread, Option.map_some,
      Json.ofDecimal_eq h]
    rw [decimalValue_neg, hvalue, ← decimalValue_neg, show -(m.natAbs : ℤ) = m by omega]
  · next hpos =>
    rw [List.nil_append]
    have hplain : readNumber (c :: (s ++ rest)) =
        (readUnsigned (c :: (s ++ rest))).map fun r => (.ofDecimal r.1.1 r.1.2, r.2) := by
      unfold readNumber
      split
      · next heq =>
        cases heq
        cases hc
      · rfl
    rw [hs, List.cons_append] at hread ⊢
    rw [hplain, hread, Option.map_some, Json.ofDecimal_eq h]
    rw [hvalue, show (m.natAbs : ℤ) = m by omega]

/-! ### Integers -/

theorem toDigits_mul_pow {n : ℕ} (hn : n ≠ 0) (z : ℕ) :
    Nat.toDigits 10 (n * 10 ^ z) = Nat.toDigits 10 n ++ List.replicate z '0' := by
  induction z with
  | zero => simp
  | succ z ih =>
    have hpos : 0 < n * 10 ^ z := by positivity
    calc Nat.toDigits 10 (n * 10 ^ (z + 1)) = Nat.toDigits 10 (10 * (n * 10 ^ z) + 0) := by
          congr 1
          ring
      _ = Nat.toDigits 10 (n * 10 ^ z) ++ Nat.toDigits 10 0 :=
          (Nat.toDigits_append_toDigits (by decide) hpos (by decide)).symm
      _ = Nat.toDigits 10 n ++ (List.replicate z '0' ++ ['0']) := by
          rw [ih, List.append_assoc]
          rfl
      _ = Nat.toDigits 10 n ++ List.replicate (z + 1) '0' := by rw [List.replicate_succ']

/-- **Integers are written in decimal**, when they have at most 21 digits. -/
theorem numberText_int {n : ℤ} (hn : n.natAbs < 10 ^ 21) :
    numberText (lowest n 0).1 (lowest n 0).2 = (toString n).toList := by
  have htext : (toString n).toList =
      (if n < 0 then ['-'] else []) ++ Nat.toDigits 10 n.natAbs := by
    rw [Int.toString_eq_repr, Int.repr_eq_if]
    split
    · next hpos => rw [Nat.toList_repr, if_neg (by omega), List.nil_append,
        show n.toNat = n.natAbs by omega]
    · next hneg =>
      rw [String.toList_append, Nat.toList_repr, if_pos (by omega),
        show (-n).toNat = n.natAbs by omega]
      rfl
  by_cases hzero : n = 0
  · subst hzero
    rfl
  obtain ⟨-, z, hexp, hmant⟩ := exists_lowest hzero 0
  rw [zero_add] at hexp
  generalize lowest n 0 = r at hexp hmant
  obtain ⟨m, e⟩ := r
  dsimp only at hexp hmant
  subst hexp
  have habs : n.natAbs = m.natAbs * 10 ^ z := by
    rw [hmant, Int.natAbs_mul, Int.natAbs_pow]
    rfl
  have hsign : (m < 0) ↔ n < 0 := by
    have : (0 : ℤ) < 10 ^ z := by positivity
    rw [hmant]
    constructor
    · exact fun h => mul_neg_of_neg_of_pos h this
    · exact fun h => neg_of_mul_neg_left h this.le
  have hm : m.natAbs ≠ 0 := by
    intro hm
    rw [hm, Nat.zero_mul] at habs
    omega
  have hdigits := toDigits_mul_pow hm z
  have hlen : (Nat.toDigits 10 m.natAbs).length + z ≤ 21 := by
    have := (Nat.length_toDigits_le_iff (b := 10) (k := 21) (by decide) (by decide)).mpr hn
    rwa [habs, hdigits, List.length_append, List.length_replicate] at this
  rw [numberText, htext, habs, hdigits]
  simp only [hsign]
  congr 1
  rw [layout, if_pos ⟨by omega, by omega⟩]
  simp [NumberParts.text, NumberParts.exponentText]

end LongRequestProxy
