import Mathlib.Data.Int.Log
import Mathlib.Data.List.TakeWhile
import Mathlib.Data.Rat.Floor

/-!
# Texts as JavaScript numbers

`Number(s)` for a text `s`: the text without white space around it is read as a numeric literal,
whose value is rounded to the nearest double. The literals are those of the language's
`StringNumericLiteral`; the sign of zero is not represented.

## Main definitions

* `isJsWhitespace`, `jsTrim`: `String.prototype.trim`.
* `toDouble`: the double that is nearest to a rational number.
* `jsNumber`: `Number` on texts.

## Main results

* `toDouble_natCast`: integers below `2 ^ 53` are doubles.
* `jsNumber_toString_eq`: `Number` rounds the decimal notation of an integer to a double.
* `exists_int_of_toDouble`: the double nearest to an integer is an integer.
-/

namespace LongRequestProxy

/-- The characters that `String.prototype.trim` removes. -/
def isJsWhitespace (c : Char) : Bool :=
  [0x9, 0xA, 0xB, 0xC, 0xD, 0x20, 0xA0, 0x1680, 0x2028, 0x2029, 0x202F, 0x205F, 0x3000,
    0xFEFF].contains c.toNat || (decide (0x2000 ≤ c.toNat) && decide (c.toNat ≤ 0x200A))

/-- `String.prototype.trim`, on the list of characters. -/
def jsTrim (s : List Char) : List Char :=
  ((s.dropWhile isJsWhitespace).reverse.dropWhile isJsWhitespace).reverse

/-- A value of the type `number`. -/
inductive JsNumber : Type
  | nan
  | infinite (negative : Bool)
  | finite (value : ℚ)
  deriving DecidableEq

/-! ### Doubles -/

/-- The integer that is nearest to `v`, the even one of two. -/
def roundHalfEven (v : ℚ) : ℤ :=
  if v - ⌊v⌋ < 1 / 2 ∨ v - ⌊v⌋ = 1 / 2 ∧ ⌊v⌋ % 2 = 0 then ⌊v⌋ else ⌊v⌋ + 1

/-- The unit in the last place of the doubles around `v`. -/
def doubleUnit (v : ℚ) : ℚ := 2 ^ max (Int.log 2 v - 52) (-1074)

/-- The double that is nearest to a non-negative number. -/
def toDouble (v : ℚ) : JsNumber :=
  let r := roundHalfEven (v / doubleUnit v) * doubleUnit v
  if r < 2 ^ 1024 then .finite r else .infinite false

/-- The negative of a number. -/
def JsNumber.neg : JsNumber → JsNumber
  | nan => nan
  | infinite negative => infinite !negative
  | finite value => finite (-value)

/-! ### Literals -/

/-- `DecimalDigits`. -/
def decimalDigits (s : List Char) : Option ℕ :=
  if s ≠ [] ∧ s.all Char.isDigit then some (Nat.ofDigitChars 10 s 0) else none

/-- `SignedInteger`. -/
def signedInteger : List Char → Option ℤ
  | '+' :: s => (decimalDigits s).map fun n => (n : ℤ)
  | '-' :: s => (decimalDigits s).map fun n => -(n : ℤ)
  | s => (decimalDigits s).map fun n => (n : ℤ)

/-- `ExponentPart`, or nothing. -/
def exponentPart : List Char → Option ℤ
  | [] => some 0
  | c :: s => if c = 'e' ∨ c = 'E' then signedInteger s else none

/-- The digits after a decimal point, if there is one, and the rest of the text. -/
def fractionPart : List Char → List Char × List Char
  | '.' :: s => s.span Char.isDigit
  | s => ([], s)

/-- `StrUnsignedDecimalLiteral`. -/
def unsignedDecimal (s : List Char) : JsNumber :=
  if s = "Infinity".toList then .infinite false
  else
    let whole := s.span Char.isDigit
    let fraction := fractionPart whole.2
    if whole.1 = [] ∧ fraction.1 = [] then .nan
    else
      match exponentPart fraction.2 with
      | none => .nan
      | some e =>
        toDouble (Nat.ofDigitChars 10 (whole.1 ++ fraction.1) 0 * 10 ^ (e - fraction.1.length))

/-- The value of a hexadecimal digit. -/
def hexDigit (c : Char) : Option ℕ :=
  if c.isDigit then some (c.toNat - '0'.toNat)
  else if 'a' ≤ c ∧ c ≤ 'f' then some (c.toNat - 'a'.toNat + 10)
  else if 'A' ≤ c ∧ c ≤ 'F' then some (c.toNat - 'A'.toNat + 10)
  else none

/-- The digits of `NonDecimalIntegerLiteral` in the given base. -/
def nonDecimalDigits (base : ℕ) (s : List Char) : JsNumber :=
  match s.mapM fun c => (hexDigit c).filter (· < base) with
  | some (d :: ds) => toDouble ((d :: ds).foldl (fun n d => base * n + d) 0 : ℕ)
  | _ => .nan

/-- `StrNumericLiteral`. -/
def numericLiteral : List Char → JsNumber
  | '+' :: s => unsignedDecimal s
  | '-' :: s => (unsignedDecimal s).neg
  | '0' :: c :: s =>
    if c = 'x' ∨ c = 'X' then nonDecimalDigits 16 s
    else if c = 'o' ∨ c = 'O' then nonDecimalDigits 8 s
    else if c = 'b' ∨ c = 'B' then nonDecimalDigits 2 s
    else unsignedDecimal ('0' :: c :: s)
  | s => unsignedDecimal s

/-- `Number(s)`. -/
def jsNumber (s : String) : JsNumber :=
  match jsTrim s.toList with
  | [] => .finite 0
  | s => numericLiteral s

/-! ### Integers -/

/-- Integers below `2 ^ 53` are doubles. -/
theorem toDouble_natCast {n : ℕ} (h : n < 2 ^ 53) : toDouble n = .finite n := by
  have hlog : Int.log 2 (n : ℚ) = Nat.log 2 n := Int.log_natCast 2 n
  have hlog52 : Nat.log 2 n ≤ 52 := by
    rcases Nat.eq_zero_or_pos n with rfl | hn
    · simp
    · exact Nat.lt_succ_iff.mp (Nat.log_lt_of_lt_pow hn.ne' h)
  -- in units of the last place the integer is an integer
  obtain ⟨j, hj⟩ : ∃ j : ℕ, doubleUnit (n : ℚ) = (2 ^ j)⁻¹ := by
    refine ⟨52 - Nat.log 2 n, ?_⟩
    unfold doubleUnit
    rw [hlog, max_eq_left (by omega), ← zpow_natCast, ← zpow_neg]
    congr 1
    omega
  have hscaled : (n : ℚ) / doubleUnit n = ((n * 2 ^ j : ℕ) : ℤ) := by
    rw [hj, div_inv_eq_mul]
    push_cast
    rfl
  have hround : roundHalfEven (((n * 2 ^ j : ℕ) : ℤ) : ℚ) = (n * 2 ^ j : ℕ) := by
    unfold roundHalfEven
    rw [Int.floor_intCast, sub_self, if_pos (.inl (by norm_num))]
  have hvalue : ((n * 2 ^ j : ℕ) : ℤ) * doubleUnit (n : ℚ) = n := by
    rw [hj]
    push_cast
    field_simp
  unfold toDouble
  rw [hscaled, hround]
  dsimp only
  rw [hvalue, if_pos]
  calc (n : ℚ) < 2 ^ 53 := by exact_mod_cast h
    _ ≤ 2 ^ 1024 := pow_le_pow_right₀ (by norm_num) (by norm_num)

theorem span_of_all {p : Char → Bool} {s : List Char} (h : ∀ c ∈ s, p c = true) :
    s.span p = (s, []) := by
  rw [List.span_eq_takeWhile_dropWhile, List.takeWhile_eq_self_iff.mpr h,
    List.dropWhile_eq_nil_iff.mpr h]

theorem isJsWhitespace_of_isDigit {c : Char} (h : c.isDigit = true) :
    isJsWhitespace c = false := by
  simp only [Char.isDigit, Bool.and_eq_true, decide_eq_true_eq, UInt32.le_iff_toNat_le] at h
  have hlow : 48 ≤ c.toNat := h.1
  have hhigh : c.toNat ≤ 57 := h.2
  simp [isJsWhitespace]
  omega

theorem jsTrim_of_isDigit {s : List Char} (h : ∀ c ∈ s, c.isDigit = true) : jsTrim s = s := by
  have hdrop : ∀ l : List Char, (∀ c ∈ l, c.isDigit = true) → l.dropWhile isJsWhitespace = l := by
    intro l hl
    cases l with
    | nil => rfl
    | cons c l =>
      rw [List.dropWhile_cons, isJsWhitespace_of_isDigit (hl c List.mem_cons_self),
        if_neg Bool.false_ne_true]
  unfold jsTrim
  rw [hdrop s h, hdrop s.reverse (by simpa using h), List.reverse_reverse]

/-- A text of digits is read as a decimal number. -/
theorem numericLiteral_of_isDigit {s : List Char} (hne : s ≠ []) (h : ∀ c ∈ s, c.isDigit = true) :
    numericLiteral s = toDouble (Nat.ofDigitChars 10 s 0) := by
  have hnot : ∀ c ∈ s, ∀ d : Char, d.isDigit = false → c ≠ d := by
    rintro c hc d hd rfl
    rw [h c hc] at hd
    cases hd
  have hdecimal : unsignedDecimal s = toDouble (Nat.ofDigitChars 10 s 0) := by
    have hinf : s ≠ "Infinity".toList := by
      rintro rfl
      exact hnot 'I' (by decide) 'I' (by decide) rfl
    unfold unsignedDecimal
    rw [if_neg hinf, span_of_all h]
    simp [fractionPart, exponentPart, hne]
  rw [← hdecimal]
  unfold numericLiteral
  split
  · exact absurd rfl (hnot '+' List.mem_cons_self '+' (by decide))
  · exact absurd rfl (hnot '-' List.mem_cons_self '-' (by decide))
  · next c rest =>
    have hc : ∀ d : Char, d.isDigit = false → c ≠ d :=
      hnot c (List.mem_cons_of_mem _ List.mem_cons_self)
    rw [if_neg (not_or.mpr ⟨hc 'x' (by decide), hc 'X' (by decide)⟩),
      if_neg (not_or.mpr ⟨hc 'o' (by decide), hc 'O' (by decide)⟩),
      if_neg (not_or.mpr ⟨hc 'b' (by decide), hc 'B' (by decide)⟩)]
  · rfl

/-- `Number` rounds the decimal notation of an integer to a double. -/
theorem jsNumber_toString_eq (n : ℕ) : jsNumber (toString n) = toDouble n := by
  have hdigits : ∀ c ∈ Nat.toDigits 10 n, c.isDigit = true := fun c hc =>
    Nat.isDigit_of_mem_toDigits (by decide) (by decide) hc
  have hne : Nat.toDigits 10 n ≠ [] := Nat.toDigits_ne_nil
  have htext : (toString n).toList = Nat.toDigits 10 n := Nat.toList_repr
  unfold jsNumber
  rw [htext, jsTrim_of_isDigit hdigits]
  split
  · next hnil => exact absurd hnil hne
  · rw [numericLiteral_of_isDigit hne hdigits, Nat.ofDigitChars_ten_toDigits]

/-- The double nearest to an integer is an integer. -/
theorem exists_int_of_toDouble {n : ℕ} {r : ℚ} (h : toDouble n = .finite r) : ∃ m : ℤ, r = m := by
  rcases Nat.lt_or_ge n (2 ^ 53) with hlt | hge
  · rw [toDouble_natCast hlt] at h
    cases h
    exact ⟨n, rfl⟩
  · have hlog : Int.log 2 (n : ℚ) = Nat.log 2 n := Int.log_natCast 2 n
    have hlog53 : 53 ≤ Nat.log 2 n := (Nat.le_log_iff_pow_le (by decide) (by omega)).mpr hge
    -- the unit of the last place is at least one
    have hunit : doubleUnit (n : ℚ) = ((2 ^ (Nat.log 2 n - 52) : ℕ) : ℚ) := by
      unfold doubleUnit
      rw [hlog, max_eq_left (by omega), Nat.cast_pow, ← zpow_natCast]
      congr 1
      omega
    simp only [toDouble] at h
    split at h
    · cases h
      rw [hunit]
      exact ⟨roundHalfEven (n / ((2 ^ (Nat.log 2 n - 52) : ℕ) : ℚ)) * (2 ^ (Nat.log 2 n - 52) : ℕ),
        by push_cast; rfl⟩
    · cases h

end LongRequestProxy
