import LongRequestProxy.Data.JsNumber

/-!
# White space and integers in JavaScript texts

`trim` takes the white space around a text off, `parseInt` reads an integer at the start of a text
and ignores what follows it.

## Main definitions

* `IsBlank`: texts of white space.
* `jsParseInt`: `parseInt(s, 10)`.
* `IntegerPrefix s n`: the text starts, after white space, with a numeral that is not negative.

## Main results

* `exists_padding`, `jsTrim_padded`: a text is its trimmed text between blanks, and these are the
  only blanks that `trim` takes off.
* `integerPrefix_iff`: the numerals that `parseInt` reads as positive numbers.
-/

namespace LongRequestProxy

/-! ### White space -/

/-- The text is white space only. -/
def IsBlank (s : List Char) : Prop := ∀ c ∈ s, isJsWhitespace c = true

/-- The text neither starts nor ends with white space. -/
structure IsTight (s : List Char) : Prop where
  head : ∀ c ∈ s.head?, isJsWhitespace c = false
  last : ∀ c ∈ s.getLast?, isJsWhitespace c = false

theorem dropWhile_isBlank_append {w s : List Char} (hw : IsBlank w)
    (hs : ∀ c ∈ s.head?, isJsWhitespace c = false) :
    (w ++ s).dropWhile isJsWhitespace = s := by
  induction w with
  | nil =>
    cases s with
    | nil => rfl
    | cons c s => rw [List.nil_append, List.dropWhile_cons, hs c rfl, if_neg Bool.false_ne_true]
  | cons c w ih =>
    rw [List.cons_append, List.dropWhile_cons, hw c List.mem_cons_self, if_pos rfl]
    exact ih fun d hd => hw d (List.mem_cons_of_mem _ hd)

/-- `trim` takes the blanks around a text off. -/
theorem jsTrim_padded {w s w' : List Char} (hw : IsBlank w) (hw' : IsBlank w') (hs : IsTight s) :
    jsTrim (w ++ s ++ w') = s := by
  have hfront : (w ++ s ++ w').dropWhile isJsWhitespace = s ++ w' ∨ s = [] := by
    rcases s with _ | ⟨c, s⟩
    · exact .inr rfl
    · rw [List.append_assoc]
      exact .inl (dropWhile_isBlank_append hw hs.head)
  obtain hfront | rfl := hfront
  · have hback : (s ++ w').reverse.dropWhile isJsWhitespace = s.reverse := by
      rw [List.reverse_append]
      refine dropWhile_isBlank_append (fun c hc => hw' c (List.mem_reverse.mp hc)) fun c hc => ?_
      rw [List.head?_reverse] at hc
      exact hs.last c hc
    rw [jsTrim, hfront, hback, List.reverse_reverse]
  · have hblank : (w ++ [] ++ w').dropWhile isJsWhitespace = [] := by
      rw [List.append_nil, List.dropWhile_eq_nil_iff]
      exact fun c hc => (List.mem_append.mp hc).elim (hw c) (hw' c)
    rw [jsTrim, hblank]
    rfl

theorem isBlank_takeWhile (s : List Char) : IsBlank (s.takeWhile isJsWhitespace) :=
  fun _ hc => List.mem_takeWhile_imp hc

/-- A text is its trimmed text between blanks. -/
theorem exists_padding (s : List Char) :
    ∃ w w', s = w ++ jsTrim s ++ w' ∧ IsBlank w ∧ IsBlank w' := by
  let t := s.dropWhile isJsWhitespace
  refine ⟨s.takeWhile isJsWhitespace, (t.reverse.takeWhile isJsWhitespace).reverse, ?_,
    isBlank_takeWhile s, fun c hc => isBlank_takeWhile _ c (List.mem_reverse.mp hc)⟩
  have ht : jsTrim s ++ (t.reverse.takeWhile isJsWhitespace).reverse = t := by
    rw [jsTrim, ← List.reverse_append, List.takeWhile_append_dropWhile, List.reverse_reverse]
  rw [List.append_assoc, ht, List.takeWhile_append_dropWhile]

/-- A trimmed text neither starts nor ends with white space. -/
theorem isTight_jsTrim (s : List Char) : IsTight (jsTrim s) := by
  let t := (s.dropWhile isJsWhitespace).reverse
  have hlast : ∀ c ∈ (t.dropWhile isJsWhitespace).head?, isJsWhitespace c = false := by
    intro c hc
    have hfirst := List.head?_dropWhile_not isJsWhitespace t
    rw [Option.mem_def.mp hc] at hfirst
    exact hfirst
  have hhead : ∀ c ∈ (t.dropWhile isJsWhitespace).getLast?, isJsWhitespace c = false := by
    intro c hc
    have hfirst := List.head?_dropWhile_not isJsWhitespace s
    obtain ⟨w, hw⟩ := List.dropWhile_suffix (p := isJsWhitespace) (l := t)
    have hhead : (s.dropWhile isJsWhitespace).head? = some c := by
      rw [← List.getLast?_reverse, show (s.dropWhile isJsWhitespace).reverse = t from rfl, ← hw,
        List.getLast?_append, Option.mem_def.mp hc, Option.some_or]
    rw [hhead] at hfirst
    exact hfirst
  exact ⟨fun c hc => hhead c (by rwa [jsTrim, List.head?_reverse] at hc),
    fun c hc => hlast c (by rwa [jsTrim, List.getLast?_reverse] at hc)⟩

/-! ### Integers -/

/-- The value of the digits that a text starts with. -/
def leadingDigits (s : List Char) : Option ℕ := decimalDigits (s.takeWhile Char.isDigit)

/-- `parseInt(s, 10)`; `none` stands for `NaN`. The value is exact, where JavaScript may round
numerals of more than twenty digits. -/
def jsParseInt (s : List Char) : Option ℤ :=
  match s.dropWhile isJsWhitespace with
  | '-' :: s => (leadingDigits s).map fun n : ℕ => -(n : ℤ)
  | '+' :: s => (leadingDigits s).map fun n : ℕ => (n : ℤ)
  | s => (leadingDigits s).map fun n : ℕ => (n : ℤ)

/-- The text starts with a numeral of the value `n`: white space, a plus sign or none, and as many
digits as there are. Anything may follow. -/
def IntegerPrefix (s : List Char) (n : ℕ) : Prop :=
  ∃ w sign digits rest, s = w ++ sign ++ digits ++ rest ∧ IsBlank w ∧
    (sign = [] ∨ sign = ['+']) ∧ decimalDigits digits = some n ∧
    ∀ c ∈ rest.head?, c.isDigit = false

theorem decimalDigits_eq_some {s : List Char} {n : ℕ} :
    decimalDigits s = some n ↔
      s ≠ [] ∧ (∀ c ∈ s, c.isDigit = true) ∧ Nat.ofDigitChars 10 s 0 = n := by
  unfold decimalDigits
  split
  · next h =>
    rw [List.all_eq_true] at h
    simp [h.1]
    tauto
  · next h =>
    rw [List.all_eq_true] at h
    constructor
    · intro hn
      cases hn
    · rintro ⟨hne, hall, -⟩
      exact absurd ⟨hne, hall⟩ h

theorem takeWhile_append_of_head {p : Char → Bool} {digits rest : List Char}
    (hd : ∀ c ∈ digits, p c = true) (hr : ∀ c ∈ rest.head?, p c = false) :
    (digits ++ rest).takeWhile p = digits := by
  rw [List.takeWhile_append_of_pos hd]
  cases rest with
  | nil => simp
  | cons c rest => simp [hr c rfl]

theorem leadingDigits_eq_some {s : List Char} {n : ℕ} :
    leadingDigits s = some n ↔ ∃ digits rest, s = digits ++ rest ∧
      decimalDigits digits = some n ∧ ∀ c ∈ rest.head?, c.isDigit = false := by
  constructor
  · intro h
    refine ⟨s.takeWhile Char.isDigit, s.dropWhile Char.isDigit,
      (List.takeWhile_append_dropWhile ..).symm, h, fun c hc => ?_⟩
    have := List.head?_dropWhile_not Char.isDigit s
    rw [hc] at this
    exact this
  · rintro ⟨digits, rest, rfl, hdigits, hrest⟩
    rw [leadingDigits, takeWhile_append_of_head (decimalDigits_eq_some.mp hdigits).2.1 hrest]
    exact hdigits

/-- **The positive numbers that `parseInt` reads.** -/
theorem integerPrefix_iff {s : List Char} {n : ℕ} (hn : 0 < n) :
    jsParseInt s = some (n : ℤ) ↔ IntegerPrefix s n := by
  constructor
  · intro h
    unfold jsParseInt at h
    have hsplit := List.takeWhile_append_dropWhile (p := isJsWhitespace) (l := s)
    split at h
    · obtain ⟨m, -, hm⟩ := Option.map_eq_some_iff.mp h
      omega
    · next t ht =>
      obtain ⟨m, hm, hmn⟩ := Option.map_eq_some_iff.mp h
      obtain rfl : m = n := by omega
      obtain ⟨digits, rest, rfl, hdigits, hrest⟩ := leadingDigits_eq_some.mp hm
      refine ⟨_, ['+'], digits, rest, ?_, isBlank_takeWhile s, .inr rfl, hdigits, hrest⟩
      rw [ht] at hsplit
      simpa using hsplit.symm
    · obtain ⟨m, hm, hmn⟩ := Option.map_eq_some_iff.mp h
      obtain rfl : m = n := by omega
      obtain ⟨digits, rest, ht, hdigits, hrest⟩ := leadingDigits_eq_some.mp hm
      refine ⟨_, [], digits, rest, ?_, isBlank_takeWhile s, .inl rfl, hdigits, hrest⟩
      rw [List.append_nil, List.append_assoc, ← ht, hsplit]
  · rintro ⟨w, sign, digits, rest, rfl, hw, hsign, hdigits, hrest⟩
    have hlead : leadingDigits (digits ++ rest) = some n :=
      leadingDigits_eq_some.mpr ⟨digits, rest, rfl, hdigits, hrest⟩
    obtain ⟨hne, hall, -⟩ := decimalDigits_eq_some.mp hdigits
    obtain ⟨d, ds, rfl⟩ := List.exists_cons_of_ne_nil hne
    have hd := hall d List.mem_cons_self
    have hnot : ∀ c : Char, c.isDigit = false → d ≠ c := by
      rintro c hc rfl
      rw [hd] at hc
      cases hc
    obtain rfl | rfl := hsign
    · have hdrop : (w ++ [] ++ d :: ds ++ rest).dropWhile isJsWhitespace = d :: (ds ++ rest) := by
        rw [List.append_nil, List.append_assoc]
        exact dropWhile_isBlank_append hw fun c hc => by
          cases hc
          exact isJsWhitespace_of_isDigit hd
      unfold jsParseInt
      rw [hdrop]
      split
      · next heq => exact absurd (List.cons.inj heq).1 (hnot '-' (by decide))
      · next heq => exact absurd (List.cons.inj heq).1 (hnot '+' (by decide))
      · rw [← List.cons_append, hlead]
        rfl
    · have hdrop : (w ++ ['+'] ++ d :: ds ++ rest).dropWhile isJsWhitespace =
          '+' :: (d :: ds ++ rest) := by
        rw [List.append_assoc, List.append_assoc]
        exact dropWhile_isBlank_append hw fun c hc => by
          cases hc
          decide
      unfold jsParseInt
      rw [hdrop]
      change (leadingDigits (d :: ds ++ rest)).map (fun n : ℕ => (n : ℤ)) = some (n : ℤ)
      rw [hlead]
      rfl

end LongRequestProxy
