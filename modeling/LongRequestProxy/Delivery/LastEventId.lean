import LongRequestProxy.Data.JsNumeral
import LongRequestProxy.Delivery.Resumption

/-!
# What the controller makes of a `Last-Event-ID`

The ids of events are decimal numbers, and the header inverts them. A header that is none should be
read as 0, so that the client gets every event again. But `Number` reads more than decimal digits:
hexadecimal numerals, exponents, fractions, signs and white space around them, and numbers that are
not exact. Such a header is taken for the number that it denotes, and the events up to that number
are left out of the replay.

## Main definitions

* `IsSeqText`: the decimal notations of the numbers below `2 ^ 53`.
* `ReadsHeader`: what the reading of a header should be.

## Main results

* `parseLastEventId_ne_zero_iff`: the headers that are not read as 0.
* `readsHeader_iff`: the headers that are read as they should be.
* `hexadecimal_header`: one that is not.
-/

namespace LongRequestProxy

variable {header : String}

/-- The header is the decimal notation of a number below `2 ^ 53`, perhaps with leading zeros. -/
def IsSeqText (header : String) : Prop := ∃ n, decimalDigits header.toList = some n ∧ n < 2 ^ 53

/-- **What the controller should make of a header.** -/
structure ReadsHeader (header : String) : Prop where
  /-- Decimal notations are read as their number. -/
  decimal : ∀ n, decimalDigits header.toList = some n → n < 2 ^ 53 →
    parseLastEventId (some header) = n
  /-- The ids of events are read as the numbers of the events. -/
  inverts : ∀ e : TaskEventSelect, (toMessageEvent e).id = some header → 0 ≤ e.seq →
    e.seq < 2 ^ 53 → parseLastEventId (some header) = e.seq
  /-- Every other header is read as 0. -/
  malformed : ¬ IsSeqText header → parseLastEventId (some header) = 0
  /-- A client with such a header gets every event of the task. -/
  replays : ¬ IsSeqText header → ∀ (σ : Backend) (e : TaskEventSelect), e ∈ σ.events → 1 ≤ e.seq →
    e ∈ σ.findEventsSince e.taskId (parseLastEventId (some header))
  /-- The number is one of the type `bigint`. -/
  isBigint : 0 ≤ parseLastEventId (some header) ∧ parseLastEventId (some header) < 2 ^ 63

/-! ### Reading -/

/-- A header that `Number` reads as a finite number. -/
theorem parseLastEventId_of_finite {parsed : ℚ} (h : jsNumber header = .finite parsed) :
    parseLastEventId (some header) = if 0 ≤ parsed then ⌊parsed⌋ else 0 := by
  by_cases hempty : header = ""
  · subst hempty
    have hzero : jsNumber "" = .finite 0 := rfl
    rw [hzero] at h
    cases h
    rfl
  · have hfilter : (some header).filter (· ≠ "") = some header := by
      simp [Option.filter, hempty]
    unfold parseLastEventId
    rw [hfilter]
    dsimp only
    rw [h]

/-- Every other header is read as 0. -/
theorem parseLastEventId_of_not_finite (h : ∀ parsed, jsNumber header ≠ .finite parsed) :
    parseLastEventId (some header) = 0 := by
  unfold parseLastEventId
  split
  · rfl
  · next raw hraw =>
    obtain rfl : header = raw := Option.some.inj (Option.filter_eq_some_iff.mp hraw).1
    split
    · next parsed hparsed => exact absurd hparsed (h parsed)
    · rfl

theorem parseLastEventId_nonneg (header : String) : 0 ≤ parseLastEventId (some header) := by
  by_cases h : ∃ parsed, jsNumber header = .finite parsed
  · obtain ⟨parsed, hparsed⟩ := h
    rw [parseLastEventId_of_finite hparsed]
    split
    · next hnonneg => exact Int.floor_nonneg.mpr hnonneg
    · exact le_rfl
  · exact (parseLastEventId_of_not_finite (not_exists.mp h)).ge

/-- The headers that are read as finite numbers of at least one. -/
theorem parseLastEventId_ne_zero_iff_jsNumber :
    parseLastEventId (some header) ≠ 0 ↔ ∃ r, jsNumber header = .finite r ∧ 1 ≤ r := by
  constructor
  · intro h
    by_cases hfinite : ∃ r, jsNumber header = .finite r
    · obtain ⟨r, hr⟩ := hfinite
      refine ⟨r, hr, ?_⟩
      rw [parseLastEventId_of_finite hr] at h
      split at h
      · next hnonneg =>
        have hpos : 0 < ⌊r⌋ := lt_of_le_of_ne (Int.floor_nonneg.mpr hnonneg) (Ne.symm h)
        exact_mod_cast Int.le_floor.mp (show (1 : ℤ) ≤ ⌊r⌋ by omega)
      · exact absurd rfl h
    · exact absurd (parseLastEventId_of_not_finite (not_exists.mp hfinite)) h
  · rintro ⟨r, hr, hone⟩
    have hfloor : (1 : ℤ) ≤ ⌊r⌋ := Int.le_floor.mpr (by exact_mod_cast hone)
    rw [parseLastEventId_of_finite hr, if_pos (zero_le_one.trans hone)]
    omega

/-- **The headers that are not read as 0**: white space around a numeral of the language that is
not rounded to less than one or to infinity. -/
theorem parseLastEventId_ne_zero_iff :
    parseLastEventId (some header) ≠ 0 ↔ ∃ v, IsNumeral (jsTrim header.toList) v ∧
      1 - 1 / 2 ^ 54 ≤ v ∧ v < 2 ^ 1024 - 2 ^ 970 :=
  parseLastEventId_ne_zero_iff_jsNumber.trans (one_le_jsNumber_iff header)

/-- Decimal notations are read as the nearest double. -/
theorem jsNumber_of_decimalDigits {n : ℕ} (h : decimalDigits header.toList = some n) :
    jsNumber header = toDouble n := by
  obtain ⟨hne, hall, rfl⟩ := decimalDigits_eq_some.mp h
  unfold jsNumber
  rw [jsTrim_of_isDigit hall]
  split
  · next hnil => exact absurd hnil hne
  · exact numericLiteral_of_isDigit hne hall

theorem parseLastEventId_of_decimalDigits {n : ℕ} (h : decimalDigits header.toList = some n)
    (hn : n < 2 ^ 53) : parseLastEventId (some header) = n := by
  have hfinite : jsNumber header = .finite n :=
    (jsNumber_of_decimalDigits h).trans (toDouble_natCast hn)
  rw [parseLastEventId_of_finite hfinite, if_pos (Nat.cast_nonneg n), Int.floor_natCast]

/-- The header inverts the ids of events. -/
theorem parseLastEventId_of_id {e : TaskEventSelect} (h : (toMessageEvent e).id = some header)
    (hlow : 0 ≤ e.seq) (hhigh : e.seq < 2 ^ 53) : parseLastEventId (some header) = e.seq := by
  obtain ⟨n, hn⟩ := Int.eq_ofNat_of_zero_le hlow
  rw [← Option.some.inj h, hn]
  exact (parseLastEventId_toString n).mpr (toDouble_natCast (by omega))

/-- Nothing of a task is left out after 0. -/
theorem mem_findEventsSince_zero {σ : Backend} {e : TaskEventSelect} (he : e ∈ σ.events)
    (hseq : 1 ≤ e.seq) : e ∈ σ.findEventsSince e.taskId 0 := by
  rw [Backend.findEventsSince, List.mem_insertionSort, List.mem_filter]
  exact ⟨he, by simpa using Int.lt_of_add_one_le hseq⟩

/-! ### The law -/

/-- **The headers that are read as they should be**: the decimal notations of the numbers below
`2 ^ 53`, and the texts that are no numeral of the language, blanks around it included, of a number
that is rounded to a finite number of at least one. -/
theorem readsHeader_iff (header : String) :
    ReadsHeader header ↔ IsSeqText header ∨
      ¬ ∃ v, IsNumeral (jsTrim header.toList) v ∧ 1 - 1 / 2 ^ 54 ≤ v ∧ v < 2 ^ 1024 - 2 ^ 970 := by
  rw [← parseLastEventId_ne_zero_iff, not_ne_iff]
  constructor
  · intro h
    by_cases hseq : IsSeqText header
    · exact .inl hseq
    · exact .inr (h.malformed hseq)
  · intro h
    have hzero : ¬ IsSeqText header → parseLastEventId (some header) = 0 := h.resolve_left
    refine ⟨fun n hn hlt => parseLastEventId_of_decimalDigits hn hlt,
      fun e he hlow hhigh => parseLastEventId_of_id he hlow hhigh, hzero,
      fun hnot σ e he hseq => ?_, parseLastEventId_nonneg header, ?_⟩
    · rw [hzero hnot]
      exact mem_findEventsSince_zero he hseq
    · obtain ⟨n, hn, hlt⟩ | hzero := h
      · rw [parseLastEventId_of_decimalDigits hn hlt]
        exact_mod_cast hlt.trans (by norm_num)
      · rw [hzero]
        norm_num

/-- A hexadecimal numeral is read as its number: sixteen events are not replayed. -/
theorem hexadecimal_header : ¬ ∀ header, ReadsHeader header := by
  intro h
  have hnot : ¬ IsSeqText "0x10" := by
    rintro ⟨n, hn, -⟩
    have hnone : decimalDigits "0x10".toList = none := by decide
    rw [hnone] at hn
    cases hn
  have htrim : jsTrim "0x10".toList = ['0', 'x', '1', '0'] := by decide
  have hbase : baseOf 'x' = some 16 := by decide
  have hdigits : digitValues 16 ['1', '0'] = some [1, 0] := by decide
  have hnumeral : IsNumeral ['0', 'x', '1', '0'] (16 : ℕ) := .based hbase hdigits (by simp)
  have hread : jsNumber "0x10" = .finite (16 : ℕ) := by
    unfold jsNumber
    rw [htrim]
    exact (numericLiteral_of_isNumeral hnumeral).trans (toDouble_natCast (by norm_num))
  exact parseLastEventId_ne_zero_iff_jsNumber.mpr ⟨_, hread, by norm_num⟩
    ((h "0x10").malformed hnot)

end LongRequestProxy
