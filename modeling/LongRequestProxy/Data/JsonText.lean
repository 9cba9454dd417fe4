import LongRequestProxy.Data.JsonNumber
import Mathlib.Data.List.Nodup

/-!
# JSON texts

`JSON.stringify` writes a value as a text, and `JSON.parse` reads a text. A value that was written
is read again as the same value.

A list of members may name a key twice, and a number may be noted with zeros at the end of its
mantissa; the value that such a notation stands for has every key once, with its last value, and
its numbers in lowest terms.

## Main definitions

* `Json.canonical`, `Json.IsCanonical`: the value that a notation stands for.
* `Json.stringify`: `JSON.stringify`.
* `Json.parse`: `JSON.parse`.

## Main results

* `Json.parse_stringify`: what was written is read as the same value.
-/

namespace LongRequestProxy

namespace Json

/-! ### Members -/

/-- Set the value of a key: in its place, if the key is there. -/
def setMember (key : String) (value : Json) : List (String × Json) → List (String × Json)
  | [] => [(key, value)]
  | f :: fields =>
    if f.1 = key then (key, value) :: fields else f :: setMember key value fields

/-- The members of an object that is built by setting one key after the other. -/
def ofMembers (fields : List (String × Json)) : List (String × Json) :=
  fields.foldl (fun members f => setMember f.1 f.2 members) []

variable {key : String} {value : Json} {fields members : List (String × Json)}

theorem setMember_of_not_mem (h : key ∉ fields.map Prod.fst) :
    setMember key value fields = fields ++ [(key, value)] := by
  induction fields with
  | nil => rfl
  | cons f fields ih =>
    rw [List.map_cons, List.mem_cons, not_or] at h
    rw [setMember, if_neg (Ne.symm h.1), ih h.2, List.cons_append]

theorem mem_setMember {f : String × Json} (h : f ∈ setMember key value fields) :
    f = (key, value) ∨ f ∈ fields := by
  induction fields with
  | nil => exact .inl (List.mem_singleton.mp h)
  | cons f' fields ih =>
    rw [setMember] at h
    split at h
    · rcases List.mem_cons.mp h with h | h
      · exact .inl h
      · exact .inr (List.mem_cons_of_mem _ h)
    · rcases List.mem_cons.mp h with rfl | h
      · exact .inr List.mem_cons_self
      · exact (ih h).imp_right (List.mem_cons_of_mem _)

theorem nodup_keys_setMember (h : (fields.map Prod.fst).Nodup) :
    ((setMember key value fields).map Prod.fst).Nodup := by
  induction fields with
  | nil => exact List.nodup_singleton _
  | cons f fields ih =>
    rw [List.map_cons, List.nodup_cons] at h
    rw [setMember]
    split
    · next heq =>
      rw [List.map_cons, List.nodup_cons]
      exact ⟨heq ▸ h.1, h.2⟩
    · next hne =>
      rw [List.map_cons, List.nodup_cons]
      refine ⟨fun hmem => ?_, ih h.2⟩
      obtain ⟨f', hf', hkey⟩ := List.mem_map.mp hmem
      obtain rfl | hf' := mem_setMember hf'
      · exact hne hkey.symm
      · exact h.1 (hkey ▸ List.mem_map_of_mem hf')

/-- Setting keys one after the other keeps the keys different. -/
theorem nodup_keys_ofMembers (fields : List (String × Json)) :
    ((ofMembers fields).map Prod.fst).Nodup := by
  have hgo : ∀ members : List (String × Json), (members.map Prod.fst).Nodup →
      ((fields.foldl (fun members f => setMember f.1 f.2 members) members).map Prod.fst).Nodup := by
    induction fields with
    | nil => exact fun _ h => h
    | cons f fields ih => exact fun members h => ih _ (nodup_keys_setMember h)
  exact hgo [] List.nodup_nil

theorem mem_ofMembers {f : String × Json} (h : f ∈ ofMembers fields) : f ∈ fields := by
  have hgo : ∀ members : List (String × Json),
      f ∈ fields.foldl (fun members f => setMember f.1 f.2 members) members →
        f ∈ members ∨ f ∈ fields := by
    clear h
    induction fields with
    | nil => exact fun _ h => .inl h
    | cons f' fields ih =>
      intro members h
      obtain h | h := ih _ h
      · obtain rfl | h := mem_setMember h
        · exact .inr List.mem_cons_self
        · exact .inl h
      · exact .inr (List.mem_cons_of_mem _ h)
  simpa using hgo [] h

/-- Members with different keys are an object. -/
theorem ofMembers_of_nodup (h : (fields.map Prod.fst).Nodup) : ofMembers fields = fields := by
  have hgo : ∀ members : List (String × Json), ((members ++ fields).map Prod.fst).Nodup →
      fields.foldl (fun members f => setMember f.1 f.2 members) members = members ++ fields := by
    induction fields with
    | nil => simp
    | cons f fields ih =>
      intro members hnodup
      have hnot : f.1 ∉ members.map Prod.fst := by
        intro hmem
        rw [List.map_append, List.map_cons] at hnodup
        exact (List.nodup_append.mp hnodup).2.2 _ hmem _ List.mem_cons_self rfl
      rw [List.foldl_cons, setMember_of_not_mem hnot,
        ih (List.nodup_cons.mp h).2 _ (by simpa using hnodup), List.append_assoc]
      rfl
  exact hgo [] h

/-! ### Values -/

mutual

/-- The value that a notation stands for: its numbers in lowest terms, and every key once. -/
def canonical : Json → Json
  | null => null
  | bool b => bool b
  | num mantissa exponent => ofDecimal mantissa exponent
  | str s => str s
  | arr elems => arr (canonicalList elems)
  | obj fields => obj (ofMembers (canonicalMembers fields))

/-- The values of a list. -/
def canonicalList : List Json → List Json
  | [] => []
  | v :: elems => canonical v :: canonicalList elems

/-- The values of members. -/
def canonicalMembers : List (String × Json) → List (String × Json)
  | [] => []
  | (key, v) :: fields => (key, canonical v) :: canonicalMembers fields

end

theorem canonicalList_eq_map (elems : List Json) : canonicalList elems = elems.map canonical := by
  induction elems with
  | nil => rfl
  | cons v elems ih => rw [canonicalList, ih, List.map_cons]

theorem canonicalMembers_eq_map (fields : List (String × Json)) :
    canonicalMembers fields = fields.map fun f => (f.1, f.2.canonical) := by
  induction fields with
  | nil => rfl
  | cons f fields ih => rw [canonicalMembers, ih, List.map_cons]

/-- The notation is one that stands for itself. -/
inductive IsCanonical : Json → Prop
  | null : IsCanonical null
  | bool (b : Bool) : IsCanonical (bool b)
  | num {mantissa exponent : ℤ} (h : IsLowest mantissa exponent) :
    IsCanonical (num mantissa exponent)
  | str (s : String) : IsCanonical (str s)
  | arr {elems : List Json} (h : ∀ v ∈ elems, IsCanonical v) : IsCanonical (arr elems)
  | obj {fields : List (String × Json)} (hkeys : (fields.map Prod.fst).Nodup)
    (h : ∀ f ∈ fields, IsCanonical f.2) : IsCanonical (obj fields)

mutual

theorem isCanonical_canonical : ∀ v : Json, v.canonical.IsCanonical
  | null => .null
  | bool b => .bool b
  | num mantissa exponent => .num (isLowest_lowest mantissa exponent)
  | str s => .str s
  | arr elems => .arr (isCanonical_canonicalList elems)
  | obj fields => .obj (nodup_keys_ofMembers _) fun f hf =>
      isCanonical_canonicalMembers fields f (mem_ofMembers hf)

theorem isCanonical_canonicalList : ∀ elems : List Json, ∀ v ∈ canonicalList elems, v.IsCanonical
  | [], v, hv => by cases hv
  | w :: elems, v, hv => by
    rcases List.mem_cons.mp hv with rfl | hv
    · exact isCanonical_canonical w
    · exact isCanonical_canonicalList elems v hv

theorem isCanonical_canonicalMembers :
    ∀ fields : List (String × Json), ∀ f ∈ canonicalMembers fields, f.2.IsCanonical
  | [], f, hf => by cases hf
  | (key, w) :: fields, f, hf => by
    rcases List.mem_cons.mp hf with rfl | hf
    · exact isCanonical_canonical w
    · exact isCanonical_canonicalMembers fields f hf

end

/-- A value stands for itself. -/
theorem IsCanonical.canonical_eq {v : Json} (h : v.IsCanonical) : v.canonical = v := by
  induction h with
  | null => rfl
  | bool b => rfl
  | num h => exact ofDecimal_eq h rfl
  | str s => rfl
  | arr h ih => rw [canonical, canonicalList_eq_map, List.map_congr_left ih, List.map_id']
  | @obj fields hkeys h ih =>
    have hmap : canonicalMembers fields = fields := by
      rw [canonicalMembers_eq_map]
      exact (List.map_congr_left fun f hf => by rw [ih f hf]).trans (List.map_id' _)
    rw [canonical, hmap, ofMembers_of_nodup hkeys]

theorem canonical_obj {fields : List (String × Json)} (hkeys : (fields.map Prod.fst).Nodup) :
    canonical (obj fields) = obj (fields.map fun f => (f.1, f.2.canonical)) := by
  rw [canonical, canonicalMembers_eq_map, ofMembers_of_nodup]
  rwa [List.map_map]

/-! ### Properties -/

/-- The property of an object; `none` stands for `undefined`. -/
def member? (key : String) : Json → Option Json
  | obj fields => fields.lookup key
  | _ => none

/-- The object without some of its properties: what `...rest` binds. -/
def without (keys : List String) : Json → Json
  | obj fields => obj (fields.filter fun f => !keys.contains f.1)
  | v => v

/-! ### Writing -/

/-- The characters with a short escape, and the letters of the escapes. -/
def shortEscapes : List (Char × Char) :=
  [('"', '"'), ('\\', '\\'), ('\x08', 'b'), ('\x0c', 'f'), ('\n', 'n'), ('\r', 'r'), ('\t', 't')]

/-- A character of a string literal. -/
def escapeChar (c : Char) : List Char :=
  match shortEscapes.find? fun e => e.1 = c with
  | some e => ['\\', e.2]
  | none =>
    if c.toNat < 32 then
      ['\\', 'u', '0', '0', Nat.digitChar (c.toNat / 16), Nat.digitChar (c.toNat % 16)]
    else [c]

/-- A string literal. -/
def quote (s : String) : List Char := '"' :: (s.toList.flatMap escapeChar ++ ['"'])

mutual

/-- The text of a value. -/
def print : Json → List Char
  | null => ['n', 'u', 'l', 'l']
  | bool true => ['t', 'r', 'u', 'e']
  | bool false => ['f', 'a', 'l', 's', 'e']
  | num mantissa exponent => numberText mantissa exponent
  | str s => quote s
  | arr elems => '[' :: ([','].intercalate (printList elems) ++ [']'])
  | obj fields => '{' :: ([','].intercalate (printMembers fields) ++ ['}'])

/-- The texts of a list. -/
def printList : List Json → List (List Char)
  | [] => []
  | v :: elems => print v :: printList elems

/-- The texts of members. -/
def printMembers : List (String × Json) → List (List Char)
  | [] => []
  | (key, v) :: fields => (quote key ++ ':' :: print v) :: printMembers fields

end

/-- The text of a member. -/
def memberText (f : String × Json) : List Char := quote f.1 ++ ':' :: print f.2

theorem printList_eq_map (elems : List Json) : printList elems = elems.map print := by
  induction elems with
  | nil => rfl
  | cons v elems ih => rw [printList, ih, List.map_cons]

theorem printMembers_eq_map (fields : List (String × Json)) :
    printMembers fields = fields.map memberText := by
  induction fields with
  | nil => rfl
  | cons f fields ih => rw [printMembers, ih, List.map_cons, memberText]

/-- `JSON.stringify`. -/
def stringify (v : Json) : String := .ofList v.canonical.print

/-! ### Reading -/

/-- The white space between the parts of a text. -/
def isSpace (c : Char) : Bool := c = ' ' || c = '\t' || c = '\n' || c = '\r'

/-- The text without white space in front. -/
def skipSpace (s : List Char) : List Char := s.dropWhile isSpace

/-- A code unit of four hexadecimal digits. -/
def readCodeUnit : List Char → Option (ℕ × List Char)
  | c₃ :: c₂ :: c₁ :: c₀ :: s => do
    let d₃ ← hexDigit c₃
    let d₂ ← hexDigit c₂
    let d₁ ← hexDigit c₁
    let d₀ ← hexDigit c₀
    return (((d₃ * 16 + d₂) * 16 + d₁) * 16 + d₀, s)
  | _ => none

/-- The second half of a surrogate pair. -/
def readLowSurrogate : List Char → Option (ℕ × List Char)
  | '\\' :: 'u' :: s => (readCodeUnit s).filter fun r => 0xDC00 ≤ r.1 ∧ r.1 < 0xE000
  | _ => none

/-- The escape after the letter `u`. A surrogate that belongs to no pair is no character; JavaScript
keeps it as a code unit. -/
def readUnicode (s : List Char) : Option (Char × List Char) := do
  let (unit, s) ← readCodeUnit s
  if 0xD800 ≤ unit ∧ unit < 0xDC00 then
    let (low, s) ← readLowSurrogate s
    return (.ofNat (0x10000 + (unit - 0xD800) * 0x400 + (low - 0xDC00)), s)
  else if 0xDC00 ≤ unit ∧ unit < 0xE000 then none
  else return (.ofNat unit, s)

/-- The escape after a backslash. -/
def readEscape : List Char → Option (Char × List Char)
  | [] => none
  | letter :: s =>
    if letter = 'u' then readUnicode s
    else if letter = '/' then some ('/', s)
    else (shortEscapes.find? fun e => e.2 = letter).map fun e => (e.1, s)

/-- A character of a string literal. -/
def readChar (c : Char) (s : List Char) : Option (Char × List Char) :=
  if c = '\\' then readEscape s else if c.toNat < 32 then none else some (c, s)

/-- The rest of a string literal. -/
def readString : ℕ → List Char → Option (List Char × List Char)
  | 0, _ => none
  | _ + 1, [] => none
  | fuel + 1, c :: s =>
    if c = '"' then some ([], s)
    else (readChar c s).bind fun r => (readString fuel r.2).map fun q => (r.1 :: q.1, q.2)

variable {α : Type}

/-- One item or more, with commas between them, up to the closing character. -/
def readItems (close : Char) (item : List Char → Option (α × List Char)) :
    ℕ → List Char → Option (List α × List Char)
  | 0, _ => none
  | fuel + 1, s => do
    let (a, s) ← item s
    match skipSpace s with
    | [] => none
    | c :: s =>
      if c = ',' then
        let (l, s) ← readItems close item fuel s
        return (a :: l, s)
      else if c = close then return ([a], s)
      else none

/-- Items with commas between them, up to the closing character. -/
def readList (close : Char) (item : List Char → Option (α × List Char)) (fuel : ℕ)
    (s : List Char) : Option (List α × List Char) :=
  if (skipSpace s).head? = some close then some ([], (skipSpace s).tail)
  else readItems close item fuel s

/-- A member of an object. -/
def readMember (value : List Char → Option (Json × List Char)) (fuel : ℕ) (s : List Char) :
    Option ((String × Json) × List Char) :=
  match skipSpace s with
  | '"' :: s => do
    let (key, s) ← readString fuel s
    match skipSpace s with
    | ':' :: s => do
      let (v, s) ← value s
      return ((.ofList key, v), s)
    | _ => none
  | _ => none

/-- A keyword or a number. -/
def readScalar : List Char → Option (Json × List Char)
  | 'n' :: 'u' :: 'l' :: 'l' :: s => some (null, s)
  | 't' :: 'r' :: 'u' :: 'e' :: s => some (bool true, s)
  | 'f' :: 'a' :: 'l' :: 's' :: 'e' :: s => some (bool false, s)
  | s => readNumber s

/-- A value at the start of a text, with a bound on the depth and on the lengths of its parts. -/
def readValue : ℕ → List Char → Option (Json × List Char)
  | 0, _ => none
  | fuel + 1, s =>
    match skipSpace s with
    | [] => none
    | c :: s =>
      if c = '"' then (readString fuel s).map fun r => (str (.ofList r.1), r.2)
      else if c = '[' then (readList ']' (readValue fuel) fuel s).map fun r => (arr r.1, r.2)
      else if c = '{' then
        (readList '}' (readMember (readValue fuel) fuel) fuel s).map fun r =>
          (obj (ofMembers r.1), r.2)
      else readScalar (c :: s)

/-- `JSON.parse`; `none` stands for a `SyntaxError`. -/
def parse (s : String) : Option Json := do
  let (v, rest) ← readValue s.toList.length s.toList
  if skipSpace rest = [] then return v else none

/-! ### What was written is read -/

variable {rest : List Char} {fuel : ℕ}

theorem skipSpace_cons {c : Char} (hc : isSpace c = false) : skipSpace (c :: rest) = c :: rest := by
  rw [skipSpace, List.dropWhile_cons, hc, if_neg Bool.false_ne_true]

theorem hexDigit_digitChar {n : ℕ} (hn : n < 16) : hexDigit (Nat.digitChar n) = some n := by
  have hall : ∀ d < 16, hexDigit (Nat.digitChar d) = some d := by decide
  exact hall n hn

/-- The escape of a control character is read as the character. -/
theorem readUnicode_control {c : Char} (hc : c.toNat < 32) :
    readUnicode ('0' :: '0' :: Nat.digitChar (c.toNat / 16) :: Nat.digitChar (c.toNat % 16) ::
      rest) = some (c, rest) := by
  have hhigh := hexDigit_digitChar (n := c.toNat / 16) (by omega)
  have hlow := hexDigit_digitChar (n := c.toNat % 16) (by omega)
  have hzero : hexDigit '0' = some 0 := rfl
  have hunit : (((0 * 16 + 0) * 16 + c.toNat / 16) * 16 + c.toNat % 16) = c.toNat := by omega
  simp only [readUnicode, readCodeUnit, hzero, hhigh, hlow, Option.bind_eq_bind, Option.bind_some,
    Option.pure_def, hunit]
  rw [if_neg (by omega), if_neg (by omega), Char.ofNat_toNat]

/-- A short escape is read as its character. -/
theorem readEscape_of_mem {e : Char × Char} (he : e ∈ shortEscapes) :
    readEscape (e.2 :: rest) = some (e.1, rest) := by
  have hall : ∀ e ∈ shortEscapes, e.2 ≠ 'u' ∧ e.2 ≠ '/' ∧
      (shortEscapes.find? fun e' => e'.2 = e.2) = some e := by decide
  obtain ⟨hu, hslash, hfind⟩ := hall e he
  rw [readEscape, if_neg hu, if_neg hslash, hfind, Option.map_some]

/-- A character is read as it was written. -/
theorem readString_escapeChar (c : Char) :
    readString (fuel + 1) (escapeChar c ++ rest) =
      (readString fuel rest).map fun r => (c :: r.1, r.2) := by
  have hescape : ∀ {letter : Char} {s : List Char}, readEscape (letter :: s) = some (c, rest) →
      readString (fuel + 1) ('\\' :: letter :: s) =
        (readString fuel rest).map fun r => (c :: r.1, r.2) := by
    intro letter s h
    rw [readString, if_neg (by decide), readChar, if_pos rfl, h, Option.bind_some]
  unfold escapeChar
  split
  · next e he =>
    have hc : e.1 = c := by simpa using List.find?_some he
    exact hescape (hc ▸ readEscape_of_mem (List.mem_of_find?_eq_some he))
  · next hnone =>
    have hne : ∀ e ∈ shortEscapes, e.1 ≠ c := by simpa using hnone
    split
    · next hc =>
      refine hescape ?_
      rw [readEscape, if_pos rfl]
      exact readUnicode_control hc
    · next hc =>
      have hquote : c ≠ '"' := Ne.symm (hne ('"', '"') (by decide))
      have hslash : c ≠ '\\' := Ne.symm (hne ('\\', '\\') (by decide))
      rw [List.singleton_append, readString, if_neg hquote, readChar, if_neg hslash, if_neg hc,
        Option.bind_some]

/-- The characters of a string literal are read as they were written. -/
theorem readString_quoted {s : List Char} (hfuel : s.length < fuel) :
    readString fuel (s.flatMap escapeChar ++ '"' :: rest) = some (s, rest) := by
  induction s generalizing fuel with
  | nil =>
    obtain ⟨fuel, rfl⟩ := Nat.exists_eq_add_of_lt hfuel
    rfl
  | cons c s ih =>
    rw [List.length_cons] at hfuel
    obtain ⟨fuel, rfl⟩ : ∃ n, fuel = n + 1 := ⟨fuel - 1, by omega⟩
    rw [List.flatMap_cons, List.append_assoc, readString_escapeChar, ih (by omega)]
    rfl

theorem length_quote (s : String) : s.toList.length + 2 ≤ (quote s).length := by
  have hchars : ∀ l : List Char, l.length ≤ (l.flatMap escapeChar).length := by
    intro l
    induction l with
    | nil => exact le_refl _
    | cons c l ih =>
      have hone : 1 ≤ (escapeChar c).length := by
        unfold escapeChar
        split
        · simp
        · split <;> simp
      rw [List.flatMap_cons, List.length_append, List.length_cons]
      omega
  have := hchars s.toList
  simp only [quote, List.length_cons, List.length_append, List.length_nil]
  omega

/-! ### Lists -/

theorem length_le_intercalate {t : List Char} {ts : List (List Char)} (ht : t ∈ ts) :
    t.length ≤ ([','].intercalate ts).length := by
  induction ts with
  | nil => cases ht
  | cons t' ts ih =>
    cases ts with
    | nil => rw [List.mem_singleton.mp ht, List.intercalate_singleton]
    | cons t'' ts =>
      rw [List.intercalate_cons_cons, List.length_append, List.length_append]
      rcases List.mem_cons.mp ht with rfl | ht
      · omega
      · have := ih ht
        omega

theorem length_le_length_intercalate (ts : List (List Char)) :
    ts.length ≤ ([','].intercalate ts).length + 1 := by
  induction ts with
  | nil => simp
  | cons t ts ih =>
    cases ts with
    | nil => simp
    | cons t' ts =>
      rw [List.intercalate_cons_cons, List.length_append, List.length_append]
      simp only [List.length_cons, List.length_nil] at ih ⊢
      omega

variable {close : Char} {item : List Char → Option (α × List Char)} {text : α → List Char}
  {l : List α}

/-- The item is read as it is written, whatever follows that ends a number. -/
def ReadsBack (item : List Char → Option (α × List Char)) (text : α → List Char) (a : α) : Prop :=
  ∀ rest, EndsNumber rest → item (text a ++ rest) = some (a, rest)

/-- The character ends an array or an object. -/
def IsClosing (c : Char) : Prop := c = ']' ∨ c = '}'

theorem IsClosing.endsNumber (h : IsClosing close) : EndsNumber (close :: rest) := by
  rintro c ⟨⟩
  obtain rfl | rfl := h <;> decide

theorem IsClosing.skipSpace (h : IsClosing close) :
    Json.skipSpace (close :: rest) = close :: rest := by
  obtain rfl | rfl := h <;> rfl

/-- Items are read as they are written. -/
theorem readItems_intercalate (hclose : IsClosing close) (hne : l ≠ [])
    (hitem : ∀ a ∈ l, ReadsBack item text a) (hfuel : l.length ≤ fuel) :
    readItems close item fuel ([','].intercalate (l.map text) ++ close :: rest) =
      some (l, rest) := by
  induction l generalizing fuel with
  | nil => exact absurd rfl hne
  | cons a l ih =>
    rw [List.length_cons] at hfuel
    obtain ⟨fuel, rfl⟩ : ∃ n, fuel = n + 1 := ⟨fuel - 1, by omega⟩
    have hfirst := hitem a List.mem_cons_self
    cases l with
    | nil =>
      have hcomma : close ≠ ',' := by obtain rfl | rfl := hclose <;> decide
      rw [List.map_singleton, List.intercalate_singleton, readItems,
        hfirst _ hclose.endsNumber]
      simp only [Option.bind_eq_bind, Option.bind_some, hclose.skipSpace, if_neg hcomma, if_true]
      rfl
    | cons b l =>
      have hrest : readItems close item fuel ([','].intercalate ((b :: l).map text) ++
          close :: rest) = some (b :: l, rest) :=
        ih (List.cons_ne_nil _ _) (fun a ha => hitem a (List.mem_cons_of_mem _ ha)) (by omega)
      have hends : ∀ s, EndsNumber (',' :: s) := by
        rintro s c ⟨⟩
        decide
      rw [List.map_cons] at hrest
      rw [List.map_cons, List.map_cons, List.intercalate_cons_cons, List.append_assoc,
        List.append_assoc, List.singleton_append, readItems, hfirst _ (hends _)]
      simp only [Option.bind_eq_bind, Option.bind_some, skipSpace_cons (c := ',') rfl, if_true,
        hrest]
      rfl

/-- Lists are read as they are written. -/
theorem readList_intercalate (hclose : IsClosing close)
    (hhead : ∀ a ∈ l, ∃ c s, text a = c :: s ∧ c ≠ close ∧ isSpace c = false)
    (hitem : ∀ a ∈ l, ReadsBack item text a) (hfuel : l.length ≤ fuel) :
    readList close item fuel ([','].intercalate (l.map text) ++ close :: rest) =
      some (l, rest) := by
  unfold readList
  by_cases hne : l = []
  · subst hne
    rw [List.map_nil, List.intercalate_nil, List.nil_append, hclose.skipSpace]
    exact if_pos rfl
  · rw [if_neg, readItems_intercalate hclose hne hitem hfuel]
    obtain ⟨a, l, rfl⟩ := List.exists_cons_of_ne_nil hne
    obtain ⟨c, s, htext, hnot, hspace⟩ := hhead a List.mem_cons_self
    have hfirst : ∃ s', [','].intercalate ((a :: l).map text) ++ close :: rest = c :: s' := by
      cases l with
      | nil => exact ⟨_, by rw [List.map_singleton, List.intercalate_singleton, htext]; rfl⟩
      | cons b l =>
        exact ⟨_, by
          rw [List.map_cons, List.map_cons, List.intercalate_cons_cons, htext]
          rfl⟩
    obtain ⟨s', hs'⟩ := hfirst
    rw [hs', skipSpace_cons hspace]
    exact fun h => hnot (Option.some.inj h)

/-! ### The round trip -/

/-- The character starts a value. -/
def StartsValue (c : Char) : Prop := c ∈ ['n', 't', 'f', '"', '[', '{', '-'] ∨ c.isDigit = true

theorem StartsValue.isSpace {c : Char} (h : StartsValue c) : isSpace c = false := by
  obtain h | h := h
  · have hall : (['n', 't', 'f', '"', '[', '{', '-'].all fun c => !Json.isSpace c) = true := rfl
    simpa using List.all_eq_true.mp hall c h
  · by_contra hspace
    simp only [Json.isSpace, Bool.not_eq_false, Bool.or_eq_true, decide_eq_true_eq] at hspace
    obtain ((rfl | rfl) | rfl) | rfl := hspace <;> cases h

theorem StartsValue.ne_closing {c : Char} (h : StartsValue c) (hclose : IsClosing close) :
    c ≠ close := by
  rintro rfl
  obtain rfl | rfl := hclose <;> obtain h | h := h <;> revert h <;> decide

theorem exists_head_numberText {m e : ℤ} (h : IsLowest m e) :
    ∃ c s, numberText m e = c :: s ∧ (c = '-' ∨ c.isDigit = true) := by
  obtain ⟨c, s, htext, hc⟩ := (wellFormed_of_isLowest h).exists_head
  rw [numberText]
  split
  · exact ⟨'-', _, rfl, .inl rfl⟩
  · exact ⟨c, s, htext, .inr hc⟩

/-- A value starts with a character that starts a value. -/
theorem IsCanonical.exists_head {v : Json} (h : v.IsCanonical) :
    ∃ c s, print v = c :: s ∧ StartsValue c := by
  cases h with
  | null => exact ⟨_, _, rfl, .inl (by decide)⟩
  | bool b => cases b <;> exact ⟨_, _, rfl, .inl (by decide)⟩
  | num h =>
    obtain ⟨c, s, htext, hc⟩ := exists_head_numberText h
    exact ⟨c, s, htext, hc.imp (fun hc => by simp [hc]) id⟩
  | str s => exact ⟨_, _, rfl, .inl (by decide)⟩
  | arr h => exact ⟨_, _, rfl, .inl (by decide)⟩
  | obj hkeys h => exact ⟨_, _, rfl, .inl (by decide)⟩

/-- Members are read as they are written. -/
theorem readMember_memberText {value : List Char → Option (Json × List Char)} {f : String × Json}
    (hvalue : ReadsBack value print f.2) (hfuel : f.1.toList.length < fuel) :
    ReadsBack (readMember value fuel) memberText f := by
  intro rest hrest
  have htext : memberText f ++ rest =
      '"' :: (f.1.toList.flatMap escapeChar ++ '"' :: ':' :: (print f.2 ++ rest)) := by
    simp [memberText, quote]
  rw [htext, readMember, skipSpace_cons rfl]
  simp only [readString_quoted hfuel, Option.bind_eq_bind, Option.bind_some,
    skipSpace_cons (c := ':') rfl, hvalue rest hrest, String.ofList_toList]
  rfl

theorem readValue_number {m e : ℤ} (h : IsLowest m e) (hrest : EndsNumber rest) :
    readValue (fuel + 1) (numberText m e ++ rest) = some (num m e, rest) := by
  have hread := readNumber_numberText h hrest
  obtain ⟨c, s, htext, hc⟩ := exists_head_numberText h
  rw [htext, List.cons_append] at hread ⊢
  have hne : ∀ d : Char, d ≠ '-' → d.isDigit = false → c ≠ d := by
    rintro d hminus hdigit rfl
    obtain hc | hc := hc
    · exact hminus hc
    · rw [hdigit] at hc
      cases hc
  have hscalar : readScalar (c :: (s ++ rest)) = readNumber (c :: (s ++ rest)) := by
    unfold readScalar
    split
    · next heq => exact absurd (List.cons.inj heq).1 (hne 'n' (by decide) (by decide))
    · next heq => exact absurd (List.cons.inj heq).1 (hne 't' (by decide) (by decide))
    · next heq => exact absurd (List.cons.inj heq).1 (hne 'f' (by decide) (by decide))
    · rfl
  have hstart : StartsValue c := hc.imp (fun hc => by simp [hc]) id
  rw [readValue, skipSpace_cons hstart.isSpace]
  dsimp only
  rw [if_neg (hne '"' (by decide) (by decide)), if_neg (hne '[' (by decide) (by decide)),
    if_neg (hne '{' (by decide) (by decide)), hscalar, hread]

/-- **Values are read as they are written.** -/
theorem readValue_print {v : Json} (h : v.IsCanonical) (hfuel : (print v).length ≤ fuel) :
    ReadsBack (readValue fuel) print v := by
  obtain ⟨fuel, rfl⟩ : ∃ n, fuel = n + 1 := by
    obtain ⟨c, s, htext, -⟩ := h.exists_head
    rw [htext, List.length_cons] at hfuel
    exact ⟨fuel - 1, by omega⟩
  induction h generalizing fuel with
  | null => exact fun rest _ => rfl
  | bool b => cases b <;> exact fun rest _ => rfl
  | num h => exact fun rest hrest => readValue_number h hrest
  | str s =>
    intro rest _
    have hlength := length_quote s
    rw [print] at hfuel
    have htext : print (str s) ++ rest = '"' :: (s.toList.flatMap escapeChar ++ '"' :: rest) := by
      simp [print, quote]
    rw [htext, readValue, skipSpace_cons rfl]
    dsimp only
    rw [if_pos rfl, readString_quoted (by omega), Option.map_some, String.ofList_toList]
  | @arr elems h ih =>
    intro rest _
    simp only [print, printList_eq_map, List.length_cons, List.length_append, List.length_nil]
      at hfuel
    obtain ⟨fuel, rfl⟩ : ∃ n, fuel = n + 1 := ⟨fuel - 1, by omega⟩
    have htext : print (arr elems) ++ rest =
        '[' :: ([','].intercalate (elems.map print) ++ ']' :: rest) := by
      simp [print, printList_eq_map]
    have hitem : ∀ v ∈ elems, ReadsBack (readValue (fuel + 1)) print v := by
      intro v hv
      have := length_le_intercalate (List.mem_map_of_mem (f := print) hv)
      exact ih v hv fuel (by omega)
    have hhead : ∀ v ∈ elems, ∃ c s, print v = c :: s ∧ c ≠ ']' ∧ isSpace c = false := by
      intro v hv
      obtain ⟨c, s, hv, hc⟩ := (h v hv).exists_head
      exact ⟨c, s, hv, hc.ne_closing (.inl rfl), hc.isSpace⟩
    have hlength := length_le_length_intercalate (elems.map print)
    rw [List.length_map] at hlength
    rw [htext, readValue, skipSpace_cons rfl]
    dsimp only
    rw [if_neg (by decide), if_pos rfl,
      readList_intercalate (.inl rfl) hhead hitem (by omega), Option.map_some]
  | @obj fields hkeys h ih =>
    intro rest _
    simp only [print, printMembers_eq_map, List.length_cons, List.length_append, List.length_nil]
      at hfuel
    obtain ⟨fuel, rfl⟩ : ∃ n, fuel = n + 1 := ⟨fuel - 1, by omega⟩
    have htext : print (obj fields) ++ rest =
        '{' :: ([','].intercalate (fields.map memberText) ++ '}' :: rest) := by
      simp [print, printMembers_eq_map]
    have hitem : ∀ f ∈ fields, ReadsBack (readMember (readValue (fuel + 1)) (fuel + 1))
        memberText f := by
      intro f hf
      have hmember := length_le_intercalate (List.mem_map_of_mem (f := memberText) hf)
      have hkey := length_quote f.1
      rw [memberText, List.length_append, List.length_cons] at hmember
      exact readMember_memberText (ih f hf fuel (by omega)) (by omega)
    have hhead : ∀ f ∈ fields, ∃ c s, memberText f = c :: s ∧ c ≠ '}' ∧ isSpace c = false :=
      fun f _ => ⟨'"', _, rfl, by decide, rfl⟩
    have hlength := length_le_length_intercalate (fields.map memberText)
    rw [List.length_map] at hlength
    rw [htext, readValue, skipSpace_cons rfl]
    dsimp only
    rw [if_neg (by decide), if_neg (by decide), if_pos rfl,
      readList_intercalate (.inr rfl) hhead hitem (by omega), Option.map_some,
      ofMembers_of_nodup hkeys]

/-- **The round trip.** What was written is read as the same value. -/
theorem parse_stringify (v : Json) : parse (stringify v) = some v.canonical := by
  have hread := readValue_print (isCanonical_canonical v) (le_refl _) [] (by simp [EndsNumber])
  rw [List.append_nil] at hread
  simp only [parse, stringify, String.toList_ofList, hread, Option.bind_eq_bind, Option.bind_some]
  rfl

/-- A value is written as the notation that it was given in. -/
@[simp] theorem stringify_canonical (v : Json) : stringify v.canonical = stringify v := by
  rw [stringify, stringify, (isCanonical_canonical v).canonical_eq]

end Json

end LongRequestProxy
