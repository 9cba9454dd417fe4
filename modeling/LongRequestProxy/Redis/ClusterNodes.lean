import LongRequestProxy.Data.JsText
import Mathlib.Data.List.Forall2

/-!
# The nodes of a Redis cluster

`REDIS_CLUSTER_NODES` is a list of seed nodes, `host1:6379,host2:6379`. `parseClusterNodes` splits
it at the commas and each entry at its colons, and gives the text after the first colon to
`parseInt`. What does not get that far is dropped without an error: a colon without a port, a sign
or white space before the digits of the port, whatever follows them, whatever follows a second
colon.

## Main definitions

* `parseClusterNodes`: the parser.
* `IsClusterEntry`, `IsClusterNodes`: the grammar of entries and of lists of entries.
* `IsLooseEntry`: the entries that the parser accepts.

## Main results

* `parseClusterNodes_eq_ok_iff`: the parser accepts the lists of loose entries.
* `parseClusterNodes_eq_error`: an error names the first entry that is none.
* `parseClusterNodes_exact_iff`: the texts on which the parser keeps to the grammar.
* `cluster_port_with_suffix`: a port that is not a number.
-/

namespace LongRequestProxy

/-- A `ClusterNode` of ioredis. -/
structure ClusterNode where
  host : String
  port : ℤ
  deriving DecidableEq, Repr

/-- The port of a node without one. -/
def defaultRedisPort : ℤ := 6379

/-- The port of an entry that was split at its colons; `none` stands for `NaN`. -/
def entryPort (parts : List (List Char)) : Option ℤ :=
  match parts[1]?.filter (· ≠ []) with
  | some portStr => jsParseInt portStr
  | none => some defaultRedisPort

/-- The function that `parseClusterNodes` maps over the entries. -/
def parseClusterEntry (entry : List Char) : Except String ClusterNode :=
  let parts := (jsTrim entry).splitOn ':'
  let host := parts.headD []
  match (entryPort parts).filter fun port => host ≠ [] ∧ ¬ port < 1 ∧ ¬ 65535 < port with
  | some port => .ok ⟨String.ofList host, port⟩
  | none => .error ("Invalid cluster node entry: \"" ++ String.ofList (jsTrim entry) ++ "\"")

/-- `parseClusterNodes`. -/
def parseClusterNodes (raw : String) : Except String (List ClusterNode) :=
  (raw.toList.splitOn ',').mapM parseClusterEntry

/-! ### The grammar -/

/-- A host: a text without commas, colons and white space. -/
structure IsClusterHost (host : List Char) : Prop where
  ne_nil : host ≠ []
  mem : ∀ c ∈ host, c ≠ ',' ∧ c ≠ ':' ∧ isJsWhitespace c = false

/-- The port numbers. -/
def IsPort (n : ℕ) : Prop := 1 ≤ n ∧ n ≤ 65535

/-- An entry: a host, or a host and a port. -/
inductive IsClusterEntry : List Char → ClusterNode → Prop
  | host {host : List Char} (h : IsClusterHost host) :
    IsClusterEntry host ⟨String.ofList host, defaultRedisPort⟩
  | port {host digits : List Char} {n : ℕ} (h : IsClusterHost host)
    (hdigits : decimalDigits digits = some n) (hn : IsPort n) :
    IsClusterEntry (host ++ ':' :: digits) ⟨String.ofList host, n⟩

/-- A list of entries, joined by commas, each between blanks. -/
def IsClusterNodes (raw : String) (nodes : List ClusterNode) : Prop :=
  ∃ texts, texts ≠ [] ∧ raw.toList = [','].intercalate texts ∧
    List.Forall₂ (fun text node => ∃ w entry w', text = w ++ entry ++ w' ∧ IsBlank w ∧
      IsBlank w' ∧ IsClusterEntry entry node) texts nodes

/-- **The parser keeps to the grammar on a text.** It returns the nodes that the text denotes, and
throws when it denotes none. -/
def ParsesExactly (raw : String) : Prop :=
  (∀ nodes, IsClusterNodes raw nodes → parseClusterNodes raw = .ok nodes) ∧
    ((∀ nodes, ¬ IsClusterNodes raw nodes) → ∃ message, parseClusterNodes raw = .error message)

/-- The entries that the parser accepts: a text without colons, alone, or before a colon and a port
that is empty or starts with a port number; a second colon and what follows it do not count. -/
inductive IsLooseEntry : List Char → ClusterNode → Prop
  | host {host : List Char} (hne : host ≠ []) (hcolon : ':' ∉ host) :
    IsLooseEntry host ⟨String.ofList host, defaultRedisPort⟩
  | emptyPort {host rest : List Char} (hne : host ≠ []) (hcolon : ':' ∉ host)
    (hrest : ∀ c ∈ rest.head?, c = ':') :
    IsLooseEntry (host ++ ':' :: rest) ⟨String.ofList host, defaultRedisPort⟩
  | port {host port rest : List Char} {n : ℕ} (hne : host ≠ []) (hcolon : ':' ∉ host)
    (hport : ':' ∉ port) (hrest : ∀ c ∈ rest.head?, c = ':') (hn : IntegerPrefix port n)
    (hrange : IsPort n) :
    IsLooseEntry (host ++ ':' :: (port ++ rest)) ⟨String.ofList host, n⟩

/-! ### One entry -/

variable {entry text host port rest : List Char} {node : ClusterNode} {nodes : List ClusterNode}
  {raw : String}

/-- What the parser does with the parts of an entry. -/
theorem parseClusterEntry_eq_ok_iff :
    parseClusterEntry entry = .ok node ↔
      ∃ host tail n, (jsTrim entry).splitOn ':' = host :: tail ∧ host ≠ [] ∧
        entryPort (host :: tail) = some n ∧ 1 ≤ n ∧ n ≤ 65535 ∧
        node = ⟨String.ofList host, n⟩ := by
  obtain ⟨host, tail, hparts⟩ :=
    List.exists_cons_of_ne_nil (List.splitOn_ne_nil ':' (jsTrim entry))
  unfold parseClusterEntry
  dsimp only
  rw [hparts, List.headD_cons]
  constructor
  · intro h
    split at h
    · next n hn =>
      obtain ⟨hport, hvalid⟩ := Option.filter_eq_some_iff.mp hn
      simp only [decide_eq_true_eq, not_lt] at hvalid
      cases h
      exact ⟨host, tail, n, rfl, hvalid.1, hport, hvalid.2.1, hvalid.2.2, rfl⟩
    · cases h
  · rintro ⟨host', tail', n, heq, hne, hport, hlow, hhigh, rfl⟩
    obtain ⟨rfl, rfl⟩ := List.cons.inj heq
    have hfilter : (entryPort (host :: tail)).filter
        (fun port => host ≠ [] ∧ ¬ port < 1 ∧ ¬ 65535 < port) = some n := by
      rw [Option.filter_eq_some_iff]
      exact ⟨hport, by simp [hne, hlow, hhigh]⟩
    rw [hfilter]

/-- What is left of a text at its first colon, or at its end. -/
theorem splitOn_colon (hport : ':' ∉ port) (hrest : ∀ c ∈ rest.head?, c = ':') :
    ∃ tail, (port ++ rest).splitOn ':' = port :: tail := by
  cases rest with
  | nil =>
    rw [List.append_nil, List.splitOn_eq_singleton hport]
    exact ⟨[], rfl⟩
  | cons c rest =>
    obtain rfl := hrest c rfl
    exact ⟨_, List.splitOn_append_cons_self_of_not_mem hport rest⟩

/-- A text that was split at its colons. -/
theorem eq_of_splitOn_colon {tail : List (List Char)} (h : text.splitOn ':' = host :: tail) :
    ':' ∉ host ∧ ((tail = [] ∧ text = host) ∨
      ∃ rest, text = host ++ ':' :: rest ∧ tail = rest.splitOn ':') := by
  by_cases hmem : ':' ∈ text
  · obtain ⟨front, rest, rfl, hfront⟩ := List.eq_append_cons_of_mem hmem
    rw [List.splitOn_append_cons_self_of_not_mem hfront] at h
    obtain ⟨rfl, rfl⟩ := List.cons.inj h
    exact ⟨hfront, .inr ⟨rest, rfl, rfl⟩⟩
  · rw [List.splitOn_eq_singleton hmem] at h
    obtain ⟨rfl, rfl⟩ := List.cons.inj h
    exact ⟨hmem, .inl ⟨rfl, rfl⟩⟩

/-- **The entries that the parser accepts.** -/
theorem parseClusterEntry_eq_ok_iff_loose :
    parseClusterEntry entry = .ok node ↔ IsLooseEntry (jsTrim entry) node := by
  rw [parseClusterEntry_eq_ok_iff]
  constructor
  · rintro ⟨host, tail, n, hparts, hne, hport, hlow, hhigh, rfl⟩
    obtain ⟨hcolon, ⟨rfl, htext⟩ | ⟨after, htext, htail⟩⟩ := eq_of_splitOn_colon hparts
    · rw [htext]
      cases hport
      exact .host hne hcolon
    · obtain ⟨port, tail', htail'⟩ := List.exists_cons_of_ne_nil (List.splitOn_ne_nil ':' after)
      obtain ⟨rest, hafter, hnocolon, hrest⟩ : ∃ rest, after = port ++ rest ∧ ':' ∉ port ∧
          ∀ c ∈ rest.head?, c = ':' := by
        obtain ⟨hnocolon, ⟨-, hafter⟩ | ⟨rest, hafter, -⟩⟩ := eq_of_splitOn_colon htail'
        · exact ⟨[], by rw [hafter, List.append_nil], hnocolon, by simp⟩
        · exact ⟨':' :: rest, hafter, hnocolon, by simp⟩
      rw [htail, htail'] at hport
      rw [htext, hafter]
      by_cases hempty : port = []
      · subst hempty
        cases hport
        exact .emptyPort hne hcolon hrest
      · have hparse : jsParseInt port = some n := by
          simpa [entryPort, Option.filter, hempty] using hport
        obtain ⟨k, rfl⟩ := Int.eq_ofNat_of_zero_le (by omega : 0 ≤ n)
        exact .port hne hcolon hnocolon hrest ((integerPrefix_iff (by omega)).mp hparse)
          ⟨by omega, by omega⟩
  · intro h
    generalize jsTrim entry = text at h
    cases h with
    | host hne hcolon =>
      exact ⟨_, [], _, List.splitOn_eq_singleton hcolon, hne, rfl, by decide, by decide, rfl⟩
    | @emptyPort host rest hne hcolon hrest =>
      obtain ⟨tail, htail⟩ := splitOn_colon (List.not_mem_nil (a := ':')) hrest
      refine ⟨host, [] :: tail, _, ?_, hne, rfl, by decide, by decide, rfl⟩
      rw [List.splitOn_append_cons_self_of_not_mem hcolon]
      exact congrArg _ htail
    | @port host port rest n hne hcolon hport hrest hn hrange =>
      obtain ⟨tail, htail⟩ := splitOn_colon hport hrest
      refine ⟨host, port :: tail, n, ?_, hne, ?_, ?_, ?_, rfl⟩
      · rw [List.splitOn_append_cons_self_of_not_mem hcolon, htail]
      · have hempty : port ≠ [] := by
          rintro rfl
          obtain ⟨w, sign, digits, _, heq, -, -, hdigits, -⟩ := hn
          have hnil := (decimalDigits_eq_some.mp hdigits).1
          simp_all
        have hparse := (integerPrefix_iff hrange.1).mpr hn
        simpa [entryPort, Option.filter, hempty] using hparse
      · exact_mod_cast hrange.1
      · exact_mod_cast hrange.2

/-! ### The list -/

/-- A list that is mapped without an error. -/
theorem mapM_eq_ok_iff {α β ε : Type} {f : α → Except ε β} {l : List α} {r : List β} :
    l.mapM f = .ok r ↔ List.Forall₂ (fun a b => f a = .ok b) l r := by
  induction l generalizing r with
  | nil =>
    rw [List.mapM_nil]
    constructor
    · intro h
      cases h
      exact .nil
    · intro h
      cases h
      rfl
  | cons a l ih =>
    rw [List.mapM_cons]
    cases ha : f a with
    | error e =>
      refine iff_of_false (fun h => by cases h) fun h => ?_
      cases h with
      | cons hb _ =>
        rw [ha] at hb
        cases hb
    | ok b =>
      cases hl : l.mapM f with
      | error e =>
        refine iff_of_false (fun h => by cases h) fun h => ?_
        cases h with
        | cons _ hrest =>
          rw [ih.mpr hrest] at hl
          cases hl
      | ok bs =>
        constructor
        · intro h
          cases h
          exact .cons ha (ih.mp hl)
        · intro h
          cases h with
          | cons hb hrest =>
            rw [ha] at hb
            cases hb
            rw [ih.mpr hrest] at hl
            cases hl
            rfl

/-- The first error of a list. -/
theorem mapM_eq_error {α β ε : Type} {f : α → Except ε β} {l : List α} {e : ε}
    (h : l.mapM f = .error e) :
    ∃ front a rest, l = front ++ a :: rest ∧ (∀ x ∈ front, ∃ b, f x = .ok b) ∧
      f a = .error e := by
  induction l with
  | nil => cases h
  | cons a l ih =>
    rw [List.mapM_cons] at h
    cases ha : f a with
    | error e' =>
      rw [ha] at h
      cases h
      exact ⟨[], a, l, rfl, by simp, ha⟩
    | ok b =>
      rw [ha] at h
      cases hl : l.mapM f with
      | ok bs =>
        rw [hl] at h
        cases h
      | error e' =>
        rw [hl] at h
        cases h
        obtain ⟨front, x, rest, rfl, hfront, hx⟩ := ih hl
        refine ⟨a :: front, x, rest, rfl, ?_, hx⟩
        simpa using ⟨⟨b, ha⟩, hfront⟩

/-- **The lists that the parser accepts.** -/
theorem parseClusterNodes_eq_ok_iff :
    parseClusterNodes raw = .ok nodes ↔
      List.Forall₂ (fun text node => IsLooseEntry (jsTrim text) node)
        (raw.toList.splitOn ',') nodes := by
  unfold parseClusterNodes
  rw [mapM_eq_ok_iff]
  simp only [parseClusterEntry_eq_ok_iff_loose]

/-- **Errors name the first entry that is refused.** -/
theorem parseClusterNodes_eq_error {message : String} (h : parseClusterNodes raw = .error message) :
    ∃ front text rest, raw.toList.splitOn ',' = front ++ text :: rest ∧
      (∀ t ∈ front, ∃ node, IsLooseEntry (jsTrim t) node) ∧
      (∀ node, ¬ IsLooseEntry (jsTrim text) node) ∧
      message = "Invalid cluster node entry: \"" ++ String.ofList (jsTrim text) ++ "\"" := by
  obtain ⟨front, text, rest, hsplit, hfront, htext⟩ := mapM_eq_error h
  refine ⟨front, text, rest, hsplit, fun t ht => ?_, fun node hnode => ?_, ?_⟩
  · obtain ⟨node, hnode⟩ := hfront t ht
    exact ⟨node, parseClusterEntry_eq_ok_iff_loose.mp hnode⟩
  · rw [parseClusterEntry_eq_ok_iff_loose.mpr hnode] at htext
    cases htext
  · unfold parseClusterEntry at htext
    dsimp only at htext
    split at htext <;> cases htext
    rfl

theorem exists_of_forall₂ {α β : Type} {P : α → β → Prop} {l : List α} {r : List β}
    (h : List.Forall₂ P l r) : ∀ a ∈ l, ∃ b, P a b := by
  induction h with
  | nil => simp
  | cons hab _ ih => exact List.forall_mem_cons.mpr ⟨⟨_, hab⟩, ih⟩

/-- The parser fails on the lists with an entry that it does not accept. -/
theorem exists_error_iff :
    (∃ message, parseClusterNodes raw = .error message) ↔
      ∃ text ∈ raw.toList.splitOn ',', ∀ node, ¬ IsLooseEntry (jsTrim text) node := by
  constructor
  · rintro ⟨message, h⟩
    obtain ⟨front, text, rest, hsplit, -, htext, -⟩ := parseClusterNodes_eq_error h
    exact ⟨text, by simp [hsplit], htext⟩
  · rintro ⟨text, hmem, htext⟩
    cases h : parseClusterNodes raw with
    | error message => exact ⟨message, rfl⟩
    | ok nodes =>
      obtain ⟨node, hnode⟩ := exists_of_forall₂ (parseClusterNodes_eq_ok_iff.mp h) text hmem
      exact absurd hnode (htext node)

/-! ### The parser and the grammar -/

namespace IsClusterEntry

theorem mem_host {c : Char} (h : IsClusterHost host) (hc : c ∈ host) :
    c ≠ ',' ∧ isJsWhitespace c = false :=
  ⟨(h.mem c hc).1, (h.mem c hc).2.2⟩

/-- No character of an entry is a comma or white space. -/
theorem mem (h : IsClusterEntry entry node) {c : Char} (hc : c ∈ entry) :
    c ≠ ',' ∧ isJsWhitespace c = false := by
  cases h with
  | host h => exact mem_host h hc
  | port h hdigits hn =>
    rcases List.mem_append.mp hc with hc | hc
    · exact mem_host h hc
    · rcases List.mem_cons.mp hc with rfl | hc
      · decide
      · have hdigit := (decimalDigits_eq_some.mp hdigits).2.1 c hc
        refine ⟨?_, isJsWhitespace_of_isDigit hdigit⟩
        rintro rfl
        cases hdigit

theorem isTight (h : IsClusterEntry entry node) : IsTight entry where
  head _ hc := (h.mem (List.mem_of_mem_head? hc)).2
  last _ hc := (h.mem (List.mem_of_mem_getLast? hc)).2

theorem isLoose (h : IsClusterEntry entry node) : IsLooseEntry entry node := by
  have hcolon : ∀ {host : List Char}, IsClusterHost host → ':' ∉ host := fun h hc =>
    (h.mem ':' hc).2.1 rfl
  cases h with
  | host h => exact .host h.ne_nil (hcolon h)
  | @port host digits n h hdigits hn =>
    have hnocolon : ':' ∉ digits := fun hc => by
      cases (decimalDigits_eq_some.mp hdigits).2.1 ':' hc
    have hprefixed : IntegerPrefix digits n :=
      ⟨[], [], digits, [], by simp, by simp [IsBlank], .inl rfl, hdigits, by simp⟩
    have hend : ∀ c ∈ ([] : List Char).head?, c = ':' := by simp
    simpa using IsLooseEntry.port h.ne_nil (hcolon h) hnocolon hend hprefixed hn

/-- An entry with a colon ends in a digit. -/
theorem isDigit_getLast (h : IsClusterEntry entry node) (hcolon : ':' ∈ entry) :
    ∀ c ∈ entry.getLast?, c.isDigit = true := by
  intro c hc
  cases h with
  | host h => exact absurd rfl (h.mem ':' hcolon).2.1
  | port h hdigits hn =>
    obtain ⟨hne, hall, -⟩ := decimalDigits_eq_some.mp hdigits
    rw [List.getLast?_append_of_ne_nil _ (List.cons_ne_nil _ _),
      List.getLast?_cons_of_ne_nil hne] at hc
    exact hall c (List.mem_of_mem_getLast? hc)

end IsClusterEntry

/-- The grammar of lists, entry by entry. -/
theorem isClusterNodes_iff :
    IsClusterNodes raw nodes ↔
      List.Forall₂ (fun text node => IsClusterEntry (jsTrim text) node)
        (raw.toList.splitOn ',') nodes := by
  constructor
  · rintro ⟨texts, hne, hraw, hentries⟩
    have hcommas : ∀ text ∈ texts, ',' ∉ text := by
      intro text htext hcomma
      obtain ⟨node, w, entry, w', rfl, hw, hw', hentry⟩ := exists_of_forall₂ hentries text htext
      have hblank : isJsWhitespace ',' = false := by decide
      rcases List.mem_append.mp hcomma with hcomma | hcomma
      · rcases List.mem_append.mp hcomma with hcomma | hcomma
        · exact Bool.false_ne_true (hblank.symm.trans (hw ',' hcomma))
        · exact (hentry.mem hcomma).1 rfl
      · have hcommaBlank := hw' ',' hcomma
        exact Bool.false_ne_true (hblank.symm.trans hcommaBlank)
    rw [hraw, List.splitOn_intercalate ',' hcommas hne]
    refine hentries.imp ?_
    rintro text node ⟨w, entry, w', rfl, hw, hw', hentry⟩
    rw [jsTrim_padded hw hw' hentry.isTight]
    exact hentry
  · intro h
    refine ⟨raw.toList.splitOn ',', List.splitOn_ne_nil _ _, (List.intercalate_splitOn ..).symm,
      h.imp fun text node hentry => ?_⟩
    obtain ⟨w, w', htext, hw, hw'⟩ := exists_padding text
    exact ⟨w, _, w', htext, hw, hw', hentry⟩

/-- What the grammar says is what the parser returns. -/
theorem parseClusterNodes_of_isClusterNodes (h : IsClusterNodes raw nodes) :
    parseClusterNodes raw = .ok nodes :=
  parseClusterNodes_eq_ok_iff.mpr ((isClusterNodes_iff.mp h).imp fun _ _ hentry => hentry.isLoose)

/-- **When the parser keeps to the grammar.** It does so exactly on the texts of the grammar and
on the lists with an entry that is not even loosely written. -/
theorem parseClusterNodes_exact_iff (raw : String) :
    ParsesExactly raw ↔ (∃ nodes, IsClusterNodes raw nodes) ∨
      ∃ text ∈ raw.toList.splitOn ',', ∀ node, ¬ IsLooseEntry (jsTrim text) node := by
  unfold ParsesExactly
  rw [exists_error_iff]
  constructor
  · rintro ⟨-, herror⟩
    by_cases h : ∃ nodes, IsClusterNodes raw nodes
    · exact .inl h
    · exact .inr (herror (not_exists.mp h))
  · intro h
    refine ⟨fun nodes => parseClusterNodes_of_isClusterNodes, fun hnone => ?_⟩
    obtain ⟨nodes, hnodes⟩ | herror := h
    · exact absurd hnodes (hnone nodes)
    · exact herror

/-- What follows the digits of a port is dropped. -/
theorem cluster_port_with_suffix : ¬ ∀ raw, ParsesExactly raw := by
  intro h
  obtain ⟨message, herror⟩ := (h "redis-1:6379x").2 fun nodes hnodes => by
    have hsplit : "redis-1:6379x".toList.splitOn ',' = ["redis-1:6379x".toList] := by decide
    have htrim : jsTrim "redis-1:6379x".toList = "redis-1:6379x".toList := by decide
    have hentries := isClusterNodes_iff.mp hnodes
    rw [hsplit] at hentries
    obtain ⟨node, hentry⟩ := exists_of_forall₂ hentries _ List.mem_cons_self
    rw [htrim] at hentry
    exact absurd (hentry.isDigit_getLast (by decide) 'x' (by decide)) (by decide)
  have hok : parseClusterNodes "redis-1:6379x" = .ok [⟨"redis-1", 6379⟩] := by decide
  rw [hok] at herror
  cases herror

end LongRequestProxy
