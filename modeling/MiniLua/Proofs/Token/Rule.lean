import MiniLua.Grammar.Parser
import MiniLua.Proofs.Token.Extent

/-!
# Which rule reads a token

The rule that reads a token is settled by the first characters of the token, and with it what the
token covers.
-/

namespace MiniLua

open MiniLua.Text MiniLua.Spelling MiniLua.Parser

/-! ## Characters -/

theorem has_eq_false {spans : Spans} {c : Char} {low high : Nat} (above : low ≤ c.toNat)
    (below : c.toNat ≤ high) (apart : ∀ s ∈ spans, s.2 < low ∨ high < s.1) :
    spans.has c = false := by
  by_contra member
  obtain ⟨s, known, first, last⟩ := (Spans.has_iff _ _).mp (Bool.not_eq_false _ ▸ member)
  rcases apart s known with before | after <;> omega

theorem range_of_isNameStart {c : Char} (h : isNameStart c = true) :
    58 ≤ c.toNat ∧ c.toNat ≤ 122 := by
  delta isNameStart Char.isAlpha Char.isUpper Char.isLower at h
  simp only [Bool.or_eq_true, Bool.and_eq_true, decide_eq_true_eq, UInt32.le_iff_toNat_le,
    ge_iff_le] at h
  change ((65 ≤ c.toNat ∧ c.toNat ≤ 90) ∨ (97 ≤ c.toNat ∧ c.toNat ≤ 122)) ∨ c = '_' at h
  rcases h with (upper | lower) | rfl
  · omega
  · omega
  · decide

theorem range_of_isNameChar {c : Char} (h : isNameChar c = true) :
    48 ≤ c.toNat ∧ c.toNat ≤ 122 := by
  simp only [isNameChar, Char.isAlphanum, Bool.or_eq_true, decide_eq_true_eq] at h
  rcases h with (letter | digit) | rfl
  · have := range_of_isNameStart (c := c) (by rw [isNameStart, letter, Bool.true_or])
    omega
  · simp only [Char.isDigit, Bool.and_eq_true, decide_eq_true_eq, UInt32.le_iff_toNat_le,
      ge_iff_le] at digit
    change 48 ≤ c.toNat ∧ c.toNat ≤ 57 at digit
    omega
  · decide

theorem isNameChar_of_isNameStart {c : Char} (h : isNameStart c = true) : isNameChar c = true := by
  simp only [isNameStart, isNameChar, Char.isAlphanum, Bool.or_eq_true] at h ⊢
  exact h.imp_left .inl

theorem isBlank_of_isNameChar {c : Char} (h : isNameChar c = true) : isBlank c = false := by
  obtain ⟨above, below⟩ := range_of_isNameChar h
  exact has_eq_false above below (by decide)

theorem isDigit_of_isNameStart {c : Char} (h : isNameStart c = true) : isDigit c = false := by
  obtain ⟨above, below⟩ := range_of_isNameStart h
  have later : ¬ ('0' ≤ c && c ≤ '9') = true := by
    intro digit
    rw [Bool.and_eq_true, decide_eq_true_eq, decide_eq_true_eq, Char.le_def, Char.le_def,
      UInt32.le_iff_toNat_le, UInt32.le_iff_toNat_le] at digit
    change 48 ≤ c.toNat ∧ c.toNat ≤ 57 at digit
    omega
  rw [isDigit, isDecimal, decimalValue?, if_pos (by omega), if_neg later,
    has_eq_false above below (by decide)]
  rfl

theorem isDigit_of_isBlank {ch : Char} (h : isBlank ch = true) : isDigit ch = false := by
  obtain ⟨span, known, low, high⟩ := (Spans.has_iff _ _).mp h
  have all : ∀ s ∈ blankSpans, ∀ n ∈ List.range' s.1 (s.2 + 1 - s.1),
      isDigit (Char.ofNat n) = false := by decide +kernel
  have digitless := all span known ch.toNat (List.mem_range'_1.mpr (by omega))
  rwa [Char.ofNat_toNat] at digitless

theorem not_touchesWord_of_isBlank {ch : Char} (h : isBlank ch = true) :
    touchesWord ch = false := by
  by_contra touches
  have either : isNameChar ch = true ∨ ch = '$' := by
    rwa [Bool.not_eq_false, touchesWord, Bool.or_eq_true, decide_eq_true_eq] at touches
  rcases either with word | rfl
  · rw [isBlank_of_isNameChar word] at h
    cases h
  · revert h
    decide

/-! ## Symbols as characters -/

def symbolTexts : List (List Char) :=
  [['.', '.'], ['=', '='], ['~', '='], ['<', '='], ['>', '='], ['/', '/'], ['+'], ['-'], ['*'],
   ['/'], ['%'], ['^'], ['#'], ['<'], ['>'], ['='], ['('], [')'], ['\x7b'], ['\x7d'], ['['], [']'],
   [';'], [','], ['.']]

theorem toList_symbols : symbols.map String.toList = symbolTexts := by decide

theorem forall_symbols (P : List Char → Prop) (h : ∀ w ∈ symbolTexts, P w) :
    ∀ s ∈ symbols, P s.toList := by
  intro s known
  rw [← toList_symbols] at h
  exact h _ (List.mem_map_of_mem known)

theorem mem_symbols_iff {s : String} : s ∈ symbols ↔ s.toList ∈ symbolTexts := by
  rw [← toList_symbols, List.mem_map]
  exact ⟨fun known => ⟨s, known, rfl⟩, fun ⟨t, known, same⟩ => String.toList_inj.mp same ▸ known⟩

theorem head?_ne_of_isNameStart {c : Char} (h : isNameStart c = true) :
    ∀ s ∈ symbols, s.toList.head? ≠ some c := by
  have others := forall_symbols (fun w => w.head?.any isNameStart = false) (by decide)
  intro s known head
  have := others s known
  rw [head, Option.any_some, h] at this
  cases this

theorem isWord_of_isNameChar {c : Char} (h : isNameChar c = true) : isWord c = true := by
  have ascii : c.toNat < 128 := lt_of_le_of_lt (range_of_isNameChar h).2 (by decide)
  simp only [isNameChar, Bool.or_eq_true, decide_eq_true_eq] at h
  rw [isWord, isAlphanumeric, if_pos ascii, Bool.or_eq_true, decide_eq_true_eq]
  exact h.symm

theorem nameChars_eq_nil_iff {c : Char} {cs : List Char} :
    nameChars (c :: cs) = [] ↔ isNameStart c = false := by
  rw [nameChars]
  split
  next h => simp [h]
  next h => simpa using h

/-! ## Rules -/

namespace Lexer

/-- The rule that reads a token at the front of `cs`, with the token and its length. -/
inductive Rule (cs : List Char) : Lexeme → Nat → Prop where
  | short {quote : Char} {tail body text : List Char} (here : cs = quote :: tail)
      (quoted : quote = '"' ∨ quote = '\'') (inside : shortBody? quote tail = some body)
      (decoded : decodeEscapes body = .ok text) :
      Rule cs (.string (String.ofList text)) (body.length + 2)
  | long {level n : Nat} {body : List Char} (opens : bracketLevel? cs = some level)
      (inside : longBracket? level cs = some (body, n)) :
      Rule cs (.string (String.ofList (dropFirstNewline body))) n
  | number {numeral : Number.Numeral} {rest : List Char} {value : Float}
      (scanned : Number.Numeral.scan cs = some (numeral, rest)) (ends : endsNumber rest = true)
      (nearest : numeral.toFloat = .ok value) : Rule cs (.number value) (cs.length - rest.length)
  | symbol {s : String} (unopened : bracketLevel? cs = none) (digitless : startsNumber cs = false)
      (longest : symbol? cs = some s) : Rule cs (.symbol s) s.length
  | keyword (starts : nameChars cs ≠ []) (known : String.ofList (nameChars cs) ∈ keywords) :
      Rule cs (.keyword (String.ofList (nameChars cs))) (nameChars cs).length
  | name (starts : nameChars cs ≠ []) (unknown : String.ofList (nameChars cs) ∉ keywords) :
      Rule cs (.name (String.ofList (nameChars cs))) (nameChars cs).length

variable {c : Char} {cs : List Char} {lexeme : Lexeme} {n : Nat}

theorem rule_of_readToken (h : readToken c (c :: cs) = .ok (lexeme, n)) :
    Rule (c :: cs) lexeme n := by
  unfold readToken at h
  split at h
  next quoted =>
    unfold readShortString at h
    split at h
    next => cases h
    next body inside =>
      split at h
      next => cases h
      next text decoded =>
        cases h
        exact .short rfl (by simpa using quoted) inside decoded
  next =>
    split at h
    next level opens =>
      unfold readLongString at h
      split at h
      next => cases h
      next body n inside =>
        cases h
        exact .long opens inside
    next unopened =>
      split at h
      next =>
        unfold readNumber at h
        split at h
        next => cases h
        next numeral rest scanned =>
          split at h
          next => cases h
          next ends =>
            split at h
            next => cases h
            next value nearest =>
              cases h
              exact .number scanned (by simpa using ends) nearest
      next digitless =>
        split at h
        next s longest =>
          cases h
          exact .symbol unopened (by simpa using digitless) longest
        next =>
          unfold readWord at h
          split at h
          next => cases h
          next starts =>
            cases h
            split
            next known => exact .keyword starts (List.contains_iff_mem.mp known)
            next unknown =>
              exact .name starts fun known => unknown (List.contains_iff_mem.mpr known)

theorem symbol?_mem {s : String} (h : symbol? cs = some s) :
    s ∈ symbols ∧ startsWith s cs = true :=
  ⟨List.mem_of_find?_eq_some h, List.find?_some (p := (startsWith · cs)) h⟩

theorem startsWith_prefix {word : String} (h : startsWith word cs = true) :
    ∃ rest, cs = word.toList ++ rest := by
  obtain ⟨rest, same⟩ := List.isPrefixOf_iff_prefix.mp h
  exact ⟨rest, same.symm⟩

/-- No word is cut in two between what is read and the rest. -/
def Parted (read rest : List Char) : Prop :=
  read.getLast?.any touchesWord = true → rest.head?.any isNameChar = false

theorem Parted.of_getLast? {read rest : List Char} (last : Char)
    (h : read.getLast? = some last) (apart : touchesWord last = false) : Parted read rest := by
  intro touches
  rw [h, Option.any_some, apart] at touches
  cases touches

/-- A token covers a prefix of the text and cuts no word in two. -/
theorem Rule.extent (h : Rule cs lexeme n) :
    ∃ read rest, cs = read ++ rest ∧ read ≠ [] ∧ n = read.length ∧ Parted read rest := by
  cases h with
  | @short quote tail body text here quoted inside decoded =>
    obtain ⟨rest, rfl⟩ := shortBody?_prefix inside
    refine ⟨quote :: body ++ [quote], rest, by simp [here], by simp, by simp, ?_⟩
    refine .of_getLast? quote (List.getLast?_concat ..) ?_
    rcases quoted with rfl | rfl <;> decide
  | @long level n body opens inside =>
    obtain ⟨rest, same, rfl⟩ := longBracket?_prefix opens inside
    refine ⟨_, rest, same, by simp [opener], rfl, .of_getLast? ']' ?_ (by decide)⟩
    rw [closer, ← List.append_assoc, List.getLast?_concat]
  | @number numeral rest value scanned ends nearest =>
    obtain ⟨read, rfl, nonempty, -⟩ := Number.Numeral.scan_prefix scanned
    refine ⟨read, rest, rfl, nonempty, by simp, fun _ => ?_⟩
    cases rest with
    | nil => rfl
    | cons d rest =>
      simp only [endsNumber, Bool.not_eq_true', Bool.or_eq_false_iff] at ends
      by_contra word
      have := isWord_of_isNameChar (c := d) (by simpa using word)
      rw [ends.1] at this
      cases this
  | @symbol s unopened digitless longest =>
    obtain ⟨known, starts⟩ := symbol?_mem longest
    obtain ⟨rest, rfl⟩ := startsWith_prefix starts
    have facts := forall_symbols (fun w => w ≠ [] ∧ w.getLast?.any touchesWord = false) (by decide)
    obtain ⟨nonempty, apart⟩ := facts s known
    refine ⟨s.toList, rest, rfl, nonempty, String.length_toList.symm, fun touches => ?_⟩
    rw [apart] at touches
    cases touches
  | keyword starts known =>
    obtain ⟨rest, same, ends⟩ := nameChars_prefix cs
    exact ⟨_, rest, same, starts, rfl, fun _ => ends starts⟩
  | name starts unknown =>
    obtain ⟨rest, same, ends⟩ := nameChars_prefix cs
    exact ⟨_, rest, same, starts, rfl, fun _ => ends starts⟩

/-! ## Comments -/

/-- A comment covers a prefix of the text and cuts no word in two. -/
theorem commentLength_extent {cs : List Char} {n : Nat} (opens : opensComment cs = true)
    (h : commentLength cs = .ok n) :
    ∃ read rest, cs = read ++ rest ∧ read ≠ [] ∧ n = read.length ∧ Parted read rest := by
  obtain ⟨tail, rfl⟩ := opensComment_prefix opens
  unfold commentLength at h
  split at h
  next =>
    cases h
    obtain ⟨rest, same, -, ends⟩ := firstLine_prefix ('-' :: '-' :: tail)
    refine ⟨_, rest, same, by simp [firstLine], rfl, fun _ => ?_⟩
    rcases ends with rfl | feed
    · rfl
    · rw [feed]
      rfl
  next level bracket =>
    split at h
    next => cases h
    next body length inside =>
      cases h
      obtain ⟨rest, same, rfl⟩ := longBracket?_prefix bracket inside
      refine ⟨'-' :: '-' :: (opener level ++ body ++ closer level), rest, ?_, by simp, by simp, ?_⟩
      · change tail = _ at same
        rw [same]
        rfl
      · refine .of_getLast? ']' ?_ (by decide)
        rw [closer, ← List.append_assoc, ← List.cons_append, ← List.cons_append,
          List.getLast?_concat]

end Lexer

end MiniLua
