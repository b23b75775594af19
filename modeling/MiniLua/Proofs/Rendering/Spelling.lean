import MiniLua.Proofs.Reading.Terminals
import MiniLua.Proofs.Token.Escapes
import MiniLua.Proofs.Token.LineEnds

/-!
# Tokens as text

How tokens are spelled with single spaces between, and that the tokenizer reads each of them back.
-/

namespace MiniLua

open MiniLua.Text MiniLua.Spelling MiniLua.Parser MiniLua.Lexer

/-- A backslash, a quote and a line feed are escaped in a string. -/
def escapedChars : Char → List Char
  | '\\' => ['\\', '\\']
  | '"' => ['\\', '"']
  | '\n' => ['\\', 'n']
  | c => [c]

/-- The characters that spell a token. A numeral has neither blanks around it nor a sign. -/
inductive Spells : Lexeme → List Char → Prop where
  | keyword {word : String} (known : word ∈ keywords) : Spells (.keyword word) word.toList
  | name {word : String} (identifier : nameChars word.toList = word.toList) (nonempty : word ≠ "")
      (free : word ∉ keywords) : Spells (.name word) word.toList
  | symbol {s : String} (known : s ∈ symbols) : Spells (.symbol s) s.toList
  | number {value : Float} {cs : List Char} (numeral : Number.parse? cs = .ok (some value))
      (bare : trim cs = cs) (unsigned : cs.head? ≠ some '-' ∧ cs.head? ≠ some '+') :
      Spells (.number value) cs
  | string (text : String) :
      Spells (.string text) ('"' :: text.toList.flatMap escapedChars ++ ['"'])

/-- The characters that spell tokens with single spaces between. -/
inductive Spelled : List Lexeme → List Char → Prop where
  | nil : Spelled [] []
  | last {l : Lexeme} {cs : List Char} (spells : Spells l cs) : Spelled [l] cs
  | cons {l l' : Lexeme} {ls : List Lexeme} {cs rest : List Char} (spells : Spells l cs)
      (others : Spelled (l' :: ls) rest) : Spelled (l :: l' :: ls) (cs ++ ' ' :: rest)

/-! ## Strings -/

theorem escapedChars_eq (c : Char) : escapedChars c = escapedIn '"' c := by
  unfold escapedChars
  split
  next => rfl
  next => rfl
  next => rfl
  next slash quote newline =>
    rw [escapedIn, if_neg (fun same => newline same)]
    rw [if_neg (by simpa using ⟨fun same => slash same, fun same => quote same⟩)]

theorem shortBody?_escaped (text tail : List Char) :
    shortBody? '"' (text.flatMap escapedChars ++ '"' :: tail) =
      some (text.flatMap escapedChars) := by
  rw [funext escapedChars_eq]
  exact shortBody?_escapedIn (.inl rfl) text tail

theorem decodeEscapes_escaped (text : List Char) :
    decodeEscapes (text.flatMap escapedChars) = .ok text := by
  rw [funext escapedChars_eq]
  exact decodeEscapes_escapedIn (.inl rfl) text

/-! ## Tokens -/

namespace Spells

variable {l : Lexeme} {cs : List Char}

theorem nameChars_keyword {word : String} (known : word ∈ keywords) :
    nameChars word.toList = word.toList := by
  obtain ⟨c, tail, spelled, start, goesOn⟩ := keyword_spelling word known
  have read : nameChars (word.toList ++ []) = word.toList :=
    (nameChars_append_eq_iff.mpr ⟨c, tail, spelled, start, List.all_eq_true.mp goesOn, rfl⟩).1
  rwa [List.append_nil] at read

/-- A token is read from its characters. -/
theorem rule (h : Spells l cs) : Rule cs l cs.length := by
  cases h with
  | @keyword word known =>
    have same := nameChars_keyword known
    have nonempty : nameChars word.toList ≠ [] := by
      obtain ⟨c, tail, spelled, -, -⟩ := keyword_spelling word known
      rw [same, spelled]
      exact List.cons_ne_nil _ _
    have rule := Rule.keyword nonempty (by rwa [same, String.ofList_toList])
    rwa [same, String.ofList_toList] at rule
  | @name word identifier nonempty free =>
    have some : nameChars word.toList ≠ [] := by
      rwa [identifier, ne_eq, String.toList_eq_nil_iff]
    have rule := Rule.name some (by rwa [identifier, String.ofList_toList])
    rwa [identifier, String.ofList_toList] at rule
  | @symbol s known =>
    have alone : ∀ s ∈ symbols, bracketLevel? s.toList = none ∧ startsNumber s.toList = false ∧
        symbol? s.toList = some s := by
      decide
    obtain ⟨unopened, digitless, longest⟩ := alone s known
    rw [String.length_toList]
    exact .symbol unopened digitless longest
  | @number value cs numeral bare unsigned =>
    rw [Number.parse?, bare, Number.splitSign_of_unsigned unsigned] at numeral
    dsimp only at numeral
    split at numeral
    next numeral' scanned =>
      have nearest : numeral'.toFloat = .ok value := by
        cases found : numeral'.toFloat with
        | error fault => rw [found] at numeral; cases numeral
        | ok x => rw [found] at numeral; cases numeral; rfl
      exact .number scanned rfl nearest
    next => cases numeral
  | string text =>
    have rule : Rule _ _ _ :=
      .short rfl (.inl rfl) (shortBody?_escaped text.toList []) (decodeEscapes_escaped _)
    simpa using rule

theorem bracketless (h : Spells l cs) : bracketLevel? cs = none := by
  have rule := h.rule
  cases h with
  | string text => rfl
  | _ => exact rule.bracketLevel?_eq_none fun _ => by simp

theorem uncommented (h : Spells l cs) : opensComment cs = false := by
  by_contra opens
  obtain ⟨tail, same⟩ := opensComment_prefix (Bool.not_eq_false _ ▸ opens)
  have rule := h.rule
  cases h with
  | symbol known =>
    have alone : ∀ s ∈ symbols, opensComment s.toList = false := by decide
    rw [same] at opens
    exact opens (same ▸ alone _ known)
  | number numeral bare unsigned =>
    rw [same] at unsigned
    exact unsigned.1 rfl
  | string text => cases same
  | keyword known =>
    obtain ⟨c, tail', spelled, start, -⟩ := keyword_spelling _ known
    rw [same] at spelled
    cases spelled
    exact absurd start (by decide)
  | name identifier nonempty =>
    rw [same] at identifier
    cases identifier

theorem extent (h : Spells l cs) : ∃ c tail, cs = c :: tail ∧ isBlank c = false ∧ '\n' ∉ cs := by
  obtain ⟨c, tail, same⟩ : ∃ c tail, cs = c :: tail := by
    obtain ⟨read, rest, rfl, nonempty, -⟩ := h.rule.extent
    exact List.exists_cons_of_ne_nil (List.append_ne_nil_of_left_ne_nil nonempty rest)
  have solid := h.rule.solid
  rw [List.take_length] at solid
  cases h with
  | string text =>
    refine ⟨_, _, rfl, by decide, ?_⟩
    have body := newline_not_mem_shortBody? (shortBody?_escaped text.toList [])
    simpa using body
  | _ =>
    have solid := solid fun _ => by simp
    refine ⟨c, tail, same, solid c (by rw [same]; exact List.mem_cons_self), fun newline => ?_⟩
    exact absurd (solid _ newline) (by decide)

/-- A token is read where its characters stand before a gap. -/
theorem step {blank : Char → Bool} (h : Spells l cs) {tail : List Char} (gap : Separates tail) :
    Step blank (cs ++ tail) (some l) cs.length := by
  obtain ⟨c, cs', rfl, solid, -⟩ := h.extent
  have rule := ((Rule.append_iff gap (List.cons_ne_nil _ _)).mp h.rule).1
  have uncommented := (opensComment_append gap _).trans h.uncommented
  exact .token solid uncommented (readToken_eq_ok_iff.mpr rule)

end Spells

/-! ## Texts -/

namespace Spelled

variable {ls : List Lexeme} {cs : List Char}

/-- The tokens of a text with single spaces are those that it spells. -/
theorem scans (h : Spelled ls cs) (line : Nat) :
    ∃ ts last, Scans isGrammarBlank line cs ts last [] ∧ ts.map Token.lexeme = ls := by
  induction h generalizing line with
  | nil => exact ⟨[], line, .refl, rfl⟩
  | @last l cs spells =>
    have step : Step isGrammarBlank (cs ++ []) (some l) cs.length := spells.step .nil
    rw [List.append_nil] at step
    refine ⟨[⟨l, line⟩], line + (cs.take cs.length).count '\n', .read step ?_, rfl⟩
    rw [List.drop_length]
    exact .refl
  | @cons l l' ls cs rest spells others ih =>
    have gap : Separates (' ' :: rest) := .of_isBlank (by decide)
    have step : Step isGrammarBlank (cs ++ ' ' :: rest) (some l) cs.length := spells.step gap
    obtain ⟨ts, last, scan, same⟩ := ih (line + cs.count '\n' + [' '].count '\n')
    refine ⟨⟨l, line⟩ :: ts, last, .read step ?_, by rw [List.map_cons, same]⟩
    rw [List.take_left, List.drop_left]
    exact .pass (.blank rfl) scan

end Spelled

end MiniLua
