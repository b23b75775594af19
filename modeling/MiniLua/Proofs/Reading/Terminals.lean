import MiniLua.Proofs.Reading.Alignment
import MiniLua.Proofs.Token.Exclusion

/-!
# What a terminal reads

Right before a token the outcome of every terminal is settled by that token. Keywords, names,
numbers and strings read the token or fail. A symbol may also be only the first part of what the
tokenizer reads as one token.
-/

namespace MiniLua

open MiniLua.Text MiniLua.Spelling MiniLua.Parser

/-! ## What a token gives -/

namespace Lexeme

def name? : Lexeme → Option String
  | name word => some word
  | _ => none

def number? : Lexeme → Option Float
  | number value => some value
  | _ => none

def string? : Lexeme → Option String
  | string text => some text
  | _ => none

end Lexeme

/-- Success if there is something to give. -/
def Reply.ofOption {α : Type} (place : Cursor) : Option α → Reply α
  | some a => .ok a place
  | none => .fail

open MiniLua.Lexer

/-! ## Words -/

/-- No token starts with a dollar sign, so a word that the tokenizer reads ends for the grammar as
well. -/
theorem Aligned.head?_ne_dollar {text : List Char} {c : Cursor} {ts : List Token}
    (h : Aligned text c ts) : c.rest.head? ≠ some '$' := by
  intro head
  obtain ⟨tail, same⟩ : ∃ tail, c.rest = '$' :: tail := by
    cases same : c.rest with
    | nil =>
      rw [same] at head
      cases head
    | cons ch tail =>
      rw [same] at head
      cases head
      exact ⟨tail, rfl⟩
  obtain ⟨ts', line, cut, -⟩ := h.cut
  rw [same] at cut
  have step : ∀ {lexeme? n}, ¬ Step isBlank ('$' :: tail) lexeme? n := by
    intro lexeme? n step
    cases step with
    | blank blanks => exact absurd blanks (by decide)
    | comment opens => cases opens
    | token solid uncommented found =>
      cases rule_of_readToken found with
      | short here quoted inside decoded =>
        cases here
        revert quoted
        decide
      | long opens inside =>
        obtain ⟨tail, same⟩ := head_of_bracketLevel? opens
        cases same
      | number scanned ends nearest =>
        obtain ⟨-, -, -, starts⟩ := Number.Numeral.scan_prefix scanned
        rw [not_startsNumber (by decide) (by decide)] at starts
        cases starts
      | symbol unopened digitless longest =>
        obtain ⟨known, starts⟩ := symbol?_mem longest
        obtain ⟨d, tail, same, first⟩ := head_of_symbol known starts
        cases same
        exact forall_symbols (fun w => w.head? ≠ some '$') (by decide) _ known first
      | keyword starts known => exact starts (nameChars_eq_nil_iff.mpr (by decide))
      | name starts unknown => exact starts (nameChars_eq_nil_iff.mpr (by decide))
  cases cut with
  | pass first others => exact step first
  | read first others => exact step first

theorem keyword_spelling : ∀ word ∈ keywords, ∃ c tail, word.toList = c :: tail ∧
    isNameStart c = true ∧ tail.all isNameChar = true := by
  have : ∀ word ∈ keywords, (word.toList.head?.any isNameStart &&
      word.toList.tail.all isNameChar) = true := by decide
  intro word known
  have spelled := this word known
  cases same : word.toList with
  | nil => simp [same] at spelled
  | cons c tail =>
    rw [same, Bool.and_eq_true] at spelled
    exact ⟨c, tail, rfl, spelled⟩

theorem keywordHere_of_nameless {c : Cursor} {word : String} (known : word ∈ keywords)
    (none : nameChars c.rest = []) : keywordHere word c = false := by
  by_contra here
  rw [Bool.not_eq_false, keywordHere, Bool.and_eq_true, Bool.and_eq_true] at here
  obtain ⟨rest, split⟩ := startsWith_prefix here.1.1
  obtain ⟨ch, tail, spelled, start, -⟩ := keyword_spelling word known
  rw [split, spelled, List.cons_append, nameChars_eq_nil_iff, start] at none
  cases none

theorem number_of_digitless {c : Cursor} (h : startsNumber (skip c).rest = false) :
    number c = .fail := by
  have : Number.Numeral.scan (skip c).rest = none := by
    by_contra some
    obtain ⟨⟨numeral, rest⟩, scanned⟩ := Option.ne_none_iff_exists'.mp some
    obtain ⟨-, -, -, starts⟩ := Number.Numeral.scan_prefix scanned
    rw [h] at starts
    cases starts
  simp only [number, this]

namespace Front

variable {text : List Char} {c after : Cursor} {lexeme : Lexeme} {ts : List Token}

/-- A keyword stands here for the grammar just when it does for the tokenizer. -/
theorem keywordHere_iff (h : Front text c lexeme after ts) {word : String}
    (known : word ∈ keywords) : keywordHere word c = true ↔ lexeme = .keyword word := by
  obtain ⟨ch, tail, spelled, start, goesOn⟩ := keyword_spelling word known
  obtain ⟨n, rule, same⟩ := h.rule
  unfold keywordHere
  rw [Bool.and_eq_true, Bool.and_eq_true]
  constructor
  · rintro ⟨⟨starts, -⟩, free⟩
    obtain ⟨rest, split⟩ := startsWith_prefix starts
    have drop : c.rest.drop word.length = rest := by
      rw [split, ← String.length_toList, List.drop_left]
    have ends : rest.head?.any isNameChar = false := by
      rw [drop] at free
      cases head : rest.head? with
      | none => rfl
      | some d =>
        rw [head, Option.any_some, Bool.not_eq_true', touchesWord, Bool.or_eq_false_iff] at free
        exact free.1
    have read : nameChars c.rest = word.toList := by
      rw [split]
      exact (nameChars_append_eq_iff.mpr ⟨ch, tail, spelled, start, List.all_eq_true.mp goesOn, ends⟩).1
    have spells : String.ofList (nameChars c.rest) = word := by rw [read, String.ofList_toList]
    have starts : nameChars c.rest ≠ [] := by
      rw [read, spelled]
      exact List.cons_ne_nil _ _
    obtain ⟨-, ⟨rfl, -⟩ | ⟨-, unknown⟩⟩ := rule.of_nameChars starts
    · rw [spells]
    · exact absurd (spells ▸ known) unknown
  · rintro rfl
    cases rule with
    | keyword starts known =>
      obtain ⟨rest, split, ends⟩ := nameChars_prefix c.rest
      obtain ⟨first, others, head, nameStart⟩ := head_of_nameChars starts
      refine ⟨⟨?_, ?_⟩, ?_⟩
      · rw [startsWith, String.toList_ofList, List.isPrefixOf_iff_prefix]
        exact ⟨rest, split.symm⟩
      · by_contra touches
        have apart := h.parted (by simpa using touches)
        rw [head, List.head?_cons, Option.any_some, isNameChar_of_isNameStart nameStart] at apart
        cases apart
      · have next : (c.advance (nameChars c.rest).length).rest = rest :=
          Cursor.rest_advance_append split
        have dollar := h.rest.head?_ne_dollar
        rw [same, next] at dollar
        rw [String.length_ofList, ← Cursor.rest_advance, next]
        cases after : rest.head? with
        | none => rfl
        | some d =>
          rw [after] at dollar
          have plain : isNameChar d = false := by simpa [after] using ends starts
          have cheap : d ≠ '$' := fun e => dollar (by rw [e])
          simp [touchesWord, plain, cheap]

/-! ## The terminals -/

theorem keyword_eq {c : Cursor} (h : Front text (skip c) lexeme after ts) {word : String}
    (known : word ∈ keywords) :
    keyword word c = if lexeme = .keyword word then .ok () after else .fail := by
  have here := h.keywordHere_iff known
  obtain ⟨n, rule, same⟩ := h.rule
  unfold keyword
  by_cases reads : lexeme = .keyword word
  · subst reads
    cases rule with
    | keyword starts known =>
      rw [if_pos (here.mpr rfl), if_pos rfl, same, String.length_ofList]
  · rw [if_neg (fun e => reads (here.mp e)), if_neg reads]

theorem name_eq {c : Cursor} (h : Front text (skip c) lexeme after ts) :
    name c = .ofOption after lexeme.name? := by
  have reserved : keywords.any (keywordHere · (skip c)) = true ↔ ∃ word, lexeme = .keyword word := by
    rw [List.any_eq_true]
    constructor
    · rintro ⟨word, known, here⟩
      exact ⟨word, (h.keywordHere_iff known).mp here⟩
    · rintro ⟨word, rfl⟩
      have known : word ∈ keywords := by
        obtain ⟨n, rule, -⟩ := h.rule
        cases rule with
        | keyword starts known => exact known
      exact ⟨word, known, (h.keywordHere_iff known).mpr rfl⟩
  obtain ⟨n, rule, same⟩ := h.rule
  have none : (∀ word, lexeme ≠ .keyword word) → (∀ word, lexeme ≠ .name word) →
      name c = .fail := by
    intro noKeyword noName
    simp only [name, rule.nameChars_eq_nil noKeyword noName, ite_self]
  cases lexeme with
  | keyword word =>
    simp only [name, if_pos (reserved.mpr ⟨word, rfl⟩), Lexeme.name?, Reply.ofOption]
  | name word =>
    have free : ¬ keywords.any (keywordHere · (skip c)) = true := by
      intro some
      obtain ⟨word, same⟩ := reserved.mp some
      cases same
    cases rule with
    | name starts unknown =>
      simp only [name, if_neg free, same, Lexeme.name?, Reply.ofOption]
  | symbol s => exact none (fun _ => Lexeme.noConfusion) (fun _ => Lexeme.noConfusion)
  | number value => exact none (fun _ => Lexeme.noConfusion) (fun _ => Lexeme.noConfusion)
  | string text => exact none (fun _ => Lexeme.noConfusion) (fun _ => Lexeme.noConfusion)
  | endOfText => exact none (fun _ => Lexeme.noConfusion) (fun _ => Lexeme.noConfusion)

theorem number_eq {c : Cursor} (h : Front text (skip c) lexeme after ts) :
    number c = .ofOption after lexeme.number? := by
  obtain ⟨n, rule, same⟩ := h.rule
  have none : (∀ value, lexeme ≠ .number value) → number c = .fail :=
    fun other => number_of_digitless (rule.startsNumber_eq_false other)
  cases lexeme with
  | number value =>
    cases rule with
    | number scanned ends nearest =>
      simp only [number, scanned, nearest, same, Lexeme.number?, Reply.ofOption]
  | keyword word => exact none fun _ => Lexeme.noConfusion
  | name word => exact none fun _ => Lexeme.noConfusion
  | symbol s => exact none fun _ => Lexeme.noConfusion
  | string text => exact none fun _ => Lexeme.noConfusion
  | endOfText => exact none fun _ => Lexeme.noConfusion

theorem shortString_eq_fail {c : Cursor}
    (h : ∀ quote tail, (skip c).rest = quote :: tail → ¬ (quote = '"' ∨ quote = '\'')) :
    shortString c = .fail := by
  unfold shortString
  cases same : (skip c).rest with
  | nil => simp only [same]
  | cons quote tail =>
    simp only [same]
    rw [if_neg (by simpa using h quote tail same)]

theorem string_eq {c : Cursor} (h : Front text (skip c) lexeme after ts) :
    string c = .ofOption after lexeme.string? := by
  obtain ⟨n, rule, same⟩ := h.rule
  have none : (∀ text, lexeme ≠ .string text) → string c = .fail := by
    intro other
    rw [string, orElse_of_fail (shortString_eq_fail (rule.not_quoted other))]
    simp only [longString, rule.bracketLevel?_eq_none other]
  cases lexeme with
  | string text =>
    cases rule with
    | short here quoted inside decoded =>
      refine orElse_of_ok ?_
      simp only [shortString, here, inside, decoded, same]
      rw [if_pos (by simpa using quoted)]
    | long opens inside =>
      obtain ⟨tail, split⟩ := head_of_bracketLevel? opens
      rw [string, orElse_of_fail (shortString_eq_fail ?_)]
      · simp only [longString, opens, inside, same, Lexeme.string?, Reply.ofOption]
      · intro quote tail' here
        rw [split] at here
        cases here
        decide
  | keyword word => exact none fun _ => Lexeme.noConfusion
  | name word => exact none fun _ => Lexeme.noConfusion
  | symbol s => exact none fun _ => Lexeme.noConfusion
  | number value => exact none fun _ => Lexeme.noConfusion
  | endOfText => exact none fun _ => Lexeme.noConfusion

end Front

/-! ## Symbols -/

/-- The symbol is only the first part of what the tokenizer reads here. -/
inductive Cut (cs : List Char) (s : String) : Prop where
  | longer {t : String} (known : t ∈ symbols) (longer : s ≠ t) (begins : s.toList <+: t.toList)
      (starts : startsWith t cs = true)
  | point {d : Char} {tail : List Char} (here : s = ".") (split : cs = '.' :: d :: tail)
      (digit : isDigit d = true)
  | bracket {level : Nat} (here : s = "[") (opens : bracketLevel? cs = some level)

namespace Front

variable {text : List Char} {c after : Cursor} {lexeme : Lexeme} {ts : List Token}

/-- A symbol that starts here is the token, or the first part of one. -/
theorem symbol_or_cut (h : Front text c lexeme after ts) {s : String} (known : s ∈ symbols)
    (starts : startsWith s c.rest = true) :
    (lexeme = .symbol s ∧ after = c.advance s.length) ∨ Cut c.rest s := by
  obtain ⟨n, rule, same⟩ := h.rule
  obtain ⟨ch, tail, split, head⟩ := head_of_symbol known starts
  have heads := forall_symbols (fun w => (w.head? = some '[' → w = ['[']) ∧
      (w.head? = some '.' → w = ['.'] ∨ w = ['.', '.']) ∧ w.head?.any isDigit = false ∧
      w.head? ≠ some '"' ∧ w.head? ≠ some '\'') (by decide)
  obtain ⟨bracket, point, digitless, double, single⟩ := heads s known
  cases rule with
  | short here quoted inside decoded =>
    rw [split] at here
    cases here
    rcases quoted with rfl | rfl
    · exact absurd head double
    · exact absurd head single
  | long opens inside =>
    obtain ⟨tail, here⟩ := head_of_bracketLevel? opens
    rw [split] at here
    cases here
    exact .inr (.bracket (String.toList_inj.mp (bracket head)) opens)
  | number scanned ends nearest =>
    obtain ⟨-, -, -, digits⟩ := Number.Numeral.scan_prefix scanned
    obtain ⟨d, tail, here, digit⟩ := head_of_startsNumber digits
    rw [split] at here
    cases here
    rcases digit with digit | rfl
    · rw [head, Option.any_some, digit] at digitless
      cases digitless
    · rw [split] at digits
      obtain ⟨d, rest, rfl, digit⟩ := startsNumber_point digits
      rcases point head with single | double
      · exact .inr (.point (String.toList_inj.mp single) split digit)
      · obtain ⟨rest, dotted⟩ := startsWith_prefix starts
        rw [split, double] at dotted
        obtain rfl : d = '.' := (List.cons.inj (List.cons.inj dotted).2).1
        exact absurd digit (by decide)
  | symbol unopened digitless longest =>
    rcases symbol?_longest longest known starts with rfl | ⟨other, begins⟩
    · exact .inl ⟨rfl, same⟩
    · exact .inr (.longer (symbol?_mem longest).1 other begins (symbol?_mem longest).2)
  | keyword word =>
    obtain ⟨d, tail, here, start⟩ := head_of_nameChars word
    rw [split] at here
    cases here
    exact absurd head (head?_ne_of_isNameStart start s known)
  | name word =>
    obtain ⟨d, tail, here, start⟩ := head_of_nameChars word
    rw [split] at here
    cases here
    exact absurd head (head?_ne_of_isNameStart start s known)

end Front

/-! ## Places without a token -/

/-- The text is over, or goes on with a blank that the grammar does not step over. -/
def Stuck (c : Cursor) : Prop := ∀ ch cs, c.rest = ch :: cs → isBlank ch = true

namespace Stuck

variable {c : Cursor} (h : Stuck (skip c))

include h

theorem nameChars_eq_nil : nameChars (skip c).rest = [] := by
  by_contra starts
  obtain ⟨ch, tail, same, start⟩ := head_of_nameChars starts
  have solid := isBlank_of_isNameChar (isNameChar_of_isNameStart start)
  rw [h ch tail same] at solid
  cases solid

theorem keyword_eq {word : String} (known : word ∈ keywords) : keyword word c = .fail := by
  rw [keyword]
  simp only [keywordHere_of_nameless known h.nameChars_eq_nil, Bool.false_eq_true, if_false]

theorem name_eq : name c = .fail := by
  simp only [name, h.nameChars_eq_nil, ite_self]

theorem number_eq : number c = .fail := by
  refine number_of_digitless ?_
  by_contra starts
  obtain ⟨ch, tail, same, digit⟩ := head_of_startsNumber (Bool.not_eq_false _ ▸ starts)
  have blank := h ch tail same
  rcases digit with digit | rfl
  · rw [isDigit_of_isBlank blank] at digit
    cases digit
  · revert blank
    decide

theorem string_eq : string c = .fail := by
  have unquoted : ∀ quote tail, (skip c).rest = quote :: tail →
      ¬ (quote = '"' ∨ quote = '\'') := by
    intro quote tail same quoted
    have blank := h quote tail same
    revert blank
    rcases quoted with rfl | rfl <;> decide
  have unopened : bracketLevel? (skip c).rest = none := by
    by_contra some
    obtain ⟨level, opens⟩ := Option.ne_none_iff_exists'.mp some
    obtain ⟨tail, same⟩ := head_of_bracketLevel? opens
    have blank := h _ tail same
    revert blank
    decide
  rw [string, orElse_of_fail (Front.shortString_eq_fail unquoted)]
  simp only [longString, unopened]

theorem symbol_eq {s : String} (known : s ∈ symbols) : symbol s c = .fail := by
  have other : startsWith s (skip c).rest = false := by
    by_contra starts
    obtain ⟨ch, tail, same, head⟩ := head_of_symbol known (Bool.not_eq_false _ ▸ starts)
    have := forall_symbols (fun w => w.head?.any isBlank = false) (by decide) s known
    rw [head, Option.any_some, h ch tail same] at this
    cases this
  simp only [symbol, other, Bool.false_eq_true, if_false]

end Stuck

theorem Aligned.stuck_or_front {text : List Char} {c : Cursor} {ts : List Token}
    (h : Aligned text c ts) : Stuck (Parser.skip c) ∨ ∃ lexeme after ts',
      Front text (Parser.skip c) lexeme after ts' ∧ ts = ⟨lexeme, (Parser.skip c).line⟩ :: ts' := by
  cases same : (Parser.skip c).rest with
  | nil =>
    refine .inl fun ch cs some => ?_
    rw [same] at some
    cases some
  | cons ch cs =>
    cases blank : isBlank ch with
    | true =>
      refine .inl fun d ds some => ?_
      rw [same] at some
      cases some
      exact blank
    | false => exact .inr (h.front same blank)

end MiniLua
