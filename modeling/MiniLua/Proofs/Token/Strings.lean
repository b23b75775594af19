import MiniLua.Proofs.Token.Escapes
import MiniLua.Proofs.Token.Tiles

/-!
# How far a short string goes

Between its quotes stand plain characters and pairs of a backslash with the character after it. The
pairs settle where the string ends, before anybody asks what they stand for: the scanner takes every
pair that has no line feed, decoding refuses the first one that is no escape.
-/

namespace MiniLua

open MiniLua.Text MiniLua.Spelling MiniLua.Lexer

/-- What a quote can enclose, whether or not its pairs are escapes. -/
inductive Enclosed (quote : Char) : List Char → Prop
  | nil : Enclosed quote []
  | plain {c : Char} {body : List Char} (other : c ≠ quote) (unescaped : c ≠ '\\')
      (printed : c ≠ '\n') (more : Enclosed quote body) : Enclosed quote (c :: body)
  | pair {d : Char} {body : List Char} (printed : d ≠ '\n') (more : Enclosed quote body) :
      Enclosed quote ('\\' :: d :: body)

/-- The first pair that is no escape is a backslash with this character. -/
def Misspelled (quote : Char) (body : List Char) (letter : Char) : Prop :=
  ∃ front text back, body = front ++ '\\' :: letter :: back ∧ Inscribed quote front text ∧
    escaped? letter = none

/-- A backslash at the end that has no character to make a pair with. -/
def EndsUnpaired (quote : Char) (body : List Char) : Prop :=
  ∃ front, Enclosed quote front ∧ body = front ++ ['\\']

variable {quote : Char} {cs body text : List Char}

theorem ne_newline_of_escaped? {letter c : Char} (h : escaped? letter = some c) :
    letter ≠ '\n' := by
  rintro rfl
  cases h

theorem Inscribed.enclosed (h : Inscribed quote body text) : Enclosed quote body := by
  induction h with
  | nil => exact .nil
  | plain other unescaped printed more ih => exact .plain other unescaped printed ih
  | escape stands more ih => exact .pair (ne_newline_of_escaped? stands) ih

/-- A string stays on its line. -/
theorem Enclosed.count_newline (h : Enclosed quote body) : body.count '\n' = 0 := by
  induction h with
  | nil => rfl
  | plain other unescaped printed more ih =>
    rw [List.count_cons_of_ne printed, ih]
  | pair printed more ih =>
    rw [List.count_cons_of_ne (by decide), List.count_cons_of_ne printed, ih]

/-- The pairs are made from the left, so none is left over. -/
theorem Enclosed.paired (h : Enclosed quote body) : ¬ EndsUnpaired quote body := by
  rintro ⟨front, enclosed, rfl⟩
  induction enclosed with
  | nil =>
    cases h with
    | plain other unescaped => exact unescaped rfl
  | plain other unescaped printed more ih =>
    rw [List.cons_append] at h
    -- a pair could take the last backslash, so its rest need not be an append
    generalize behind : _ ++ ['\\'] = rest at h ih
    cases h with
    | plain _ _ _ rest => exact ih rest
    | pair => exact unescaped rfl
  | pair printed more ih =>
    rw [List.cons_append, List.cons_append] at h
    cases h with
    | plain other unescaped => exact unescaped rfl
    | pair _ rest => exact ih rest

namespace Spelling

/-! ## Scanning -/

theorem enclosed_of_shortBody? (h : shortBody? quote cs = some body) : Enclosed quote body := by
  fun_induction shortBody? quote cs generalizing body with
  | case1 => cases h
  | case2 => cases h; exact .nil
  | case3 => cases h
  | case4 => cases h; exact .nil
  | case5 => cases h
  | case6 => cases h
  | case7 d cs printed _ _ ih =>
    obtain ⟨inner, found, rfl⟩ := Option.map_eq_some_iff.mp h
    exact .pair printed (ih found)
  | case8 c d cs other printed plain ih =>
    obtain ⟨inner, found, rfl⟩ := Option.map_eq_some_iff.mp h
    exact .plain other plain printed (ih found)

section

variable (differs : '\\' ≠ quote)
include differs

theorem shortBody?_of_enclosed (h : Enclosed quote body) (rest : List Char) :
    shortBody? quote (body ++ quote :: rest) = some body := by
  induction h with
  | nil => exact shortBody?_quote quote rest
  | plain other unescaped printed more ih =>
    rw [List.cons_append, shortBody?_plain other printed unescaped (by simp), ih, Option.map_some]
  | pair printed more ih =>
    rw [List.cons_append, List.cons_append, shortBody?_pair differs printed, ih, Option.map_some]

/-- The scanner finds the one place where a quote closes what stands before it. -/
theorem shortBody?_eq_some_iff : shortBody? quote cs = some body ↔
    ∃ rest, cs = body ++ quote :: rest ∧ Enclosed quote body := by
  constructor
  · intro h
    obtain ⟨rest, same⟩ := shortBody?_prefix h
    exact ⟨rest, same, enclosed_of_shortBody? h⟩
  · rintro ⟨rest, rfl, enclosed⟩
    exact shortBody?_of_enclosed differs enclosed rest

theorem shortBody?_eq_none_iff : shortBody? quote cs = none ↔
    ∀ body rest, cs = body ++ quote :: rest → ¬ Enclosed quote body := by
  constructor
  · intro none body rest same enclosed
    rw [(shortBody?_eq_some_iff differs).mpr ⟨rest, same, enclosed⟩] at none
    cases none
  · intro unclosed
    by_contra some
    obtain ⟨body, found⟩ := Option.ne_none_iff_exists'.mp some
    obtain ⟨rest, same, enclosed⟩ := (shortBody?_eq_some_iff differs).mp found
    exact unclosed body rest same enclosed

end

/-! ## Decoding -/

theorem decodeEscapes_of_inscribed (h : Inscribed quote body text) :
    decodeEscapes body = .ok text := by
  induction h with
  | nil => rfl
  | plain other unescaped printed more ih => exact decodeEscapes_plain unescaped ih
  | escape stands more ih => exact decodeEscapes_pair stands ih

theorem decodeEscapes_cons_error {c : Char} {e : LexError} (plain : c ≠ '\\')
    (h : decodeEscapes body = .error e) : decodeEscapes (c :: body) = .error e := by
  cases body with
  | nil => cases h
  | cons d body =>
    rw [decodeEscapes, if_neg plain, h]
    rfl

theorem decodeEscapes_of_misspelled {letter : Char} (h : Misspelled quote body letter) :
    decodeEscapes body = .error (.invalidEscape (some letter)) := by
  obtain ⟨front, text, back, rfl, inscribed, unknown⟩ := h
  induction inscribed with
  | nil => rw [List.nil_append, decodeEscapes, if_pos rfl, unknown]
  | plain other unescaped printed more ih => exact decodeEscapes_cons_error unescaped ih
  | escape stands more ih =>
    rw [List.cons_append, List.cons_append, decodeEscapes, if_pos rfl, stands]
    dsimp only
    rw [ih]
    rfl

end Spelling

/-- What is enclosed has a meaning, or a first pair that has none. -/
theorem Enclosed.inscribed_or_misspelled (h : Enclosed quote body) :
    (∃ text, Inscribed quote body text) ∨ ∃ letter, Misspelled quote body letter := by
  induction h with
  | nil => exact .inl ⟨[], .nil⟩
  | @plain c body other unescaped printed more ih =>
    rcases ih with ⟨text, inscribed⟩ | ⟨letter, front, text, back, rfl, inscribed, unknown⟩
    · exact .inl ⟨c :: text, .plain other unescaped printed inscribed⟩
    · exact .inr ⟨letter, c :: front, c :: text, back, rfl,
        .plain other unescaped printed inscribed, unknown⟩
  | @pair d body printed more ih =>
    cases stands : escaped? d with
    | none => exact .inr ⟨d, [], [], body, rfl, .nil, stands⟩
    | some c =>
      rcases ih with ⟨text, inscribed⟩ | ⟨letter, front, text, back, rfl, inscribed, unknown⟩
      · exact .inl ⟨c :: text, .escape stands inscribed⟩
      · exact .inr ⟨letter, '\\' :: d :: front, c :: text, back, rfl, .escape stands inscribed,
          unknown⟩

/-! ## The tokenizer at a quote -/

theorem readToken_of_quote (quoted : quote = '"' ∨ quote = '\'') (tail : List Char) :
    isBlank quote = false ∧ opensComment (quote :: tail) = false ∧
      readToken quote (quote :: tail) = readShortString quote (quote :: tail) := by
  have either : (quote = '"' || quote = '\'') = true := by simpa using quoted
  refine ⟨?_, ?_, if_pos either⟩
  · rcases quoted with rfl | rfl <;> decide
  · rcases quoted with rfl | rfl <;> rfl

/-- What the tokenizer does that has come to a quote, with the tokens `ts` read so far. -/
structure ReadsQuoted (text : List Char) (ts : List Token) (line : Nat) (quote : Char)
    (tail : List Char) : Prop where
  /-- It reads a string up to a quote if what stands between has a meaning, and no other token. -/
  step : ∀ lexeme? n, Step isBlank (quote :: tail) lexeme? n ↔
    ∃ body rest value, tail = body ++ quote :: rest ∧ Inscribed quote body value ∧
      lexeme? = some (.string (String.ofList value)) ∧ n = body.length + 2
  /-- It goes on right behind the closing quote, on the same line. -/
  onward : ∀ body rest value, tail = body ++ quote :: rest → Inscribed quote body value →
    Scans isBlank 1 text (ts ++ [⟨.string (String.ofList value), line⟩]) line rest
  /-- It refuses a string that is closed for the first pair without a meaning, and any other string
  for being unfinished. -/
  refusal : ∀ why, Refused (quote :: tail) why ↔
    (∃ body rest letter, tail = body ++ quote :: rest ∧ Enclosed quote body ∧
      Misspelled quote body letter ∧ why = .error (.invalidEscape (some letter))) ∨
    ((∀ body rest, tail = body ++ quote :: rest → ¬ Enclosed quote body) ∧
      why = .error (.unfinishedString (snippet (quote :: tail))))
  /-- What is refused here is the error of the whole text. -/
  error : ∀ why, Refused (quote :: tail) why → tokenize text = .error (why.at line)
  /-- What is given to decoding has no backslash left over at its end. -/
  paired : ∀ body, shortBody? quote tail = some body →
    ¬ EndsUnpaired quote body ∧ decodeEscapes body ≠ .error (.invalidEscape none)

theorem readShortString_eq_ok_iff {tail : List Char} {lexeme : Lexeme} {n : Nat}
    (differs : '\\' ≠ quote) : readShortString quote (quote :: tail) = .ok (lexeme, n) ↔
      ∃ body rest value, tail = body ++ quote :: rest ∧ Inscribed quote body value ∧
        lexeme = .string (String.ofList value) ∧ n = body.length + 2 := by
  constructor
  · intro read
    unfold readShortString at read
    split at read
    next => cases read
    next body inside =>
      split at read
      next => cases read
      next value decoded =>
        cases read
        obtain ⟨rest, same, -⟩ := (shortBody?_eq_some_iff differs).mp inside
        exact ⟨body, rest, value, same, inscribed_of_shortBody? inside decoded, rfl, rfl⟩
  · rintro ⟨body, rest, value, rfl, inscribed, rfl, rfl⟩
    have inside := shortBody?_of_enclosed differs inscribed.enclosed rest
    rw [readShortString, List.drop_one, List.tail_cons, inside]
    dsimp only
    rw [decodeEscapes_of_inscribed inscribed]

theorem readShortString_eq_error_iff {tail : List Char} {why : Refusal} (differs : '\\' ≠ quote) :
    readShortString quote (quote :: tail) = .error why ↔
      (∃ body rest letter, tail = body ++ quote :: rest ∧ Enclosed quote body ∧
        Misspelled quote body letter ∧ why = .error (.invalidEscape (some letter))) ∨
      ((∀ body rest, tail = body ++ quote :: rest → ¬ Enclosed quote body) ∧
        why = .error (.unfinishedString (snippet (quote :: tail)))) := by
  rw [← shortBody?_eq_none_iff differs, readShortString, List.drop_one, List.tail_cons]
  cases inside : shortBody? quote tail with
  | none =>
    constructor
    · intro read
      cases read
      exact .inr ⟨rfl, rfl⟩
    · rintro (⟨body, rest, letter, rfl, enclosed, -⟩ | ⟨-, rfl⟩)
      · rw [shortBody?_of_enclosed differs enclosed] at inside
        cases inside
      · rfl
  | some body =>
    obtain ⟨rest, rfl, enclosed⟩ := (shortBody?_eq_some_iff differs).mp inside
    dsimp only
    rcases enclosed.inscribed_or_misspelled with ⟨value, inscribed⟩ | ⟨letter, misspelled⟩
    · rw [decodeEscapes_of_inscribed inscribed]
      refine ⟨fun read => (by cases read), ?_⟩
      rintro (⟨body', rest', letter, same, enclosed', misspelled, -⟩ | ⟨unclosed, -⟩)
      · rw [same, shortBody?_of_enclosed differs enclosed'] at inside
        cases inside
        have refused := decodeEscapes_of_misspelled misspelled
        rw [decodeEscapes_of_inscribed inscribed] at refused
        cases refused
      · cases unclosed
    · rw [decodeEscapes_of_misspelled misspelled]
      constructor
      · intro read
        cases read
        exact .inl ⟨body, rest, letter, rfl, enclosed, misspelled, rfl⟩
      · rintro (⟨body', rest', letter', same, enclosed', misspelled', rfl⟩ | ⟨unclosed, -⟩)
        · rw [same, shortBody?_of_enclosed differs enclosed'] at inside
          cases inside
          have refused := decodeEscapes_of_misspelled misspelled'
          rw [decodeEscapes_of_misspelled misspelled] at refused
          cases refused
          rfl
        · cases unclosed

/-- At every quote that starts a token a short string is read exactly as far as its items go. -/
theorem shortStrings_exact {text tail : List Char} {ts : List Token} {line : Nat}
    (quoted : quote = '"' ∨ quote = '\'') (here : Scans isBlank 1 text ts line (quote :: tail)) :
    ReadsQuoted text ts line quote tail := by
  have differs : '\\' ≠ quote := by rcases quoted with rfl | rfl <;> decide
  obtain ⟨solid, uncommented, reads⟩ := readToken_of_quote quoted tail
  have step : ∀ lexeme? n, Step isBlank (quote :: tail) lexeme? n ↔
      ∃ body rest value, tail = body ++ quote :: rest ∧ Inscribed quote body value ∧
        lexeme? = some (.string (String.ofList value)) ∧ n = body.length + 2 := by
    intro lexeme? n
    rw [step_solid_iff solid uncommented, reads]
    constructor
    · rintro ⟨lexeme, rfl, read⟩
      obtain ⟨body, rest, value, same, inscribed, rfl, rfl⟩ :=
        (readShortString_eq_ok_iff differs).mp read
      exact ⟨body, rest, value, same, inscribed, rfl, rfl⟩
    · rintro ⟨body, rest, value, same, inscribed, rfl, rfl⟩
      exact ⟨_, rfl,
        (readShortString_eq_ok_iff differs).mpr ⟨body, rest, value, same, inscribed, rfl, rfl⟩⟩
  refine ⟨step, ?_, ?_, fun why refused => here.tokenize_of_refused refused, ?_⟩
  · rintro body rest value rfl inscribed
    have next := here.concat_read ((step _ _).mpr ⟨body, rest, value, rfl, inscribed, rfl, rfl⟩)
    have split : quote :: (body ++ quote :: rest) = (quote :: body ++ [quote]) ++ rest := by simp
    have length : body.length + 2 = (quote :: body ++ [quote]).length := by simp
    have newline : quote ≠ '\n' := by rcases quoted with rfl | rfl <;> decide
    rw [split, length, List.take_left, List.drop_left, List.count_append,
      List.count_cons_of_ne newline, inscribed.enclosed.count_newline, List.count_cons_of_ne newline] at next
    exact next
  · intro why
    rw [refused_solid_iff solid uncommented, reads, readShortString_eq_error_iff differs]
  · intro body inside
    have enclosed := enclosed_of_shortBody? inside
    refine ⟨enclosed.paired, fun unpaired => ?_⟩
    rcases enclosed.inscribed_or_misspelled with ⟨value, inscribed⟩ | ⟨letter, misspelled⟩
    · rw [decodeEscapes_of_inscribed inscribed] at unpaired
      cases unpaired
    · rw [decodeEscapes_of_misspelled misspelled] at unpaired
      cases unpaired

/-- On the second line of a text, a string with an escaped quote, and behind it one whose pair is no
escape. -/
theorem shortStrings_exact_twoStrings :
    let text := "\n'it\\'s' '\\q'".toList
    let first := "it\\'s' '\\q'".toList
    let second := "\\q'".toList
    ReadsQuoted text [] 2 '\'' first ∧
      ReadsQuoted text [⟨.string "it's", 2⟩] 2 '\'' second ∧
      tokenize text = .error (.error (.invalidEscape (some 'q')) 2) := by
  intro text first second
  have start : Scans isBlank 1 text [] 2 ('\'' :: first) := .pass (.blank (by decide)) .refl
  have items : Inscribed '\'' "it\\'s".toList "it's".toList :=
    .plain (by decide) (by decide) (by decide) (.plain (by decide) (by decide) (by decide)
      (.escape rfl (.plain (by decide) (by decide) (by decide) .nil)))
  have reads := shortStrings_exact (.inr rfl) start
  have behind := reads.onward _ (" '\\q'".toList) _ rfl items
  have next : Scans isBlank 1 text [⟨.string "it's", 2⟩] 2 ('\'' :: second) :=
    behind.concat_pass (.blank (by decide))
  have reads' := shortStrings_exact (.inr rfl) next
  refine ⟨reads, reads', reads'.error (.error (.invalidEscape (some 'q'))) ?_⟩
  exact (reads'.refusal _).mpr (.inl ⟨['\\', 'q'], [], 'q', rfl, .pair (by decide) .nil,
    ⟨[], [], [], rfl, .nil, rfl⟩, rfl⟩)

end MiniLua
