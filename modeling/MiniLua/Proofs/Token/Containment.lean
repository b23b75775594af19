import MiniLua.Grammar.Program
import MiniLua.Proofs.Token.Exclusion
import MiniLua.Proofs.Token.Scan

/-!
# How tokenizing ends

Tokenizing always ends: with the tokens of the text and its end, or with an error on a line of the
text. Two kinds of token escape this and end the run: those that begin with a digit without decimal
value, for which there is no numeral, and hexadecimal numerals above every double.
-/

namespace MiniLua

open MiniLua.Text MiniLua.Spelling

namespace Number.Numeral

variable {cs rest : List Char}

theorem takeWhile_isDecimal_ne_nil {d : Char} (h : isDecimal d = true) :
    (d :: cs).takeWhile isDecimal ≠ [] := by
  rw [List.takeWhile_cons_of_pos h]
  exact List.cons_ne_nil _ _

theorem scanDecimal_ne_none (h : scanMantissa cs ≠ none) : scan cs ≠ none := by
  intro none
  rw [scan, Option.or_eq_none_iff, scanDecimal, Option.map_eq_none_iff] at none
  exact h none.2

theorem scan_ne_none_of_digit {d : Char} (h : isDecimal d = true) : scan (d :: cs) ≠ none := by
  have some : (d :: cs).takeWhile isDecimal ≠ [] := takeWhile_isDecimal_ne_nil h
  refine scanDecimal_ne_none fun none => ?_
  by_cases point : ((d :: cs).dropWhile isDecimal).head? = .some '.'
  · obtain ⟨rest, same⟩ := List.head?_eq_some_iff.mp point
    rw [scanMantissa_of_point same] at none
    split at none
    next empty =>
      rw [Bool.and_eq_true, List.isEmpty_iff] at empty
      exact some empty.1
    next => cases none
  · rw [scanMantissa_of_other point] at none
    split at none
    next empty => exact some (List.isEmpty_iff.mp empty)
    next => cases none

theorem scanMantissa_point (cs : List Char) :
    scanMantissa ('.' :: cs) = if (cs.takeWhile isDecimal).isEmpty then none
      else some ([], cs.takeWhile isDecimal, cs.dropWhile isDecimal) := by
  rw [scanMantissa_of_point (List.dropWhile_cons_of_neg (by decide)),
    List.takeWhile_cons_of_neg (by decide)]
  rfl

theorem scan_ne_none_of_point {d : Char} (h : isDecimal d = true) :
    scan ('.' :: d :: cs) ≠ none := by
  refine scanDecimal_ne_none fun none => ?_
  rw [scanMantissa_point] at none
  split at none
  next empty => exact takeWhile_isDecimal_ne_nil h (List.isEmpty_iff.mp empty)
  next => cases none

theorem scan_of_valueless {d : Char} (digit : isDigit d = true) (valueless : isDecimal d = false) :
    scan (d :: cs) = none ∧ scan ('.' :: d :: cs) = none := by
  have zero : d ≠ '0' := by
    rintro rfl
    exact absurd valueless (by decide)
  have point : d ≠ '.' := by
    rintro rfl
    exact absurd digit (by decide)
  have first : scanMantissa (d :: cs) = none := by
    rw [scanMantissa_of_other, List.takeWhile_cons_of_neg (by simp [valueless])]
    · rfl
    · rw [List.dropWhile_cons_of_neg (by simp [valueless])]
      exact fun same => point (Option.some.inj same)
  have second : scanMantissa ('.' :: d :: cs) = none := by
    rw [scanMantissa_point, List.takeWhile_cons_of_neg (by simp [valueless])]
    rfl
  constructor
  · rw [scan, scanHex_of_head (by simpa using zero), scanDecimal, first]
    rfl
  · rw [scan, scanHex_of_head (by simp), scanDecimal, second]
    rfl

theorem toFloat_eq_error {numeral : Numeral} :
    numeral.toFloat = .error .tooLarge ↔
      ∃ value, numeral = .hex value ∧ (Float.ofNat value).isInf = true := by
  cases numeral with
  | hex value =>
    change (if (Float.ofNat value).isInf = true then Except.error NumeralFault.tooLarge
      else .ok (Float.ofNat value)) = _ ↔ _
    split
    next infinite => exact ⟨fun _ => ⟨value, rfl, infinite⟩, fun _ => rfl⟩
    next finite =>
      refine ⟨fun none => (by cases none), ?_⟩
      rintro ⟨value', same, infinite⟩
      cases same
      exact absurd infinite finite
  | decimal digits exponent =>
    constructor
    · intro error
      change ite _ _ (ite _ _ _) = Except.error NumeralFault.tooLarge at error
      split at error
      · cases error
      · split at error <;> cases error
    · rintro ⟨value, same, -⟩
      cases same

end Number.Numeral

namespace Lexer

variable {cs : List Char} {crash : Crash}

/-- At the front of the text starts a token that ends the run. -/
inductive Crashes : List Char → Crash → Prop
  | digit {d : Char} {cs : List Char} (digit : isDigit d = true)
      (valueless : isDecimal d = false) : Crashes (d :: cs) .digitWithoutValue
  | point {d : Char} {cs : List Char} (digit : isDigit d = true)
      (valueless : isDecimal d = false) : Crashes ('.' :: d :: cs) .digitWithoutValue
  | numeral {cs rest : List Char} {value : Nat}
      (scanned : Number.Numeral.scan cs = some (.hex value, rest)) (ends : endsNumber rest = true)
      (infinite : (Float.ofNat value).isInf = true) : Crashes cs .numeralTooLarge

theorem refused_of_readNumber {c : Char} {why : Refusal} (h : startsNumber (c :: cs) = true)
    (read : readNumber (c :: cs) = .error why) : Refused (c :: cs) why := by
  obtain ⟨solid, uncommented, same⟩ := readToken_of_startsNumber h
  exact .token solid uncommented (same.trans read)

theorem readNumber_of_scan_none (h : Number.Numeral.scan cs = none) :
    readNumber cs = .error (.crash .digitWithoutValue) := by
  rw [readNumber, h]

/-- Of all tokens only numbers end the run. -/
theorem readToken_eq_crash {c : Char} (read : readToken c cs = .error (.crash crash)) :
    startsNumber cs = true ∧ readNumber cs = .error (.crash crash) := by
  unfold readToken at read
  split at read
  · unfold readShortString at read
    split at read
    · cases read
    · split at read <;> cases read
  · split at read
    · unfold readLongString at read
      split at read <;> cases read
    · split at read
      next starts => exact ⟨starts, read⟩
      next =>
        split at read
        · cases read
        · unfold readWord at read
          split at read <;> cases read

/-- Where a number starts and there is no numeral, the digit has no value. -/
theorem crashes_of_scan_none (starts : startsNumber cs = true)
    (none : Number.Numeral.scan cs = none) : Crashes cs .digitWithoutValue := by
  obtain ⟨c, tail, rfl, first⟩ := head_of_startsNumber starts
  by_cases point : c = '.'
  · subst point
    obtain ⟨d, rest, rfl, digit⟩ := startsNumber_point starts
    refine .point digit ?_
    by_contra value
    exact Number.Numeral.scan_ne_none_of_point (Bool.not_eq_false _ ▸ value) none
  · refine .digit (first.resolve_right point) ?_
    by_contra value
    exact Number.Numeral.scan_ne_none_of_digit (Bool.not_eq_false _ ▸ value) none

theorem crashes_of_readNumber (starts : startsNumber cs = true)
    (read : readNumber cs = .error (.crash crash)) : Crashes cs crash := by
  unfold readNumber at read
  split at read
  next none =>
    cases read
    exact crashes_of_scan_none starts none
  next numeral rest scanned =>
    split at read
    next => cases read
    next ends =>
      split at read
      next large =>
        cases read
        obtain ⟨value, rfl, infinite⟩ := Number.Numeral.toFloat_eq_error.mp large
        exact .numeral scanned (by simpa using ends) infinite
      next => cases read

/-- A crash comes from a token that starts here. -/
theorem refused_crash_iff : Refused cs (.crash crash) ↔ Crashes cs crash := by
  constructor
  · intro refused
    cases refused with
    | token solid uncommented read =>
      obtain ⟨starts, read⟩ := readToken_eq_crash read
      exact crashes_of_readNumber starts read
  · intro crashes
    cases crashes with
    | @digit d cs digit valueless =>
      have point : d ≠ '.' := by
        rintro rfl
        exact absurd digit (by decide)
      exact refused_of_readNumber ((startsNumber_of_ne point).trans digit)
        (readNumber_of_scan_none (Number.Numeral.scan_of_valueless digit valueless).1)
    | point digit valueless =>
      exact refused_of_readNumber digit
        (readNumber_of_scan_none (Number.Numeral.scan_of_valueless digit valueless).2)
    | numeral scanned ends infinite =>
      obtain ⟨read, same, nonempty, starts⟩ := Number.Numeral.scan_prefix scanned
      obtain ⟨c, read, rfl⟩ := List.exists_cons_of_ne_nil nonempty
      rw [List.cons_append] at same
      subst same
      refine refused_of_readNumber starts ?_
      rw [readNumber, scanned]
      dsimp only
      rw [if_neg (by simp [ends]), Number.Numeral.toFloat_eq_error.mpr ⟨_, rfl, infinite⟩]

end Lexer

open Lexer

/-- The tokenizer gets to a token that ends the run. -/
def ReachesCrash (text : List Char) (crash : Crash) : Prop :=
  ∃ ts line rest, Scans isBlank 1 text ts line rest ∧ Crashes rest crash

theorem tokenize_eq_crash {text : List Char} {crash : Crash} :
    tokenize text = .error (.crash crash) ↔ ReachesCrash text crash := by
  rw [tokenize_eq_error]
  constructor
  · rintro ⟨ts, line, rest, why, scans, refused, same⟩
    cases why with
    | error e => cases same
    | crash c =>
      cases same
      exact ⟨ts, line, rest, scans, refused_crash_iff.mp refused⟩
  · rintro ⟨ts, line, rest, scans, crashes⟩
    exact ⟨ts, line, rest, .crash crash, scans, refused_crash_iff.mpr crashes, rfl⟩

theorem line_of_tokenize {text : List Char} {e : LexError} {line : Nat}
    (h : tokenize text = .error (.error e line)) : 1 ≤ line ∧ line ≤ 1 + text.count '\n' := by
  obtain ⟨ts, line', rest, why, scans, -, same⟩ := tokenize_eq_error.mp h
  obtain ⟨read, rfl, rfl⟩ := scans.covers
  cases why with
  | error e =>
    cases same
    rw [List.count_append]
    omega
  | crash c => cases same

/-- Unless the tokenizer gets to a token that ends the run, it gives tokens of which just the last
is the end of the text, or an error on a line of the text, reported under the name of the file. -/
theorem tokenize_contained (text : List Char) (filename : Option String) :
    (∀ crash, tokenize text = .error (.crash crash) ↔ ReachesCrash text crash) ∧
      ((∀ crash, ¬ ReachesCrash text crash) →
        (∃ ts line, tokenize text = .ok (ts ++ [⟨.endOfText, line⟩]) ∧
          ∀ t ∈ ts, t.lexeme ≠ .endOfText) ∨
        ∃ e line d, tokenize text = .error (.error e line) ∧
          1 ≤ line ∧ line ≤ 1 + text.count '\n' ∧
          (ParseFault.ofLex (.error e line)).diagnostic? text filename = some d ∧
          d.message = e.message ∧ d.line = line ∧ d.filename = filename) := by
  refine ⟨fun crash => tokenize_eq_crash, fun free => ?_⟩
  cases result : tokenize text with
  | ok ts =>
    obtain ⟨ts', line, scans, rfl⟩ := tokenize_eq_ok.mp result
    exact .inl ⟨ts', line, rfl, scans.lexeme_ne_endOfText⟩
  | error fault =>
    cases fault with
    | error e line =>
      obtain ⟨low, high⟩ := line_of_tokenize result
      exact .inr ⟨e, line, _, rfl, low, high, rfl, rfl, rfl, rfl⟩
    | crash c => exact absurd (tokenize_eq_crash.mp result) (free c)

example : tokenize ['x', '.', '\u00b2'] = .error (.crash .digitWithoutValue) := by decide +kernel

end MiniLua
