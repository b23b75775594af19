import MiniLua.Token.Lexer

/-!
# Escapes in short strings

Any text stands between two quotes if its line feeds, its backslashes and the quotes of this kind are
escaped. The scanner for short strings then stops at the closing quote and no sooner, and decoding
what it has passed gives the text back.
-/

namespace MiniLua.Spelling

/-- A character between two quotes of a kind. -/
def escapedIn (quote c : Char) : List Char :=
  if c = '\n' then ['\\', 'n'] else if c = '\\' || c = quote then ['\\', c] else [c]

/-! ## One character -/

theorem shortBody?_pair {quote d : Char} {cs : List Char} (differs : '\\' ≠ quote)
    (printed : d ≠ '\n') :
    shortBody? quote ('\\' :: d :: cs) = (shortBody? quote cs).map ('\\' :: d :: ·) := by
  rw [shortBody?, if_neg differs, if_neg (by decide), if_pos rfl, if_neg printed]

theorem shortBody?_plain {quote c : Char} {cs : List Char} (differs : c ≠ quote)
    (printed : c ≠ '\n') (plain : c ≠ '\\') (more : cs ≠ []) :
    shortBody? quote (c :: cs) = (shortBody? quote cs).map (c :: ·) := by
  cases cs with
  | nil => exact absurd rfl more
  | cons d cs => rw [shortBody?, if_neg differs, if_neg printed, if_neg plain]

theorem shortBody?_quote (quote : Char) (tail : List Char) :
    shortBody? quote (quote :: tail) = some [] := by
  cases tail with
  | nil => rw [shortBody?, if_pos rfl]
  | cons d tail => rw [shortBody?, if_pos rfl]

theorem decodeEscapes_pair {d e : Char} {cs text : List Char} (letter : escaped? d = some e)
    (h : decodeEscapes cs = .ok text) : decodeEscapes ('\\' :: d :: cs) = .ok (e :: text) := by
  rw [decodeEscapes, if_pos rfl, letter]
  simp only [h]
  rfl

theorem decodeEscapes_plain {c : Char} {cs text : List Char} (plain : c ≠ '\\')
    (h : decodeEscapes cs = .ok text) : decodeEscapes (c :: cs) = .ok (c :: text) := by
  cases cs with
  | nil =>
    cases h
    rw [decodeEscapes, if_neg plain]
  | cons d cs =>
    rw [decodeEscapes, if_neg plain, h]
    rfl

/-! ## Texts -/

section

variable {quote : Char} (quoted : quote = '"' ∨ quote = '\'')
include quoted

/-- A character is escaped by a letter, or stands for itself. -/
theorem escapedIn_cases (c : Char) :
    (∃ letter, escapedIn quote c = ['\\', letter] ∧ letter ≠ '\n' ∧ escaped? letter = some c) ∨
      (escapedIn quote c = [c] ∧ c ≠ quote ∧ c ≠ '\n' ∧ c ≠ '\\') := by
  by_cases newline : c = '\n'
  · subst newline
    exact .inl ⟨'n', if_pos rfl, by decide, rfl⟩
  by_cases marked : c = '\\' ∨ c = quote
  · refine .inl ⟨c, ?_, newline, ?_⟩
    · rw [escapedIn, if_neg newline, if_pos (by simpa using marked)]
    · rcases marked with rfl | rfl
      · rfl
      · rcases quoted with rfl | rfl <;> rfl
  · obtain ⟨slash, other⟩ := not_or.mp marked
    refine .inr ⟨?_, other, newline, slash⟩
    rw [escapedIn, if_neg newline, if_neg (by simpa using marked)]

theorem shortBody?_escapedIn (text tail : List Char) :
    shortBody? quote (text.flatMap (escapedIn quote) ++ quote :: tail) =
      some (text.flatMap (escapedIn quote)) := by
  have slash : '\\' ≠ quote := by rcases quoted with rfl | rfl <;> decide
  induction text with
  | nil => exact shortBody?_quote quote tail
  | cons c text ih =>
    rw [List.flatMap_cons, List.append_assoc]
    rcases escapedIn_cases quoted c with ⟨letter, same, printed, -⟩ | ⟨same, other, newline, plain⟩
    · rw [same, List.cons_append, List.cons_append, List.nil_append,
        shortBody?_pair slash printed, ih]
      rfl
    · rw [same, List.cons_append, List.nil_append,
        shortBody?_plain other newline plain (by simp), ih]
      rfl

theorem decodeEscapes_escapedIn (text : List Char) :
    decodeEscapes (text.flatMap (escapedIn quote)) = .ok text := by
  induction text with
  | nil => rfl
  | cons c text ih =>
    rw [List.flatMap_cons]
    rcases escapedIn_cases quoted c with ⟨letter, same, -, stands⟩ | ⟨same, -, -, plain⟩
    · rw [same]
      exact decodeEscapes_pair stands ih
    · rw [same]
      exact decodeEscapes_plain plain ih

end

end MiniLua.Spelling
