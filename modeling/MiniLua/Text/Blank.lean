import MiniLua.Text.Spans

/-! # Blank characters

Two notions are kept apart: the characters that separate tokens and that are trimmed around a
numeral, and the four that the grammar itself steps over. -/

namespace MiniLua.Text

/-- The Unicode white space, with the four information separators U+001C to U+001F. -/
def blankSpans : Spans :=
  [(0x9, 0xd), (0x1c, 0x20), (0x85, 0x85), (0xa0, 0xa0), (0x1680, 0x1680), (0x2000, 0x200a),
   (0x2028, 0x2029), (0x202f, 0x202f), (0x205f, 0x205f), (0x3000, 0x3000)]

def isBlank (c : Char) : Bool := blankSpans.has c

/-- The white space of the grammar: space, tab, carriage return and line feed. -/
def isGrammarBlank (c : Char) : Bool :=
  c = ' ' || c = '\t' || c = '\r' || c = '\n'

theorem isBlank_of_isGrammarBlank {c : Char} (h : isGrammarBlank c = true) : isBlank c = true := by
  simp only [isGrammarBlank, Bool.or_eq_true, decide_eq_true_eq] at h
  rcases h with ((rfl | rfl) | rfl) | rfl <;> decide

/-- Drops the blank characters at both ends. -/
def trim (cs : List Char) : List Char :=
  ((cs.dropWhile isBlank).reverse.dropWhile isBlank).reverse

end MiniLua.Text
