import MiniLua.Grammar.Program
import MiniLua.Proofs.Rendering.Spelling
import MiniLua.Proofs.Rendering.Statements

/-!
# Programs are read back

A program that is written down as its tokens with single spaces between is read back, up to the
lines of its nodes.
-/

namespace MiniLua

open MiniLua.Text MiniLua.Parser MiniLua.Lexer MiniLua.Grammar

/-- A program is read if the grammar reads the tokens of the text. -/
theorem parseProgram_of_yields {text : List Char} {ts : List Token} {last : Nat} {program : Block}
    (steady : Steady text) (scan : Scans isGrammarBlank 1 text ts last [])
    (yields : Yields (block (text.length + 1)) Block.erase program (ts.map Token.lexeme) []) :
    ∃ program', parseProgram text = .ok program' ∧ program'.erase = program := by
  obtain ⟨tokens, start⟩ := Ahead.start_of_scans steady scan
  obtain ⟨program', c, read, same, finished⟩ := yields text _ start
  have ended := finished.ended_of_passable ⟨ts, last, scan⟩
  refine ⟨program', ?_, same⟩
  simp only [parseProgram, tokens, parseBlock, parseAll, read, ended, List.isEmpty_nil, if_true]

end MiniLua
