import MiniLua.Proofs.Placing.Nodes
import MiniLua.Proofs.Placing.Statements
import MiniLua.Proofs.Twins.Uncommenting

/-!
# The lines of statements

A statement that starts with a keyword is on the line of its first token. Calls and assignments are
so only where the blanks before them have been passed with the statement before.
-/

namespace MiniLua

open MiniLua.Parser MiniLua.Lexer

/-! ## First tokens -/

/-- The statement starts with a keyword. -/
def Stmt.keywordLed : Stmt → Bool
  | .assign _ _ _ => false
  | .call _ _ => false
  | _ => true

theorem aloneOn_mul_le (l : Lexeme) (line : Nat) (L : Language Spaced) :
    l.aloneOn line * L ≤ reportedOn true line := by
  intro w tokens
  obtain ⟨u, ⟨p, rfl, token⟩, v, -, rfl⟩ := Language.mem_mul.mp tokens
  exact ⟨p, v, rfl, (congrArg Token.line token).symm⟩

/-- Where a statement that starts with a keyword is read, the keyword stands first. -/
theorem Stmt.readings_le_of_keywordLed {s : Stmt} (led : s.keywordLed = true) (passed : Bool) :
    s.readings passed ≤ reportedOn true s.line := by
  cases s with
  | assign => cases led
  | call => cases led
  | localVars names values line =>
    cases values <;> simp only [Stmt.readings, mul_assoc, aloneOn_mul_le, Stmt.line]
  | branch clauses otherwise line =>
    rcases clauses with _ | ⟨c, cs⟩
    · exact zero_le
    · cases otherwise <;> simp only [Stmt.readings, mul_assoc, aloneOn_mul_le, Stmt.line]
  | numericFor name start stop step body line =>
    cases step <;> simp only [Stmt.readings, mul_assoc, aloneOn_mul_le, Stmt.line]
  | breakLoop line =>
    rw [Stmt.readings, ← mul_one ((Lexeme.keyword "break").aloneOn line)]
    exact aloneOn_mul_le _ _ _
  | other => exact zero_le
  | _ => simp only [Stmt.readings, mul_assoc, aloneOn_mul_le, Stmt.line]

theorem Stmt.readings_le (s : Stmt) (passed : Bool) :
    s.readings passed ≤ reportedOn (s.keywordLed || passed) s.line := by
  cases led : s.keywordLed with
  | true => exact Stmt.readings_le_of_keywordLed led passed
  | false =>
    cases s with
    | assign => exact inf_le_left
    | call => exact inf_le_left
    | _ => cases led

/-! ## Programs -/

/-- A program is read from all tokens of its text. -/
theorem parseProgram_readings {text : List Char} {program : Block} (steady : Steady text)
    (read : parseProgram text = .ok program) : spaced text ∈ program.readings := by
  obtain ⟨ts, c, cut, parsed, ended⟩ := parseProgram_eq_ok read
  obtain ⟨w, ps, same, behind, tokens⟩ :=
    (Grammar.spans_unary_block (text.length + 1)).2.reads parsed ⟨1, Laid.start steady cut, rfl⟩
  -- the block ends before blanks and comments, but no token stands behind them
  obtain ⟨early, laid, -⟩ := behind.skip
  rw [same, laid.finished ended, List.append_nil]
  exact tokens

/-- A program without long strings is read from the tokens of its text, and each statement in it, at
whatever depth, from a stretch of them. A statement that starts with a keyword is on the line of its
first token. A call or an assignment is so if the blanks before this token have been passed with the
statement before, and otherwise on the line on which they begin. -/
theorem parseProgram_lines {text : List Char} {program : Block}
    (read : parseProgram text = .ok program)
    (plain : ∀ tile ∈ tiles text, tile.isLongString = false) :
    tokenize text =
        .ok ((spaced text).map Spaced.token ++ [⟨.endOfText, 1 + text.count '\n'⟩]) ∧
      spaced text ∈ program.readings ∧
      ∀ s, .stmt s ∈ program.sites → ∃ passed p v, p :: v <:+: spaced text ∧
        p :: v ∈ s.readings passed ∧
        s.line = if s.keywordLed || passed then p.token.line else p.early := by
  obtain ⟨ts, -, cut, -⟩ := parseProgram_eq_ok read
  have steady : Steady text := fun _ _ _ scan => (tiled_tiles cut).1.steady plain scan
  have tokens := parseProgram_readings steady read
  refine ⟨tokenize_spaced cut ▸ cut, tokens, fun s member => ?_⟩
  obtain ⟨passed, u, within, readings⟩ := program.contains _ tokens s member
  obtain ⟨p, v, rfl, line⟩ := s.readings_le passed readings
  exact ⟨passed, p, v, within, readings, line⟩

/-- The lines of the statements among some sites, and whether they start with a keyword. -/
def stmtLines (sites : List Site) : List (Bool × Nat) :=
  sites.filterMap fun site => match site with
    | .stmt s => some (s.keywordLed, s.line)
    | _ => none

/-- The call is given the line of the block before it, behind which the line break comes. -/
theorem parseProgram_lines_behindBlock :
    let text := "do end\nf()".toList
    ∃ program, parseProgram text = .ok program ∧
      stmtLines program.sites = [(true, 1), (false, 1)] ∧
      spaced text = [⟨⟨.keyword "do", 1⟩, 1⟩, ⟨⟨.keyword "end", 1⟩, 1⟩, ⟨⟨.name "f", 2⟩, 1⟩,
        ⟨⟨.symbol "(", 2⟩, 2⟩, ⟨⟨.symbol ")", 2⟩, 2⟩] ∧
      spaced text ∈ program.readings ∧
      ∀ s, .stmt s ∈ program.sites → ∃ passed p v, p :: v <:+: spaced text ∧
        p :: v ∈ s.readings passed ∧
        s.line = if s.keywordLed || passed then p.token.line else p.early := by
  intro text
  have lines : (parseProgram text).toOption.map (fun program => stmtLines program.sites) =
      some [(true, 1), (false, 1)] := by decide +kernel
  cases read : parseProgram text with
  | error fault =>
    rw [read] at lines
    cases lines
  | ok program =>
    rw [read] at lines
    obtain ⟨-, tokens, placed⟩ := parseProgram_lines read (by decide +kernel)
    exact ⟨program, rfl, Option.some.inj lines, by decide +kernel, tokens, placed⟩

end MiniLua
