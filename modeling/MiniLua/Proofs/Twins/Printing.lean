import MiniLua.Console.Run
import MiniLua.Proofs.Rendering.Roundtrip
import MiniLua.Proofs.Token.Closing
import MiniLua.Proofs.Twins.Respacing

/-!
# Expressions between parentheses

The interactive mode puts `print(` before an expression and a parenthesis behind it. The expression
is read as before, and what is run is a call with it as the only argument, unless the expression
ends in a comment that takes the parenthesis in.
-/

namespace MiniLua

open MiniLua.Text MiniLua.Spelling MiniLua.Parser MiniLua.Grammar MiniLua.Lexer

/-! ## The expression -/

/-- An expression that a text spells is read wherever its tokens stand before a parenthesis at the
end. -/
theorem yields_of_parseAll {text : List Char} {e : Expr} {w : List Lexeme} {n m : Nat}
    (start : Ahead text (Cursor.ofChars text) w) (read : parseAll (expression n) text = .ok e)
    (enough : w.length < n) (enough' : w.length < m) :
    Lexeme.Balanced w ∧ Passable text ∧
      Yields (expression m) Expr.erase e.erase (w ++ [.symbol ")"]) [.symbol ")"] := by
  obtain ⟨passable, balanced⟩ := parseAll_ok (alike_expression enough enough) start read
  refine ⟨balanced, passable, fun code d right => ?_⟩
  obtain ⟨c, read, ended⟩ := parseAll_eq_ok read
  have twins : Twins ⟨text, code, [.symbol ")"]⟩ (Cursor.ofChars text) d w :=
    ⟨start, right, .inr ⟨rfl, balanced.closed⟩⟩
  have agree := alike_expression enough enough' _ _ w (Nat.lt_succ_self _) twins
  rw [read] at agree
  generalize expression m d = reply at agree ⊢
  cases agree with
  | @ok _ e' _ d' u w' same split _ _ twins' =>
    obtain rfl := twins'.left.eq_nil_of_ended ended
    exact ⟨e', d', rfl, same.symm, twins'.right⟩

/-! ## The call -/

/-- The program that prints the value of an expression. -/
def printCall (e : Expr) : Block := .mk [.call (.mk (.name "print" 0) [e] 0) 0] 0

/-- An expression between `print(` and `)` is the argument of a call, which is all the program
does. -/
theorem yields_printCall {depth : Nat} {e : Expr} {w : List Lexeme}
    (reads : Yields (expression depth) Expr.erase e (w ++ [.symbol ")"]) [.symbol ")"]) :
    Yields (block (depth + 1)) Block.erase (printCall e)
      (.name "print" :: .symbol "(" :: (w ++ [.symbol ")"])) [] := by
  have refuses := refuses_expression depth
  have alone : Looser 9 [] := nofun
  have values : Yields (expressionList (expression depth)) Expr.eraseAll [e] (w ++ [.symbol ")"])
      [.symbol ")"] :=
    .exact fun _ => (reads.commaList_single (by simp)).see fun es same =>
      (Expr.eraseAll_eq es).trans same
  have args : Yields (parenArgs (expression depth)) Expr.eraseAll [e]
      (.symbol "(" :: (w ++ [.symbol ")"])) [] :=
    (yields_symbol (by decide)).bind fun _ _ => values.listed.bind fun _ same =>
      (yields_symbol (by decide)).bind fun _ _ => .pure same
  have more : Repeats (suffix (expression depth)) Suffix.erase [.call [e] 0]
      (.symbol "(" :: (w ++ [.symbol ")"])) [] :=
    .cons (suffix_of_parenArgs refuses args) (Nat.succ_pos _) (.nil (rejects_suffix refuses alone))
  have head : Yields (prefixExpr (expression depth)) Expr.erase
      (.call (.mk (.name "print" 0) [e] 0)) (.name "print" :: .symbol "(" :: (w ++ [.symbol ")"]))
      [] := prefixExpr_of_name more
  have printed : Yields (expressionStatement (expression depth)) Stmt.erase
      (.call (.mk (.name "print" 0) [e] 0) 0)
      (.name "print" :: .symbol "(" :: (w ++ [.symbol ")"])) [] := by
    refine .mark fun _ => (head.commaList_single (by simp)).bind fun heads same =>
      (no_initialisers refuses (by simp)).bind fun values same' => yields_toStatement? ?_
    rw [erase_toStatement?, same, same']
    rfl
  have finished : Rejects (statement (expression depth) (block depth)) [] := rejects_statement nofun
  have unreturned : Yields (opt (returnValues (expression depth))) (Option.map Stmt.erase) none [] [] :=
    .opt_none (.exact fun _ => (rejects_keyword (by simp [keywords]) (by simp)).bind _)
  have statements : Repeats (statement (expression depth) (block depth)) (Option.map Stmt.erase)
      [some (.call (.mk (.name "print" 0) [e] 0) 0)] (.name "print" :: .symbol "(" :: (w ++ [.symbol ")"]))
      [] := .cons (statement_of_head (.inr ⟨_, rfl⟩) printed) (Nat.succ_pos _) (.nil finished)
  change Yields (blockOf (expression depth) (block depth)) _ _ _ _
  refine .mark fun _ => (Yields.many statements).bind fun statements same => unreturned.bind
    fun last same' => .pure ?_
  rw [Option.map_eq_none_iff.mp same', Block.erase, Stmt.eraseAll_eq, Option.toList_none,
    List.append_nil, ← List.reduceOption_map, same]
  rfl

/-! ## The text -/

section

variable {blank : Char → Bool}

theorem step_print (tail : List Char) :
    Step blank ("print(".toList ++ tail) (some (.name "print")) 5 := by
  have letters : nameChars ("print(".toList ++ tail) = "print".toList := rfl
  have rule : Rule ("print(".toList ++ tail) _ _ :=
    .name (by rw [letters]; decide) (by rw [letters]; decide)
  rw [letters] at rule
  exact .token rfl rfl (readToken_eq_ok_iff.mpr rule)

theorem step_opening (tail : List Char) : Step blank ('(' :: tail) (some (.symbol "(")) 1 :=
  .token rfl rfl (readToken_eq_ok_iff.mpr (.symbol rfl rfl rfl))

theorem scans_print (line : Nat) (tail : List Char) : Scans blank line ("print(".toList ++ tail)
    [⟨.name "print", line⟩, ⟨.symbol "(", line⟩] line tail :=
  .read (step_print tail) (.read (step_opening tail) .refl)

theorem Steady.print {text : List Char} (h : Steady text) : Steady ("print(".toList ++ text) := by
  intro ts line rest scan
  rcases scan.cases_read (fun _ => id) (step_print text) with ⟨-, -, rfl⟩ | ⟨ts', -, inner⟩
  · rintro ⟨opens, -⟩
    cases opens
  rcases inner.cases_read (fun _ => id) (step_opening text) with ⟨-, -, rfl⟩ | ⟨ts'', -, tail⟩
  · rintro ⟨opens, -⟩
    cases opens
  · exact h _ _ _ tail

end

/-! ## The command -/

section

variable {command : List Char} {e : Expr}

/-- A text that is read as an expression has all its tokens read as that expression. -/
theorem exists_scans_of_parseExpression (steady : Steady command)
    (accepted : parseExpression command = .ok e) :
    ∃ ts last, Scans isGrammarBlank 1 command ts last [] ∧
      Lexeme.Balanced (ts.map Token.lexeme) ∧
      ∀ m, ts.length < m → Yields (expression m) Expr.erase e.erase
        (ts.map Token.lexeme ++ [.symbol ")"]) [.symbol ")"] := by
  unfold parseExpression at accepted
  split at accepted
  next => cases accepted
  next ts cut =>
    obtain ⟨w, seen⟩ := Ahead.start steady cut
    have enough := Nat.lt_succ_of_le seen.length_le
    obtain ⟨-, ⟨all, last, scan⟩, -⟩ := yields_of_parseAll seen accepted enough enough
    have start := (Ahead.start_of_scans steady scan).2
    have enough := Nat.lt_succ_of_le start.length_le
    refine ⟨all, last, scan, (yields_of_parseAll start accepted enough enough).1, fun m fewer => ?_⟩
    rw [← List.length_map Token.lexeme] at fewer
    exact (yields_of_parseAll start accepted enough fewer).2.2

/-- The parentheses of a program are balanced. -/
theorem balanced_of_parseProgram {text : List Char} {program : Block} (steady : Steady text)
    (read : parseProgram text = .ok program) :
    ∃ ts last, Scans isGrammarBlank 1 text ts last [] ∧ Lexeme.Balanced (ts.map Token.lexeme) := by
  obtain ⟨ts, last, scan⟩ := passable_of_parseProgram steady read
  obtain ⟨tokens, start⟩ := Ahead.start_of_scans steady scan
  simp only [parseProgram, tokens] at read
  have enough := Nat.succ_le_succ start.length_le
  exact ⟨ts, last, scan, (parseAll_ok (alike_unary_block enough enough).2 start read).2⟩

theorem steady_printed (steady : Steady command) {ts : List Token} {last : Nat}
    (scan : Scans isGrammarBlank 1 command ts last []) :
    Steady ("print(".toList ++ (command ++ [')'])) :=
  .print ((scan.mono fun _ => isBlank_of_isGrammarBlank).steady_close rfl steady)

theorem parseProgram_printed (steady : Steady command)
    (accepted : parseExpression command = .ok e) (printed : ¬ CommentedOut command) :
    ∃ program, parseProgram ("print(".toList ++ (command ++ [')'])) = .ok program ∧
      program.erase = printCall e.erase := by
  obtain ⟨ts, last, scan, -, reads⟩ := exists_scans_of_parseExpression steady accepted
  have wider := fun c => isBlank_of_isGrammarBlank (c := c)
  have short := (scan.mono wider).length_le
  rcases scan.close wider rfl with closed | ⟨seen, line, rest, inner, comment⟩
  · have last : Step isGrammarBlank [')'] (some (.symbol ")")) 1 :=
      .token (by decide) (by decide) rfl
    have whole := (scans_print 1 _).trans (closed.trans (.read last .refl))
    refine parseProgram_of_yields (steady_printed steady scan) whole ?_
    have call := yields_printCall (reads (("print(".toList ++ (command ++ [')'])).length) (by
      simp only [List.length_append, List.length_singleton]
      omega))
    simpa using call
  · exact absurd ⟨seen, line, rest, inner.mono wider, comment⟩ printed

/-- Without its parenthesis the call is no program, since parentheses are balanced in all programs. -/
theorem parseProgram_commentedOut (steady : Steady command)
    (accepted : parseExpression command = .ok e) (lost : CommentedOut command) :
    (parseProgram ("print(".toList ++ (command ++ [')']))).toOption = none := by
  obtain ⟨ts, last, scan, balanced, -⟩ := exists_scans_of_parseExpression steady accepted
  have wider := fun c => isBlank_of_isGrammarBlank (c := c)
  obtain ⟨seen, line, rest, inner, comment⟩ := lost
  obtain ⟨line', finished⟩ := inner.pass_all comment.step_all
  obtain ⟨rfl, -⟩ := finished.unique (scan.mono wider) (fun _ _ => not_step_nil) fun _ _ => not_step_nil
  obtain ⟨line'', taken⟩ := (inner.append_paren (fun _ => id) comment.ne_nil).pass_all
    comment.step_paren
  have whole := (scans_print 1 _).trans taken
  cases read : parseProgram ("print(".toList ++ (command ++ [')'])) with
  | error fault => rfl
  | ok program =>
    obtain ⟨all, end', scan', closed⟩ := balanced_of_parseProgram (steady_printed steady scan) read
    obtain ⟨rfl, -⟩ := (scan'.mono wider).unique whole (fun _ _ => not_step_nil)
      fun _ _ => not_step_nil
    have even := closed.even
    rw [List.map_append, Lexeme.excess_append, balanced.even] at even
    exact absurd even (by decide)

end

/-- An accepted command is run as the call that prints it, unless it ends in a comment. Then the
parenthesis behind it is lost, and there is nothing to run. -/
theorem codeOf_expression (line : String) {command : List Char} {e : Expr}
    (accepted : parseExpression command = .ok e) (unbroken : '\n' ∉ command)
    (steady : Steady command) :
    ∃ code, Console.codeOf line command = .ok code ∧
      (¬ CommentedOut command → ∃ program, parseProgram (programText code) = .ok program ∧
        program.erase = printCall e.erase) ∧
      (CommentedOut command → (parseProgram (programText code)).toOption = none) := by
  refine ⟨"print(" ++ String.ofList command ++ ")", by rw [Console.codeOf, accepted], ?_⟩
  have spelled : ("print(" ++ String.ofList command ++ ")").toList =
      "print(".toList ++ (command ++ [')']) := by
    simp
  have text : programText ("print(" ++ String.ofList command ++ ")") =
      "print(".toList ++ (command ++ [')']) := by
    rw [programText, spelled]
    exact joinCrLf_of_not_mem (by simp [unbroken])
  rw [text]
  exact ⟨parseProgram_printed steady accepted, parseProgram_commentedOut steady accepted⟩

/-- The command `x` is printed; `x--` is not, since its comment takes the parenthesis in. -/
theorem codeOf_commentedName : (∃ code, Console.codeOf "x" ['x'] = .ok code ∧
      ∃ program, parseProgram (programText code) = .ok program ∧
        program.erase = printCall (.name "x" 0)) ∧
    ∃ code, Console.codeOf "x--" ['x', '-', '-'] = .ok code ∧
      (parseProgram (programText code)).toOption = none := by
  have bare : parseExpression ['x'] = .ok (.name "x" 1) := by rfl
  have commented : parseExpression ['x', '-', '-'] = .ok (.name "x" 1) := by rfl
  obtain ⟨code, same, printed, -⟩ := codeOf_expression "x" bare (by decide)
    (.of_not_mem (by decide))
  obtain ⟨code', same', -, lost⟩ := codeOf_expression "x--" commented (by decide)
    (.of_not_mem (by decide))
  refine ⟨⟨code, same, printed fun h => ?_⟩, code', same', lost ?_⟩
  · exact absurd h.dash_mem (by decide)
  · exact ⟨_, _, _, .read (.token (by decide) rfl rfl) .refl, rfl, rfl, by decide⟩

end MiniLua
