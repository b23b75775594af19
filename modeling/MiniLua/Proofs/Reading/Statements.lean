import Mathlib.Data.List.ReduceOption
import MiniLua.Proofs.Reading.Expressions

/-!
# The literals of statements and blocks
-/

namespace MiniLua.Grammar

open MiniLua.Parser

variable {text : List Char} {expression : Parser Expr} {block : Parser Block}

theorem lambda_literals (parts : List String) (line : Nat) (body : List String × Block) :
    (namedLambda parts line body).literals = bodyLiterals body := by
  rw [namedLambda, Lambda.literals, bodyLiterals]

theorem literals_dottedTarget (line : Nat) (first : String) (rest : List String) :
    (dottedTarget line first rest).literals = Literal.names (first :: rest) := by
  have table : ∀ (parts : List String) (e : Expr),
      (parts.foldl (fun (e : Expr) part => .index e (.string part line) line) e).literals =
        e.literals ++ Literal.names parts := by
    intro parts
    induction parts with
    | nil => exact fun e => (List.append_nil _).symm
    | cons part parts ih =>
      intro e
      rw [List.foldl_cons, ih, Expr.literals, Expr.literals, List.append_assoc]
      rfl
  unfold dottedTarget
  split
  next none =>
    rw [List.reverse_eq_nil_iff.mp none, Target.literals]
    rfl
  next last before same =>
    rw [Target.literals, table, Expr.literals, Expr.literals, List.reverse_eq_iff.mp same]
    simp [Literal.names]

section

variable (body : Adds text block Block.literals)

include body

theorem adds_localFunction : Adds text (localFunction block) Stmt.literals := by
  intro before
  rw [localFunction]
  refine .next silent_exact fun place => .next (silent_keyword (by simp [keywords])) fun _ =>
    .next (silent_keyword (by simp [keywords])) fun _ => .bind adds_name fun n =>
    .bind (adds_functionBody body) fun b => .pure ?_
  rw [Stmt.literals, lambda_literals, List.append_assoc]
  rfl

theorem adds_functionDecl : Adds text (functionDecl block) Stmt.literals := by
  intro before
  rw [functionDecl]
  have parts : Adds text (symbol "." *> name) fun n => [.text n] := fun before =>
    .point id (adds_name before)
  refine .next silent_exact fun place => .next (silent_keyword (by simp [keywords])) fun _ =>
    .bind adds_name fun first => .bind parts.many fun rest =>
    .bind (adds_functionBody body) fun b => .pure ?_
  rw [Stmt.literals, lambda_literals, literals_dottedTarget, List.append_assoc, List.append_assoc,
    Literal.names, List.map_cons, List.map_eq_flatMap]
  rfl

theorem adds_doBlock : Adds text (doBlock block) Stmt.literals := by
  intro before
  rw [doBlock]
  refine .next silent_exact fun place => .next (silent_keyword (by simp [keywords])) fun _ =>
    .bind body fun b => .next (silent_keyword (by simp [keywords])) fun _ => .pure ?_
  rw [Stmt.literals]

end

section

variable (operand : Operand text expression)

include operand

theorem adds_initialisers : Adds text (initialisers expression)
    fun values => values.elim [] Expr.allLiterals := by
  rw [initialisers]
  exact Adds.opt fun before =>
    .equals (expressionList_fail operand) (adds_expressionList operand before)

theorem adds_localVars : Adds text (localVars expression) Stmt.literals := by
  intro before
  rw [localVars]
  refine .next silent_exact fun place => .next (silent_keyword (by simp [keywords])) fun _ =>
    .bind adds_names fun names => .bind (adds_initialisers operand) fun values => .pure ?_
  rw [Stmt.literals, List.append_assoc]
  cases values <;> rfl

omit operand in
/-- The heads of an expression statement become targets or the one call. -/
theorem literals_toStatement? {heads : List Expr} {values : Option (List Expr)} {line : Nat}
    {s : Stmt} (h : toStatement? heads values line = some s) :
    s.literals = heads.flatMap Expr.literals ++ values.elim [] Expr.allLiterals := by
  unfold toStatement? at h
  split at h
  next values =>
    obtain ⟨targets, found, rfl⟩ := Option.map_eq_some_iff.mp h
    rw [Stmt.literals, Target.allLiterals_eq, Expr.literals_of_mapM_toTarget? found]
    rfl
  next =>
    split at h
    next head =>
      obtain ⟨call, found, rfl⟩ := Option.map_eq_some_iff.mp h
      cases head with
      | call c =>
        cases found
        rw [Stmt.literals, List.flatMap_cons, List.flatMap_nil, Expr.literals]
        simp
      | _ => cases found
    next => cases h

theorem adds_expressionStatement : Adds text (expressionStatement expression) Stmt.literals := by
  intro before
  rw [expressionStatement]
  refine .next silent_mark fun place => .bind (adds_prefixExpr operand).commaList fun heads =>
    .bind (adds_initialisers operand) fun values => ?_
  cases found : toStatement? heads values place.line with
  | none => exact .stop
  | some s =>
    refine .pure ?_
    rw [literals_toStatement? found, List.append_assoc]

theorem adds_returnValues : Adds text (returnValues expression) Stmt.literals := by
  intro before
  rw [returnValues]
  refine .next silent_exact fun place => .next (silent_keyword (by simp [keywords])) fun _ =>
    .bind (adds_expressionList operand).opt fun values =>
    .next (silent_symbol (by decide)).opt fun _ => .pure ?_
  cases values <;> rw [Stmt.literals] <;> rfl

variable (body : Adds text block Block.literals)

include body

theorem adds_whileLoop : Adds text (whileLoop expression block) Stmt.literals := by
  intro before
  rw [whileLoop]
  refine .next silent_exact fun place => .next (silent_keyword (by simp [keywords])) fun _ =>
    .bind operand.adds fun condition => .next (silent_keyword (by simp [keywords])) fun _ =>
    .bind body fun b => .next (silent_keyword (by simp [keywords])) fun _ => .pure ?_
  rw [Stmt.literals, List.append_assoc]

theorem adds_clauseAfter {word : String} (known : word ∈ keywords) :
    Adds text (clauseAfter expression block word) Clause.literals := by
  intro before
  rw [clauseAfter]
  refine .next (silent_keyword known) fun _ => .bind operand.adds fun condition =>
    .next (silent_keyword (by simp [keywords])) fun _ => .bind body fun b => .pure ?_
  rw [Clause.literals, List.append_assoc]
  rfl

theorem adds_branch : Adds text (branch expression block) Stmt.literals := by
  intro before
  rw [branch]
  have otherwise : Adds text (keyword "else" *> block) Block.literals := fun before =>
    .seqRight (silent_keyword (by simp [keywords])) (body before)
  refine .next silent_exact fun place =>
    .bind (adds_clauseAfter operand body (by simp [keywords])) fun first =>
    .bind (adds_clauseAfter operand body (by simp [keywords])).many fun rest =>
    .bind otherwise.opt fun b => .next (silent_keyword (by simp [keywords])) fun _ => .pure ?_
  cases b with
  | none => simp [Stmt.literals, Clause.allLiterals_eq]
  | some b => simp [Stmt.literals, Clause.allLiterals_eq]

theorem adds_numericFor : Adds text (numericFor expression block) Stmt.literals := by
  intro before
  rw [numericFor]
  have step : Adds text (symbol "," *> expression) Expr.literals := fun before =>
    .seqRight (silent_symbol (by decide)) (operand.adds before)
  refine .next silent_exact fun place => .next (silent_keyword (by simp [keywords])) fun _ =>
    .bind adds_name fun n => .equals (fun barren unquoted => ?_) ?_
  · exact bind_of_fail (operand.refuses barren unquoted)
  · refine .bind operand.adds fun start => .next (silent_symbol (by decide)) fun _ =>
      .bind operand.adds fun stop => .bind step.opt fun increment =>
      .next (silent_keyword (by simp [keywords])) fun _ => .bind body fun b =>
      .next (silent_keyword (by simp [keywords])) fun _ => .pure ?_
    cases increment with
    | none => simp [Stmt.literals]
    | some e => simp [Stmt.literals]

theorem adds_genericFor : Adds text (genericFor expression block) Stmt.literals := by
  intro before
  rw [genericFor]
  refine .next silent_exact fun place => .next (silent_keyword (by simp [keywords])) fun _ =>
    .bind adds_names fun names => .next (silent_keyword (by simp [keywords])) fun _ =>
    .bind (adds_expressionList operand) fun values => .next (silent_keyword (by simp [keywords])) fun _ =>
    .bind body fun b => .next (silent_keyword (by simp [keywords])) fun _ => .pure ?_
  rw [Stmt.literals, List.append_assoc, List.append_assoc, List.append_assoc]

omit operand body in
theorem adds_breakLoop : Adds text breakLoop Stmt.literals := by
  intro before
  rw [breakLoop]
  refine .next silent_exact fun place => .next (silent_keyword (by simp [keywords])) fun _ => .pure ?_
  rw [Stmt.literals, List.append_nil]

theorem adds_statement : Adds text (statement expression block)
    fun s => s.elim [] Stmt.literals := by
  intro before
  rw [statement]
  refine .orElse (.seqRight (silent_symbol (by decide)) (.pure (List.append_nil _))) (.map ?_)
  exact .orElse (adds_localFunction body before) (.orElse (adds_localVars operand before)
    (.orElse (adds_functionDecl body before) (.orElse (adds_doBlock body before)
    (.orElse (adds_whileLoop operand body before) (.orElse (adds_branch operand body before)
    (.orElse (adds_numericFor operand body before) (.orElse (adds_genericFor operand body before)
    (.orElse (adds_breakLoop before) (adds_expressionStatement operand before)))))))))

omit operand body in
theorem literals_reduceOption (statements : List (Option Stmt)) :
    statements.reduceOption.flatMap Stmt.literals =
      statements.flatMap fun s => s.elim [] Stmt.literals := by
  induction statements with
  | nil => rfl
  | cons s statements ih =>
    cases s with
    | none => rw [List.reduceOption_cons_of_none, ih, List.flatMap_cons]; rfl
    | some s => rw [List.reduceOption_cons_of_some, List.flatMap_cons, ih, List.flatMap_cons]; rfl

theorem adds_blockOf : Adds text (blockOf expression block) Block.literals := by
  intro before
  rw [blockOf]
  refine .next silent_mark fun place => .bind (adds_statement operand body).many fun statements =>
    .bind (adds_returnValues operand).opt fun last => .pure ?_
  rw [Block.literals, Stmt.allLiterals_eq, List.flatMap_append, literals_reduceOption,
    List.append_assoc]
  cases last <;> simp

end

/-! ## The whole grammar -/

theorem operand_expressionOf {p : Parser Expr} (depth : Nat) (same : p = unary depth)
    (h : Adds text p Expr.literals) : Operand text (expressionOf p) where
  adds := adds_expressionOf h
  refuses := by
    subst same
    exact expression_fail depth
  begins := by
    subst same
    exact begins_string depth

theorem adds_unary_block (depth : Nat) :
    Adds text (unary depth) Expr.literals ∧ Adds text (Grammar.block depth) Block.literals := by
  induction depth with
  | zero => exact ⟨fun _ => .fail, fun _ => .fail⟩
  | succ depth ih =>
    obtain ⟨nested, body⟩ := ih
    have operand := operand_expressionOf depth rfl nested
    rw [unary, Grammar.block]
    exact ⟨adds_unaryOf nested operand body, adds_blockOf operand body⟩

end MiniLua.Grammar
