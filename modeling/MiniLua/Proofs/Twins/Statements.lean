import Mathlib.Data.List.ReduceOption
import MiniLua.Proofs.Twins.Expressions

/-!
# Statements and blocks in two texts
-/

namespace MiniLua

open MiniLua.Parser MiniLua.Grammar

variable {P : Pair} {n : Nat} {p q : Parser Expr} {body body' : Parser Block}

namespace Alike

section

variable (block : Alike P n false Block.erase body body')

include block

theorem localFunction :
    Alike P (n + 1) true Stmt.erase (Grammar.localFunction body) (Grammar.localFunction body') := by
  refine .exact fun x y => .bind (.keyword (by simp [keywords])) fun _ _ _ =>
    .bind (.keyword (by simp [keywords])) fun _ _ _ => .bind .name fun word word' same =>
    .bind (functionBody block) fun b b' same' => .pure ?_
  obtain rfl : word = word' := same
  rw [Stmt.erase, Stmt.erase, erase_namedLambda, erase_namedLambda, ← bodyView, same']
  rfl

theorem functionDecl :
    Alike P (n + 1) true Stmt.erase (Grammar.functionDecl body) (Grammar.functionDecl body') := by
  have parts : Alike P (n + 1) true id (Parser.symbol "." *> Parser.name)
      (Parser.symbol "." *> Parser.name) :=
    .point (f := fun _ => Parser.name) (Nat.le_succ _) id id .name
  refine .exact fun x y => .bind (.keyword (by simp [keywords])) fun _ _ _ =>
    .bind .name fun first first' same => .bind parts.many fun rest rest' sames =>
    .bind (functionBody block) fun b b' same' => .pure ?_
  obtain rfl : first = first' := same
  obtain rfl : rest = rest' := by simpa using sames
  rw [Stmt.erase, Stmt.erase, erase_namedLambda, erase_namedLambda, erase_dottedTarget,
    erase_dottedTarget, ← bodyView, same']
  rfl

theorem doBlock :
    Alike P (n + 1) true Stmt.erase (Grammar.doBlock body) (Grammar.doBlock body') := by
  refine .exact fun x y => .next (.keyword (by simp [keywords])) fun _ _ _ =>
    .bind block fun b b' same => .bind (.keyword (by simp [keywords])) fun _ _ _ => .pure ?_
  simp [same]

end

section

variable (operands : Operands P n p q)

include operands

theorem initialisers :
    Alike P (n + 1) false (Option.map Expr.eraseAll) (Grammar.initialisers p)
      (Grammar.initialisers q) :=
  .opt (.equals (f := fun _ => Grammar.expressionList p) (g := fun _ => Grammar.expressionList q)
    le_rfl operands.refuses.expressionList operands.refuses'.expressionList
    (expressionList operands))

theorem localVars :
    Alike P (n + 1) true Stmt.erase (Grammar.localVars p) (Grammar.localVars q) := by
  refine .exact fun x y => .bind (.keyword (by simp [keywords])) fun _ _ _ =>
    .bind name.commaList fun names names' same =>
    .bind (initialisers operands) fun values values' same' => .pure ?_
  obtain rfl : names = names' := by simpa using same
  cases values with
  | none =>
    cases values' with
    | none => rfl
    | some values' => cases same'
  | some values =>
    cases values' with
    | none => cases same'
    | some values' => simpa using same'

theorem expressionStatement :
    Alike P (n + 1) true Stmt.erase (Grammar.expressionStatement p)
      (Grammar.expressionStatement q) := by
  refine .mark fun x y => .bind (prefixExpr operands).commaList fun heads heads' same =>
    .bind (initialisers operands) fun values values' same' => (?_ : Alike P _ false _ _ _)
  have statements : (toStatement? heads values x.line).map Stmt.erase =
      (toStatement? heads' values' y.line).map Stmt.erase := by
    rw [erase_toStatement?, erase_toStatement?, same, same']
  cases found : toStatement? heads values x.line with
  | none =>
    rw [found] at statements
    rw [Option.map_eq_none_iff.mp statements.symm]
    exact .stop
  | some s =>
    rw [found] at statements
    obtain ⟨s', found', same⟩ := Option.map_eq_some_iff.mp statements.symm
    rw [found']
    exact .pure same.symm

theorem returnValues :
    Alike P (n + 1) true Stmt.erase (Grammar.returnValues p) (Grammar.returnValues q) := by
  refine .exact fun x y => .next (.keyword (by simp [keywords])) fun _ _ _ =>
    .bind (expressionList operands).opt fun values values' same =>
    .bind (symbol (by decide) (by decide)).opt fun _ _ _ => .pure ?_
  cases values with
  | none =>
    cases values' with
    | none => rfl
    | some values' => cases same
  | some values =>
    cases values' with
    | none => cases same
    | some values' => simpa using same

variable (block : Alike P n false Block.erase body body')

include block

theorem whileLoop :
    Alike P (n + 1) true Stmt.erase (Grammar.whileLoop p body) (Grammar.whileLoop q body') := by
  refine .exact fun x y => .next (.keyword (by simp [keywords])) fun _ _ _ =>
    .bind operands.alike fun condition condition' same =>
    .bind (.keyword (by simp [keywords])) fun _ _ _ => .bind block fun b b' same' =>
    .bind (.keyword (by simp [keywords])) fun _ _ _ => .pure ?_
  simp [same, same']

theorem clauseAfter {word : String} (known : word ∈ keywords) :
    Alike P (n + 1) true Clause.erase (Grammar.clauseAfter p body word)
      (Grammar.clauseAfter q body' word) := by
  refine .next (.keyword known) fun _ _ _ => .bind operands.alike fun condition condition' same =>
    .bind (.keyword (by simp [keywords])) fun _ _ _ => .bind block fun b b' same' => .pure ?_
  simp [same, same']

theorem branch :
    Alike P (n + 1) true Stmt.erase (Grammar.branch p body) (Grammar.branch q body') := by
  have otherwise : Alike P n true Block.erase (Parser.keyword "else" *> body)
      (Parser.keyword "else" *> body') :=
    (keyword (by simp [keywords])).bind fun _ _ _ => block
  refine .exact fun x y => .next (clauseAfter operands block (by simp [keywords]))
    fun first first' same =>
    .bind ((clauseAfter operands block (by simp [keywords])).mono (Nat.le_succ n)).many
    fun rest rest' sames => .bind otherwise.opt fun b b' same' =>
    .bind (.keyword (by simp [keywords])) fun _ _ _ => .pure ?_
  have clauses : Clause.eraseAll (first :: rest) = Clause.eraseAll (first' :: rest') := by
    rw [Clause.eraseAll_eq, Clause.eraseAll_eq, List.map_cons, List.map_cons, same, sames]
  cases b with
  | none =>
    cases b' with
    | none => rw [Stmt.erase, Stmt.erase, clauses]
    | some b' => cases same'
  | some b =>
    cases b' with
    | none => cases same'
    | some b' => rw [Stmt.erase, Stmt.erase, clauses, Option.some.inj same']

theorem numericFor :
    Alike P (n + 1) true Stmt.erase (Grammar.numericFor p body) (Grammar.numericFor q body') := by
  have increment : Alike P n true Expr.erase (Parser.symbol "," *> p) (Parser.symbol "," *> q) :=
    (symbol (by decide) (by decide)).bind fun _ _ _ => operands.alike
  refine .exact fun x y => .bind (.keyword (by simp [keywords])) fun _ _ _ =>
    .bind .name fun word word' same =>
    .equals le_rfl (operands.refuses.bind _) (operands.refuses'.bind _)
      (.bind operands.alike fun start start' same₁ => .bind (symbol (by decide) (by decide))
        fun _ _ _ => .bind operands.alike fun stop stop' same₂ => .bind increment.opt
        fun step step' same₃ => .bind (.keyword (by simp [keywords])) fun _ _ _ =>
        .bind block fun b b' same₄ => .bind (.keyword (by simp [keywords])) fun _ _ _ => .pure ?_)
  obtain rfl : word = word' := same
  cases step with
  | none =>
    cases step' with
    | none => simp [same₁, same₂, same₄]
    | some step' => cases same₃
  | some step =>
    cases step' with
    | none => cases same₃
    | some step' => simp [same₁, same₂, Option.some.inj same₃, same₄]

theorem genericFor :
    Alike P (n + 1) true Stmt.erase (Grammar.genericFor p body) (Grammar.genericFor q body') := by
  refine .exact fun x y => .next (.keyword (by simp [keywords])) fun _ _ _ =>
    .bind name.commaList fun names names' same => .bind (.keyword (by simp [keywords])) fun _ _ _ =>
    .bind (expressionList operands) fun values values' same' =>
    .bind (.keyword (by simp [keywords])) fun _ _ _ => .bind block fun b b' same'' =>
    .bind (.keyword (by simp [keywords])) fun _ _ _ => .pure ?_
  obtain rfl : names = names' := by simpa using same
  simp [same', same'']

omit operands block in
theorem breakLoop : Alike P n true Stmt.erase Grammar.breakLoop Grammar.breakLoop :=
  .exact fun x y => .bind (.keyword (by simp [keywords])) fun _ _ _ => .pure rfl

theorem statement :
    Alike P (n + 1) true (Option.map Stmt.erase) (Grammar.statement p body)
      (Grammar.statement q body') := by
  refine .orElse (.bind (.symbol (by decide) (by decide)) fun _ _ _ => .pure rfl)
    (.map ?_ fun s s' same => congrArg some same)
  exact .orElse (localFunction block) (.orElse (localVars operands) (.orElse (functionDecl block)
    (.orElse (doBlock block) (.orElse (whileLoop operands block) (.orElse (branch operands block)
    (.orElse (numericFor operands block) (.orElse (genericFor operands block)
    (.orElse breakLoop (expressionStatement operands)))))))))

theorem blockOf :
    Alike P (n + 1) false Block.erase (Grammar.blockOf p body) (Grammar.blockOf q body') := by
  refine .mark fun x y => .bind (statement operands block).many fun statements statements' same =>
    .bind (returnValues operands).opt fun last last' same' => .pure ?_
  have lasts : last.toList.map Stmt.erase = last'.toList.map Stmt.erase := by
    rw [← Option.toList_map, ← Option.toList_map, same']
  rw [Block.erase, Block.erase, Stmt.eraseAll_eq, Stmt.eraseAll_eq, List.map_append,
    List.map_append, ← List.reduceOption_map, ← List.reduceOption_map, same, lasts]

end

end Alike

/-! ## The whole grammar -/

/-- The depth of the grammar does not matter if it is enough for the tokens ahead. -/
theorem alike_unary_block {depth depth' : Nat} (enough : n ≤ depth) (enough' : n ≤ depth') :
    Alike P n true Expr.erase (unary depth) (unary depth') ∧
      Alike P n false Block.erase (Grammar.block depth) (Grammar.block depth') := by
  induction n generalizing depth depth' with
  | zero => exact ⟨.zero, .zero⟩
  | succ n ih =>
    obtain ⟨depth, rfl⟩ := Nat.exists_eq_succ_of_ne_zero (Nat.ne_zero_of_lt enough)
    obtain ⟨depth', rfl⟩ := Nat.exists_eq_succ_of_ne_zero (Nat.ne_zero_of_lt enough')
    obtain ⟨nested, body⟩ := ih (Nat.le_of_succ_le_succ enough) (Nat.le_of_succ_le_succ enough')
    have operands : Operands P n (expressionOf (unary depth)) (expressionOf (unary depth')) :=
      ⟨nested.expressionOf, refuses_expression depth, refuses_expression depth'⟩
    exact ⟨nested.unaryOf operands body, .blockOf operands body⟩

theorem alike_expression {depth depth' : Nat} (enough : n ≤ depth) (enough' : n ≤ depth') :
    Alike P n true Expr.erase (expression depth) (expression depth') :=
  (alike_unary_block enough enough').1.expressionOf

end MiniLua
