import Mathlib.Computability.Language
import MiniLua.Proofs.Placing.Spaced
import MiniLua.Proofs.Rendering.Tokens

/-!
# What trees are read from

The stretches of tokens that a tree is read from, as formal languages over the tokens of a text.
They are as free as the grammar is: a call's only argument may stand without parentheses if it is a
table or a string, fields are separated by commas or semicolons, and semicolons may stand between
statements.

A statement knows a line. One that starts with a keyword is on the line of it. A call or an
assignment is on the line of its first token only where the blanks before that have been passed with
the statement before; otherwise it is on the line on which they begin.
-/

namespace MiniLua

open Computability

/-! ## Single tokens -/

/-- This token alone. -/
def Lexeme.alone (l : Lexeme) : Language Spaced := {w | ∃ p, w = [p] ∧ p.token.lexeme = l}

/-- This token alone, on this line. -/
def Lexeme.aloneOn (l : Lexeme) (line : Nat) : Language Spaced :=
  {w | ∃ p, w = [p] ∧ p.token = ⟨l, line⟩}

abbrev word (text : String) : Language Spaced := (Lexeme.keyword text).alone

abbrev sign (text : String) : Language Spaced := (Lexeme.symbol text).alone

/-- One or more readings with commas between. -/
def separated {α : Type} (own : α → Language Spaced) : List α → Language Spaced
  | [] => 0
  | a :: as => own a * (as.map fun a => sign "," * own a).prod

/-- Names with commas between. -/
def namesReadings : List String → Language Spaced
  | [] => 1
  | ns => separated (fun n => (Lexeme.name n).alone) ns

/-! ## Lines of statements -/

/-- The line that a call or an assignment from these tokens on is given. -/
def Spaced.reported (passed : Bool) (p : Spaced) : Nat := if passed then p.token.line else p.early

/-- The stretches from which on a call or an assignment is given this line. -/
def reportedOn (passed : Bool) (line : Nat) : Language Spaced :=
  {w | ∃ p v, w = p :: v ∧ line = p.reported passed}

/-- The statement may go on behind its last token, so that the blanks there are passed. -/
def Stmt.openEnded : Stmt → Bool
  | .localVars _ _ _ => true
  | .assign _ _ _ => true
  | .call _ _ => true
  | _ => false

/-! ## Trees -/

/-- The expression may be a call's argument without parentheses. -/
def Expr.isBareArgument : Expr → Bool
  | .table _ _ => true
  | .string _ _ => true
  | _ => false

/-- The key of a field written as a name. -/
def Expr.nameReadings : Expr → Language Spaced
  | .string text _ => (Lexeme.name text).alone
  | _ => 0

mutual

def Expr.readings : Expr → Language Spaced
  | .nil _ => word "nil"
  | .bool true _ => word "true"
  | .bool false _ => word "false"
  | .number value _ => (Lexeme.number value).alone
  | .string text _ => (Lexeme.string text).alone
  | .name n _ => (Lexeme.name n).alone
  | .index target key _ =>
    target.readings * (sign "[" * key.readings * sign "]" + sign "." * key.nameReadings)
  | .call c => c.readings
  | .function f => word "function" * f.readings
  | .table fields _ => sign "\x7b" * Field.listReadings fields * sign "\x7d"
  | .paren inner _ => sign "(" * inner.readings * sign ")"
  | .logical op left right _ => left.readings * word op.word * right.readings
  | .binary op left right _ => left.readings * sign op.symbol * right.readings
  | .unary op operand _ => op.lexeme.alone * operand.readings
  | .other _ _ => 0

/-- Expressions with commas between. -/
def Expr.listReadings : List Expr → Language Spaced
  | [] => 1
  | e :: es => e.readings * Expr.moreReadings es

/-- Expressions with a comma before each. -/
def Expr.moreReadings : List Expr → Language Spaced
  | [] => 1
  | e :: es => sign "," * e.readings * Expr.moreReadings es

/-- A single argument without parentheses. -/
def Expr.bareReadings : List Expr → Language Spaced
  | [e] => if e.isBareArgument then e.readings else 0
  | _ => 0

def Call.readings : Call → Language Spaced
  | .mk callee args _ =>
    callee.readings * (sign "(" * Expr.listReadings args * sign ")" + Expr.bareReadings args)

/-- Parameters, body and `end`. -/
def Lambda.readings : Lambda → Language Spaced
  | .mk params body _ _ =>
    sign "(" * namesReadings params * sign ")" * body.readings * word "end"

def Field.readings : Field → Language Spaced
  | .positional value _ => value.readings
  | .keyed key value _ =>
    (sign "[" * key.readings * sign "]" + key.nameReadings) * sign "=" * value.readings

def Field.listReadings : List Field → Language Spaced
  | [] => 1
  | f :: fs => f.readings * Field.moreReadings fs * (1 + (sign "," + sign ";"))

def Field.moreReadings : List Field → Language Spaced
  | [] => 1
  | f :: fs => (sign "," + sign ";") * f.readings * Field.moreReadings fs

def Target.readings : Target → Language Spaced
  | .name n _ => (Lexeme.name n).alone
  | .index target key _ =>
    target.readings * (sign "[" * key.readings * sign "]" + sign "." * key.nameReadings)

def Target.listReadings : List Target → Language Spaced
  | [] => 1
  | t :: ts => t.readings * Target.moreReadings ts

def Target.moreReadings : List Target → Language Spaced
  | [] => 1
  | t :: ts => sign "," * t.readings * Target.moreReadings ts

/-- A condition and a block. -/
def Clause.readings : Clause → Language Spaced
  | .mk condition body => condition.readings * word "then" * body.readings

def Clause.moreReadings : List Clause → Language Spaced
  | [] => 1
  | c :: cs => word "elseif" * c.readings * Clause.moreReadings cs

/-- A statement before which the blanks have been passed or not. -/
def Stmt.readings : Stmt → Bool → Language Spaced
  | .localVars names [] line, _ => (Lexeme.keyword "local").aloneOn line * namesReadings names
  | .localVars names (e :: es) line, _ =>
    (Lexeme.keyword "local").aloneOn line * namesReadings names *
      (sign "=" * (e.readings * Expr.moreReadings es))
  | .assign targets values line, passed =>
    reportedOn passed line ⊓
      (Target.listReadings targets * (sign "=" * Expr.listReadings values))
  | .call c line, passed => reportedOn passed line ⊓ c.readings
  | .doBlock body line, _ => (Lexeme.keyword "do").aloneOn line * body.readings * word "end"
  | .whileLoop condition body line, _ =>
    (Lexeme.keyword "while").aloneOn line * condition.readings * word "do" * body.readings *
      word "end"
  | .branch [] _ _, _ => 0
  | .branch (c :: cs) none line, _ =>
    (Lexeme.keyword "if").aloneOn line * c.readings * Clause.moreReadings cs * word "end"
  | .branch (c :: cs) (some otherwise) line, _ =>
    (Lexeme.keyword "if").aloneOn line * c.readings * Clause.moreReadings cs *
      (word "else" * otherwise.readings) * word "end"
  | .numericFor n start stop none body line, _ =>
    (Lexeme.keyword "for").aloneOn line * (Lexeme.name n).alone * sign "=" * start.readings *
      sign "," * stop.readings * word "do" * body.readings * word "end"
  | .numericFor n start stop (some step) body line, _ =>
    (Lexeme.keyword "for").aloneOn line * (Lexeme.name n).alone * sign "=" * start.readings *
      sign "," * stop.readings * (sign "," * step.readings) * word "do" * body.readings * word "end"
  | .genericFor names values body line, _ =>
    (Lexeme.keyword "for").aloneOn line * namesReadings names * word "in" *
      Expr.listReadings values * word "do" * body.readings * word "end"
  | .functionDecl target f line, _ =>
    (Lexeme.keyword "function").aloneOn line * target.readings * f.readings
  | .localFunction n f line, _ =>
    (Lexeme.keyword "local").aloneOn line * word "function" * (Lexeme.name n).alone * f.readings
  | .returnValues values line, _ =>
    (Lexeme.keyword "return").aloneOn line * Expr.listReadings values * (1 + sign ";")
  | .breakLoop line, _ => (Lexeme.keyword "break").aloneOn line
  | .other _ _, _ => 0

/-- Statements in a row, perhaps with semicolons before each and behind the last. A semicolon stands
between the blanks before it and the next statement. -/
def Stmt.rowReadings : List Stmt → Bool → Language Spaced
  | [], _ => (sign ";")∗
  | s :: ss, passed =>
    (s.readings passed + sign ";" * (sign ";")∗ * s.readings false) *
      Stmt.rowReadings ss s.openEnded

def Block.readings : Block → Language Spaced
  | .mk statements _ => Stmt.rowReadings statements false

end

attribute [simp] Expr.readings Expr.listReadings Expr.moreReadings Expr.bareReadings Call.readings
  Lambda.readings Field.readings Field.listReadings Field.moreReadings Target.readings
  Target.listReadings Target.moreReadings Clause.readings Clause.moreReadings Stmt.readings
  Stmt.rowReadings Block.readings

end MiniLua
