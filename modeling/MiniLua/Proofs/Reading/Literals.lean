import MiniLua.Ast.Basic
import MiniLua.Token.Basic

/-!
# The literals of a program

The names, strings and numbers that a tree is built from, in the order in which they are written,
and the ones among the tokens of a text. A name and a string with the same characters make the same
literal, since a tree keeps the name of a field as a string.
-/

namespace MiniLua

inductive Literal where
  | text (value : String)
  | number (value : Float)
  deriving DecidableEq

def Lexeme.literal? : Lexeme → Option Literal
  | .name word => some (.text word)
  | .string text => some (.text text)
  | .number value => some (.number value)
  | _ => none

/-- The values of the tokens that are names, strings and numbers. -/
def Token.literals (ts : List Token) : List Literal := ts.filterMap (·.lexeme.literal?)

def Literal.names (names : List String) : List Literal := names.map .text

mutual

def Expr.literals : Expr → List Literal
  | .nil _ => []
  | .bool _ _ => []
  | .number value _ => [.number value]
  | .string text _ => [.text text]
  | .name n _ => [.text n]
  | .index target key _ => target.literals ++ key.literals
  | .call c => c.literals
  | .function f => f.literals
  | .table fields _ => Field.allLiterals fields
  | .paren inner _ => inner.literals
  | .logical _ left right _ => left.literals ++ right.literals
  | .binary _ left right _ => left.literals ++ right.literals
  | .unary _ operand _ => operand.literals
  | .other _ _ => []

def Expr.allLiterals : List Expr → List Literal
  | [] => []
  | e :: es => e.literals ++ Expr.allLiterals es

def Call.literals : Call → List Literal
  | .mk callee args _ => callee.literals ++ Expr.allLiterals args

/-- The name that a declared function carries is written where it is declared. -/
def Lambda.literals : Lambda → List Literal
  | .mk params body _ _ => Literal.names params ++ body.literals

def Field.literals : Field → List Literal
  | .positional value _ => value.literals
  | .keyed key value _ => key.literals ++ value.literals

def Field.allLiterals : List Field → List Literal
  | [] => []
  | f :: fs => f.literals ++ Field.allLiterals fs

def Target.literals : Target → List Literal
  | .name n _ => [.text n]
  | .index target key _ => target.literals ++ key.literals

def Target.allLiterals : List Target → List Literal
  | [] => []
  | t :: ts => t.literals ++ Target.allLiterals ts

def Clause.allLiterals : List Clause → List Literal
  | [] => []
  | .mk condition body :: cs => condition.literals ++ body.literals ++ Clause.allLiterals cs

def Stmt.literals : Stmt → List Literal
  | .localVars names values _ => Literal.names names ++ Expr.allLiterals values
  | .assign targets values _ => Target.allLiterals targets ++ Expr.allLiterals values
  | .call c _ => c.literals
  | .doBlock body _ => body.literals
  | .whileLoop condition body _ => condition.literals ++ body.literals
  | .branch clauses none _ => Clause.allLiterals clauses
  | .branch clauses (some body) _ => Clause.allLiterals clauses ++ body.literals
  | .numericFor n start stop none body _ =>
    .text n :: start.literals ++ stop.literals ++ body.literals
  | .numericFor n start stop (some step) body _ =>
    .text n :: start.literals ++ stop.literals ++ step.literals ++ body.literals
  | .genericFor names values body _ =>
    Literal.names names ++ Expr.allLiterals values ++ body.literals
  | .functionDecl target f _ => target.literals ++ f.literals
  | .localFunction n f _ => .text n :: f.literals
  | .returnValues values _ => Expr.allLiterals values
  | .breakLoop _ => []
  | .other _ _ => []

def Stmt.allLiterals : List Stmt → List Literal
  | [] => []
  | s :: ss => s.literals ++ Stmt.allLiterals ss

def Block.literals : Block → List Literal
  | .mk statements _ => Stmt.allLiterals statements

end

attribute [simp] Expr.literals Expr.allLiterals Call.literals Lambda.literals Field.literals
  Field.allLiterals Target.literals Target.allLiterals Clause.allLiterals Stmt.literals
  Stmt.allLiterals Block.literals

theorem Expr.allLiterals_eq (es : List Expr) : Expr.allLiterals es = es.flatMap Expr.literals := by
  induction es with
  | nil => rw [Expr.allLiterals, List.flatMap_nil]
  | cons e es ih => rw [Expr.allLiterals, List.flatMap_cons, ih]

theorem Field.allLiterals_eq (fs : List Field) :
    Field.allLiterals fs = fs.flatMap Field.literals := by
  induction fs with
  | nil => rw [Field.allLiterals, List.flatMap_nil]
  | cons f fs ih => rw [Field.allLiterals, List.flatMap_cons, ih]

theorem Target.allLiterals_eq (ts : List Target) :
    Target.allLiterals ts = ts.flatMap Target.literals := by
  induction ts with
  | nil => rw [Target.allLiterals, List.flatMap_nil]
  | cons t ts ih => rw [Target.allLiterals, List.flatMap_cons, ih]

def Clause.literals (c : Clause) : List Literal := c.condition.literals ++ c.body.literals

theorem Clause.allLiterals_eq (cs : List Clause) :
    Clause.allLiterals cs = cs.flatMap Clause.literals := by
  induction cs with
  | nil => rw [Clause.allLiterals, List.flatMap_nil]
  | cons c cs ih =>
    cases c
    rw [Clause.allLiterals, List.flatMap_cons, ih]
    rfl

theorem Stmt.allLiterals_eq (ss : List Stmt) : Stmt.allLiterals ss = ss.flatMap Stmt.literals := by
  induction ss with
  | nil => rw [Stmt.allLiterals, List.flatMap_nil]
  | cons s ss ih => rw [Stmt.allLiterals, List.flatMap_cons, ih]

theorem Expr.eq_toExpr {e : Expr} {t : Target} (h : e.toTarget? = some t) : e = t.toExpr := by
  cases e with
  | name n line =>
    cases h
    rfl
  | index target key line =>
    cases h
    rfl
  | _ => cases h

/-- Expressions that can be assigned to are the readings of what they become. -/
theorem Expr.eq_map_toExpr {es : List Expr} {ts : List Target}
    (h : es.mapM Expr.toTarget? = some ts) : es = ts.map Target.toExpr := by
  induction es generalizing ts with
  | nil =>
    cases h
    rfl
  | cons e es ih =>
    rw [List.mapM_cons] at h
    obtain ⟨t, first, h⟩ := Option.bind_eq_some_iff.mp h
    obtain ⟨rest, others, h⟩ := Option.bind_eq_some_iff.mp h
    cases h
    rw [List.map_cons, ← ih others, ← e.eq_toExpr first]

theorem Target.literals_toExpr (t : Target) : t.toExpr.literals = t.literals := by
  cases t with
  | name n line => rw [Target.toExpr, Target.literals, Expr.literals]
  | index target key line => rw [Target.toExpr, Target.literals, Expr.literals]

theorem Expr.literals_of_mapM_toTarget? {es : List Expr} {ts : List Target}
    (h : es.mapM Expr.toTarget? = some ts) :
    ts.flatMap Target.literals = es.flatMap Expr.literals := by
  rw [Expr.eq_map_toExpr h, List.flatMap_map]
  exact congrArg ts.flatMap (funext fun t => t.literals_toExpr.symm)

end MiniLua
