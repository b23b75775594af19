import MiniLua.Ast.Basic
import MiniLua.Proofs.Number.Displays

/-!
# The texts of a run

A program writes some texts down, as strings and as names of fields. A run makes others only by
concatenation, which takes texts and numbers.
-/

namespace MiniLua

mutual

/-- The strings of an expression, the names of fields among them. -/
def Expr.texts : Expr → List String
  | .nil _ => []
  | .bool _ _ => []
  | .number _ _ => []
  | .string text _ => [text]
  | .name _ _ => []
  | .index target key _ => target.texts ++ key.texts
  | .call c => c.texts
  | .function f => f.texts
  | .table fields _ => Field.allTexts fields
  | .paren inner _ => inner.texts
  | .logical _ left right _ => left.texts ++ right.texts
  | .binary _ left right _ => left.texts ++ right.texts
  | .unary _ operand _ => operand.texts
  | .other _ _ => []

def Expr.allTexts : List Expr → List String
  | [] => []
  | e :: es => e.texts ++ Expr.allTexts es

def Call.texts : Call → List String
  | .mk callee args _ => callee.texts ++ Expr.allTexts args

def Lambda.texts : Lambda → List String
  | .mk _ body _ _ => body.texts

def Field.texts : Field → List String
  | .positional value _ => value.texts
  | .keyed key value _ => key.texts ++ value.texts

def Field.allTexts : List Field → List String
  | [] => []
  | f :: fs => f.texts ++ Field.allTexts fs

def Target.texts : Target → List String
  | .name _ _ => []
  | .index target key _ => target.texts ++ key.texts

def Target.allTexts : List Target → List String
  | [] => []
  | t :: ts => t.texts ++ Target.allTexts ts

def Clause.allTexts : List Clause → List String
  | [] => []
  | .mk condition body :: cs => condition.texts ++ body.texts ++ Clause.allTexts cs

def Stmt.texts : Stmt → List String
  | .localVars _ values _ => Expr.allTexts values
  | .assign targets values _ => Target.allTexts targets ++ Expr.allTexts values
  | .call c _ => c.texts
  | .doBlock body _ => body.texts
  | .whileLoop condition body _ => condition.texts ++ body.texts
  | .branch clauses none _ => Clause.allTexts clauses
  | .branch clauses (some body) _ => Clause.allTexts clauses ++ body.texts
  | .numericFor _ start stop none body _ => start.texts ++ stop.texts ++ body.texts
  | .numericFor _ start stop (some step) body _ =>
    start.texts ++ stop.texts ++ step.texts ++ body.texts
  | .genericFor _ values body _ => Expr.allTexts values ++ body.texts
  | .functionDecl target f _ => target.texts ++ f.texts
  | .localFunction _ f _ => f.texts
  | .returnValues values _ => Expr.allTexts values
  | .breakLoop _ => []
  | .other _ _ => []

def Stmt.allTexts : List Stmt → List String
  | [] => []
  | s :: ss => s.texts ++ Stmt.allTexts ss

def Block.texts : Block → List String
  | .mk statements _ => Stmt.allTexts statements

end

/-- The texts that can be put together from given ones and from the displays of numbers. -/
inductive Built (given : List String) : String → Prop
  | given {text : String} : text ∈ given → Built given text
  | display (x : Float) : Built given (Number.display x)
  | append {left right : String} : Built given left → Built given right →
      Built given (left ++ right)

namespace Built

variable {given : List String} {text : String}

theorem unmarked (plain : ∀ t ∈ given, Number.Unmarked t.toList) (h : Built given text) :
    Number.Unmarked text.toList := by
  induction h with
  | given member => exact plain _ member
  | display x => exact Number.unmarked_display x
  | append _ _ left right =>
    rw [String.toList_append]
    exact left.append right

/-- Texts without the mark of a hexadecimal numeral cannot be put together to one that is too
large. -/
theorem not_oversize (plain : ∀ t ∈ given, Number.Unmarked t.toList) (h : Built given text) :
    ¬ Oversize text :=
  Number.not_oversize_of_unmarked (h.unmarked plain)

end Built

end MiniLua
