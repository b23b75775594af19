import MiniLua.Ast.Basic

/-!
# Programs without stray breaks

A `break` is enclosed if it stands in a loop of the function body it belongs to. The body of a loop
is inside one, and the body of a function is not, wherever the function is written.
-/

namespace MiniLua

mutual

/-- Every `break` in the functions of the expression is enclosed. -/
def Expr.enclosed : Expr → Bool
  | .nil _ => true
  | .bool _ _ => true
  | .number _ _ => true
  | .string _ _ => true
  | .name _ _ => true
  | .index target key _ => target.enclosed && key.enclosed
  | .call c => c.enclosed
  | .function f => f.enclosed
  | .table fields _ => Field.allEnclosed fields
  | .paren inner _ => inner.enclosed
  | .logical _ left right _ => left.enclosed && right.enclosed
  | .binary _ left right _ => left.enclosed && right.enclosed
  | .unary _ operand _ => operand.enclosed
  | .other _ _ => true

def Expr.allEnclosed : List Expr → Bool
  | [] => true
  | e :: es => e.enclosed && Expr.allEnclosed es

def Call.enclosed : Call → Bool
  | .mk callee args _ => callee.enclosed && Expr.allEnclosed args

def Lambda.enclosed : Lambda → Bool
  | .mk _ body _ _ => body.enclosed false

def Field.enclosed : Field → Bool
  | .positional value _ => value.enclosed
  | .keyed key value _ => key.enclosed && value.enclosed

def Field.allEnclosed : List Field → Bool
  | [] => true
  | f :: fs => f.enclosed && Field.allEnclosed fs

def Target.enclosed : Target → Bool
  | .name _ _ => true
  | .index target key _ => target.enclosed && key.enclosed

def Target.allEnclosed : List Target → Bool
  | [] => true
  | t :: ts => t.enclosed && Target.allEnclosed ts

def Clause.allEnclosed (inLoop : Bool) : List Clause → Bool
  | [] => true
  | .mk condition body :: clauses =>
    condition.enclosed && body.enclosed inLoop && Clause.allEnclosed inLoop clauses

/-- Every `break` of the statement is enclosed, where the statement itself stands in a loop of its
function body or not. -/
def Stmt.enclosed (inLoop : Bool) : Stmt → Bool
  | .localVars _ values _ => Expr.allEnclosed values
  | .assign targets values _ => Target.allEnclosed targets && Expr.allEnclosed values
  | .call c _ => c.enclosed
  | .doBlock body _ => body.enclosed inLoop
  | .whileLoop condition body _ => condition.enclosed && body.enclosed true
  | .branch clauses none _ => Clause.allEnclosed inLoop clauses
  | .branch clauses (some body) _ => Clause.allEnclosed inLoop clauses && body.enclosed inLoop
  | .numericFor _ start stop none body _ => start.enclosed && stop.enclosed && body.enclosed true
  | .numericFor _ start stop (some step) body _ =>
    start.enclosed && stop.enclosed && step.enclosed && body.enclosed true
  | .genericFor _ values body _ => Expr.allEnclosed values && body.enclosed true
  | .functionDecl target f _ => target.enclosed && f.enclosed
  | .localFunction _ f _ => f.enclosed
  | .returnValues values _ => Expr.allEnclosed values
  | .breakLoop _ => inLoop
  | .other _ _ => true

def Stmt.allEnclosed (inLoop : Bool) : List Stmt → Bool
  | [] => true
  | s :: ss => s.enclosed inLoop && Stmt.allEnclosed inLoop ss

def Block.enclosed (inLoop : Bool) : Block → Bool
  | .mk statements _ => Stmt.allEnclosed inLoop statements

end

end MiniLua
