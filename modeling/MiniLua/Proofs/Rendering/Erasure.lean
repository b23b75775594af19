import MiniLua.Ast.Basic

/-!
# Programs up to line numbers
-/

namespace MiniLua

mutual

/-- The same expression with every line set to 0. -/
def Expr.erase : Expr → Expr
  | .nil _ => .nil 0
  | .bool value _ => .bool value 0
  | .number value _ => .number value 0
  | .string text _ => .string text 0
  | .name n _ => .name n 0
  | .index target key _ => .index target.erase key.erase 0
  | .call c => .call c.erase
  | .function f => .function f.erase
  | .table fields _ => .table (Field.eraseAll fields) 0
  | .paren inner _ => .paren inner.erase 0
  | .logical op left right _ => .logical op left.erase right.erase 0
  | .binary op left right _ => .binary op left.erase right.erase 0
  | .unary op operand _ => .unary op operand.erase 0
  | .other kind _ => .other kind 0

def Expr.eraseAll : List Expr → List Expr
  | [] => []
  | e :: es => e.erase :: Expr.eraseAll es

def Call.erase : Call → Call
  | .mk callee args _ => .mk callee.erase (Expr.eraseAll args) 0

def Lambda.erase : Lambda → Lambda
  | .mk params body name _ => .mk params body.erase name 0

def Field.erase : Field → Field
  | .positional value _ => .positional value.erase 0
  | .keyed key value _ => .keyed key.erase value.erase 0

def Field.eraseAll : List Field → List Field
  | [] => []
  | f :: fs => f.erase :: Field.eraseAll fs

def Target.erase : Target → Target
  | .name n _ => .name n 0
  | .index target key _ => .index target.erase key.erase 0

def Target.eraseAll : List Target → List Target
  | [] => []
  | t :: ts => t.erase :: Target.eraseAll ts

def Clause.erase : Clause → Clause
  | .mk condition body => .mk condition.erase body.erase

def Clause.eraseAll : List Clause → List Clause
  | [] => []
  | c :: cs => c.erase :: Clause.eraseAll cs

def Stmt.erase : Stmt → Stmt
  | .localVars names values _ => .localVars names (Expr.eraseAll values) 0
  | .assign targets values _ => .assign (Target.eraseAll targets) (Expr.eraseAll values) 0
  | .call c _ => .call c.erase 0
  | .doBlock body _ => .doBlock body.erase 0
  | .whileLoop condition body _ => .whileLoop condition.erase body.erase 0
  | .branch clauses none _ => .branch (Clause.eraseAll clauses) none 0
  | .branch clauses (some otherwise) _ =>
    .branch (Clause.eraseAll clauses) (some otherwise.erase) 0
  | .numericFor n start stop none body _ =>
    .numericFor n start.erase stop.erase none body.erase 0
  | .numericFor n start stop (some step) body _ =>
    .numericFor n start.erase stop.erase (some step.erase) body.erase 0
  | .genericFor names values body _ => .genericFor names (Expr.eraseAll values) body.erase 0
  | .functionDecl target f _ => .functionDecl target.erase f.erase 0
  | .localFunction n f _ => .localFunction n f.erase 0
  | .returnValues values _ => .returnValues (Expr.eraseAll values) 0
  | .breakLoop _ => .breakLoop 0
  | .other kind _ => .other kind 0

def Stmt.eraseAll : List Stmt → List Stmt
  | [] => []
  | s :: ss => s.erase :: Stmt.eraseAll ss

def Block.erase : Block → Block
  | .mk statements _ => .mk (Stmt.eraseAll statements) 0

end

attribute [simp] Expr.erase Expr.eraseAll Call.erase Lambda.erase Field.erase Field.eraseAll
  Target.erase Target.eraseAll Clause.erase Clause.eraseAll Stmt.erase Stmt.eraseAll Block.erase

theorem Expr.eraseAll_eq (es : List Expr) : Expr.eraseAll es = es.map Expr.erase := by
  induction es with
  | nil => rw [Expr.eraseAll, List.map_nil]
  | cons e es ih => rw [Expr.eraseAll, List.map_cons, ih]

theorem Field.eraseAll_eq (fs : List Field) : Field.eraseAll fs = fs.map Field.erase := by
  induction fs with
  | nil => rw [Field.eraseAll, List.map_nil]
  | cons f fs ih => rw [Field.eraseAll, List.map_cons, ih]

theorem Clause.eraseAll_eq (cs : List Clause) : Clause.eraseAll cs = cs.map Clause.erase := by
  induction cs with
  | nil => rw [Clause.eraseAll, List.map_nil]
  | cons c cs ih => rw [Clause.eraseAll, List.map_cons, ih]

theorem Stmt.eraseAll_eq (ss : List Stmt) : Stmt.eraseAll ss = ss.map Stmt.erase := by
  induction ss with
  | nil => rw [Stmt.eraseAll, List.map_nil]
  | cons s ss ih => rw [Stmt.eraseAll, List.map_cons, ih]

theorem Target.erase_toExpr (t : Target) : t.erase.toExpr = t.toExpr.erase := by
  cases t <;> simp [Target.toExpr]

end MiniLua
