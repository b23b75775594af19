import MiniLua.Ast.Basic
import MiniLua.Number.Numeral
import MiniLua.Token.Spelling

/-!
# Programs as tokens

The tokens that spell a program, and the programs that can be spelled: operands bind at least as
tightly as their place asks for, everything else stands in parentheses.
-/

namespace MiniLua

/-! ## Binding strength -/

/-- How tightly an operator binds, from `or` to `^`; unary operators have level 7. -/
def ArithOp.level : ArithOp → Nat
  | .add => 5
  | .sub => 5
  | .pow => 8
  | _ => 6

def BinaryOp.level : BinaryOp → Nat
  | .arith op => op.level
  | .concat => 4
  | _ => 3

def Connective.level : Connective → Nat
  | .or => 1
  | .and => 2

/-- The level of an expression's outermost operator; 9 if there is none. -/
def Expr.level : Expr → Nat
  | .logical op _ _ _ => op.level
  | .binary op _ _ _ => op.level
  | .unary _ _ _ => 7
  | _ => 9

/-- What the left operand has to bind with: `..` groups to the right, and the base of `^` has no
operator at all. -/
def BinaryOp.leftLevel : BinaryOp → Nat
  | .concat => 5
  | .arith .pow => 9
  | op => op.level

/-- What the right operand has to bind with; an exponent may have a unary operator. -/
def BinaryOp.rightLevel : BinaryOp → Nat
  | .concat => 4
  | .arith .pow => 7
  | op => op.level + 1

/-- The expressions that can be indexed and called as they are. -/
def Expr.isHead : Expr → Bool
  | .name _ _ => true
  | .paren _ _ => true
  | .index _ _ _ => true
  | .call _ => true
  | _ => false

/-- The names of a variable or of a field reached by names alone. -/
def Expr.parts? : Expr → Option (List String)
  | .name n _ => some [n]
  | .index target (.string field _) _ => target.parts?.map (· ++ [field])
  | _ => none

def Target.parts? (t : Target) : Option (List String) := t.toExpr.parts?

def UnaryOp.lexeme : UnaryOp → Lexeme
  | .not => .keyword "not"
  | op => .symbol op.symbol

/-- Names with a symbol between. -/
def Lexeme.joined (separator : String) : List String → List Lexeme
  | [] => []
  | n :: ns => .name n :: ns.flatMap fun n => [.symbol separator, .name n]

/-! ## The tokens of a program -/

mutual

def Expr.tokens : Expr → List Lexeme
  | .nil _ => [.keyword "nil"]
  | .bool true _ => [.keyword "true"]
  | .bool false _ => [.keyword "false"]
  | .number value _ => [.number value]
  | .string text _ => [.string text]
  | .name n _ => [.name n]
  | .index target key _ => target.tokens ++ .symbol "[" :: key.tokens ++ [.symbol "]"]
  | .call c => c.tokens
  | .function f => .keyword "function" :: f.tokens
  | .table fields _ => .symbol "\x7b" :: Field.listTokens fields ++ [.symbol "\x7d"]
  | .paren inner _ => .symbol "(" :: inner.tokens ++ [.symbol ")"]
  | .logical op left right _ => left.tokens ++ .keyword op.word :: right.tokens
  | .binary op left right _ => left.tokens ++ .symbol op.symbol :: right.tokens
  | .unary op operand _ => op.lexeme :: operand.tokens
  | .other _ _ => []

/-- Expressions with commas between. -/
def Expr.listTokens : List Expr → List Lexeme
  | [] => []
  | e :: es => e.tokens ++ Expr.moreTokens es

/-- Expressions with a comma before each. -/
def Expr.moreTokens : List Expr → List Lexeme
  | [] => []
  | e :: es => .symbol "," :: e.tokens ++ Expr.moreTokens es

def Call.tokens : Call → List Lexeme
  | .mk callee args _ => callee.tokens ++ .symbol "(" :: Expr.listTokens args ++ [.symbol ")"]

/-- Parameters, body and `end`. -/
def Lambda.tokens : Lambda → List Lexeme
  | .mk params body _ _ =>
    .symbol "(" :: Lexeme.joined "," params ++ .symbol ")" :: body.tokens ++ [.keyword "end"]

def Field.tokens : Field → List Lexeme
  | .positional value _ => value.tokens
  | .keyed key value _ =>
    .symbol "[" :: key.tokens ++ .symbol "]" :: .symbol "=" :: value.tokens

def Field.listTokens : List Field → List Lexeme
  | [] => []
  | f :: fs => f.tokens ++ Field.moreTokens fs

def Field.moreTokens : List Field → List Lexeme
  | [] => []
  | f :: fs => .symbol "," :: f.tokens ++ Field.moreTokens fs

def Target.tokens : Target → List Lexeme
  | .name n _ => [.name n]
  | .index target key _ => target.tokens ++ .symbol "[" :: key.tokens ++ [.symbol "]"]

def Target.listTokens : List Target → List Lexeme
  | [] => []
  | t :: ts => t.tokens ++ Target.moreTokens ts

def Target.moreTokens : List Target → List Lexeme
  | [] => []
  | t :: ts => .symbol "," :: t.tokens ++ Target.moreTokens ts

/-- A condition and a block. -/
def Clause.tokens : Clause → List Lexeme
  | .mk condition body => condition.tokens ++ .keyword "then" :: body.tokens

def Clause.moreTokens : List Clause → List Lexeme
  | [] => []
  | c :: cs => .keyword "elseif" :: c.tokens ++ Clause.moreTokens cs

def Stmt.tokens : Stmt → List Lexeme
  | .localVars names [] _ => .keyword "local" :: Lexeme.joined "," names
  | .localVars names (e :: es) _ =>
    .keyword "local" :: Lexeme.joined "," names ++ .symbol "=" :: e.tokens ++ Expr.moreTokens es
  | .assign targets values _ =>
    Target.listTokens targets ++ .symbol "=" :: Expr.listTokens values
  | .call c _ => c.tokens
  | .doBlock body _ => .keyword "do" :: body.tokens ++ [.keyword "end"]
  | .whileLoop condition body _ =>
    .keyword "while" :: condition.tokens ++ .keyword "do" :: body.tokens ++ [.keyword "end"]
  | .branch [] _ _ => []
  | .branch (c :: cs) none _ =>
    .keyword "if" :: c.tokens ++ Clause.moreTokens cs ++ [.keyword "end"]
  | .branch (c :: cs) (some otherwise) _ =>
    .keyword "if" :: c.tokens ++ Clause.moreTokens cs ++ .keyword "else" :: otherwise.tokens ++
      [.keyword "end"]
  | .numericFor n start stop none body _ =>
    .keyword "for" :: .name n :: .symbol "=" :: start.tokens ++ .symbol "," :: stop.tokens ++
      .keyword "do" :: body.tokens ++ [.keyword "end"]
  | .numericFor n start stop (some step) body _ =>
    .keyword "for" :: .name n :: .symbol "=" :: start.tokens ++ .symbol "," :: stop.tokens ++
      .symbol "," :: step.tokens ++ .keyword "do" :: body.tokens ++ [.keyword "end"]
  | .genericFor names values body _ =>
    .keyword "for" :: Lexeme.joined "," names ++ .keyword "in" :: Expr.listTokens values ++
      .keyword "do" :: body.tokens ++ [.keyword "end"]
  | .functionDecl target f _ =>
    .keyword "function" :: Lexeme.joined "." (target.parts?.getD []) ++ f.tokens
  | .localFunction n f _ => .keyword "local" :: .keyword "function" :: .name n :: f.tokens
  | .returnValues values _ => .keyword "return" :: Expr.listTokens values
  | .breakLoop _ => [.keyword "break"]
  | .other _ _ => []

/-- Statements with a semicolon after each. -/
def Stmt.listTokens : List Stmt → List Lexeme
  | [] => []
  | s :: ss => s.tokens ++ .symbol ";" :: Stmt.listTokens ss

def Block.tokens : Block → List Lexeme
  | .mk statements _ => Stmt.listTokens statements

end

attribute [simp] Expr.tokens Expr.listTokens Expr.moreTokens Call.tokens Lambda.tokens Field.tokens
  Field.listTokens Field.moreTokens Target.tokens Target.listTokens Target.moreTokens Clause.tokens
  Clause.moreTokens Stmt.tokens Stmt.listTokens Block.tokens

/-! ## Programs that can be spelled -/

def Stmt.isReturn : Stmt → Bool
  | .returnValues _ _ => true
  | _ => false

mutual

def Expr.wellFormed : Expr → Bool
  | .index target key _ => target.isHead && target.wellFormed && key.wellFormed
  | .call c => c.wellFormed
  | .function f => f.name.isNone && f.wellFormed
  | .table fields _ => Field.allWellFormed fields
  | .paren inner _ => inner.wellFormed
  | .logical op left right _ =>
    op.level ≤ left.level && op.level < right.level && left.wellFormed && right.wellFormed
  | .binary op left right _ =>
    op.leftLevel ≤ left.level && op.rightLevel ≤ right.level && left.wellFormed && right.wellFormed
  | .unary (.other _) _ _ => false
  | .unary _ operand _ => 7 ≤ operand.level && operand.wellFormed
  | .other _ _ => false
  | _ => true

def Expr.allWellFormed : List Expr → Bool
  | [] => true
  | e :: es => e.wellFormed && Expr.allWellFormed es

def Call.wellFormed : Call → Bool
  | .mk callee args _ => callee.isHead && callee.wellFormed && Expr.allWellFormed args

def Lambda.wellFormed : Lambda → Bool
  | .mk _ body _ _ => body.wellFormed

def Field.wellFormed : Field → Bool
  | .positional value _ => value.wellFormed
  | .keyed key value _ => key.wellFormed && value.wellFormed

def Field.allWellFormed : List Field → Bool
  | [] => true
  | f :: fs => f.wellFormed && Field.allWellFormed fs

def Target.wellFormed : Target → Bool
  | .name _ _ => true
  | .index target key _ => target.isHead && target.wellFormed && key.wellFormed

def Target.allWellFormed : List Target → Bool
  | [] => true
  | t :: ts => t.wellFormed && Target.allWellFormed ts

def Clause.wellFormed : Clause → Bool
  | .mk condition body => condition.wellFormed && body.wellFormed

def Clause.allWellFormed : List Clause → Bool
  | [] => true
  | c :: cs => c.wellFormed && Clause.allWellFormed cs

def Stmt.wellFormed : Stmt → Bool
  | .localVars names values _ => !names.isEmpty && Expr.allWellFormed values
  | .assign targets values _ =>
    !targets.isEmpty && !values.isEmpty && Target.allWellFormed targets &&
      Expr.allWellFormed values
  | .call c _ => c.wellFormed
  | .doBlock body _ => body.wellFormed
  | .whileLoop condition body _ => condition.wellFormed && body.wellFormed
  | .branch clauses none _ => !clauses.isEmpty && Clause.allWellFormed clauses
  | .branch clauses (some otherwise) _ =>
    !clauses.isEmpty && Clause.allWellFormed clauses && otherwise.wellFormed
  | .numericFor _ start stop none body _ =>
    start.wellFormed && stop.wellFormed && body.wellFormed
  | .numericFor _ start stop (some step) body _ =>
    start.wellFormed && stop.wellFormed && step.wellFormed && body.wellFormed
  | .genericFor names values body _ =>
    !names.isEmpty && !values.isEmpty && Expr.allWellFormed values && body.wellFormed
  | .functionDecl target f _ =>
    f.wellFormed &&
      match target.parts? with
      | some parts => f.name = some (".".intercalate parts)
      | none => false
  | .localFunction n f _ => f.wellFormed && f.name = some n
  | .returnValues values _ => Expr.allWellFormed values
  | .breakLoop _ => true
  | .other _ _ => false

def Stmt.allWellFormed : List Stmt → Bool
  | [] => true
  | s :: ss => s.wellFormed && Stmt.allWellFormed ss

/-- A `return` comes last. -/
def Block.wellFormed : Block → Bool
  | .mk statements _ =>
    statements.dropLast.all (!·.isReturn) && Stmt.allWellFormed statements

end

attribute [simp] Expr.wellFormed Expr.allWellFormed Call.wellFormed Lambda.wellFormed
  Field.wellFormed Field.allWellFormed Target.wellFormed Target.allWellFormed Clause.wellFormed
  Clause.allWellFormed Stmt.wellFormed Stmt.allWellFormed Block.wellFormed

/-! ## Lists -/

theorem Expr.moreTokens_eq (es : List Expr) :
    Expr.moreTokens es = es.flatMap fun e => .symbol "," :: e.tokens := by
  induction es with
  | nil => rfl
  | cons e es ih => rw [Expr.moreTokens, ih, List.flatMap_cons]

theorem Expr.allWellFormed_eq (es : List Expr) : Expr.allWellFormed es = es.all Expr.wellFormed := by
  induction es with
  | nil => rfl
  | cons e es ih => rw [Expr.allWellFormed, ih, List.all_cons]

theorem Field.moreTokens_eq (fs : List Field) :
    Field.moreTokens fs = fs.flatMap fun f => .symbol "," :: f.tokens := by
  induction fs with
  | nil => rfl
  | cons f fs ih => rw [Field.moreTokens, ih, List.flatMap_cons]

theorem Field.allWellFormed_eq (fs : List Field) :
    Field.allWellFormed fs = fs.all Field.wellFormed := by
  induction fs with
  | nil => rfl
  | cons f fs ih => rw [Field.allWellFormed, ih, List.all_cons]

theorem Target.moreTokens_eq (ts : List Target) :
    Target.moreTokens ts = ts.flatMap fun t => .symbol "," :: t.tokens := by
  induction ts with
  | nil => rfl
  | cons t ts ih => rw [Target.moreTokens, ih, List.flatMap_cons]

theorem Target.allWellFormed_eq (ts : List Target) :
    Target.allWellFormed ts = ts.all Target.wellFormed := by
  induction ts with
  | nil => rfl
  | cons t ts ih => rw [Target.allWellFormed, ih, List.all_cons]

theorem Clause.moreTokens_eq (cs : List Clause) :
    Clause.moreTokens cs = cs.flatMap fun c => .keyword "elseif" :: c.tokens := by
  induction cs with
  | nil => rfl
  | cons c cs ih => rw [Clause.moreTokens, ih, List.flatMap_cons]

theorem Clause.allWellFormed_eq (cs : List Clause) :
    Clause.allWellFormed cs = cs.all Clause.wellFormed := by
  induction cs with
  | nil => rfl
  | cons c cs ih => rw [Clause.allWellFormed, ih, List.all_cons]

theorem Stmt.listTokens_eq (ss : List Stmt) :
    Stmt.listTokens ss = ss.flatMap fun s => s.tokens ++ [.symbol ";"] := by
  induction ss with
  | nil => rfl
  | cons s ss ih => rw [Stmt.listTokens, ih, List.flatMap_cons, List.append_assoc]; rfl

theorem Stmt.allWellFormed_eq (ss : List Stmt) : Stmt.allWellFormed ss = ss.all Stmt.wellFormed := by
  induction ss with
  | nil => rfl
  | cons s ss ih => rw [Stmt.allWellFormed, ih, List.all_cons]

end MiniLua
