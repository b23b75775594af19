/-! # Programs

Every node knows the line it is reported at. The parser builds no `other` node; they stand for nodes
of trees that come from elsewhere and that an evaluator has to refuse. -/

namespace MiniLua

inductive ArithOp where
  | add
  | sub
  | mul
  | div
  | floorDiv
  | mod
  | pow
  deriving DecidableEq, Repr

inductive BinaryOp where
  | arith (op : ArithOp)
  | concat
  | eq
  | ne
  | lt
  | gt
  | le
  | ge
  deriving DecidableEq, Repr

inductive Connective where
  | and
  | or
  deriving DecidableEq, Repr

inductive UnaryOp where
  | neg
  | not
  | len
  | other (symbol : String)
  deriving DecidableEq, Repr

mutual

inductive Expr where
  | nil (line : Nat)
  | bool (value : Bool) (line : Nat)
  | number (value : Float) (line : Nat)
  | string (text : String) (line : Nat)
  | name (name : String) (line : Nat)
  | index (target key : Expr) (line : Nat)
  | call (call : Call)
  | function (function : Lambda)
  | table (fields : List Field) (line : Nat)
  | paren (inner : Expr) (line : Nat)
  | logical (op : Connective) (left right : Expr) (line : Nat)
  | binary (op : BinaryOp) (left right : Expr) (line : Nat)
  | unary (op : UnaryOp) (operand : Expr) (line : Nat)
  | other (kind : String) (line : Nat)

inductive Call where
  | mk (callee : Expr) (args : List Expr) (line : Nat)

/-- A function as written; a declared one carries the name it is declared by. -/
inductive Lambda where
  | mk (params : List String) (body : Block) (name : Option String) (line : Nat)

inductive Field where
  | positional (value : Expr) (line : Nat)
  | keyed (key value : Expr) (line : Nat)

/-- What an assignment stores into. -/
inductive Target where
  | name (name : String) (line : Nat)
  | index (target key : Expr) (line : Nat)

/-- One arm of an `if`. -/
inductive Clause where
  | mk (condition : Expr) (body : Block)

inductive Stmt where
  | localVars (names : List String) (values : List Expr) (line : Nat)
  | assign (targets : List Target) (values : List Expr) (line : Nat)
  | call (call : Call) (line : Nat)
  | doBlock (body : Block) (line : Nat)
  | whileLoop (condition : Expr) (body : Block) (line : Nat)
  | branch (clauses : List Clause) (otherwise : Option Block) (line : Nat)
  | numericFor (name : String) (start stop : Expr) (step : Option Expr) (body : Block) (line : Nat)
  | genericFor (names : List String) (values : List Expr) (body : Block) (line : Nat)
  | functionDecl (target : Target) (function : Lambda) (line : Nat)
  | localFunction (name : String) (function : Lambda) (line : Nat)
  | returnValues (values : List Expr) (line : Nat)
  | breakLoop (line : Nat)
  | other (kind : String) (line : Nat)

inductive Block where
  | mk (statements : List Stmt) (line : Nat)

end

namespace Call

def callee : Call → Expr
  | mk callee _ _ => callee

def args : Call → List Expr
  | mk _ args _ => args

def line : Call → Nat
  | mk _ _ line => line

end Call

namespace Lambda

def params : Lambda → List String
  | mk params _ _ _ => params

def body : Lambda → Block
  | mk _ body _ _ => body

def name : Lambda → Option String
  | mk _ _ name _ => name

def line : Lambda → Nat
  | mk _ _ _ line => line

end Lambda

namespace Block

def statements : Block → List Stmt
  | mk statements _ => statements

def line : Block → Nat
  | mk _ line => line

end Block

namespace Clause

def condition : Clause → Expr
  | mk condition _ => condition

def body : Clause → Block
  | mk _ body => body

end Clause

namespace Expr

def line : Expr → Nat
  | nil line => line
  | bool _ line => line
  | number _ line => line
  | string _ line => line
  | name _ line => line
  | index _ _ line => line
  | call c => c.line
  | function f => f.line
  | table _ line => line
  | paren _ line => line
  | logical _ _ _ line => line
  | binary _ _ _ line => line
  | unary _ _ line => line
  | other _ line => line

/-- The expression as something to assign to: only names and index expressions are. -/
def toTarget? : Expr → Option Target
  | name n line => some (.name n line)
  | index target key line => some (.index target key line)
  | _ => none

def toCall? : Expr → Option Call
  | call c => some c
  | _ => none

end Expr

namespace Target

def line : Target → Nat
  | name _ line => line
  | index _ _ line => line

/-- The expression that reads what the target stores. -/
def toExpr : Target → Expr
  | name n line => .name n line
  | index target key line => .index target key line

theorem toTarget_toExpr (t : Target) : t.toExpr.toTarget? = some t := by
  cases t <;> rfl

end Target

namespace Field

def line : Field → Nat
  | positional _ line => line
  | keyed _ _ line => line

end Field

namespace Stmt

def line : Stmt → Nat
  | localVars _ _ line => line
  | assign _ _ line => line
  | call _ line => line
  | doBlock _ line => line
  | whileLoop _ _ line => line
  | branch _ _ line => line
  | numericFor _ _ _ _ _ line => line
  | genericFor _ _ _ line => line
  | functionDecl _ _ line => line
  | localFunction _ _ line => line
  | returnValues _ line => line
  | breakLoop line => line
  | other _ line => line

def kind : Stmt → String
  | localVars .. => "LOCAL"
  | assign .. => "ASSIGN"
  | call .. => "CALL_STMT"
  | doBlock .. => "DO"
  | whileLoop .. => "WHILE"
  | branch .. => "IF"
  | numericFor .. => "NUMERIC_FOR"
  | genericFor .. => "GENERIC_FOR"
  | functionDecl .. => "FUNCTION_DECL"
  | localFunction .. => "LOCAL_FUNCTION"
  | returnValues .. => "RETURN"
  | breakLoop .. => "BREAK"
  | other kind _ => kind

end Stmt

namespace ArithOp

def symbol : ArithOp → String
  | add => "+"
  | sub => "-"
  | mul => "*"
  | div => "/"
  | floorDiv => "//"
  | mod => "%"
  | pow => "^"

end ArithOp

namespace BinaryOp

def symbol : BinaryOp → String
  | arith op => op.symbol
  | concat => ".."
  | eq => "=="
  | ne => "~="
  | lt => "<"
  | gt => ">"
  | le => "<="
  | ge => ">="

end BinaryOp

namespace Connective

def word : Connective → String
  | and => "and"
  | or => "or"

end Connective

namespace UnaryOp

def symbol : UnaryOp → String
  | neg => "-"
  | not => "not"
  | len => "#"
  | other symbol => symbol

end UnaryOp

end MiniLua
