import MiniLua.Ast.Basic
import MiniLua.Grammar.Parser

/-! # The grammar of expressions

Precedence from tight to loose: `^`, unary operators, `* / // %`, `+ -`, `..`, comparisons, `and`,
`or`. Each level is a function of the parser for its operands; the parsers for a unary expression
and for a block are parameters, so that nesting is tied once and for all in the grammar of blocks.

A name is reported at the end of what stands before it, comments passed; a call at the end of what
is called; a binary operation where its left operand is; everything else at its first terminal. -/

namespace MiniLua.Grammar

open MiniLua.Parser

/-- What can follow a name or a parenthesis. -/
inductive Suffix where
  | index (key : Expr) (line : Nat)
  | call (args : List Expr) (line : Nat)

def Suffix.apply (head : Expr) : Suffix → Expr
  | index key line => .index head key line
  | call args line => .call (.mk head args line)

def literal : Parser Expr := do
  let place ← exact
  (keyword "nil" *> pure (.nil place.line))
    <|> (keyword "true" *> pure (.bool true place.line))
    <|> (keyword "false" *> pure (.bool false place.line))
    <|> (number >>= fun value => pure (.number value place.line))
    <|> (string >>= fun text => pure (.string text place.line))

def nameRef : Parser Expr := do
  let place ← mark
  let n ← name
  return .name n place.line

section

variable (expression : Parser Expr) (block : Parser Block)

/-- Expressions with commas between, the first reported at its own terminal. -/
def expressionList : Parser (List Expr) := do
  let _ ← exact
  commaList expression

/-- Parameters, body and `end`. -/
def functionBody : Parser (List String × Block) := do
  symbol "("
  let params ← opt (commaList name)
  symbol ")"
  let body ← block
  keyword "end"
  return (params.getD [], body)

def functionExpr : Parser Expr := do
  let place ← exact
  keyword "function"
  let (params, body) ← functionBody block
  return .function (.mk params body none place.line)

def bracketField : Parser Field := do
  let place ← exact
  symbol "["
  let key ← expression
  symbol "]"
  symbol "="
  let value ← expression
  return .keyed key value place.line

def namedField : Parser Field := do
  let place ← mark
  let n ← name
  symbol "="
  let value ← expression
  return .keyed (.string n place.line) value place.line

def positionalField : Parser Field := do
  let place ← exact
  let value ← expression
  return .positional value place.line

def field : Parser Field :=
  bracketField expression <|> namedField expression <|> positionalField expression

def fieldSeparator : Parser Unit := symbol "," <|> symbol ";"

def fieldList : Parser (List Field) := do
  let first ← field expression
  let rest ← many do
    fieldSeparator
    field expression
  let _ ← opt fieldSeparator
  return first :: rest

def tableConstructor : Parser Expr := do
  let place ← exact
  symbol "\x7b"
  let fields ← opt (fieldList expression)
  symbol "\x7d"
  return .table (fields.getD []) place.line

def parenExpr : Parser Expr := do
  let place ← exact
  symbol "("
  let inner ← expression
  symbol ")"
  return .paren inner place.line

def parenArgs : Parser (List Expr) := do
  symbol "("
  let args ← opt (expressionList expression)
  symbol ")"
  return args.getD []

def stringArg : Parser (List Expr) := do
  let place ← exact
  let text ← string
  return [.string text place.line]

def callArgs : Parser (List Expr) :=
  parenArgs expression <|> (tableConstructor expression >>= fun t => pure [t]) <|> stringArg

def indexSuffix : Parser Suffix := do
  let place ← exact
  symbol "["
  let key ← expression
  symbol "]"
  return .index key place.line

def fieldSuffix : Parser Suffix := do
  let place ← exact
  symbol "."
  let n ← name
  return .index (.string n place.line) place.line

def callSuffix : Parser Suffix := do
  let place ← here
  let args ← callArgs expression
  return .call args place.line

def suffix : Parser Suffix :=
  indexSuffix expression <|> fieldSuffix <|> callSuffix expression

/-- A name or parenthesis with its suffixes. -/
def prefixExpr : Parser Expr := do
  let head ← nameRef <|> parenExpr expression
  let suffixes ← many (suffix expression)
  return suffixes.foldl Suffix.apply head

def simpleExpr : Parser Expr :=
  literal <|> functionExpr block <|> tableConstructor expression <|> prefixExpr expression

end

/-! ## Operators -/

/-- The operation at the line of its left operand. -/
def binaryAt (left : Expr) (op : BinaryOp) (right : Expr) : Expr := .binary op left right left.line

def operatorOf : List BinaryOp → Parser BinaryOp
  | [] => fail
  | op :: ops => (symbol op.symbol *> pure op) <|> operatorOf ops

/-- Operands joined by operators of one level, grouped to the left. -/
def leftLevel (ops : List BinaryOp) (operand : Parser Expr) : Parser Expr := do
  let first ← operand
  let rest ← many do
    let op ← operatorOf ops
    let right ← operand
    return (op, right)
  return rest.foldl (fun left (op, right) => binaryAt left op right) first

/-- Operands joined by `..`, grouped to the right. -/
def concatChain (first : Expr) : List Expr → Expr
  | [] => first
  | second :: rest => binaryAt first .concat (concatChain second rest)

def concatLevel (operand : Parser Expr) : Parser Expr := do
  let first ← operand
  let rest ← many do
    symbol ".."
    operand
  return concatChain first rest

def logicalLevel (op : Connective) (operand : Parser Expr) : Parser Expr := do
  let first ← operand
  let rest ← many do
    keyword op.word
    operand
  return rest.foldl (fun left right => .logical op left right left.line) first

def mulOps : List BinaryOp := [.arith .mul, .arith .floorDiv, .arith .div, .arith .mod]

def addOps : List BinaryOp := [.arith .add, .arith .sub]

/-- A longer comparison is tried before the one it starts with. -/
def compareOps : List BinaryOp := [.le, .ge, .eq, .ne, .lt, .gt]

def expressionOf (unary : Parser Expr) : Parser Expr :=
  logicalLevel .or (logicalLevel .and (leftLevel compareOps
    (concatLevel (leftLevel addOps (leftLevel mulOps unary)))))

/-- A simple expression, raised to a power or not; the exponent may carry a unary operator. -/
def powerExpr (simple unary : Parser Expr) : Parser Expr := do
  let base ← simple
  match ← opt (symbol "^" *> unary) with
  | none => return base
  | some exponent => return binaryAt base (.arith .pow) exponent

def unaryOperator : Parser UnaryOp :=
  (keyword "not" *> pure .not) <|> (symbol "#" *> pure .len) <|> (symbol "-" *> pure .neg)

def unaryOperation (unary : Parser Expr) : Parser Expr := do
  let place ← exact
  let op ← unaryOperator
  let operand ← unary
  return .unary op operand place.line

/-- A unary expression, given those nested one level deeper. -/
def unaryOf (unary : Parser Expr) (block : Parser Block) : Parser Expr :=
  unaryOperation unary <|> powerExpr (simpleExpr (expressionOf unary) block) unary

end MiniLua.Grammar
