import MiniLua.Grammar.Expression

/-! # The grammar of statements and blocks

A block ends before the first thing that is no statement, so most errors show up as text left over
at the end of the program. Only an expression in the place of a statement stops the parse itself,
unless it is a call or is assigned to. -/

namespace MiniLua.Grammar

open MiniLua.Parser

section

variable (expression : Parser Expr) (block : Parser Block)

/-- A function whose name is the one it is declared by. -/
def namedLambda (parts : List String) (line : Nat) (body : List String × Block) : Lambda :=
  .mk body.1 body.2 (some (".".intercalate parts)) line

def localFunction : Parser Stmt := do
  let place ← exact
  keyword "local"
  keyword "function"
  let n ← name
  let body ← functionBody block
  return .localFunction n (namedLambda [n] place.line body) place.line

/-- The values after `=`, or none. -/
def initialisers : Parser (Option (List Expr)) := opt (symbol "=" *> expressionList expression)

def localVars : Parser Stmt := do
  let place ← exact
  keyword "local"
  let names ← commaList name
  let values ← initialisers expression
  return .localVars names (values.getD []) place.line

/-- The variable or field that a dotted name stores into. -/
def dottedTarget (line : Nat) (first : String) (rest : List String) : Target :=
  match rest.reverse with
  | [] => .name first line
  | last :: before =>
    let table := before.reverse.foldl
      (fun (e : Expr) part => .index e (.string part line) line) (.name first line)
    .index table (.string last line) line

def functionDecl : Parser Stmt := do
  let place ← exact
  keyword "function"
  let first ← name
  let rest ← many (symbol "." *> name)
  let body ← functionBody block
  return .functionDecl (dottedTarget place.line first rest)
    (namedLambda (first :: rest) place.line body) place.line

def doBlock : Parser Stmt := do
  let place ← exact
  keyword "do"
  let body ← block
  keyword "end"
  return .doBlock body place.line

def whileLoop : Parser Stmt := do
  let place ← exact
  keyword "while"
  let condition ← expression
  keyword "do"
  let body ← block
  keyword "end"
  return .whileLoop condition body place.line

/-- A condition, `then` and a block, after `if` or `elseif`. -/
def clauseAfter (word : String) : Parser Clause := do
  keyword word
  let condition ← expression
  keyword "then"
  let body ← block
  return .mk condition body

def branch : Parser Stmt := do
  let place ← exact
  let first ← clauseAfter expression block "if"
  let rest ← many (clauseAfter expression block "elseif")
  let otherwise ← opt (keyword "else" *> block)
  keyword "end"
  return .branch (first :: rest) otherwise place.line

def numericFor : Parser Stmt := do
  let place ← exact
  keyword "for"
  let n ← name
  symbol "="
  let start ← expression
  symbol ","
  let stop ← expression
  let step ← opt (symbol "," *> expression)
  keyword "do"
  let body ← block
  keyword "end"
  return .numericFor n start stop step body place.line

def genericFor : Parser Stmt := do
  let place ← exact
  keyword "for"
  let names ← commaList name
  keyword "in"
  let values ← expressionList expression
  keyword "do"
  let body ← block
  keyword "end"
  return .genericFor names values body place.line

def breakLoop : Parser Stmt := do
  let place ← exact
  keyword "break"
  return .breakLoop place.line

/-- An assignment to names and index expressions, or a single call. -/
def toStatement? (heads : List Expr) (values : Option (List Expr)) (line : Nat) : Option Stmt :=
  match values with
  | some values => (heads.mapM Expr.toTarget?).map fun targets => .assign targets values line
  | none =>
    match heads with
    | [head] => head.toCall?.map fun call => .call call line
    | _ => none

def expressionStatement : Parser Stmt := do
  let place ← mark
  let heads ← commaList (prefixExpr expression)
  let values ← initialisers expression
  match toStatement? heads values place.line with
  | some statement => return statement
  | none => stop (.notStatement place)

/-- One statement; a semicolon alone is an empty one. -/
def statement : Parser (Option Stmt) :=
  (symbol ";" *> pure none)
    <|> (some <$> (localFunction block
      <|> localVars expression
      <|> functionDecl block
      <|> doBlock block
      <|> whileLoop expression block
      <|> branch expression block
      <|> numericFor expression block
      <|> genericFor expression block
      <|> breakLoop
      <|> expressionStatement expression))

def returnValues : Parser Stmt := do
  let place ← exact
  keyword "return"
  let values ← opt (expressionList expression)
  let _ ← opt (symbol ";")
  return .returnValues (values.getD []) place.line

/-- Statements and at most one `return`, which comes last. -/
def blockOf : Parser Block := do
  let place ← mark
  let statements ← many (statement expression block)
  let last ← opt (returnValues expression)
  return .mk (statements.reduceOption ++ last.toList) place.line

end

mutual

/-- Unary expressions nested less than `depth` deep. -/
def unary : (depth : Nat) → Parser Expr
  | 0 => fail
  | depth + 1 => unaryOf (unary depth) (block depth)

/-- Blocks nested less than `depth` deep. -/
def block : (depth : Nat) → Parser Block
  | 0 => fail
  | depth + 1 => blockOf (expressionOf (unary depth)) (block depth)

end

def expression (depth : Nat) : Parser Expr := expressionOf (unary depth)

end MiniLua.Grammar
