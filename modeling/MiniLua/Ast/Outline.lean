import MiniLua.Ast.Basic
import MiniLua.Number.Text
import MiniLua.Text.Quoted

/-! # The listing of a program

A program's outline keeps of each node its kind, its line, the details worth showing and its
children in source order. The listing writes the outline with one line per node, a node of depth `d`
indented by `2 * d` spaces. -/

namespace MiniLua

/-- What a listing shows of a node besides its children. -/
inductive Detail where
  | flag (label : String) (value : Bool)
  | number (label : String) (value : Float)
  | text (label value : String)
  | texts (label : String) (values : List String)

namespace Detail

def spelled : Detail → String
  | flag label value => label ++ "=" ++ if value then "True" else "False"
  | number label value => label ++ "=" ++ Number.shortest value
  | text label value => label ++ "=" ++ Text.quoted value
  | texts label values => label ++ "=[" ++ ", ".intercalate (values.map Text.quoted) ++ "]"

end Detail

/-- Names are shown unless there are none. -/
def nameDetails (label : String) : List String → List Detail
  | [] => []
  | names => [.texts label names]

inductive Outline where
  | node (kind : String) (details : List Detail) (line : Nat) (children : List Outline)

namespace Outline

def heading (kind : String) (details : List Detail) (line : Nat) : String :=
  let shown := match details with
    | [] => ""
    | details => "(" ++ ", ".intercalate (details.map Detail.spelled) ++ ")"
  kind ++ shown ++ s!"  @{line}"

mutual

/-- The lines of the listing, each with its depth. -/
def entries (depth : Nat) : Outline → List (Nat × String)
  | node kind details line children =>
    (depth, heading kind details line) :: entriesOfAll (depth + 1) children

def entriesOfAll (depth : Nat) : List Outline → List (Nat × String)
  | [] => []
  | o :: os => entries depth o ++ entriesOfAll depth os

end

def indent (depth : Nat) : String := String.ofList (List.replicate (2 * depth) ' ')

/-- The listing, every line ended. -/
def text (o : Outline) : String :=
  String.join ((entries 0 o).map fun (depth, line) => indent depth ++ line ++ "\n")

end Outline

mutual

def Expr.outline : Expr → Outline
  | .nil line => .node "NIL" [] line []
  | .bool value line => .node "BOOLEAN" [.flag "literal" value] line []
  | .number value line => .node "NUMBER" [.number "literal" value] line []
  | .string text line => .node "STRING" [.text "literal" text] line []
  | .name name line => .node "NAME" [.text "name" name] line []
  | .index target key line => .node "INDEX" [] line [target.outline, key.outline]
  | .call c => c.outline
  | .function f => f.outline
  | .table fields line => .node "TABLE" [] line (Field.outlines fields)
  | .paren inner line => .node "PAREN" [] line [inner.outline]
  | .logical op left right line =>
    .node "LOGICAL" [.text "operator" op.word] line [left.outline, right.outline]
  | .binary op left right line =>
    .node "BINARY" [.text "operator" op.symbol] line [left.outline, right.outline]
  | .unary op operand line => .node "UNARY" [.text "operator" op.symbol] line [operand.outline]
  | .other kind line => .node kind [] line []

def Expr.outlines : List Expr → List Outline
  | [] => []
  | e :: es => e.outline :: Expr.outlines es

def Call.outline : Call → Outline
  | .mk callee args line => .node "CALL" [] line (callee.outline :: Expr.outlines args)

def Lambda.outline : Lambda → Outline
  | .mk params body name line =>
    .node "FUNCTION" ((name.map (Detail.text "name")).toList ++ nameDetails "params" params) line
      [body.outline]

def Field.outline : Field → Outline
  | .positional value line => .node "POSITIONAL_FIELD" [] line [value.outline]
  | .keyed key value line => .node "KEYED_FIELD" [] line [key.outline, value.outline]

def Field.outlines : List Field → List Outline
  | [] => []
  | f :: fs => f.outline :: Field.outlines fs

def Target.outline : Target → Outline
  | .name name line => .node "NAME" [.text "name" name] line []
  | .index target key line => .node "INDEX" [] line [target.outline, key.outline]

def Target.outlines : List Target → List Outline
  | [] => []
  | t :: ts => t.outline :: Target.outlines ts

def Clause.outlines : List Clause → List Outline
  | [] => []
  | .mk condition body :: cs => condition.outline :: body.outline :: Clause.outlines cs

def Stmt.outline : Stmt → Outline
  | .localVars names values line =>
    .node "LOCAL" (nameDetails "names" names) line (Expr.outlines values)
  | .assign targets values line =>
    .node "ASSIGN" [] line (Target.outlines targets ++ Expr.outlines values)
  | .call c line => .node "CALL_STMT" [] line [c.outline]
  | .doBlock body line => .node "DO" [] line [body.outline]
  | .whileLoop condition body line => .node "WHILE" [] line [condition.outline, body.outline]
  | .branch clauses otherwise line =>
    .node "IF" [] line (Clause.outlines clauses ++
      match otherwise with
      | none => []
      | some body => [body.outline])
  | .numericFor name start stop step body line =>
    .node "NUMERIC_FOR" [.text "name" name] line (start.outline :: stop.outline ::
      ((match step with
        | none => []
        | some step => [step.outline]) ++ [body.outline]))
  | .genericFor names values body line =>
    .node "GENERIC_FOR" (nameDetails "names" names) line (Expr.outlines values ++ [body.outline])
  | .functionDecl target function line =>
    .node "FUNCTION_DECL" [] line [target.outline, function.outline]
  | .localFunction name function line =>
    .node "LOCAL_FUNCTION" [.text "name" name] line [function.outline]
  | .returnValues values line => .node "RETURN" [] line (Expr.outlines values)
  | .breakLoop line => .node "BREAK" [] line []
  | .other kind line => .node kind [] line []

def Stmt.outlines : List Stmt → List Outline
  | [] => []
  | s :: ss => s.outline :: Stmt.outlines ss

def Block.outline : Block → Outline
  | .mk statements line => .node "BLOCK" [] line (Stmt.outlines statements)

end

def Expr.listing (e : Expr) : String := e.outline.text

def Block.listing (b : Block) : String := b.outline.text

end MiniLua
