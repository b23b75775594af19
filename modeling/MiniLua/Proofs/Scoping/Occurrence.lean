import MiniLua.Ast.Basic

/-!
# Occurrences

Where a name stands in a program decides which declarations enclose it. An occurrence is a path
through the tree of the program; every declaration that the path goes into, or past in the same
block, puts a layer of names around it.
-/

namespace MiniLua

/-- A part of a program. Lists are taken apart cell by cell. -/
inductive Node where
  | expr (e : Expr)
  | exprs (es : List Expr)
  | call (c : Call)
  | lambda (f : Lambda)
  | fields (fs : List Field)
  | target (t : Target)
  | targets (ts : List Target)
  | stmt (s : Stmt)
  | stmts (ss : List Stmt)
  | clauses (cs : List Clause)
  | block (b : Block)

/-- The numbers of the parts that lead to an occurrence, the innermost first. -/
abbrev Path := List Nat

/-- An occurrence in one of the chunks of a session. -/
structure Spot where
  chunk : Nat
  path : Path
  deriving DecidableEq, Repr

def Spot.part (spot : Spot) (i : Nat) : Spot := ⟨spot.chunk, i :: spot.path⟩

/-- The names of one declaration; a block that declares nothing itself makes an empty layer. -/
structure Layer where
  spot : Spot
  names : List String
  deriving DecidableEq, Repr

/-- What a statement declares for the statements after it in its block. -/
def Stmt.declared? : Stmt → Option (List String)
  | .localVars names _ _ => some names
  | .localFunction name _ _ => some [name]
  | _ => none

/-- What a statement declares for itself: the body of a local function sees its name. -/
def Stmt.declaredWithin? : Stmt → Option (List String)
  | .localFunction name _ _ => some [name]
  | _ => none

/-- The parts of a node, with the names that the node declares around each. -/
def Node.parts : Node → List (Option (List String) × Node)
  | .expr (.index t k _) => [(none, .expr t), (none, .expr k)]
  | .expr (.call c) => [(none, .call c)]
  | .expr (.function f) => [(none, .lambda f)]
  | .expr (.table fs _) => [(none, .fields fs)]
  | .expr (.paren inner _) => [(none, .expr inner)]
  | .expr (.logical _ left right _) => [(none, .expr left), (none, .expr right)]
  | .expr (.binary _ left right _) => [(none, .expr left), (none, .expr right)]
  | .expr (.unary _ operand _) => [(none, .expr operand)]
  | .exprs (e :: es) => [(none, .expr e), (none, .exprs es)]
  | .call (.mk callee args _) => [(none, .expr callee), (none, .exprs args)]
  | .lambda (.mk params body _ _) => [(some params, .block body)]
  | .fields (.positional e _ :: fs) => [(none, .expr e), (none, .fields fs)]
  | .fields (.keyed k v _ :: fs) => [(none, .expr k), (none, .expr v), (none, .fields fs)]
  | .target (.index t k _) => [(none, .expr t), (none, .expr k)]
  | .targets (t :: ts) => [(none, .target t), (none, .targets ts)]
  | .stmt (.localVars _ values _) => [(none, .exprs values)]
  | .stmt (.assign ts values _) => [(none, .exprs values), (none, .targets ts)]
  | .stmt (.call c _) => [(none, .call c)]
  | .stmt (.doBlock body _) => [(some [], .block body)]
  | .stmt (.whileLoop condition body _) => [(none, .expr condition), (some [], .block body)]
  | .stmt (.branch cs otherwise _) =>
    (none, .clauses cs) :: otherwise.toList.map fun body => (some [], .block body)
  | .stmt (.numericFor name start stop step body _) =>
    (none, .expr start) :: (none, .expr stop) :: (some [name], .block body) ::
      step.toList.map fun e => (none, .expr e)
  | .stmt (.genericFor names values body _) => [(none, .exprs values), (some names, .block body)]
  | .stmt (.functionDecl t f _) => [(none, .lambda f), (none, .target t)]
  | .stmt (.localFunction _ f _) => [(none, .lambda f)]
  | .stmt (.returnValues values _) => [(none, .exprs values)]
  | .stmts (s :: ss) => [(s.declaredWithin?, .stmt s), (s.declared?, .stmts ss)]
  | .clauses (.mk condition body :: cs) =>
    [(none, .expr condition), (some [], .block body), (none, .clauses cs)]
  | .block (.mk statements _) => [(none, .stmts statements)]
  | _ => []

/-- The name that is read or stored at a node. -/
def Node.name? : Node → Option String
  | .expr (.name n _) => some n
  | .target (.name n _) => some n
  | _ => none

/-- The node at the end of a path and the layers around it, the innermost first. -/
def Block.at? (program : Block) (chunk : Nat) : Path → Option (List Layer × Node)
  | [] => some ([⟨⟨chunk, []⟩, []⟩], .block program)
  | i :: path => do
    let (layers, node) ← program.at? chunk path
    let (names, part) ← node.parts[i]?
    return ((names.map fun names => ⟨⟨chunk, path⟩, names⟩).toList ++ layers, part)

/-- In `local x = x`, with `x` read once more afterwards, only the second reading is enclosed. -/
example :
    let program : Block :=
      .mk [.localVars ["x"] [.name "x" 1] 1, .returnValues [.name "x" 2] 2] 1
    ((program.at? 0 [0, 0, 0, 0]).map (·.1.map (·.names)),
      (program.at? 0 [0, 0, 0, 1, 0]).map (·.1.map (·.names))) = (some [[]], some [["x"], []]) := by
  rfl

end MiniLua
