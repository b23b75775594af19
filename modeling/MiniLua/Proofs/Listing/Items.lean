import MiniLua.Proofs.Listing.Visits
import MiniLua.Proofs.Locating.Sites
import MiniLua.Proofs.Text.Printing

/-!
# The items of a program

An item is what has a line of its own in the listing: an expression, a field of a table constructor, a
statement or a block. Its children are the items that it holds, in order. An arm of an `if` is no item,
its condition and its body are; a list is none, its members are.
-/

namespace MiniLua

open MiniLua.Text

inductive Item where
  | expr (e : Expr)
  | field (f : Field)
  | stmt (s : Stmt)
  | block (b : Block)

def Expr.kind : Expr → String
  | .nil _ => "NIL"
  | .bool _ _ => "BOOLEAN"
  | .number _ _ => "NUMBER"
  | .string _ _ => "STRING"
  | .name _ _ => "NAME"
  | .index _ _ _ => "INDEX"
  | .call _ => "CALL"
  | .function _ => "FUNCTION"
  | .table _ _ => "TABLE"
  | .paren _ _ => "PAREN"
  | .logical _ _ _ _ => "LOGICAL"
  | .binary _ _ _ _ => "BINARY"
  | .unary _ _ _ => "UNARY"
  | .other kind _ => kind

def Field.kind : Field → String
  | .positional _ _ => "POSITIONAL_FIELD"
  | .keyed _ _ _ => "KEYED_FIELD"

def Expr.details : Expr → List Detail
  | .bool value _ => [.flag "literal" value]
  | .number value _ => [.number "literal" value]
  | .string text _ => [.text "literal" text]
  | .name n _ => [.text "name" n]
  | .function (.mk params _ declared _) =>
    (declared.map (Detail.text "name")).toList ++ nameDetails "params" params
  | .logical op _ _ _ => [.text "operator" op.word]
  | .binary op _ _ _ => [.text "operator" op.symbol]
  | .unary op _ _ => [.text "operator" op.symbol]
  | _ => []

def Stmt.details : Stmt → List Detail
  | .localVars names _ _ => nameDetails "names" names
  | .numericFor name _ _ _ _ _ => [.text "name" name]
  | .genericFor names _ _ _ => nameDetails "names" names
  | .localFunction name _ _ => [.text "name" name]
  | _ => []

namespace Item

def kind : Item → String
  | expr e => e.kind
  | field f => f.kind
  | stmt s => s.kind
  | block _ => "BLOCK"

def line : Item → Nat
  | expr e => e.line
  | field f => f.line
  | stmt s => s.line
  | block b => b.line

/-- What the listing shows of an item besides its kind and its line. -/
def details : Item → List Detail
  | expr e => e.details
  | stmt s => s.details
  | field _ | block _ => []

/-- The items that an item holds. What an assignment or a declaration stores into is the expression
that reads it. -/
def children : Item → List Item
  | expr (.nil _) | expr (.bool _ _) | expr (.number _ _) | expr (.string _ _)
  | expr (.name _ _) | expr (.other _ _) => []
  | expr (.index target key _) => [expr target, expr key]
  | expr (.call (.mk callee args _)) => expr callee :: args.map expr
  | expr (.function (.mk _ body _ _)) => [block body]
  | expr (.table fields _) => fields.map field
  | expr (.paren inner _) => [expr inner]
  | expr (.logical _ left right _) => [expr left, expr right]
  | expr (.binary _ left right _) => [expr left, expr right]
  | expr (.unary _ operand _) => [expr operand]
  | field (.positional value _) => [expr value]
  | field (.keyed key value _) => [expr key, expr value]
  | stmt (.localVars _ values _) => values.map expr
  | stmt (.assign targets values _) => targets.map (fun t => expr t.toExpr) ++ values.map expr
  | stmt (.call c _) => [expr (.call c)]
  | stmt (.doBlock body _) => [block body]
  | stmt (.whileLoop condition body _) => [expr condition, block body]
  | stmt (.branch clauses otherwise _) =>
    clauses.flatMap (fun c => [expr c.condition, block c.body]) ++ otherwise.toList.map block
  | stmt (.numericFor _ start stop step body _) =>
    [expr start, expr stop] ++ step.toList.map expr ++ [block body]
  | stmt (.genericFor _ values body _) => values.map expr ++ [block body]
  | stmt (.functionDecl target f _) => [expr target.toExpr, expr (.function f)]
  | stmt (.localFunction _ f _) => [expr (.function f)]
  | stmt (.returnValues values _) => values.map expr
  | stmt (.breakLoop _) | stmt (.other _ _) => []
  | block b => b.statements.map stmt

/-- The item at a place; a place tells which child is taken at each step. -/
def at? (n : Item) : List Nat → Option Item
  | [] => some n
  | i :: place => n.children[i]?.bind (at? · place)

def outline : Item → Outline
  | expr e => e.outline
  | field f => f.outline
  | stmt s => s.outline
  | block b => b.outline

end Item

/-! ## Outlines -/

theorem Expr.outlines_eq (es : List Expr) :
    Expr.outlines es = (es.map Item.expr).map Item.outline := by
  induction es with
  | nil => rw [Expr.outlines, List.map_nil, List.map_nil]
  | cons e es ih => rw [Expr.outlines, ih, List.map_cons, List.map_cons, Item.outline]

theorem Field.outlines_eq (fs : List Field) :
    Field.outlines fs = (fs.map Item.field).map Item.outline := by
  induction fs with
  | nil => rw [Field.outlines, List.map_nil, List.map_nil]
  | cons f fs ih => rw [Field.outlines, ih, List.map_cons, List.map_cons, Item.outline]

theorem Target.outline_eq (t : Target) : t.outline = (Item.expr t.toExpr).outline := by
  cases t with
  | name n line => rw [Target.outline, Target.toExpr, Item.outline, Expr.outline]
  | index target key line => rw [Target.outline, Target.toExpr, Item.outline, Expr.outline]

theorem Target.outlines_eq (ts : List Target) :
    Target.outlines ts = (ts.map fun t => Item.expr t.toExpr).map Item.outline := by
  induction ts with
  | nil => rw [Target.outlines, List.map_nil, List.map_nil]
  | cons t ts ih => rw [Target.outlines, ih, List.map_cons, List.map_cons, Target.outline_eq]

theorem Clause.outlines_eq (cs : List Clause) :
    Clause.outlines cs =
      (cs.flatMap fun c => [Item.expr c.condition, Item.block c.body]).map Item.outline := by
  induction cs with
  | nil => rw [Clause.outlines, List.flatMap_nil, List.map_nil]
  | cons c cs ih =>
    cases c
    rw [Clause.outlines, ih, List.flatMap_cons, List.map_append]
    rfl

theorem Stmt.outlines_eq (ss : List Stmt) :
    Stmt.outlines ss = (ss.map Item.stmt).map Item.outline := by
  induction ss with
  | nil => rw [Stmt.outlines, List.map_nil, List.map_nil]
  | cons s ss ih => rw [Stmt.outlines, ih, List.map_cons, List.map_cons, Item.outline]

/-! ## Details -/

namespace Detail

def label : Detail → String
  | flag label _ => label
  | number label _ => label
  | text label _ => label
  | texts label _ => label

/-- The values of details print whatever they are. -/
theorem printable_spelled {d : Detail} (h : Printable d.label.toList) :
    Printable d.spelled.toList := by
  have equals : Printable ['='] := by decide
  cases d with
  | flag label value =>
    have shown : Printable (if value then "True" else "False").toList := by cases value <;> decide
    rw [spelled, String.toList_append, String.toList_append]
    exact (h.append equals).append shown
  | number label value =>
    rw [spelled, String.toList_append, String.toList_append]
    exact (h.append equals).append (printable_of_figures (Number.figures_shortest value))
  | text label value =>
    rw [spelled, String.toList_append, String.toList_append]
    exact (h.append equals).append (printable_quoted value)
  | texts label values =>
    have each : ∀ part ∈ (values.map quoted).map String.toList, Printable part := by
      rw [List.map_map]
      exact List.forall_mem_map.mpr fun value _ => printable_quoted value
    simp only [spelled, String.toList_append, String.toList_intercalate]
    exact ((h.append (by decide)).append (.intercalate (by decide) each)).append (by decide)

end Detail

/-- Everything that the listing shows of a node is labelled with one of these. -/
def Detail.labels : List String := ["literal", "name", "names", "params", "operator"]

theorem label_of_mem_nameDetails {label : String} {names : List String} {d : Detail}
    (h : d ∈ nameDetails label names) : d.label = label := by
  cases names with
  | nil => cases h
  | cons name names =>
    obtain rfl := List.mem_singleton.mp h
    rfl

theorem Expr.label_mem {e : Expr} {d : Detail} (h : d ∈ e.details) : d.label ∈ Detail.labels := by
  cases e with
  | function f =>
    obtain ⟨params, body, name, line⟩ := f
    rcases List.mem_append.mp h with named | listed
    · obtain ⟨text, -, rfl⟩ := Option.map_eq_some_iff.mp (Option.mem_toList.mp named)
      simp [Detail.label, Detail.labels]
    · simp [label_of_mem_nameDetails listed, Detail.labels]
  | _ => simp_all [Expr.details, Detail.label, Detail.labels]

theorem Stmt.label_mem {s : Stmt} {d : Detail} (h : d ∈ s.details) : d.label ∈ Detail.labels := by
  cases s with
  | localVars names values line => simp [label_of_mem_nameDetails h, Detail.labels]
  | genericFor names values body line => simp [label_of_mem_nameDetails h, Detail.labels]
  | _ => simp_all [Stmt.details, Detail.label, Detail.labels]

theorem Item.printable_details (n : Item) :
    ∀ d ∈ n.details, Printable d.spelled.toList := by
  have words : ∀ label ∈ Detail.labels, Printable label.toList := by decide
  intro d member
  refine Detail.printable_spelled (words _ ?_)
  cases n with
  | expr e => exact Expr.label_mem member
  | stmt s => exact Stmt.label_mem member
  | field f => cases member
  | block b => cases member

/-! ## Outlines of items -/

theorem Expr.outline_eq (e : Expr) :
    e.outline = .node e.kind e.details e.line ((Item.expr e).children.map Item.outline) := by
  cases e with
  | call c =>
    cases c
    simp [Expr.outline, Call.outline, Expr.kind, Expr.details, Expr.line, Call.line, Item.children,
      Item.outline, Expr.outlines_eq]
  | function f =>
    cases f
    simp [Expr.outline, Lambda.outline, Expr.kind, Expr.details, Expr.line, Lambda.line,
      Item.children, Item.outline]
  | table fields line =>
    simp [Expr.outline, Expr.kind, Expr.details, Expr.line, Item.children, Field.outlines_eq]
  | _ => simp [Expr.outline, Expr.kind, Expr.details, Expr.line, Item.children, Item.outline]

theorem Field.outline_eq (f : Field) :
    f.outline = .node f.kind [] f.line ((Item.field f).children.map Item.outline) := by
  cases f <;> simp [Field.outline, Field.kind, Field.line, Item.children, Item.outline]

theorem Stmt.outline_eq (s : Stmt) :
    s.outline = .node s.kind s.details s.line ((Item.stmt s).children.map Item.outline) := by
  cases s with
  | assign targets values line =>
    simp [Stmt.outline, Stmt.kind, Stmt.details, Stmt.line, Item.children, Target.outlines_eq,
      Expr.outlines_eq]
  | branch clauses otherwise line =>
    cases otherwise <;>
      simp [Stmt.outline, Stmt.kind, Stmt.details, Stmt.line, Item.children, Clause.outlines_eq,
        Item.outline]
  | numericFor name start stop step body line =>
    cases step <;>
      simp [Stmt.outline, Stmt.kind, Stmt.details, Stmt.line, Item.children, Item.outline]
  | functionDecl target f line =>
    simp [Stmt.outline, Stmt.kind, Stmt.details, Stmt.line, Item.children, Target.outline_eq,
      Item.outline, Expr.outline]
  | _ =>
    simp [Stmt.outline, Stmt.kind, Stmt.details, Stmt.line, Item.children, Item.outline,
      Expr.outlines_eq, Expr.outline]

/-- An item is outlined by what is shown of it and the outlines of its children. -/
theorem Item.outline_eq (n : Item) :
    n.outline = .node n.kind n.details n.line (n.children.map Item.outline) := by
  cases n with
  | expr e => exact e.outline_eq
  | field f => exact f.outline_eq
  | stmt s => exact s.outline_eq
  | block b =>
    cases b
    rw [Item.outline, Block.outline, Stmt.outlines_eq]
    rfl

end MiniLua
