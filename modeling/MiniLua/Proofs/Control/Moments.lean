import Mathlib.Logic.Relation
import MiniLua.Proofs.Running.Headers
import MiniLua.Proofs.Running.Moving

/-!
# Moments of a run

A moment is where the evaluation of some part of a program begins: the part, the scope, the machine
and the calls that are left. What begins while a moment is being run is one of four kinds: an
operand, of which only the value matters; code inside, whose way of ending is passed on; a turn of a
loop; or the body of a function.
-/

namespace MiniLua

open Eval

/-- Whether the value decides alone, so that the right operand is not evaluated. -/
def Connective.decides : Connective → Value → Bool
  | .and, a => !a.truthy
  | .or, a => a.truthy

/-! ## Moments -/

/-- A part of a program to be evaluated; of a loop also what is left of its turns. -/
inductive Task where
  | expr (e : Expr)
  | exprs (es : List Expr)
  | call (c : Call)
  | fields (fields : List Field) (position : Nat) (t : Table)
  | target (t : Target)
  | targets (ts : List Target)
  | stmt (x : Stmt)
  | stmts (xs : List Stmt)
  | clauses (cs : List Clause)
  | block (body : Block)
  | whileTurns (condition : Expr) (body : Block) (limit : Nat)
  | countedTurns (name : String) (step stop : Float) (body : Block) (limit : Nat) (counter : Float)
  | keyedTurns (names : List String) (table : Nat) (body : Block) (keys : List Value)

namespace Task

/-- How the evaluation ends; one that gives a value ends normally. -/
def run (engine : Engine) (scope : Scope) : Task → Eval Signal
  | expr e => do
    let _ ← e.eval engine scope
    return .normal
  | exprs es => do
    let _ ← Expr.evalAll engine scope es
    return .normal
  | call c => do
    let _ ← c.eval engine scope
    return .normal
  | fields fs position t => do
    let _ ← Field.evalAll engine scope fs position t
    return .normal
  | target t => do
    let _ ← t.place engine scope
    return .normal
  | targets ts => do
    let _ ← Target.places engine scope ts
    return .normal
  | stmt x => do return (← x.exec engine scope).1
  | stmts xs => Stmt.execAll engine scope xs
  | clauses cs => do return (← Clause.execFirst engine scope cs).getD .normal
  | block body => body.exec engine scope
  | whileTurns condition body limit =>
    Eval.whileTurns (holds engine scope condition)
      (inFrame scope [] fun scope => body.exec engine scope) limit
  | countedTurns name step stop body limit counter =>
    Eval.countedTurns step stop
      (fun counter => inFrame scope [(name, .number counter)] fun scope => body.exec engine scope)
      limit counter
  | keyedTurns names id body keys =>
    Eval.keyedTurns (fun key => do return (← table id).get key)
      (fun key value =>
        inFrame scope (.ofLists names (Value.adjust [key, value] names.length))
          fun scope => body.exec engine scope) keys

/-- The task is to run code, not to find a value. -/
def isControl : Task → Bool
  | stmt _ => true
  | stmts _ => true
  | clauses _ => true
  | block _ => true
  | whileTurns .. => true
  | countedTurns .. => true
  | keyedTurns .. => true
  | _ => false

def isTurns : Task → Bool
  | whileTurns .. => true
  | countedTurns .. => true
  | keyedTurns .. => true
  | _ => false

end Task

structure Moment where
  /-- How many calls are left. -/
  budget : Nat
  scope : Scope
  machine : Machine
  task : Task

/-- The machine once tracing has named the statement. -/
def Machine.announced (m : Machine) (x : Stmt) : Machine :=
  (traceLine fun _ => s!"exec {x.kind} @{x.line}").final m

namespace Moment

/-- How the moment ends, where loops take so many turns. -/
def run (turns : Nat) (p : Moment) : EStateM.Result Halt Machine Signal :=
  p.task.run (engine turns p.budget) p.scope p.machine

/-- A block that begins in a new frame. -/
def framed (budget : Nat) (scope : Scope) (m : Machine) (bs : Bindings) (body : Block) : Moment :=
  let (frames, scope) := m.frames.push scope bs
  ⟨budget, scope, { m with frames }, .block body⟩

/-- A turn of a loop over keys, for one of them. -/
def keyed (budget : Nat) (scope : Scope) (m : Machine) (names : List String) (id : Nat)
    (key : Value) (body : Block) : Moment :=
  let value := (m.tables.getD id .empty).get key
  framed budget scope m (.ofLists names (Value.adjust [key, value] names.length)) body

/-- The body of a function of the store that is called on arguments. -/
def entered (budget : Nat) (m : Machine) (id : Nat) (args : List Value) : Moment :=
  let f := m.functions.getD id default
  let (frames, scope) := m.frames.push f.scope (.ofLists f.params (Value.adjust args f.params.length))
  let depth := m.depth + 1
  let m := (traceLine fun _ => s!"call {f.name} (depth {depth})").final { m with frames, depth }
  ⟨budget, scope, m, .block f.body⟩

/-- A program that begins as a chunk. -/
def opening (maxDepth : Nat) (m : Machine) (program : Block) : Moment :=
  framed maxDepth [0] { m with depth := 0 } [] program

end Moment

/-! ## Parts -/

/-- What is evaluated for a value: operands of expressions, calls, fields and targets, and the
expressions of statements. -/
inductive Evaluates (engine : Engine) (s : Scope) (m : Machine) : Task → Machine → Task → Prop
  | indexTarget {target key : Expr} {line : Nat} :
    Evaluates engine s m (.expr (.index target key line)) m (.expr target)
  | indexKey {target key : Expr} {line : Nat} {v : Value} {m' : Machine} :
    target.eval engine s m = .ok v m' →
    Evaluates engine s m (.expr (.index target key line)) m' (.expr key)
  | call {c : Call} : Evaluates engine s m (.expr (.call c)) m (.call c)
  | table {fields : List Field} {line : Nat} :
    Evaluates engine s m (.expr (.table fields line)) m (.fields fields 1 .empty)
  | paren {inner : Expr} {line : Nat} :
    Evaluates engine s m (.expr (.paren inner line)) m (.expr inner)
  | logicalLeft {op : Connective} {left right : Expr} {line : Nat} :
    Evaluates engine s m (.expr (.logical op left right line)) m (.expr left)
  | logicalRight {op : Connective} {left right : Expr} {line : Nat} {v : Value} {m' : Machine} :
    left.eval engine s m = .ok v m' → op.decides v.compress = false →
    Evaluates engine s m (.expr (.logical op left right line)) m' (.expr right)
  | binaryLeft {op : BinaryOp} {left right : Expr} {line : Nat} :
    Evaluates engine s m (.expr (.binary op left right line)) m (.expr left)
  | binaryRight {op : BinaryOp} {left right : Expr} {line : Nat} {v : Value} {m' : Machine} :
    left.eval engine s m = .ok v m' →
    Evaluates engine s m (.expr (.binary op left right line)) m' (.expr right)
  | unary {op : UnaryOp} {operand : Expr} {line : Nat} :
    Evaluates engine s m (.expr (.unary op operand line)) m (.expr operand)
  | firstExpr {e : Expr} {es : List Expr} : Evaluates engine s m (.exprs (e :: es)) m (.expr e)
  | moreExprs {e e' : Expr} {es : List Expr} {v : Value} {m' : Machine} :
    e.eval engine s m = .ok v m' →
    Evaluates engine s m (.exprs (e :: e' :: es)) m' (.exprs (e' :: es))
  | callee {callee : Expr} {args : List Expr} {line : Nat} :
    Evaluates engine s m (.call (.mk callee args line)) m (.expr callee)
  | args {callee : Expr} {args : List Expr} {line : Nat} {f : Value} {m' : Machine} :
    callee.eval engine s m = .ok f m' →
    Evaluates engine s m (.call (.mk callee args line)) m' (.exprs args)
  | positional {e : Expr} {line : Nat} {fields : List Field} {position : Nat} {t : Table} :
    Evaluates engine s m (.fields (.positional e line :: fields) position t) m (.expr e)
  | afterPositional {e : Expr} {line : Nat} {field : Field} {fields : List Field} {position : Nat}
      {t : Table} {v : Value} {m' : Machine} : e.eval engine s m = .ok v m' →
    Evaluates engine s m (.fields (.positional e line :: field :: fields) position t) m'
      (.fields (field :: fields) (position + 1) (t.insert (Table.positionKey position) v.compress))
  | fieldKey {key value : Expr} {line : Nat} {fields : List Field} {position : Nat} {t : Table} :
    Evaluates engine s m (.fields (.keyed key value line :: fields) position t) m (.expr key)
  | fieldValue {key value : Expr} {line : Nat} {fields : List Field} {position : Nat} {t : Table}
      {k : Value} {m' : Machine} : key.eval engine s m = .ok k m' →
    Evaluates engine s m (.fields (.keyed key value line :: fields) position t) m' (.expr value)
  | afterKeyed {key value : Expr} {line : Nat} {fields : List Field} {position : Nat} {t t' : Table}
      {k v : Value} {m' m'' : Machine} : key.eval engine s m = .ok k m' →
    value.eval engine s m' = .ok v m'' → t.set k.compress v.compress = .ok t' →
    Evaluates engine s m (.fields (.keyed key value line :: fields) position t) m''
      (.fields fields position t')
  | targetTable {target key : Expr} {line : Nat} :
    Evaluates engine s m (.target (.index target key line)) m (.expr target)
  | targetKey {target key : Expr} {line : Nat} {v : Value} {m' : Machine} :
    target.eval engine s m = .ok v m' →
    Evaluates engine s m (.target (.index target key line)) m' (.expr key)
  | firstTarget {t : Target} {ts : List Target} : Evaluates engine s m (.targets (t :: ts)) m (.target t)
  | moreTargets {t : Target} {ts : List Target} {place : Place} {m' : Machine} :
    t.place engine s m = .ok place m' → Evaluates engine s m (.targets (t :: ts)) m' (.targets ts)
  | localValues {names : List String} {values : List Expr} {line : Nat} :
    Evaluates engine s m (.stmt (.localVars names values line)) m (.exprs values)
  | assigned {targets : List Target} {values : List Expr} {line : Nat} :
    Evaluates engine s m (.stmt (.assign targets values line)) m (.exprs values)
  | assignTargets {targets : List Target} {values : List Expr} {line : Nat} {vs : List Value}
      {m' : Machine} : Expr.evalAll engine s values m = .ok vs m' →
    Evaluates engine s m (.stmt (.assign targets values line)) m' (.targets targets)
  | callStmt {c : Call} {line : Nat} : Evaluates engine s m (.stmt (.call c line)) m (.call c)
  | clauseCondition {condition : Expr} {body : Block} {clauses : List Clause} :
    Evaluates engine s m (.clauses (.mk condition body :: clauses)) m (.expr condition)
  | whileCondition {condition : Expr} {body : Block} {limit : Nat} :
    Evaluates engine s m (.whileTurns condition body (limit + 1)) m (.expr condition)
  | forStart {name : String} {start stop : Expr} {step : Option Expr} {body : Block} {line : Nat} :
    Evaluates engine s m (.stmt (.numericFor name start stop step body line)) m (.expr start)
  | forLimit {name : String} {start stop : Expr} {step : Option Expr} {body : Block} {line : Nat}
      {x : Float} {m' : Machine} : forOperand engine s .start start m = .ok x m' →
    Evaluates engine s m (.stmt (.numericFor name start stop step body line)) m' (.expr stop)
  | forStep {name : String} {start stop step : Expr} {body : Block} {line : Nat} {x y : Float}
      {m' m'' : Machine} : forOperand engine s .start start m = .ok x m' →
    forOperand engine s .limit stop m' = .ok y m'' →
    Evaluates engine s m (.stmt (.numericFor name start stop (some step) body line)) m'' (.expr step)
  | forCallee {names : List String} {callee : Expr} {args : List Expr} {l : Nat} {body : Block}
      {line : Nat} :
    Evaluates engine s m (.stmt (.genericFor names [.call (.mk callee args l)] body line)) m
      (.expr callee)
  | forArgs {names : List String} {callee : Expr} {args : List Expr} {l : Nat} {body : Block}
      {line : Nat} {v : Value} {m' : Machine} : callee.eval engine s m = .ok v m' →
    v.compress = .builtin .pairs →
    Evaluates engine s m (.stmt (.genericFor names [.call (.mk callee args l)] body line)) m'
      (.exprs args)
  | declared {target : Target} {f : Lambda} {line : Nat} {v : Value} {m' : Machine} :
    closureOf s f m = .ok v m' →
    Evaluates engine s m (.stmt (.functionDecl target f line)) m' (.target target)
  | returned {values : List Expr} {line : Nat} :
    Evaluates engine s m (.stmt (.returnValues values line)) m (.exprs values)

/-- Code of the same turn and the same function body. What is left of the turns of a loop is inside
the loop, the turns themselves are not. -/
inductive Inside (turns : Nat) : Moment → Moment → Prop
  | statements {b : Nat} {s : Scope} {m : Machine} {xs : List Stmt} {line : Nat} :
    Inside turns ⟨b, s, m, .block (.mk xs line)⟩ ⟨b, s, m, .stmts xs⟩
  | first {b : Nat} {s : Scope} {m : Machine} {x : Stmt} {xs : List Stmt} :
    Inside turns ⟨b, s, m, .stmts (x :: xs)⟩ ⟨b, s, m.announced x, .stmt x⟩
  | rest {b : Nat} {s s' : Scope} {m m' : Machine} {x : Stmt} {xs : List Stmt} :
    x.exec (engine turns b) s (m.announced x) = .ok (.normal, s') m' →
    Inside turns ⟨b, s, m, .stmts (x :: xs)⟩ ⟨b, s', m', .stmts xs⟩
  | doBlock {b : Nat} {s : Scope} {m : Machine} {body : Block} {line : Nat} :
    Inside turns ⟨b, s, m, .stmt (.doBlock body line)⟩ (.framed b s m [] body)
  | clauses {b : Nat} {s : Scope} {m : Machine} {cs : List Clause} {otherwise : Option Block}
      {line : Nat} :
    Inside turns ⟨b, s, m, .stmt (.branch cs otherwise line)⟩ ⟨b, s, m, .clauses cs⟩
  | otherwise {b : Nat} {s : Scope} {m m' : Machine} {cs : List Clause} {body : Block} {line : Nat} :
    Clause.execFirst (engine turns b) s cs m = .ok none m' →
    Inside turns ⟨b, s, m, .stmt (.branch cs (some body) line)⟩ (.framed b s m' [] body)
  | clause {b : Nat} {s : Scope} {m m' : Machine} {condition : Expr} {body : Block}
      {cs : List Clause} : holds (engine turns b) s condition m = .ok true m' →
    Inside turns ⟨b, s, m, .clauses (.mk condition body :: cs)⟩ (.framed b s m' [] body)
  | nextClause {b : Nat} {s : Scope} {m m' : Machine} {condition : Expr} {body : Block}
      {cs : List Clause} : holds (engine turns b) s condition m = .ok false m' →
    Inside turns ⟨b, s, m, .clauses (.mk condition body :: cs)⟩ ⟨b, s, m', .clauses cs⟩
  | whileLoop {b : Nat} {s : Scope} {m : Machine} {condition : Expr} {body : Block} {line : Nat} :
    Inside turns ⟨b, s, m, .stmt (.whileLoop condition body line)⟩
      ⟨b, s, m, .whileTurns condition body turns⟩
  | numericFor {b : Nat} {s : Scope} {m m' : Machine} {name : String} {start stop : Expr}
      {step : Option Expr} {body : Block} {line : Nat} {first last stride : Float} :
    counting (engine turns b) s start stop step m = .ok (first, last, stride) m' →
    Inside turns ⟨b, s, m, .stmt (.numericFor name start stop step body line)⟩
      ⟨b, s, m', .countedTurns name stride last body turns first⟩
  | genericFor {b : Nat} {s : Scope} {m m' : Machine} {names : List String} {values : List Expr}
      {body : Block} {line id : Nat} {keys : List Value} :
    keying (engine turns b) s values m = .ok (id, keys) m' →
    Inside turns ⟨b, s, m, .stmt (.genericFor names values body line)⟩
      ⟨b, s, m', .keyedTurns names id body keys⟩
  | nextWhile {b : Nat} {s : Scope} {m m' m'' : Machine} {condition : Expr} {body : Block}
      {limit : Nat} : holds (engine turns b) s condition m = .ok true m' →
    (Moment.framed b s m' [] body).run turns = .ok .normal m'' →
    Inside turns ⟨b, s, m, .whileTurns condition body (limit + 1)⟩
      ⟨b, s, m'', .whileTurns condition body limit⟩
  | nextCounter {b : Nat} {s : Scope} {m m' : Machine} {name : String} {step stop counter : Float}
      {body : Block} {limit : Nat} : withinLimit step stop counter = true →
    (Moment.framed b s m [(name, .number counter)] body).run turns = .ok .normal m' →
    Inside turns ⟨b, s, m, .countedTurns name step stop body (limit + 1) counter⟩
      ⟨b, s, m', .countedTurns name step stop body limit (counter + step)⟩
  | passedOver {b : Nat} {s : Scope} {m : Machine} {names : List String} {id : Nat} {body : Block}
      {key : Value} {keys : List Value} :
    ((m.tables.getD id .empty).get key).isNil = true →
    Inside turns ⟨b, s, m, .keyedTurns names id body (key :: keys)⟩
      ⟨b, s, m, .keyedTurns names id body keys⟩
  | nextKey {b : Nat} {s : Scope} {m m' : Machine} {names : List String} {id : Nat} {body : Block}
      {key : Value} {keys : List Value} :
    ((m.tables.getD id .empty).get key).isNil = false →
    (Moment.keyed b s m names id key body).run turns = .ok .normal m' →
    Inside turns ⟨b, s, m, .keyedTurns names id body (key :: keys)⟩
      ⟨b, s, m', .keyedTurns names id body keys⟩

/-- The first of the turns that are left. -/
inductive Turn (turns : Nat) : Moment → Moment → Prop
  | whileLoop {b : Nat} {s : Scope} {m m' : Machine} {condition : Expr} {body : Block}
      {limit : Nat} : holds (engine turns b) s condition m = .ok true m' →
    Turn turns ⟨b, s, m, .whileTurns condition body (limit + 1)⟩ (.framed b s m' [] body)
  | counter {b : Nat} {s : Scope} {m : Machine} {name : String} {step stop counter : Float}
      {body : Block} {limit : Nat} : withinLimit step stop counter = true →
    Turn turns ⟨b, s, m, .countedTurns name step stop body (limit + 1) counter⟩
      (.framed b s m [(name, .number counter)] body)
  | key {b : Nat} {s : Scope} {m : Machine} {names : List String} {id : Nat} {body : Block}
      {key : Value} {keys : List Value} :
    ((m.tables.getD id .empty).get key).isNil = false →
    Turn turns ⟨b, s, m, .keyedTurns names id body (key :: keys)⟩ (.keyed b s m names id key body)

/-- A call that runs a body. -/
inductive Enters (turns : Nat) : Moment → Moment → Prop
  | call {b : Nat} {s : Scope} {m m' m'' : Machine} {callee : Expr} {args : List Expr} {line : Nat}
      {f : Value} {id : Nat} {vs : List Value} :
    callee.eval (engine turns (b + 1)) s m = .ok f m' → f.compress = .ref (.function id) →
    Expr.evalAll (engine turns (b + 1)) s args m' = .ok vs m'' →
    Enters turns ⟨b + 1, s, m, .call (.mk callee args line)⟩ (.entered b m'' id vs)

/-- What begins next, one level further in, while a moment is being run. -/
inductive Begins (turns : Nat) : Moment → Moment → Prop
  | evaluates {b : Nat} {s : Scope} {m m' : Machine} {x y : Task} :
    Evaluates (engine turns b) s m x m' y → Begins turns ⟨b, s, m, x⟩ ⟨b, s, m', y⟩
  | inside {p q : Moment} : Inside turns p q → Begins turns p q
  | turn {p q : Moment} : Turn turns p q → Begins turns p q
  | enters {p q : Moment} : Enters turns p q → Begins turns p q

/-- While the first moment is being run, the second one comes. -/
def Reaches (turns : Nat) : Moment → Moment → Prop := Relation.ReflTransGen (Begins turns)

end MiniLua
