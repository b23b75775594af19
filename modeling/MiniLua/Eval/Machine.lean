import MiniLua.Ast.Basic
import MiniLua.Scope
import MiniLua.Table
import MiniLua.Text.Quoted
import MiniLua.Token.Basic
import MiniLua.Value.Operator

/-! # The state of a run

The store of frames, tables and functions, how many function bodies are running, and what has been
written. An evaluation changes this state and gives a value or halts; the state stays as it was at
the halt. -/

namespace MiniLua

/-- A function value: its code and the scope it was created in. -/
structure Closure where
  name : String
  params : List String
  body : Block
  scope : Scope

instance : Inhabited Closure := ⟨"?", [], .mk [] 0, []⟩

structure Machine where
  frames : Frames
  tables : Array Table
  functions : Array Closure
  /-- The number of function bodies that are running. -/
  depth : Nat
  /-- What programs have printed. -/
  output : String
  /-- What tracing has written. -/
  trace : String
  tracing : Bool
  /-- The references that have been written as text, in the order of their first time. -/
  named : List Ref

namespace Machine

/-- No tables and functions yet, and one frame, which binds the builtin functions. -/
def initial (tracing : Bool) : Machine :=
  { frames := #[Builtin.all.map fun b => (b.name, .builtin b)]
    tables := #[]
    functions := #[]
    depth := 0
    output := ""
    trace := ""
    tracing
    named := [] }

end Machine

/-- Why an evaluation ends early. -/
inductive Halt where
  /-- An error; the line is zero until a node has given its own. -/
  | fault (error : RuntimeError) (line : Nat)
  | crash (c : Crash)
  /-- A loop has used up the number of turns it was given. -/
  | exhausted

abbrev Eval := EStateM Halt Machine

namespace Eval

variable {α : Type}

def fault (error : RuntimeError) : Eval α := throw (.fault error 0)

/-- Gives an error without a line this one. -/
def atLine (line : Nat) (x : Eval α) : Eval α := fun m =>
  match x m with
  | .error (.fault error 0) m' => .error (.fault error line) m'
  | result => result

/-- Runs one function body more. -/
def deeper (x : Eval α) : Eval α := fun m =>
  match x { m with depth := m.depth + 1 } with
  | .ok a m' => .ok a { m' with depth := m'.depth - 1 }
  | .error e m' => .error e { m' with depth := m'.depth - 1 }

def traceLine (line : Unit → String) : Eval Unit := modify fun m =>
  if m.tracing then { m with trace := m.trace ++ "[debug] " ++ line () ++ "\n" } else m

def write (text : String) : Eval Unit := modify fun m => { m with output := m.output ++ text }

/-! ## Variables -/

def pushFrame (scope : Scope) (bs : Bindings) : Eval Scope :=
  modifyGet fun m =>
    let (frames, scope) := m.frames.push scope bs
    (scope, { m with frames })

def lookup (scope : Scope) (name : String) : Eval Value := do
  return (← get).frames.lookup scope name

def assign (scope : Scope) (name : String) (value : Value) : Eval Unit :=
  modify fun m => { m with frames := m.frames.assign scope name value }

/-! ## Tables and functions -/

def newTable (t : Table) : Eval Value :=
  modifyGet fun m => (.ref (.table m.tables.size), { m with tables := m.tables.push t })

def newFunction (f : Closure) : Eval Value :=
  modifyGet fun m => (.ref (.function m.functions.size), { m with functions := m.functions.push f })

def table (id : Nat) : Eval Table := do
  return (← get).tables.getD id .empty

def closure (id : Nat) : Eval Closure := do
  return (← get).functions.getD id default

/-- Writes into a table of the store. -/
def setKey (id : Nat) (key value : Value) : Eval Unit :=
  match Table.keyFault? key with
  | some error => fault error
  | none => modify fun m => { m with tables := m.tables.modify id (·.insert key value) }

/-! ## Conversions that may halt -/

def ofNumeral (x : Except Number.NumeralFault α) : Eval α :=
  match x with
  | .ok a => pure a
  | .error .tooLarge => throw (.crash .numeralTooLarge)

def toNumber? (v : Value) : Eval (Option Float) := ofNumeral v.toNumber?

/-- The place of a reference among those written so far, counted from 1; a new one comes last. -/
def ordinal (r : Ref) : Eval Nat :=
  modifyGet fun m =>
    match m.named.idxOf? r with
    | some k => (k + 1, m)
    | none => (m.named.length + 1, { m with named := m.named ++ [r] })

/-- The text that `print` shows of a value. -/
def textOf : Value → Eval String
  | .nil => pure "nil"
  | .bool b => pure (if b then "true" else "false")
  | .string s => pure s
  | .number x => pure (Number.display x)
  | .builtin b => pure s!"function: builtin: {b.name}"
  | .ref r => do
    let n ← ordinal r
    return r.kind ++ ": 0x" ++ String.ofList (Text.hexDigits 12 n)
  | .list [] => pure "nil"
  | .list (v :: _) => textOf v

end Eval

end MiniLua
