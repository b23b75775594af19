import MiniLua.Eval.Loop

/-! # The meaning of programs

Evaluation follows the tree. What a tree does not bound is a parameter: an `Engine` knows how to run
the body of a function and how many turns a loop may take. Calls are tied by the depth that is left,
so a program whose loops end always ends, if need be by a stack overflow.

An error gets its line from the innermost node around it that gives one: index, call and operator
nodes, fields and statements do. -/

namespace MiniLua

structure Engine where
  /-- Runs a function of the store on arguments and gives what it returns. -/
  call : Nat → List Value → Eval (List Value)
  /-- How many turns a loop may take. -/
  loopLimit : Nat

/-- Where an assignment stores. -/
inductive Place where
  | variable (name : String)
  | slot (table : Nat) (key : Value)

namespace Eval

/-- The name by which an error refers to the value of an expression. -/
def originOf (scope : Scope) : Expr → Eval Origin
  | .name n _ => do
    return if (← get).frames.isGlobal scope n then .globalVar n else .localVar n
  | .index _ (.string key _) _ => return .field key
  | _ => return .unnamed

/-- An error that names where its value came from. -/
def faultAt {α : Type} (line : Nat) (scope : Scope) (e : Expr) (error : Origin → RuntimeError) :
    Eval α := do
  let origin ← originOf scope e
  atLine line (fault (error origin))

/-- The value where one value is wanted. -/
def single (x : Eval Value) : Eval Value := do return (← x).compress

/-- Runs a body in a new frame. -/
def inFrame (scope : Scope) (bs : Bindings) (body : Scope → Eval Signal) : Eval Signal := do
  let scope ← pushFrame scope bs
  body scope

def closureOf (scope : Scope) : Lambda → Eval Value
  | .mk params body name _ =>
    newFunction ⟨(Diagnostic.nonempty name).getD "?", params, body, scope⟩

/-- Calls a value. Only builtins and functions can be called; the result is a list. -/
def apply (engine : Engine) (callee : Value) (args : List Value) : Eval Value :=
  match callee with
  | .builtin .print => do
    let texts ← args.mapM textOf
    write ("\t".intercalate texts ++ "\n")
    return .list []
  | .builtin .pairs => fault .pairsOutsideFor
  | .ref (.function id) => do return .list (← engine.call id args)
  | v => fault (.call v.typeName .unnamed)

def callable : Value → Bool
  | .builtin _ => true
  | v => v.isFunction

/-- An operator on values that have no names. -/
def operate (op : BinaryOp) (a b : Value) : Eval Value :=
  match Value.binary op a b with
  | .ok v => pure v
  | .error (.numeral .tooLarge) => throw (.crash .numeralTooLarge)
  | .error (.compare l r) => fault (.compare l r)
  | .error (.arithmetic _ type) => fault (.arithmetic type .unnamed)
  | .error (.concat _ type) => fault (.concat type .unnamed)

/-- An operator on the values of two expressions; an error names the operand at fault. -/
def binaryOp (scope : Scope) (op : BinaryOp) (left right : Expr) (line : Nat) (a b : Value) :
    Eval Value :=
  let operand : Side → Expr
    | .left => left
    | .right => right
  match Value.binary op a b with
  | .error (.arithmetic side type) => faultAt line scope (operand side) (.arithmetic type)
  | .error (.concat side type) => faultAt line scope (operand side) (.concat type)
  | _ => atLine line (operate op a b)

def unaryOp (scope : Scope) (op : UnaryOp) (operand : Expr) (line : Nat) (a : Value) :
    Eval Value :=
  match op with
  | .not => return .bool (!a.truthy)
  | .neg => do
    match ← toNumber? a with
    | some x => return .number (-x)
    | none => faultAt line scope operand (.arithmetic a.typeName)
  | .len =>
    match a with
    | .string s => return .number (Float.ofNat s.utf8ByteSize)
    | .ref (.table id) => do return .number (Float.ofNat (← table id).length)
    | a => faultAt line scope operand (.length a.typeName)
  | .other symbol => atLine line (fault (.unknownUnary symbol))

def forNumber (what : ForOperand) (v : Value) : Eval Float := do
  match ← toNumber? v with
  | some x => return x
  | none => fault (.forOperand what)

/-- The table that `pairs` goes over. -/
def pairsTable (args : List Value) : Eval Nat := do
  match args with
  | [] => fault (.pairsArgument none)
  | .ref (.table id) :: _ =>
    traceLine fun _ => "pairs: iterating table"
    return id
  | v :: _ => fault (.pairsArgument (some v.typeName))

def store (scope : Scope) : Place → Value → Eval Unit
  | .variable name, v => assign scope name v
  | .slot id key, v => setKey id key v

def storeAll (scope : Scope) : List Place → List Value → Eval Unit
  | place :: places, v :: vs => do
    store scope place v
    storeAll scope places vs
  | _, _ => return ()

/-- Values under consecutive positions of a table. -/
def putValues (t : Table) (position : Nat) : List Value → Table
  | [] => t
  | v :: vs => putValues (t.insert (Table.positionKey position) v) (position + 1) vs

end Eval

open Eval

mutual

def Expr.eval (engine : Engine) (scope : Scope) : Expr → Eval Value
  | .nil _ => return .nil
  | .bool b _ => return .bool b
  | .number x _ => return .number x
  | .string s _ => return .string s
  | .name n _ => lookup scope n
  | .index target key line => do
    let t ← single (target.eval engine scope)
    let k ← single (key.eval engine scope)
    match t with
    | .ref (.table id) => return (← table id).get k
    | v => faultAt line scope target (.index v.typeName)
  | .call c => c.eval engine scope
  | .function f => closureOf scope f
  | .table fields _ => do newTable (← Field.evalAll engine scope fields 1 .empty)
  | .paren inner _ => single (inner.eval engine scope)
  | .logical op left right _ => do
    let a ← single (left.eval engine scope)
    let decided := match op with
      | .and => !a.truthy
      | .or => a.truthy
    if decided then return a else single (right.eval engine scope)
  | .binary op left right line => do
    let a ← single (left.eval engine scope)
    let b ← single (right.eval engine scope)
    binaryOp scope op left right line a b
  | .unary op operand line => do
    let a ← single (operand.eval engine scope)
    unaryOp scope op operand line a
  | .other kind line => atLine line (fault (.unknownExpression kind))

/-- Values from left to right; the last expression gives all of its values. -/
def Expr.evalAll (engine : Engine) (scope : Scope) : List Expr → Eval (List Value)
  | [] => return []
  | [e] => do return (← e.eval engine scope).expand
  | e :: es => do
    let v ← single (e.eval engine scope)
    let vs ← Expr.evalAll engine scope es
    return v :: vs

def Call.eval (engine : Engine) (scope : Scope) : Call → Eval Value
  | .mk callee args line => do
    let f ← single (callee.eval engine scope)
    let vs ← Expr.evalAll engine scope args
    if callable f then atLine line (apply engine f vs)
    else faultAt line scope callee (.call f.typeName)

/-- Fills a table with fields; the last one gives all of its values if it is positional. -/
def Field.evalAll (engine : Engine) (scope : Scope) : List Field → Nat → Table → Eval Table
  | [], _, t => return t
  | [.positional e _], position, t => do
    return putValues t position (← e.eval engine scope).expand
  | .positional e _ :: fields, position, t => do
    let v ← single (e.eval engine scope)
    Field.evalAll engine scope fields (position + 1) (t.insert (Table.positionKey position) v)
  | .keyed key value line :: fields, position, t => do
    let k ← single (key.eval engine scope)
    let v ← single (value.eval engine scope)
    match t.set k v with
    | .ok t => Field.evalAll engine scope fields position t
    | .error error => atLine line (fault error)

/-- The addressing part of an assignment; nothing is stored yet. -/
def Target.place (engine : Engine) (scope : Scope) : Target → Eval Place
  | .name n _ => return .variable n
  | .index target key line => do
    let t ← single (target.eval engine scope)
    let k ← single (key.eval engine scope)
    match t with
    | .ref (.table id) => return .slot id k
    | v => faultAt line scope target (.index v.typeName)

def Target.places (engine : Engine) (scope : Scope) : List Target → Eval (List Place)
  | [] => return []
  | t :: ts => do
    let place ← t.place engine scope
    let places ← Target.places engine scope ts
    return place :: places

/-- Runs one statement: how it ends, and the scope of the statements after it. -/
def Stmt.exec (engine : Engine) (scope : Scope) : Stmt → Eval (Signal × Scope)
  | .localVars names values _ => do
    let vs ← Expr.evalAll engine scope values
    let scope ← pushFrame scope (.ofLists names (Value.adjust vs names.length))
    return (.normal, scope)
  | .assign targets values _ => do
    let vs ← Expr.evalAll engine scope values
    let places ← Target.places engine scope targets
    storeAll scope places (Value.adjust vs places.length)
    return (.normal, scope)
  | .call c _ => do
    let _ ← c.eval engine scope
    return (.normal, scope)
  | .doBlock body _ => do
    let signal ← inFrame scope [] fun scope => body.exec engine scope
    return (signal, scope)
  | .whileLoop condition body _ => do
    let signal ← whileTurns (do return (← single (condition.eval engine scope)).truthy)
      (inFrame scope [] fun scope => body.exec engine scope) engine.loopLimit
    return (signal, scope)
  | .branch clauses otherwise _ => do
    match ← Clause.execFirst engine scope clauses with
    | some signal => return (signal, scope)
    | none =>
      match otherwise with
      | none => return (.normal, scope)
      | some body =>
        let signal ← inFrame scope [] fun scope => body.exec engine scope
        return (signal, scope)
  | .numericFor name start stop step body _ => do
    let first ← forNumber .start (← single (start.eval engine scope))
    let last ← forNumber .limit (← single (stop.eval engine scope))
    let stride ← match step with
      | none => pure 1
      | some step => do forNumber .step (← single (step.eval engine scope))
    if stride == 0 then fault .zeroStep
    let signal ← countedTurns stride last
      (fun counter => inFrame scope [(name, .number counter)] fun scope => body.exec engine scope)
      engine.loopLimit first
    return (signal, scope)
  | .genericFor names values body _ => do
    match values with
    | [.call (.mk callee args _)] =>
      let f ← single (callee.eval engine scope)
      match f with
      | .builtin .pairs =>
        let id ← pairsTable (← Expr.evalAll engine scope args)
        let keys := (← table id).items.map (·.1)
        let signal ← keyedTurns (fun key => do return (← table id).get key)
          (fun key value =>
            inFrame scope (.ofLists names (Value.adjust [key, value] names.length))
              fun scope => body.exec engine scope) keys
        return (signal, scope)
      | v => fault (.forWithoutPairs v.typeName)
    | _ => fault .forWithoutCall
  | .functionDecl target function _ => do
    let f ← closureOf scope function
    let place ← target.place engine scope
    store scope place f
    return (.normal, scope)
  | .localFunction name function _ => do
    let scope ← pushFrame scope [(name, .nil)]
    assign scope name (← closureOf scope function)
    return (.normal, scope)
  | .returnValues values _ => do return (.returned (← Expr.evalAll engine scope values), scope)
  | .breakLoop line => return (.breakLoop line, scope)
  | .other kind _ => fault (.unknownStatement kind)

/-- Runs the body of the first clause whose condition holds, if there is one. -/
def Clause.execFirst (engine : Engine) (scope : Scope) : List Clause → Eval (Option Signal)
  | [] => return none
  | .mk condition body :: clauses => do
    if (← single (condition.eval engine scope)).truthy then
      let signal ← inFrame scope [] fun scope => body.exec engine scope
      return some signal
    else Clause.execFirst engine scope clauses

/-- Runs a block in the frame that is there. -/
def Block.exec (engine : Engine) (scope : Scope) : Block → Eval Signal
  | .mk statements _ => Stmt.execAll engine scope statements

/-- Runs statements up to the first that does not end normally. -/
def Stmt.execAll (engine : Engine) (scope : Scope) : List Stmt → Eval Signal
  | [] => return .normal
  | s :: statements => do
    traceLine fun _ => s!"exec {s.kind} @{s.line}"
    match ← atLine s.line (s.exec engine scope) with
    | (.normal, scope) => Stmt.execAll engine scope statements
    | (signal, _) => return signal

end

namespace Eval

/-- What a body that has ended gives back; a `break` that has left every loop is an error. -/
def resultOf : Signal → Eval (List Value)
  | .normal => return []
  | .returned values => return values
  | .breakLoop line => throw (.fault .breakOutsideLoop line)

/-- Runs a function in a new frame over the scope it was created in, with `budget` calls left. -/
def callAt (loopLimit : Nat) : (budget : Nat) → Nat → List Value → Eval (List Value)
  | 0, _, _ => fault .stackOverflow
  | budget + 1, id, args => do
    let f ← closure id
    let scope ← pushFrame f.scope (.ofLists f.params (Value.adjust args f.params.length))
    let signal ← deeper do
      let depth := (← get).depth
      traceLine fun _ => s!"call {f.name} (depth {depth})"
      f.body.exec ⟨callAt loopLimit budget, loopLimit⟩ scope
    let values ← resultOf signal
    traceLine fun _ => s!"return from {f.name} with {values.length} value(s)"
    return values

/-- The engine of a run in which at most `maxDepth` function bodies run at once. -/
def engine (loopLimit maxDepth : Nat) : Engine := ⟨callAt loopLimit maxDepth, loopLimit⟩

/-- Runs a program as a function body of its own over the global frame. -/
def chunk (loopLimit maxDepth : Nat) (program : Block) : Eval (List Value) := do
  modify fun m => { m with depth := 0 }
  let scope ← pushFrame [0] []
  let signal ← program.exec (engine loopLimit maxDepth) scope
  resultOf signal

end Eval

end MiniLua
