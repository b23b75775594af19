import MiniLua.Proofs.Scoping.Static

/-!
# Observing a run

An observed run evaluates as a run does and keeps a journal beside the machine: after every step the
machine as it then is, the functions whose bodies are running and the parents of the frames, and
what expressions, calls and statements give.
-/

namespace MiniLua

/-- What has happened in a run. -/
inductive Event where
  /-- The machine has made a step. -/
  | stepped
  /-- An expression has given a value. -/
  | gave (e : Expr) (v : Value)
  /-- One value has been taken from what an expression has given. -/
  | narrowed (v : Value)
  /-- A value is called. -/
  | called (callee : Value) (args : List Value)
  /-- A call has given its results. -/
  | answered (v : Value)
  /-- A statement has ended. -/
  | ended (signal : Signal)

/-- An event and the moment it belongs to. -/
structure Entry where
  event : Event
  machine : Machine
  /-- The functions whose bodies are running, innermost first. -/
  running : List Nat
  /-- The parents of the frames in their order; the global frame has none. -/
  parents : List FrameId

structure Journal where
  running : List Nat
  parents : List FrameId
  /-- Newest first. -/
  entries : List Entry

namespace Journal

def empty : Journal := ⟨[], [], []⟩

def write (j : Journal) (event : Event) (m : Machine) : Journal :=
  { j with entries := ⟨event, m, j.running, j.parents⟩ :: j.entries }

end Journal

abbrev Observed := EStateM Halt (Machine × Journal)

/-- An `Engine` whose calls are observed. -/
structure ObservedEngine where
  call : Nat → List Value → Observed (List Value)
  loopLimit : Nat

namespace Observed

variable {α : Type}

def note (event : Event) : Observed Unit := fun s => .ok () (s.1, s.2.write event s.1)

/-- A step of the machine. -/
def lift (x : Eval α) : Observed α := fun s =>
  match x s.1 with
  | .ok a m => .ok a (m, s.2.write .stepped m)
  | .error e m => .error e (m, s.2.write .stepped m)

def atLine (line : Nat) (x : Observed α) : Observed α := fun s =>
  match x s with
  | .error (.fault error 0) s' => .error (.fault error line) s'
  | result => result

/-- Runs the body of a function, one deeper; however it ends, the bodies that run afterwards are
those that ran before. -/
def within (id : Nat) (x : Observed α) : Observed α := fun s =>
  let entered : Machine := { s.1 with depth := s.1.depth + 1 }
  let inner : Journal := { s.2 with running := id :: s.2.running }
  match x (entered, inner.write .stepped entered) with
  | .ok a s' =>
    let left : Machine := { s'.1 with depth := s'.1.depth - 1 }
    .ok a (left, { s'.2 with running := s.2.running }.write .stepped left)
  | .error e s' =>
    let left : Machine := { s'.1 with depth := s'.1.depth - 1 }
    .error e (left, { s'.2 with running := s.2.running }.write .stepped left)

/-- The parent of a new frame is the innermost frame of the scope it is made in. -/
def pushFrame (scope : Scope) (bs : Bindings) : Observed Scope := do
  modify fun s => (s.1, { s.2 with parents := s.2.parents ++ [scope.headD 0] })
  lift (Eval.pushFrame scope bs)

def inFrame (scope : Scope) (bs : Bindings) (body : Scope → Observed Signal) : Observed Signal := do
  let scope ← pushFrame scope bs
  body scope

/-- The one value that an expression gives. -/
def single (e : Expr) (x : Observed Value) : Observed Value := do
  let v ← x
  note (.gave e v)
  note (.narrowed v.compress)
  return v.compress

/-- All values that an expression gives. -/
def spread (e : Expr) (x : Observed Value) : Observed (List Value) := do
  let v ← x
  note (.gave e v)
  return v.expand

def answer (x : Observed Value) : Observed Value := do
  let v ← x
  note (.answered v)
  return v

def ending (x : Observed (Signal × Scope)) : Observed (Signal × Scope) := do
  let out ← x
  note (.ended out.1)
  return out

/-- A call of a function is noted where the function is run. -/
def apply (engine : ObservedEngine) (callee : Value) (args : List Value) : Observed Value :=
  match callee with
  | .ref (.function id) => do return .list (← engine.call id args)
  | v => do
    note (.called v args)
    lift (Eval.apply ⟨fun _ _ => return [], 0⟩ v args)

def storeAll (scope : Scope) : List Place → List Value → Observed Unit
  | place :: places, v :: vs => do
    lift (Eval.store scope place v)
    storeAll scope places vs
  | _, _ => return ()

def whileTurns (condition : Observed Bool) (body : Observed Signal) :
    (limit : Nat) → Observed Signal
  | 0 => throw .exhausted
  | limit + 1 => do
    if ← condition then
      match (← body).ending? with
      | none => whileTurns condition body limit
      | some signal => return signal
    else return .normal

def countedTurns (step stop : Float) (body : Float → Observed Signal) :
    (limit : Nat) → Float → Observed Signal
  | 0, _ => throw .exhausted
  | limit + 1, counter => do
    if Eval.withinLimit step stop counter then
      match (← body counter).ending? with
      | none => countedTurns step stop body limit (counter + step)
      | some signal => return signal
    else return .normal

def keyedTurns (read : Value → Observed Value) (body : Value → Value → Observed Signal)
    (keys : List Value) : Observed Signal := do
  let ending ← overKeys read (fun key value => do return (← body key value).ending?) keys
  return ending.getD .normal

end Observed

open Observed

mutual

def Expr.observe (engine : ObservedEngine) (scope : Scope) : Expr → Observed Value
  | .nil _ => return .nil
  | .bool b _ => return .bool b
  | .number x _ => return .number x
  | .string s _ => return .string s
  | .name n _ => lift (Eval.lookup scope n)
  | .index target key line => do
    let t ← single target (target.observe engine scope)
    let k ← single key (key.observe engine scope)
    match t with
    | .ref (.table id) => return (← lift (Eval.table id)).get k
    | v => lift (Eval.faultAt line scope target (.index v.typeName))
  | .call c => c.observe engine scope
  | .function f => lift (Eval.closureOf scope f)
  | .table fields _ => do
    let t ← Field.observeAll engine scope fields 1 .empty
    lift (Eval.newTable t)
  | .paren inner _ => single inner (inner.observe engine scope)
  | .logical op left right _ => do
    let a ← single left (left.observe engine scope)
    let decided := match op with
      | .and => !a.truthy
      | .or => a.truthy
    if decided then return a else single right (right.observe engine scope)
  | .binary op left right line => do
    let a ← single left (left.observe engine scope)
    let b ← single right (right.observe engine scope)
    lift (Eval.binaryOp scope op left right line a b)
  | .unary op operand line => do
    let a ← single operand (operand.observe engine scope)
    lift (Eval.unaryOp scope op operand line a)
  | .other kind line => atLine line (lift (Eval.fault (.unknownExpression kind)))

def Expr.observeAll (engine : ObservedEngine) (scope : Scope) : List Expr → Observed (List Value)
  | [] => return []
  | [e] => spread e (e.observe engine scope)
  | e :: es => do
    let v ← single e (e.observe engine scope)
    let vs ← Expr.observeAll engine scope es
    return v :: vs

def Call.observe (engine : ObservedEngine) (scope : Scope) : Call → Observed Value
  | .mk callee args line => do
    let f ← single callee (callee.observe engine scope)
    let vs ← Expr.observeAll engine scope args
    if Eval.callable f then answer (atLine line (Observed.apply engine f vs))
    else lift (Eval.faultAt line scope callee (.call f.typeName))

def Field.observeAll (engine : ObservedEngine) (scope : Scope) :
    List Field → Nat → Table → Observed Table
  | [], _, t => return t
  | [.positional e _], position, t => do
    let vs ← spread e (e.observe engine scope)
    return Eval.putValues t position vs
  | .positional e _ :: fields, position, t => do
    let v ← single e (e.observe engine scope)
    Field.observeAll engine scope fields (position + 1) (t.insert (Table.positionKey position) v)
  | .keyed key value line :: fields, position, t => do
    let k ← single key (key.observe engine scope)
    let v ← single value (value.observe engine scope)
    match t.set k v with
    | .ok t => Field.observeAll engine scope fields position t
    | .error error => atLine line (lift (Eval.fault error))

def Target.observe (engine : ObservedEngine) (scope : Scope) : Target → Observed Place
  | .name n _ => return .variable n
  | .index target key line => do
    let t ← single target (target.observe engine scope)
    let k ← single key (key.observe engine scope)
    match t with
    | .ref (.table id) => return .slot id k
    | v => lift (Eval.faultAt line scope target (.index v.typeName))

def Target.observeAll (engine : ObservedEngine) (scope : Scope) :
    List Target → Observed (List Place)
  | [] => return []
  | t :: ts => do
    let place ← t.observe engine scope
    let places ← Target.observeAll engine scope ts
    return place :: places

def Stmt.observe (engine : ObservedEngine) (scope : Scope) : Stmt → Observed (Signal × Scope)
  | .localVars names values _ => do
    let vs ← Expr.observeAll engine scope values
    let scope ← Observed.pushFrame scope (.ofLists names (Value.adjust vs names.length))
    return (.normal, scope)
  | .assign targets values _ => do
    let vs ← Expr.observeAll engine scope values
    let places ← Target.observeAll engine scope targets
    Observed.storeAll scope places (Value.adjust vs places.length)
    return (.normal, scope)
  | .call c _ => do
    let _ ← c.observe engine scope
    return (.normal, scope)
  | .doBlock body _ => do
    let signal ← Observed.inFrame scope [] fun scope => body.observe engine scope
    return (signal, scope)
  | .whileLoop condition body _ => do
    let signal ← Observed.whileTurns
      (do return (← single condition (condition.observe engine scope)).truthy)
      (Observed.inFrame scope [] fun scope => body.observe engine scope) engine.loopLimit
    return (signal, scope)
  | .branch clauses otherwise _ => do
    match ← Clause.observeFirst engine scope clauses with
    | some signal => return (signal, scope)
    | none =>
      match otherwise with
      | none => return (.normal, scope)
      | some body =>
        let signal ← Observed.inFrame scope [] fun scope => body.observe engine scope
        return (signal, scope)
  | .numericFor name start stop step body _ => do
    let a ← single start (start.observe engine scope)
    let first ← lift (Eval.forNumber .start a)
    let b ← single stop (stop.observe engine scope)
    let last ← lift (Eval.forNumber .limit b)
    let stride ← match step with
      | none => pure 1
      | some step => do
        let c ← single step (step.observe engine scope)
        lift (Eval.forNumber .step c)
    if stride == 0 then lift (Eval.fault .zeroStep)
    let signal ← Observed.countedTurns stride last
      (fun counter => Observed.inFrame scope [(name, .number counter)] fun scope =>
        body.observe engine scope)
      engine.loopLimit first
    return (signal, scope)
  | .genericFor names values body _ => do
    match values with
    | [.call (.mk callee args _)] =>
      let f ← single callee (callee.observe engine scope)
      match f with
      | .builtin .pairs =>
        let vs ← Expr.observeAll engine scope args
        note (.called (.builtin .pairs) vs)
        let id ← lift (Eval.pairsTable vs)
        let t ← lift (Eval.table id)
        let keys := t.items.map (·.1)
        let signal ← Observed.keyedTurns (fun key => lift do return (← Eval.table id).get key)
          (fun key value =>
            Observed.inFrame scope (.ofLists names (Value.adjust [key, value] names.length))
              fun scope => body.observe engine scope) keys
        return (signal, scope)
      | v => lift (Eval.fault (.forWithoutPairs v.typeName))
    | _ => lift (Eval.fault .forWithoutCall)
  | .functionDecl target function _ => do
    let f ← lift (Eval.closureOf scope function)
    let place ← target.observe engine scope
    lift (Eval.store scope place f)
    return (.normal, scope)
  | .localFunction name function _ => do
    let scope ← Observed.pushFrame scope [(name, .nil)]
    let f ← lift (Eval.closureOf scope function)
    lift (Eval.assign scope name f)
    return (.normal, scope)
  | .returnValues values _ => do
    let vs ← Expr.observeAll engine scope values
    return (.returned vs, scope)
  | .breakLoop line => return (.breakLoop line, scope)
  | .other kind _ => lift (Eval.fault (.unknownStatement kind))

def Clause.observeFirst (engine : ObservedEngine) (scope : Scope) :
    List Clause → Observed (Option Signal)
  | [] => return none
  | .mk condition body :: clauses => do
    if (← single condition (condition.observe engine scope)).truthy then
      let signal ← Observed.inFrame scope [] fun scope => body.observe engine scope
      return some signal
    else Clause.observeFirst engine scope clauses

def Block.observe (engine : ObservedEngine) (scope : Scope) : Block → Observed Signal
  | .mk statements _ => Stmt.observeAll engine scope statements

def Stmt.observeAll (engine : ObservedEngine) (scope : Scope) : List Stmt → Observed Signal
  | [] => return .normal
  | s :: statements => do
    lift (Eval.traceLine fun _ => s!"exec {s.kind} @{s.line}")
    match ← ending (atLine s.line (s.observe engine scope)) with
    | (.normal, scope) => Stmt.observeAll engine scope statements
    | (signal, _) => return signal

end

namespace Observed

def callAt (loopLimit : Nat) : (budget : Nat) → Nat → List Value → Observed (List Value)
  | 0, id, args => do
    note (.called (.ref (.function id)) args)
    lift (Eval.fault .stackOverflow)
  | budget + 1, id, args => do
    note (.called (.ref (.function id)) args)
    let f ← lift (Eval.closure id)
    let scope ← pushFrame f.scope (.ofLists f.params (Value.adjust args f.params.length))
    let signal ← within id do
      let depth := (← lift get).depth
      lift (Eval.traceLine fun _ => s!"call {f.name} (depth {depth})")
      f.body.observe ⟨callAt loopLimit budget, loopLimit⟩ scope
    let values ← lift (Eval.resultOf signal)
    lift (Eval.traceLine fun _ => s!"return from {f.name} with {values.length} value(s)")
    return values

def engine (loopLimit maxDepth : Nat) : ObservedEngine := ⟨callAt loopLimit maxDepth, loopLimit⟩

/-- A chunk begins with no body running. -/
def chunk (loopLimit maxDepth : Nat) (program : Block) : Observed (List Value) := do
  modify fun s => (s.1, { s.2 with running := [] })
  lift (modify fun m => { m with depth := 0 })
  let scope ← pushFrame [0] []
  let signal ← program.observe (engine loopLimit maxDepth) scope
  lift (Eval.resultOf signal)

def serve (s : Session × Journal) : Request → Session × Journal
  | .run loopLimit source filename =>
    match s.1.read source filename with
    | (.error _, session) => (session, s.2)
    | (.ok program, session) =>
      match chunk loopLimit session.maxDepth program (session.machine, s.2) with
      | .ok _ (machine, journal) => ({ session with machine }, journal)
      | .error _ (machine, journal) => ({ session with machine }, journal)
  | .drain => (s.1.drain.2, s.2)

end Observed

end MiniLua
