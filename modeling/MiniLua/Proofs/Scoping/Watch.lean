import MiniLua.Proofs.Scoping.Occurrence
import MiniLua.Session

/-!
# Watching a run

A watched run evaluates as a run does and keeps a record beside the machine: which declaration each
frame was made by, which function expression each closure was made by, and for every time a name is
read, stored or described in an error, the scope and the frames of that moment.
-/

namespace MiniLua

/-- A name in a scope, at the moment it is evaluated. -/
structure Sighting where
  spot : Spot
  name : String
  scope : Scope
  frames : Frames

structure Record where
  /-- The chunks that have been run. -/
  programs : List Block
  /-- The declarations of the frames in their order; the global frame has none. -/
  layers : List Layer
  /-- The function expressions of the closures in their order. -/
  closures : List Spot
  sightings : List Sighting

namespace Record

def empty : Record := ⟨[], [], [], []⟩

/-- The declaration that a frame was made by. -/
def layer? (r : Record) : FrameId → Option Layer
  | 0 => none
  | id + 1 => r.layers[id]?

/-- The occurrence at a spot and the layers around it. -/
def at? (r : Record) (spot : Spot) : Option (List Layer × Node) := do
  let program ← r.programs[spot.chunk]?
  program.at? spot.chunk spot.path

end Record

abbrev Watched := EStateM Halt (Machine × Record)

/-- An `Engine` whose calls are watched. -/
structure WatchedEngine where
  call : Nat → List Value → Watched (List Value)
  loopLimit : Nat

namespace Watched

variable {α : Type}

/-- A step that makes no frame and no closure. -/
def lift (x : Eval α) : Watched α := fun s =>
  match x s.1 with
  | .ok a m => .ok a (m, s.2)
  | .error e m => .error e (m, s.2)

def note (f : Machine → Record → Record) : Watched Unit := fun s => .ok () (s.1, f s.1 s.2)

def atLine (line : Nat) (x : Watched α) : Watched α := fun s =>
  match x s with
  | .error (.fault error 0) s' => .error (.fault error line) s'
  | result => result

def deeper (x : Watched α) : Watched α := fun s =>
  match x ({ s.1 with depth := s.1.depth + 1 }, s.2) with
  | .ok a s' => .ok a ({ s'.1 with depth := s'.1.depth - 1 }, s'.2)
  | .error e s' => .error e ({ s'.1 with depth := s'.1.depth - 1 }, s'.2)

def see (spot : Spot) (name : String) (scope : Scope) : Watched Unit :=
  note fun m r => { r with sightings := ⟨spot, name, scope, m.frames⟩ :: r.sightings }

def pushFrame (layer : Layer) (scope : Scope) (bs : Bindings) : Watched Scope := do
  note fun _ r => { r with layers := r.layers ++ [layer] }
  lift (Eval.pushFrame scope bs)

def inFrame (layer : Layer) (scope : Scope) (bs : Bindings) (body : Scope → Watched Signal) :
    Watched Signal := do
  let scope ← pushFrame layer scope bs
  body scope

def closureOf (spot : Spot) (scope : Scope) (f : Lambda) : Watched Value := do
  note fun _ r => { r with closures := r.closures ++ [spot] }
  lift (Eval.closureOf scope f)

def single (x : Watched Value) : Watched Value := do return (← x).compress

/-- A name that an error describes is seen once more. -/
def seeOrigin (spot : Spot) (scope : Scope) : Expr → Watched Unit
  | .name n _ => see spot n scope
  | _ => return ()

def faultAt (line : Nat) (spot : Spot) (scope : Scope) (e : Expr) (error : Origin → RuntimeError) :
    Watched α := do
  seeOrigin spot scope e
  lift (Eval.faultAt line scope e error)

def apply (engine : WatchedEngine) (callee : Value) (args : List Value) : Watched Value :=
  match callee with
  | .ref (.function id) => do return .list (← engine.call id args)
  | v => lift (Eval.apply ⟨fun _ _ => return [], 0⟩ v args)

def binaryOp (spot : Spot) (scope : Scope) (op : BinaryOp) (left right : Expr) (line : Nat)
    (a b : Value) : Watched Value :=
  let operand : Side → Expr
    | .left => left
    | .right => right
  let place : Side → Spot
    | .left => spot.part 0
    | .right => spot.part 1
  match Value.binary op a b with
  | .error (.arithmetic side type) => faultAt line (place side) scope (operand side) (.arithmetic type)
  | .error (.concat side type) => faultAt line (place side) scope (operand side) (.concat type)
  | _ => atLine line (lift (Eval.operate op a b))

def unaryOp (spot : Spot) (scope : Scope) (op : UnaryOp) (operand : Expr) (line : Nat) (a : Value) :
    Watched Value :=
  match op with
  | .not => return .bool (!a.truthy)
  | .neg => do
    match ← lift (Eval.toNumber? a) with
    | some x => return .number (-x)
    | none => faultAt line (spot.part 0) scope operand (.arithmetic a.typeName)
  | .len =>
    match a with
    | .string s => return .number (Float.ofNat s.utf8ByteSize)
    | .ref (.table id) => do return .number (Float.ofNat (← lift (Eval.table id)).length)
    | a => faultAt line (spot.part 0) scope operand (.length a.typeName)
  | .other symbol => atLine line (lift (Eval.fault (.unknownUnary symbol)))

def whileTurns (condition : Watched Bool) (body : Watched Signal) : (limit : Nat) → Watched Signal
  | 0 => throw .exhausted
  | limit + 1 => do
    if ← condition then
      match (← body).ending? with
      | none => whileTurns condition body limit
      | some signal => return signal
    else return .normal

def countedTurns (step stop : Float) (body : Float → Watched Signal) :
    (limit : Nat) → Float → Watched Signal
  | 0, _ => throw .exhausted
  | limit + 1, counter => do
    if Eval.withinLimit step stop counter then
      match (← body counter).ending? with
      | none => countedTurns step stop body limit (counter + step)
      | some signal => return signal
    else return .normal

def keyedTurns (read : Value → Watched Value) (body : Value → Value → Watched Signal)
    (keys : List Value) : Watched Signal := do
  let ending ← overKeys read (fun key value => do return (← body key value).ending?) keys
  return ending.getD .normal

end Watched

open Watched

mutual

def Expr.watch (engine : WatchedEngine) (spot : Spot) (scope : Scope) : Expr → Watched Value
  | .nil _ => return .nil
  | .bool b _ => return .bool b
  | .number x _ => return .number x
  | .string s _ => return .string s
  | .name n _ => do
    see spot n scope
    lift (Eval.lookup scope n)
  | .index target key line => do
    let t ← single (target.watch engine (spot.part 0) scope)
    let k ← single (key.watch engine (spot.part 1) scope)
    match t with
    | .ref (.table id) => return (← lift (Eval.table id)).get k
    | v => faultAt line (spot.part 0) scope target (.index v.typeName)
  | .call c => c.watch engine (spot.part 0) scope
  | .function f => closureOf (spot.part 0) scope f
  | .table fields _ => do
    let t ← Field.watchAll engine (spot.part 0) scope fields 1 .empty
    lift (Eval.newTable t)
  | .paren inner _ => single (inner.watch engine (spot.part 0) scope)
  | .logical op left right _ => do
    let a ← single (left.watch engine (spot.part 0) scope)
    let decided := match op with
      | .and => !a.truthy
      | .or => a.truthy
    if decided then return a else single (right.watch engine (spot.part 1) scope)
  | .binary op left right line => do
    let a ← single (left.watch engine (spot.part 0) scope)
    let b ← single (right.watch engine (spot.part 1) scope)
    Watched.binaryOp spot scope op left right line a b
  | .unary op operand line => do
    let a ← single (operand.watch engine (spot.part 0) scope)
    Watched.unaryOp spot scope op operand line a
  | .other kind line => atLine line (lift (Eval.fault (.unknownExpression kind)))

def Expr.watchAll (engine : WatchedEngine) (spot : Spot) (scope : Scope) :
    List Expr → Watched (List Value)
  | [] => return []
  | [e] => do return (← e.watch engine (spot.part 0) scope).expand
  | e :: es => do
    let v ← single (e.watch engine (spot.part 0) scope)
    let vs ← Expr.watchAll engine (spot.part 1) scope es
    return v :: vs

def Call.watch (engine : WatchedEngine) (spot : Spot) (scope : Scope) : Call → Watched Value
  | .mk callee args line => do
    let f ← single (callee.watch engine (spot.part 0) scope)
    let vs ← Expr.watchAll engine (spot.part 1) scope args
    if Eval.callable f then atLine line (Watched.apply engine f vs)
    else faultAt line (spot.part 0) scope callee (.call f.typeName)

def Field.watchAll (engine : WatchedEngine) (spot : Spot) (scope : Scope) :
    List Field → Nat → Table → Watched Table
  | [], _, t => return t
  | [.positional e _], position, t => do
    return Eval.putValues t position (← e.watch engine (spot.part 0) scope).expand
  | .positional e _ :: fields, position, t => do
    let v ← single (e.watch engine (spot.part 0) scope)
    Field.watchAll engine (spot.part 1) scope fields (position + 1)
      (t.insert (Table.positionKey position) v)
  | .keyed key value line :: fields, position, t => do
    let k ← single (key.watch engine (spot.part 0) scope)
    let v ← single (value.watch engine (spot.part 1) scope)
    match t.set k v with
    | .ok t => Field.watchAll engine (spot.part 2) scope fields position t
    | .error error => atLine line (lift (Eval.fault error))

def Target.watchPlace (engine : WatchedEngine) (spot : Spot) (scope : Scope) :
    Target → Watched Place
  | .name n _ => do
    see spot n scope
    return .variable n
  | .index target key line => do
    let t ← single (target.watch engine (spot.part 0) scope)
    let k ← single (key.watch engine (spot.part 1) scope)
    match t with
    | .ref (.table id) => return .slot id k
    | v => faultAt line (spot.part 0) scope target (.index v.typeName)

def Target.watchPlaces (engine : WatchedEngine) (spot : Spot) (scope : Scope) :
    List Target → Watched (List Place)
  | [] => return []
  | t :: ts => do
    let place ← t.watchPlace engine (spot.part 0) scope
    let places ← Target.watchPlaces engine (spot.part 1) scope ts
    return place :: places

/-- Runs the first statement of a cell. -/
def Stmt.watch (engine : WatchedEngine) (cell : Spot) (scope : Scope) :
    Stmt → Watched (Signal × Scope)
  | .localVars names values _ => do
    let vs ← Expr.watchAll engine ((cell.part 0).part 0) scope values
    let scope ← Watched.pushFrame ⟨cell, names⟩ scope (.ofLists names (Value.adjust vs names.length))
    return (.normal, scope)
  | .assign targets values _ => do
    let vs ← Expr.watchAll engine ((cell.part 0).part 0) scope values
    let places ← Target.watchPlaces engine ((cell.part 0).part 1) scope targets
    lift (Eval.storeAll scope places (Value.adjust vs places.length))
    return (.normal, scope)
  | .call c _ => do
    let _ ← c.watch engine ((cell.part 0).part 0) scope
    return (.normal, scope)
  | .doBlock body _ => do
    let signal ← Watched.inFrame ⟨cell.part 0, []⟩ scope [] fun scope =>
      body.watch engine ((cell.part 0).part 0) scope
    return (signal, scope)
  | .whileLoop condition body _ => do
    let signal ← Watched.whileTurns
      (do return (← single (condition.watch engine ((cell.part 0).part 0) scope)).truthy)
      (Watched.inFrame ⟨cell.part 0, []⟩ scope [] fun scope =>
        body.watch engine ((cell.part 0).part 1) scope) engine.loopLimit
    return (signal, scope)
  | .branch clauses otherwise _ => do
    match ← Clause.watchFirst engine ((cell.part 0).part 0) scope clauses with
    | some signal => return (signal, scope)
    | none =>
      match otherwise with
      | none => return (.normal, scope)
      | some body =>
        let signal ← Watched.inFrame ⟨cell.part 0, []⟩ scope [] fun scope =>
          body.watch engine ((cell.part 0).part 1) scope
        return (signal, scope)
  | .numericFor name start stop step body _ => do
    let a ← single (start.watch engine ((cell.part 0).part 0) scope)
    let first ← lift (Eval.forNumber .start a)
    let b ← single (stop.watch engine ((cell.part 0).part 1) scope)
    let last ← lift (Eval.forNumber .limit b)
    let stride ← match step with
      | none => pure 1
      | some step => do
        let c ← single (step.watch engine ((cell.part 0).part 3) scope)
        lift (Eval.forNumber .step c)
    if stride == 0 then lift (Eval.fault .zeroStep)
    let signal ← Watched.countedTurns stride last
      (fun counter => Watched.inFrame ⟨cell.part 0, [name]⟩ scope [(name, .number counter)]
        fun scope => body.watch engine ((cell.part 0).part 2) scope)
      engine.loopLimit first
    return (signal, scope)
  | .genericFor names values body _ => do
    match values with
    | [.call (.mk callee args _)] =>
      let call := (((cell.part 0).part 0).part 0).part 0
      let f ← single (callee.watch engine (call.part 0) scope)
      match f with
      | .builtin .pairs =>
        let vs ← Expr.watchAll engine (call.part 1) scope args
        let id ← lift (Eval.pairsTable vs)
        let t ← lift (Eval.table id)
        let keys := t.items.map (·.1)
        let signal ← Watched.keyedTurns (fun key => lift do return (← Eval.table id).get key)
          (fun key value =>
            Watched.inFrame ⟨cell.part 0, names⟩ scope
              (.ofLists names (Value.adjust [key, value] names.length))
              fun scope => body.watch engine ((cell.part 0).part 1) scope) keys
        return (signal, scope)
      | v => lift (Eval.fault (.forWithoutPairs v.typeName))
    | _ => lift (Eval.fault .forWithoutCall)
  | .functionDecl target function _ => do
    let f ← Watched.closureOf ((cell.part 0).part 0) scope function
    let place ← target.watchPlace engine ((cell.part 0).part 1) scope
    lift (Eval.store scope place f)
    return (.normal, scope)
  | .localFunction name function _ => do
    let scope ← Watched.pushFrame ⟨cell, [name]⟩ scope [(name, .nil)]
    let f ← Watched.closureOf ((cell.part 0).part 0) scope function
    lift (Eval.assign scope name f)
    return (.normal, scope)
  | .returnValues values _ => do
    let vs ← Expr.watchAll engine ((cell.part 0).part 0) scope values
    return (.returned vs, scope)
  | .breakLoop line => return (.breakLoop line, scope)
  | .other kind _ => lift (Eval.fault (.unknownStatement kind))

def Clause.watchFirst (engine : WatchedEngine) (spot : Spot) (scope : Scope) :
    List Clause → Watched (Option Signal)
  | [] => return none
  | .mk condition body :: clauses => do
    if (← single (condition.watch engine (spot.part 0) scope)).truthy then
      let signal ← Watched.inFrame ⟨spot, []⟩ scope [] fun scope =>
        body.watch engine (spot.part 1) scope
      return some signal
    else Clause.watchFirst engine (spot.part 2) scope clauses

def Block.watch (engine : WatchedEngine) (spot : Spot) (scope : Scope) : Block → Watched Signal
  | .mk statements _ => Stmt.watchAll engine (spot.part 0) scope statements

def Stmt.watchAll (engine : WatchedEngine) (spot : Spot) (scope : Scope) :
    List Stmt → Watched Signal
  | [] => return .normal
  | s :: statements => do
    lift (Eval.traceLine fun _ => s!"exec {s.kind} @{s.line}")
    match ← atLine s.line (s.watch engine spot scope) with
    | (.normal, scope) => Stmt.watchAll engine (spot.part 1) scope statements
    | (signal, _) => return signal

end

namespace Watched

def callAt (loopLimit : Nat) : (budget : Nat) → Nat → List Value → Watched (List Value)
  | 0, _, _ => lift (Eval.fault .stackOverflow)
  | budget + 1, id, args => do
    let f ← lift (Eval.closure id)
    let spot := (← get).2.closures.getD id ⟨0, []⟩
    let scope ← pushFrame ⟨spot, f.params⟩ f.scope
      (.ofLists f.params (Value.adjust args f.params.length))
    let signal ← deeper do
      let depth := (← lift get).depth
      lift (Eval.traceLine fun _ => s!"call {f.name} (depth {depth})")
      f.body.watch ⟨callAt loopLimit budget, loopLimit⟩ (spot.part 0) scope
    let values ← lift (Eval.resultOf signal)
    lift (Eval.traceLine fun _ => s!"return from {f.name} with {values.length} value(s)")
    return values

def engine (loopLimit maxDepth : Nat) : WatchedEngine := ⟨callAt loopLimit maxDepth, loopLimit⟩

/-- Runs a program as the next chunk of the session. -/
def chunk (loopLimit maxDepth : Nat) (program : Block) : Watched (List Value) := do
  let number := (← get).2.programs.length
  note fun _ r => { r with programs := r.programs ++ [program] }
  lift (modify fun m => { m with depth := 0 })
  let scope ← pushFrame ⟨⟨number, []⟩, []⟩ [0] []
  let signal ← program.watch (engine loopLimit maxDepth) ⟨number, []⟩ scope
  lift (Eval.resultOf signal)

end Watched

end MiniLua
