import MiniLua.Eval.Program
import MiniLua.Proofs.Locating.Sites

/-!
# Following errors

A followed run evaluates as a run does and keeps a log beside the machine: of every `break` that is
run, and of every node, body and chunk that an error leaves, with the line the error then has.
-/

namespace MiniLua

/-- What an error can leave. -/
inductive Construct where
  | site (n : Site)
  /-- The body of a function of the store. -/
  | body (id : Nat)
  | chunk

inductive Mark where
  /-- A `break` has been run. -/
  | broke (line : Nat)
  /-- An error with this line, if it is not zero, has left the construct. -/
  | left (c : Construct) (line : Nat)

/-- Newest first. -/
abbrev Log := List Mark

abbrev Followed := EStateM Halt (Machine × Log)

/-- An `Engine` whose calls are followed. -/
structure FollowedEngine where
  call : Nat → List Value → Followed (List Value)
  loopLimit : Nat

namespace Followed

variable {α : Type}

def note (mark : Mark) : Followed Unit := fun s => .ok () (s.1, mark :: s.2)

/-- A step of the machine. -/
def lift (x : Eval α) : Followed α := fun s =>
  match x s.1 with
  | .ok a m => .ok a (m, s.2)
  | .error e m => .error e (m, s.2)

def atLine (line : Nat) (x : Followed α) : Followed α := fun s =>
  match x s with
  | .error (.fault error 0) s' => .error (.fault error line) s'
  | result => result

/-- Notes an error that leaves the construct. -/
def within (c : Construct) (x : Followed α) : Followed α := fun s =>
  match x s with
  | .error (.fault error line) s' => .error (.fault error line) (s'.1, .left c line :: s'.2)
  | result => result

def deeper (x : Followed α) : Followed α := fun s =>
  match x ({ s.1 with depth := s.1.depth + 1 }, s.2) with
  | .ok a s' => .ok a ({ s'.1 with depth := s'.1.depth - 1 }, s'.2)
  | .error e s' => .error e ({ s'.1 with depth := s'.1.depth - 1 }, s'.2)

def single (x : Followed Value) : Followed Value := do return (← x).compress

def inFrame (scope : Scope) (bs : Bindings) (body : Scope → Followed Signal) : Followed Signal := do
  let scope ← lift (Eval.pushFrame scope bs)
  body scope

def apply (engine : FollowedEngine) (callee : Value) (args : List Value) : Followed Value :=
  match callee with
  | .ref (.function id) => do return .list (← engine.call id args)
  | v => lift (Eval.apply ⟨fun _ _ => return [], 0⟩ v args)

def whileTurns (condition : Followed Bool) (body : Followed Signal) :
    (limit : Nat) → Followed Signal
  | 0 => throw .exhausted
  | limit + 1 => do
    if ← condition then
      match (← body).ending? with
      | none => whileTurns condition body limit
      | some signal => return signal
    else return .normal

def countedTurns (step stop : Float) (body : Float → Followed Signal) :
    (limit : Nat) → Float → Followed Signal
  | 0, _ => throw .exhausted
  | limit + 1, counter => do
    if Eval.withinLimit step stop counter then
      match (← body counter).ending? with
      | none => countedTurns step stop body limit (counter + step)
      | some signal => return signal
    else return .normal

def keyedTurns (read : Value → Followed Value) (body : Value → Value → Followed Signal)
    (keys : List Value) : Followed Signal := do
  let ending ← overKeys read (fun key value => do return (← body key value).ending?) keys
  return ending.getD .normal

end Followed

open Followed

mutual

def Expr.follow (engine : FollowedEngine) (scope : Scope) : Expr → Followed Value
  | .nil _ => return .nil
  | .bool b _ => return .bool b
  | .number x _ => return .number x
  | .string s _ => return .string s
  | .name n _ => lift (Eval.lookup scope n)
  | .index target key line => within (.site (.expr (.index target key line))) do
    let t ← single (target.follow engine scope)
    let k ← single (key.follow engine scope)
    match t with
    | .ref (.table id) => return (← lift (Eval.table id)).get k
    | v => lift (Eval.faultAt line scope target (.index v.typeName))
  | .call c => c.follow engine scope
  | .function f => lift (Eval.closureOf scope f)
  | .table fields line => within (.site (.expr (.table fields line))) do
    let t ← Field.followAll engine scope fields 1 .empty
    lift (Eval.newTable t)
  | .paren inner line =>
    within (.site (.expr (.paren inner line))) (single (inner.follow engine scope))
  | .logical op left right line => within (.site (.expr (.logical op left right line))) do
    let a ← single (left.follow engine scope)
    let decided := match op with
      | .and => !a.truthy
      | .or => a.truthy
    if decided then return a else single (right.follow engine scope)
  | .binary op left right line => within (.site (.expr (.binary op left right line))) do
    let a ← single (left.follow engine scope)
    let b ← single (right.follow engine scope)
    lift (Eval.binaryOp scope op left right line a b)
  | .unary op operand line => within (.site (.expr (.unary op operand line))) do
    let a ← single (operand.follow engine scope)
    lift (Eval.unaryOp scope op operand line a)
  | .other kind line =>
    within (.site (.expr (.other kind line)))
      (atLine line (lift (Eval.fault (.unknownExpression kind))))

def Expr.followAll (engine : FollowedEngine) (scope : Scope) : List Expr → Followed (List Value)
  | [] => return []
  | [e] => do return (← e.follow engine scope).expand
  | e :: es => do
    let v ← single (e.follow engine scope)
    let vs ← Expr.followAll engine scope es
    return v :: vs

def Call.follow (engine : FollowedEngine) (scope : Scope) : Call → Followed Value
  | .mk callee args line => within (.site (.expr (.call (.mk callee args line)))) do
    let f ← single (callee.follow engine scope)
    let vs ← Expr.followAll engine scope args
    if Eval.callable f then atLine line (Followed.apply engine f vs)
    else lift (Eval.faultAt line scope callee (.call f.typeName))

def Field.followAll (engine : FollowedEngine) (scope : Scope) :
    List Field → Nat → Table → Followed Table
  | [], _, t => return t
  | [.positional e line], position, t => within (.site (.field (.positional e line))) do
    return Eval.putValues t position (← e.follow engine scope).expand
  | .positional e line :: fields, position, t => do
    let v ← within (.site (.field (.positional e line))) (single (e.follow engine scope))
    Field.followAll engine scope fields (position + 1) (t.insert (Table.positionKey position) v)
  | .keyed key value line :: fields, position, t => do
    let t ← within (.site (.field (.keyed key value line))) do
      let k ← single (key.follow engine scope)
      let v ← single (value.follow engine scope)
      match t.set k v with
      | .ok t => return t
      | .error error => atLine line (lift (Eval.fault error))
    Field.followAll engine scope fields position t

def Target.follow (engine : FollowedEngine) (scope : Scope) : Target → Followed Place
  | .name n _ => return .variable n
  | .index target key line => within (.site (.expr (.index target key line))) do
    let t ← single (target.follow engine scope)
    let k ← single (key.follow engine scope)
    match t with
    | .ref (.table id) => return .slot id k
    | v => lift (Eval.faultAt line scope target (.index v.typeName))

def Target.followAll (engine : FollowedEngine) (scope : Scope) :
    List Target → Followed (List Place)
  | [] => return []
  | t :: ts => do
    let place ← t.follow engine scope
    let places ← Target.followAll engine scope ts
    return place :: places

def Stmt.follow (engine : FollowedEngine) (scope : Scope) : Stmt → Followed (Signal × Scope)
  | .localVars names values _ => do
    let vs ← Expr.followAll engine scope values
    let scope ← lift (Eval.pushFrame scope (.ofLists names (Value.adjust vs names.length)))
    return (.normal, scope)
  | .assign targets values _ => do
    let vs ← Expr.followAll engine scope values
    let places ← Target.followAll engine scope targets
    lift (Eval.storeAll scope places (Value.adjust vs places.length))
    return (.normal, scope)
  | .call c _ => do
    let _ ← c.follow engine scope
    return (.normal, scope)
  | .doBlock body _ => do
    let signal ← Followed.inFrame scope [] fun scope => body.follow engine scope
    return (signal, scope)
  | .whileLoop condition body _ => do
    let signal ← Followed.whileTurns
      (do return (← single (condition.follow engine scope)).truthy)
      (Followed.inFrame scope [] fun scope => body.follow engine scope) engine.loopLimit
    return (signal, scope)
  | .branch clauses otherwise _ => do
    match ← Clause.followFirst engine scope clauses with
    | some signal => return (signal, scope)
    | none =>
      match otherwise with
      | none => return (.normal, scope)
      | some body =>
        let signal ← Followed.inFrame scope [] fun scope => body.follow engine scope
        return (signal, scope)
  | .numericFor name start stop step body _ => do
    let a ← single (start.follow engine scope)
    let first ← lift (Eval.forNumber .start a)
    let b ← single (stop.follow engine scope)
    let last ← lift (Eval.forNumber .limit b)
    let stride ← match step with
      | none => pure 1
      | some step => do
        let c ← single (step.follow engine scope)
        lift (Eval.forNumber .step c)
    if stride == 0 then lift (Eval.fault .zeroStep)
    let signal ← Followed.countedTurns stride last
      (fun counter => Followed.inFrame scope [(name, .number counter)] fun scope =>
        body.follow engine scope)
      engine.loopLimit first
    return (signal, scope)
  | .genericFor names values body _ => do
    match values with
    | [.call (.mk callee args _)] =>
      let f ← single (callee.follow engine scope)
      match f with
      | .builtin .pairs =>
        let vs ← Expr.followAll engine scope args
        let id ← lift (Eval.pairsTable vs)
        let t ← lift (Eval.table id)
        let keys := t.items.map (·.1)
        let signal ← Followed.keyedTurns (fun key => lift do return (← Eval.table id).get key)
          (fun key value =>
            Followed.inFrame scope (.ofLists names (Value.adjust [key, value] names.length))
              fun scope => body.follow engine scope) keys
        return (signal, scope)
      | v => lift (Eval.fault (.forWithoutPairs v.typeName))
    | _ => lift (Eval.fault .forWithoutCall)
  | .functionDecl target function _ => do
    let f ← lift (Eval.closureOf scope function)
    let place ← target.follow engine scope
    lift (Eval.store scope place f)
    return (.normal, scope)
  | .localFunction name function _ => do
    let scope ← lift (Eval.pushFrame scope [(name, .nil)])
    let f ← lift (Eval.closureOf scope function)
    lift (Eval.assign scope name f)
    return (.normal, scope)
  | .returnValues values _ => do
    let vs ← Expr.followAll engine scope values
    return (.returned vs, scope)
  | .breakLoop line => do
    note (.broke line)
    return (.breakLoop line, scope)
  | .other kind _ => lift (Eval.fault (.unknownStatement kind))

def Clause.followFirst (engine : FollowedEngine) (scope : Scope) :
    List Clause → Followed (Option Signal)
  | [] => return none
  | .mk condition body :: clauses => do
    if (← single (condition.follow engine scope)).truthy then
      let signal ← Followed.inFrame scope [] fun scope => body.follow engine scope
      return some signal
    else Clause.followFirst engine scope clauses

def Block.follow (engine : FollowedEngine) (scope : Scope) : Block → Followed Signal
  | .mk statements _ => Stmt.followAll engine scope statements

def Stmt.followAll (engine : FollowedEngine) (scope : Scope) : List Stmt → Followed Signal
  | [] => return .normal
  | s :: statements => do
    lift (Eval.traceLine fun _ => s!"exec {s.kind} @{s.line}")
    match ← within (.site (.stmt s)) (atLine s.line (s.follow engine scope)) with
    | (.normal, scope) => Stmt.followAll engine scope statements
    | (signal, _) => return signal

end

namespace Followed

/-- A call that cannot be entered leaves no body. -/
def callAt (loopLimit : Nat) : (budget : Nat) → Nat → List Value → Followed (List Value)
  | 0, _, _ => lift (Eval.fault .stackOverflow)
  | budget + 1, id, args => within (.body id) do
    let f ← lift (Eval.closure id)
    let scope ← lift (Eval.pushFrame f.scope (.ofLists f.params (Value.adjust args f.params.length)))
    let signal ← deeper do
      let depth := (← lift get).depth
      lift (Eval.traceLine fun _ => s!"call {f.name} (depth {depth})")
      f.body.follow ⟨callAt loopLimit budget, loopLimit⟩ scope
    let values ← lift (Eval.resultOf signal)
    lift (Eval.traceLine fun _ => s!"return from {f.name} with {values.length} value(s)")
    return values

def engine (loopLimit maxDepth : Nat) : FollowedEngine := ⟨callAt loopLimit maxDepth, loopLimit⟩

def chunk (loopLimit maxDepth : Nat) (program : Block) : Followed (List Value) := within .chunk do
  lift (modify fun m => { m with depth := 0 })
  let scope ← lift (Eval.pushFrame [0] [])
  let signal ← program.follow (engine loopLimit maxDepth) scope
  lift (Eval.resultOf signal)

end Followed

end MiniLua
