import MiniLua.Eval.Program

/-!
# Headers

What a loop and a clause evaluate before any of their code, taken by itself.
-/

namespace MiniLua

open Eval

namespace Eval

variable (engine : Engine) (scope : Scope)

def holds (condition : Expr) : Eval Bool := do
  return (← single (condition.eval engine scope)).truthy

def forOperand (what : ForOperand) (e : Expr) : Eval Float := do
  forNumber what (← single (e.eval engine scope))

/-- The start, the limit and the step of a loop over a counter. -/
def counting (start stop : Expr) (step : Option Expr) : Eval (Float × Float × Float) := do
  let first ← forOperand engine scope .start start
  let last ← forOperand engine scope .limit stop
  let stride ← match step with
    | none => pure 1
    | some step => forOperand engine scope .step step
  if stride == 0 then fault .zeroStep
  return (first, last, stride)

/-- The table that a loop over keys goes over, and its keys. -/
def keying : List Expr → Eval (Nat × List Value)
  | [.call (.mk callee args _)] => do
    match ← single (callee.eval engine scope) with
    | .builtin .pairs =>
      let id ← pairsTable (← Expr.evalAll engine scope args)
      return (id, (← table id).items.map (·.1))
    | v => fault (.forWithoutPairs v.typeName)
  | _ => fault .forWithoutCall

end Eval

variable {engine : Engine} {scope : Scope}

theorem Stmt.exec_numericFor (name : String) (start stop : Expr) (step : Option Expr) (body : Block)
    (line : Nat) : (Stmt.numericFor name start stop step body line).exec engine scope = (do
      let (first, last, stride) ← counting engine scope start stop step
      let signal ← countedTurns stride last
        (fun counter => inFrame scope [(name, .number counter)] fun scope => body.exec engine scope)
        engine.loopLimit first
      return (signal, scope)) := by
  rw [Stmt.exec, counting]
  have after (first last stride : Float) :
      (do
        if stride == 0 then fault .zeroStep
        let signal ← countedTurns stride last
          (fun counter => inFrame scope [(name, .number counter)] fun scope => body.exec engine scope)
          engine.loopLimit first
        return (signal, scope) : Eval (Signal × Scope)) = (do
        let (first, last, stride) ← (do
          if stride == 0 then fault .zeroStep
          return (first, last, stride) : Eval (Float × Float × Float))
        let signal ← countedTurns stride last
          (fun counter => inFrame scope [(name, .number counter)] fun scope => body.exec engine scope)
          engine.loopLimit first
        return (signal, scope)) := by
    split <;> rfl
  cases step <;> simp only [Eval.forOperand, bind_assoc, pure_bind, ← after]

theorem Stmt.exec_genericFor (names : List String) (values : List Expr) (body : Block)
    (line : Nat) : (Stmt.genericFor names values body line).exec engine scope = (do
      let (id, keys) ← keying engine scope values
      let signal ← keyedTurns (fun key => do return (← table id).get key)
        (fun key value =>
          inFrame scope (.ofLists names (Value.adjust [key, value] names.length))
            fun scope => body.exec engine scope) keys
      return (signal, scope)) := by
  unfold keying
  split
  next callee args l =>
    rw [Stmt.exec, bind_assoc]
    refine bind_congr fun f => ?_
    cases f with
    | builtin called =>
      cases called with
      | pairs => simp only [bind_assoc, pure_bind]
      | print => rfl
    | _ => rfl
  next other =>
    rw [Stmt.exec]
    · rfl
    · exact other

theorem Clause.execFirst_cons (condition : Expr) (body : Block) (clauses : List Clause) :
    Clause.execFirst engine scope (.mk condition body :: clauses) = (do
      if ← holds engine scope condition then
        let signal ← inFrame scope [] fun scope => body.exec engine scope
        return some signal
      else Clause.execFirst engine scope clauses) := by
  rw [Clause.execFirst, holds, bind_assoc]
  rfl

end MiniLua
