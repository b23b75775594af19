import MiniLua.Proofs.Regimes.Steps
import MiniLua.Proofs.Running.Headers

/-!
# Programs under a regime

Rule by rule over the tree: evaluation keeps the regime, and a strict one if the program has no stray
breaks.
-/

namespace MiniLua

open Eval

variable {R : Regime}

section

variable {engine : Engine}

/-! ## Expressions -/

mutual

theorem Expr.abides (calls : engine.Abides R) : ∀ (m : Machine) (s : Scope) (x : Expr),
    R.scope m s → R.Allows x.enclosed → Abides R m (x.eval engine s) R.Spreads
  | _, _, .nil _, _, _ => .pure (R.expand (R.plain rfl))
  | _, _, .bool _ _, _, _ => .pure (R.expand (R.plain rfl))
  | _, _, .number _ _, _, _ => .pure (R.expand (R.plain rfl))
  | _, _, .string _ _, _, _ => .pure (R.expand (R.plain rfl))
  | _, _, .name n _, _, _ => (Abides.lookup n).mono fun _ _ => R.expand
  | m, s, .index target key line, known, inside => by
    obtain ⟨onTarget, onKey⟩ := Regime.allows_and.mp inside
    rw [Expr.eval]
    refine (Expr.abides calls m s target known onTarget).single.bind fun t m₁ next _ => ?_
    have known := R.scope_later next.later known
    refine (Expr.abides calls m₁ s key known onKey).single.bind fun k m₂ _ _ => ?_
    split
    · exact (Abides.table _).map fun _ _ fine => R.expand (R.get fine k)
    · exact .faultAt _ _ nofun nofun
  | m, s, .call c, known, inside => by
    rw [Expr.eval]
    exact Call.abides calls m s c known inside
  | _, s, .function f, known, inside => by
    rw [Expr.eval]
    exact (Abides.closureOf known f inside).mono fun _ _ => R.expand
  | m, s, .table fields _, known, inside => by
    rw [Expr.eval]
    refine (Field.abides calls m s fields 1 .empty known inside (R.empty m)).bind fun t m₁ _ fine => ?_
    exact (Abides.newTable fine).mono fun _ _ => R.expand
  | m, s, .paren inner _, known, inside => by
    rw [Expr.eval]
    exact (Expr.abides calls m s inner known inside).single.mono fun _ _ => R.expand
  | m, s, .logical op left right _, known, inside => by
    obtain ⟨onLeft, onRight⟩ := Regime.allows_and.mp inside
    rw [Expr.eval]
    refine (Expr.abides calls m s left known onLeft).single.bind fun a m₁ next good => ?_
    have known := R.scope_later next.later known
    have either (decided : Bool) :
        Abides R m₁ (if decided then return a else single (right.eval engine s)) R.Spreads := by
      cases decided with
      | true => exact .pure (R.expand good)
      | false =>
        exact (Expr.abides calls m₁ s right known onRight).single.mono fun _ _ => R.expand
    exact either _
  | m, s, .binary op left right line, known, inside => by
    obtain ⟨onLeft, onRight⟩ := Regime.allows_and.mp inside
    rw [Expr.eval]
    refine (Expr.abides calls m s left known onLeft).single.bind fun a m₁ next _ => ?_
    have known := R.scope_later next.later known
    refine (Expr.abides calls m₁ s right known onRight).single.bind fun b m₂ _ _ => ?_
    exact (Abides.binaryOp op left right line a b).mono fun _ _ => R.expand
  | m, s, .unary op operand line, known, inside => by
    rw [Expr.eval]
    refine (Expr.abides calls m s operand known inside).single.bind fun a m₁ _ _ => ?_
    exact (Abides.unaryOp op operand line a).mono fun _ _ => R.expand
  | _, _, .other kind line, _, _ => by
    rw [Expr.eval]
    exact .atLine line (.fault nofun)

theorem Expr.abidesAll (calls : engine.Abides R) : ∀ (m : Machine) (s : Scope) (xs : List Expr),
    R.scope m s → R.Allows (Expr.allEnclosed xs) →
    Abides R m (Expr.evalAll engine s xs) R.Values
  | _, _, [], _, _ => .pure nofun
  | m, s, [x], known, inside => by
    rw [Expr.allEnclosed] at inside
    rw [Expr.evalAll]
    exact (Expr.abides calls m s x known (Regime.allows_and.mp inside).1).map fun _ _ fine => fine
  | m, s, x :: y :: xs, known, inside => by
    rw [Expr.allEnclosed] at inside
    obtain ⟨onFirst, onRest⟩ := Regime.allows_and.mp inside
    rw [Expr.evalAll]
    · refine (Expr.abides calls m s x known onFirst).single.bind fun v m₁ next good => ?_
      have known := R.scope_later next.later known
      refine (Expr.abidesAll calls m₁ s (y :: xs) known onRest).bind fun vs m₂ next fine => ?_
      exact .pure (List.forall_mem_cons.mpr ⟨R.value_later next.later good, fine⟩)
    · nofun

theorem Call.abides (calls : engine.Abides R) : ∀ (m : Machine) (s : Scope) (c : Call),
    R.scope m s → R.Allows c.enclosed → Abides R m (c.eval engine s) R.Spreads
  | m, s, .mk callee args line, known, inside => by
    obtain ⟨onCallee, onArgs⟩ := Regime.allows_and.mp inside
    rw [Call.eval]
    refine (Expr.abides calls m s callee known onCallee).single.bind fun f m₁ next good => ?_
    have known := R.scope_later next.later known
    refine (Expr.abidesAll calls m₁ s args known onArgs).bind fun vs m₂ next fine => ?_
    split
    · exact .atLine line (.apply calls (R.value_later next.later good) fine)
    · exact .faultAt _ _ nofun nofun

theorem Field.abides (calls : engine.Abides R) : ∀ (m : Machine) (s : Scope) (fields : List Field)
    (position : Nat) (t : Table), R.scope m s → R.Allows (Field.allEnclosed fields) → R.table m t →
    Abides R m (Field.evalAll engine s fields position t) R.table
  | _, _, [], _, _, _, _, fine => .pure fine
  | m, s, [.positional x _], position, t, known, inside, fine => by
    obtain ⟨onFirst, -⟩ := Regime.allows_and.mp inside
    rw [Field.evalAll]
    refine (Expr.abides calls m s x known onFirst).bind fun v m₁ next spreads => ?_
    exact .pure (Regime.putValues (R.table_later next.later fine) spreads position)
  | m, s, .positional x _ :: field :: fields, position, t, known, inside, fine => by
    obtain ⟨onFirst, onRest⟩ := Regime.allows_and.mp inside
    rw [Field.evalAll]
    · refine (Expr.abides calls m s x known onFirst).single.bind fun v m₁ next good => ?_
      have fine := R.table_later next.later fine
      have written := R.insert fine (Table.keyFault?_positionKey position) (R.plain rfl) good
      exact Field.abides calls m₁ s (field :: fields) _ _ (R.scope_later next.later known) onRest
        written
    · nofun
  | m, s, .keyed key value line :: fields, position, t, known, inside, fine => by
    obtain ⟨onField, onRest⟩ := Regime.allows_and.mp inside
    obtain ⟨onKey, onValue⟩ := Regime.allows_and.mp onField
    rw [Field.evalAll]
    refine (Expr.abides calls m s key known onKey).single.bind fun k m₁ next good => ?_
    have known := R.scope_later next.later known
    refine (Expr.abides calls m₁ s value known onValue).single.bind fun v m₂ next' good' => ?_
    have known := R.scope_later next'.later known
    have fine := R.table_later (R.later_trans next.later next'.later) fine
    have good := R.value_later next'.later good
    unfold Table.set
    cases faulty : Table.keyFault? k with
    | some error =>
      refine .atLine line (.fault fun escaped => ?_)
      rcases Table.keyFault?_cases faulty with rfl | rfl <;> cases escaped
    | none =>
      exact Field.abides calls m₂ s fields position _ known onRest (R.insert fine faulty good good')

end

theorem Target.abides (calls : engine.Abides R) (m : Machine) (s : Scope) (t : Target)
    (known : R.scope m s) (inside : R.Allows t.enclosed) :
    Abides R m (t.place engine s) R.Place := by
  cases t with
  | name n line => exact .pure trivial
  | index target key line =>
    obtain ⟨onTarget, onKey⟩ := Regime.allows_and.mp inside
    rw [Target.place]
    refine (Expr.abides calls m s target known onTarget).single.bind fun t m₁ next good => ?_
    have known := R.scope_later next.later known
    refine (Expr.abides calls m₁ s key known onKey).single.bind fun k m₂ next good' => ?_
    split
    · exact .pure ⟨R.value_later next.later good, good'⟩
    · exact .faultAt _ _ nofun nofun

theorem Target.abidesAll (calls : engine.Abides R) (m : Machine) (s : Scope) (ts : List Target)
    (known : R.scope m s) (inside : R.Allows (Target.allEnclosed ts)) :
    Abides R m (Target.places engine s ts) fun m' places => ∀ place ∈ places, R.Place m' place := by
  induction ts generalizing m with
  | nil => exact .pure fun _ member => absurd member List.not_mem_nil
  | cons t ts ih =>
    obtain ⟨onFirst, onRest⟩ := Regime.allows_and.mp inside
    rw [Target.places]
    refine (Target.abides calls m s t known onFirst).bind fun place m₁ next good => ?_
    refine (ih m₁ (R.scope_later next.later known) onRest).bind fun places m₂ next fine => ?_
    exact .pure (List.forall_mem_cons.mpr ⟨good.later next.later, fine⟩)

/-! ## Headers -/

namespace Eval.Abides

variable {m : Machine} {s : Scope}

theorem holds (calls : engine.Abides R) (known : R.scope m s) {condition : Expr}
    (inside : R.Allows condition.enclosed) :
    Abides R m (Eval.holds engine s condition) Unsaid :=
  (Expr.abides calls m s condition known inside).single.map fun _ _ _ => trivial

theorem forOperand (calls : engine.Abides R) (known : R.scope m s) (what : ForOperand) {e : Expr}
    (inside : R.Allows e.enclosed) : Abides R m (Eval.forOperand engine s what e) Unsaid :=
  (Expr.abides calls m s e known inside).single.bind fun v _ _ _ => .forNumber what v

theorem counting (calls : engine.Abides R) (known : R.scope m s) {start stop : Expr}
    {step : Option Expr} (onStart : R.Allows start.enclosed) (onStop : R.Allows stop.enclosed)
    (onStep : ∀ x ∈ step, R.Allows x.enclosed) :
    Abides R m (Eval.counting engine s start stop step) Unsaid := by
  refine (forOperand calls known .start onStart).bind fun first m₁ next _ => ?_
  have known := R.scope_later next.later known
  refine (forOperand calls known .limit onStop).bind fun last m₂ next _ => ?_
  have known := R.scope_later next.later known
  have stepped (stride : Float) (m' : Machine) : Abides R m'
      (do
        if stride == 0 then Eval.fault .zeroStep
        return (first, last, stride)) Unsaid := by
    split
    · exact (fault nofun : Abides R m' (Eval.fault .zeroStep : Eval PUnit) Unsaid).bind
        fun _ _ _ _ => done
    · exact done
  cases step with
  | none => exact stepped 1 m₂
  | some step =>
    exact (forOperand calls known .step (onStep step rfl)).bind fun stride m₃ _ _ => stepped stride m₃

theorem keying (calls : engine.Abides R) (known : R.scope m s) {values : List Expr}
    (inside : R.Allows (Expr.allEnclosed values)) :
    Abides R m (Eval.keying engine s values) fun m' out => R.Values m' out.2 := by
  unfold Eval.keying
  split
  next callee args line =>
    obtain ⟨onCall, -⟩ := Regime.allows_and.mp inside
    obtain ⟨onCallee, onArgs⟩ := Regime.allows_and.mp onCall
    refine (Expr.abides calls m s callee known onCallee).single.bind fun f m₁ next _ => ?_
    have known := R.scope_later next.later known
    split
    · refine (Expr.abidesAll calls m₁ s args known onArgs).bind fun vs m₂ _ _ => ?_
      refine (pairsTable vs).bind fun id m₃ _ _ => (table id).bind fun t m₄ _ fine => ?_
      refine pure fun key member => ?_
      obtain ⟨entry, listed, rfl⟩ := List.mem_map.mp member
      exact R.keys fine entry listed
    · exact fault (by rintro ⟨⟩)
  · exact fault (by rintro ⟨⟩)

end Eval.Abides

theorem Regime.allows_numericFor {inLoop : Bool} {name : String} {start stop : Expr}
    {step : Option Expr} {body : Block} {line : Nat}
    (inside : R.Allows ((Stmt.numericFor name start stop step body line).enclosed inLoop)) :
    R.Allows start.enclosed ∧ R.Allows stop.enclosed ∧ (∀ x ∈ step, R.Allows x.enclosed) ∧
      R.Allows (body.enclosed true) := by
  cases step with
  | none =>
    obtain ⟨onOperands, onBody⟩ := allows_and.mp inside
    obtain ⟨onStart, onStop⟩ := allows_and.mp onOperands
    exact ⟨onStart, onStop, nofun, onBody⟩
  | some step =>
    obtain ⟨onOperands, onBody⟩ := allows_and.mp inside
    obtain ⟨onBounds, onStep⟩ := allows_and.mp onOperands
    obtain ⟨onStart, onStop⟩ := allows_and.mp onBounds
    refine ⟨onStart, onStop, ?_, onBody⟩
    rintro _ ⟨⟩
    exact onStep

/-! ## Statements -/

/-- How a statement ends, and the scope of the statements after it. -/
def Regime.Out (R : Regime) (inLoop : Bool) (m : Machine) (out : Signal × Scope) : Prop :=
  R.Ends inLoop m out.1 ∧ R.scope m out.2

theorem Eval.Abides.out {m : Machine} {s : Scope} {x : Eval Signal} {inLoop : Bool}
    (h : Abides R m x (R.Ends inLoop)) (known : R.scope m s) :
    Abides R m (do return (← x, s)) (R.Out inLoop) :=
  h.bind fun _ _ next ends => .pure ⟨ends, R.scope_later next.later known⟩

mutual

theorem Stmt.abides (calls : engine.Abides R) : ∀ (inLoop : Bool) (m : Machine) (s : Scope)
    (x : Stmt), R.scope m s → R.Allows (x.enclosed inLoop) →
    Abides R m (x.exec engine s) (R.Out inLoop)
  | _, m, s, .localVars names values _, known, inside => by
    rw [Stmt.exec]
    refine (Expr.abidesAll calls m s values known inside).bind fun vs m₁ next fine => ?_
    have bound := Regime.Values.ofLists names (Regime.Values.adjust fine names.length)
    refine (Abides.pushFrame (R.scope_later next.later known) bound).bind fun s' m₂ _ inner => ?_
    exact .pure ⟨trivial, inner⟩
  | _, m, s, .assign targets values _, known, inside => by
    obtain ⟨onTargets, onValues⟩ := Regime.allows_and.mp inside
    rw [Stmt.exec]
    refine (Expr.abidesAll calls m s values known onValues).bind fun vs m₁ next fine => ?_
    have known := R.scope_later next.later known
    refine (Target.abidesAll calls m₁ s targets known onTargets).bind fun places m₂ next there => ?_
    have known := R.scope_later next.later known
    have fine := Regime.Values.later fine next.later
    refine (Abides.storeAll known there (Regime.Values.adjust fine _)).bind fun _ m₃ next _ => ?_
    exact .pure ⟨trivial, R.scope_later next.later known⟩
  | _, m, s, .call c _, known, inside => by
    rw [Stmt.exec]
    refine (Call.abides calls m s c known inside).bind fun _ m₁ next _ => ?_
    exact .pure ⟨trivial, R.scope_later next.later known⟩
  | inLoop, m, s, .doBlock body _, known, inside => by
    rw [Stmt.exec]
    refine (Abides.inFrame known Regime.unbound fun s' m₁ _ inner => ?_).out known
    exact Block.abides calls inLoop m₁ s' body inner inside
  | inLoop, m, s, .whileLoop condition body _, known, inside => by
    obtain ⟨onCondition, onBody⟩ := Regime.allows_and.mp inside
    rw [Stmt.exec]
    refine (Abides.whileTurns (fun m₁ next => ?_) (fun m₁ next => ?_) _).out known
    · have known := R.scope_later next.later known
      exact (Expr.abides calls m₁ s condition known onCondition).single.map fun _ _ _ => trivial
    · refine .inFrame (R.scope_later next.later known) Regime.unbound fun s' m₂ _ inner => ?_
      exact Block.abides calls true m₂ s' body inner onBody
  | inLoop, m, s, .branch clauses none _, known, inside => by
    rw [Stmt.exec]
    refine (Clause.abides calls inLoop m s clauses known inside).bind fun taken m₁ next ends => ?_
    have known := R.scope_later next.later known
    cases taken with
    | some signal => exact .pure ⟨ends signal rfl, known⟩
    | none => exact .pure ⟨trivial, known⟩
  | inLoop, m, s, .branch clauses (some body) _, known, inside => by
    obtain ⟨onClauses, onBody⟩ := Regime.allows_and.mp inside
    rw [Stmt.exec]
    refine (Clause.abides calls inLoop m s clauses known onClauses).bind fun taken m₁ next ends => ?_
    have known := R.scope_later next.later known
    cases taken with
    | some signal => exact .pure ⟨ends signal rfl, known⟩
    | none =>
      refine (Abides.inFrame known Regime.unbound fun s' m₂ _ inner => ?_).out known
      exact Block.abides calls inLoop m₂ s' body inner onBody
  | inLoop, m, s, .numericFor name start stop step body _, known, inside => by
    obtain ⟨onStart, onStop, onStep, onBody⟩ := Regime.allows_numericFor inside
    rw [Stmt.exec_numericFor]
    refine (Abides.counting calls known onStart onStop onStep).bind fun bounds m₁ next _ => ?_
    have known := R.scope_later next.later known
    refine (Abides.countedTurns _ _ (fun counter m₂ next => ?_) _ _).out known
    have bound : ∀ b ∈ [(name, Value.number counter)], R.value m₂ b.2 :=
      List.forall_mem_singleton.mpr (R.plain rfl)
    refine .inFrame (R.scope_later next.later known) bound fun s' m₃ _ inner => ?_
    exact Block.abides calls true m₃ s' body inner onBody
  | inLoop, m, s, .genericFor names values body line, known, inside => by
    obtain ⟨onValues, onBody⟩ := Regime.allows_and.mp inside
    rw [Stmt.exec_genericFor]
    refine (Abides.keying calls known onValues).bind fun header m₁ next keys => ?_
    have known := R.scope_later next.later known
    refine (Abides.keyedTurns keys (fun key m₂ _ => ?_) fun key value m₂ next good good' => ?_).out
      known
    · exact (Abides.table _).map fun _ _ fine => R.get fine key
    · have both : R.Values m₂ [key, value] :=
        List.forall_mem_cons.mpr ⟨good, List.forall_mem_singleton.mpr good'⟩
      have bound := Regime.Values.ofLists names (Regime.Values.adjust both names.length)
      refine .inFrame (R.scope_later next.later known) bound fun s' m₃ _ inner => ?_
      exact Block.abides calls true m₃ s' body inner onBody
  | _, m, s, .functionDecl target function _, known, inside => by
    obtain ⟨onTarget, onFunction⟩ := Regime.allows_and.mp inside
    rw [Stmt.exec]
    refine (Abides.closureOf known function onFunction).bind fun f m₁ next good => ?_
    have known := R.scope_later next.later known
    refine (Target.abides calls m₁ s target known onTarget).bind fun place m₂ next there => ?_
    have known := R.scope_later next.later known
    refine (Abides.store known there (R.value_later next.later good)).bind fun _ m₃ next _ => ?_
    exact .pure ⟨trivial, R.scope_later next.later known⟩
  | _, m, s, .localFunction name function _, known, inside => by
    rw [Stmt.exec]
    have bound : ∀ b ∈ [(name, Value.nil)], R.value m b.2 :=
      List.forall_mem_singleton.mpr (R.plain rfl)
    refine (Abides.pushFrame known bound).bind fun s' m₁ _ inner => ?_
    refine (Abides.closureOf inner function inside).bind fun f m₂ next good => ?_
    have inner := R.scope_later next.later inner
    refine (Abides.assign inner name good).bind fun _ m₃ next _ => ?_
    exact .pure ⟨trivial, R.scope_later next.later inner⟩
  | _, m, s, .returnValues values _, known, inside => by
    rw [Stmt.exec]
    refine (Expr.abidesAll calls m s values known inside).bind fun vs m₁ next fine => ?_
    exact .pure ⟨fine, R.scope_later next.later known⟩
  | _, _, _, .breakLoop _, known, inside => .pure ⟨inside, known⟩
  | _, _, _, .other _ _, _, _ => .fault nofun

theorem Clause.abides (calls : engine.Abides R) : ∀ (inLoop : Bool) (m : Machine) (s : Scope)
    (clauses : List Clause), R.scope m s → R.Allows (Clause.allEnclosed inLoop clauses) →
    Abides R m (Clause.execFirst engine s clauses) (R.Ending inLoop)
  | _, _, _, [], _, _ => .pure nofun
  | inLoop, m, s, .mk condition body :: clauses, known, inside => by
    rw [Clause.allEnclosed] at inside
    obtain ⟨onFirst, onRest⟩ := Regime.allows_and.mp inside
    obtain ⟨onCondition, onBody⟩ := Regime.allows_and.mp onFirst
    rw [Clause.execFirst]
    refine (Expr.abides calls m s condition known onCondition).single.bind fun holds m₁ next _ => ?_
    have known := R.scope_later next.later known
    split
    · have ran : Abides R m₁ (inFrame s [] fun s => body.exec engine s) (R.Ends inLoop) :=
        .inFrame known Regime.unbound fun s' m₂ _ inner =>
          Block.abides calls inLoop m₂ s' body inner onBody
      refine ran.map fun m₂ signal ends => ?_
      rintro _ ⟨⟩
      exact ends
    · exact Clause.abides calls inLoop m₁ s clauses known onRest

theorem Block.abides (calls : engine.Abides R) : ∀ (inLoop : Bool) (m : Machine) (s : Scope)
    (b : Block), R.scope m s → R.Allows (b.enclosed inLoop) →
    Abides R m (b.exec engine s) (R.Ends inLoop)
  | inLoop, m, s, .mk statements _, known, inside => by
    rw [Block.exec]
    exact Stmt.abidesAll calls inLoop m s statements known inside

theorem Stmt.abidesAll (calls : engine.Abides R) : ∀ (inLoop : Bool) (m : Machine) (s : Scope)
    (statements : List Stmt), R.scope m s → R.Allows (Stmt.allEnclosed inLoop statements) →
    Abides R m (Stmt.execAll engine s statements) (R.Ends inLoop)
  | _, _, _, [], _, _ => .pure trivial
  | inLoop, m, s, x :: statements, known, inside => by
    rw [Stmt.allEnclosed] at inside
    obtain ⟨onFirst, onRest⟩ := Regime.allows_and.mp inside
    rw [Stmt.execAll]
    refine (Abides.traceLine _).bind fun _ m₁ next _ => ?_
    have known := R.scope_later next.later known
    refine (Abides.atLine x.line (Stmt.abides calls inLoop m₁ s x known onFirst)).bind
      fun out m₂ _ good => ?_
    split
    next s' => exact Stmt.abidesAll calls inLoop m₂ s' statements good.2 onRest
    next signal _ _ => exact .pure good.1

end

end

end MiniLua
