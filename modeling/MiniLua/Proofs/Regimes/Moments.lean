import MiniLua.Proofs.Control.Halting
import MiniLua.Proofs.Regimes.Sessions

/-!
# Moments under a regime

A regime that holds where a run begins holds at every moment that the run reaches: one part after
another, each begins where those before it have led.
-/

namespace MiniLua

open Eval

variable {R : Regime}

namespace Regime

/-- What is known of a task. -/
def Task (R : Regime) (m : Machine) (inLoop : Bool) : MiniLua.Task → Prop
  | .expr e => R.Allows e.enclosed
  | .exprs es => R.Allows (Expr.allEnclosed es)
  | .call c => R.Allows c.enclosed
  | .fields fields _ t => R.Allows (Field.allEnclosed fields) ∧ R.table m t
  | .target t => R.Allows t.enclosed
  | .targets ts => R.Allows (Target.allEnclosed ts)
  | .stmt x => R.Allows (x.enclosed inLoop)
  | .stmts xs => R.Allows (Stmt.allEnclosed inLoop xs)
  | .clauses cs => R.Allows (Clause.allEnclosed inLoop cs)
  | .block body => R.Allows (body.enclosed inLoop)
  | .whileTurns condition body _ => R.Allows condition.enclosed ∧ R.Allows (body.enclosed true)
  | .countedTurns _ _ _ body _ _ => R.Allows (body.enclosed true)
  | .keyedTurns _ _ body keys => R.Allows (body.enclosed true) ∧ R.Values m keys

/-- The regime holds at a moment, of code that is in a loop or not. -/
structure At (R : Regime) (p : Moment) : Prop where
  machine : R.machine p.machine
  scope : R.scope p.machine p.scope
  task : ∃ inLoop, R.Task p.machine inLoop p.task

end Regime

section

variable {engine : Engine} {s : Scope} {m m' : Machine} {x y : Task} {inLoop : Bool}

theorem Evaluates.abides (part : Evaluates engine s m x m' y) (calls : engine.Abides R)
    (good : R.machine m) (known : R.scope m s) (inside : R.Task m inLoop x) :
    R.Onward m m' ∧ R.Task m' inLoop y := by
  cases part with
  | indexTarget => exact ⟨.refl good, (Regime.allows_and.mp inside).1⟩
  | indexKey done =>
    obtain ⟨onTarget, onKey⟩ := Regime.allows_and.mp inside
    exact ⟨((Expr.abides calls _ _ _ known onTarget).of_ok good done).1, onKey⟩
  | call => exact ⟨.refl good, inside⟩
  | table => exact ⟨.refl good, inside, R.empty _⟩
  | paren => exact ⟨.refl good, inside⟩
  | logicalLeft => exact ⟨.refl good, (Regime.allows_and.mp inside).1⟩
  | logicalRight done =>
    obtain ⟨onLeft, onRight⟩ := Regime.allows_and.mp inside
    exact ⟨((Expr.abides calls _ _ _ known onLeft).of_ok good done).1, onRight⟩
  | binaryLeft => exact ⟨.refl good, (Regime.allows_and.mp inside).1⟩
  | binaryRight done =>
    obtain ⟨onLeft, onRight⟩ := Regime.allows_and.mp inside
    exact ⟨((Expr.abides calls _ _ _ known onLeft).of_ok good done).1, onRight⟩
  | unary => exact ⟨.refl good, inside⟩
  | firstExpr => exact ⟨.refl good, (Regime.allows_and.mp inside).1⟩
  | moreExprs done =>
    obtain ⟨onFirst, onRest⟩ := Regime.allows_and.mp inside
    exact ⟨((Expr.abides calls _ _ _ known onFirst).of_ok good done).1, onRest⟩
  | callee => exact ⟨.refl good, (Regime.allows_and.mp inside).1⟩
  | args done =>
    obtain ⟨onCallee, onArgs⟩ := Regime.allows_and.mp inside
    exact ⟨((Expr.abides calls _ _ _ known onCallee).of_ok good done).1, onArgs⟩
  | positional => exact ⟨.refl good, (Regime.allows_and.mp inside.1).1⟩
  | afterPositional done =>
    obtain ⟨onFirst, onRest⟩ := Regime.allows_and.mp inside.1
    obtain ⟨next, spreads⟩ := (Expr.abides calls _ _ _ known onFirst).of_ok good done
    have fine := R.table_later next.later inside.2
    exact ⟨next, onRest,
      R.insert fine (Table.keyFault?_positionKey _) (R.plain rfl) spreads.compress⟩
  | fieldKey =>
    exact ⟨.refl good, (Regime.allows_and.mp (Regime.allows_and.mp inside.1).1).1⟩
  | fieldValue done =>
    obtain ⟨onField, -⟩ := Regime.allows_and.mp inside.1
    obtain ⟨onKey, onValue⟩ := Regime.allows_and.mp onField
    exact ⟨((Expr.abides calls _ _ _ known onKey).of_ok good done).1, onValue⟩
  | afterKeyed done done' set =>
    obtain ⟨onField, onRest⟩ := Regime.allows_and.mp inside.1
    obtain ⟨onKey, onValue⟩ := Regime.allows_and.mp onField
    obtain ⟨next, spreads⟩ := (Expr.abides calls _ _ _ known onKey).of_ok good done
    have known := R.scope_later next.later known
    obtain ⟨next', spreads'⟩ := (Expr.abides calls _ _ _ known onValue).of_ok next.machine done'
    have fine := R.table_later (next.trans next').later inside.2
    have key := R.value_later next'.later spreads.compress
    refine ⟨next.trans next', onRest, ?_⟩
    unfold Table.set at set
    split at set
    · cases set
    next writable =>
      cases set
      exact R.insert fine writable key spreads'.compress
  | targetTable => exact ⟨.refl good, (Regime.allows_and.mp inside).1⟩
  | targetKey done =>
    obtain ⟨onTarget, onKey⟩ := Regime.allows_and.mp inside
    exact ⟨((Expr.abides calls _ _ _ known onTarget).of_ok good done).1, onKey⟩
  | firstTarget => exact ⟨.refl good, (Regime.allows_and.mp inside).1⟩
  | moreTargets done =>
    obtain ⟨onFirst, onRest⟩ := Regime.allows_and.mp inside
    exact ⟨((Target.abides calls _ _ _ known onFirst).of_ok good done).1, onRest⟩
  | localValues => exact ⟨.refl good, inside⟩
  | assigned => exact ⟨.refl good, (Regime.allows_and.mp inside).2⟩
  | assignTargets done =>
    obtain ⟨onTargets, onValues⟩ := Regime.allows_and.mp inside
    exact ⟨((Expr.abidesAll calls _ _ _ known onValues).of_ok good done).1, onTargets⟩
  | callStmt => exact ⟨.refl good, inside⟩
  | clauseCondition =>
    exact ⟨.refl good, (Regime.allows_and.mp (Regime.allows_and.mp inside).1).1⟩
  | whileCondition => exact ⟨.refl good, inside.1⟩
  | forStart => exact ⟨.refl good, (Regime.allows_numericFor inside).1⟩
  | forLimit done =>
    obtain ⟨onStart, onStop, -, -⟩ := Regime.allows_numericFor inside
    exact ⟨((Abides.forOperand calls known .start onStart).of_ok good done).1, onStop⟩
  | forStep done done' =>
    obtain ⟨onStart, onStop, onStep, -⟩ := Regime.allows_numericFor inside
    have next := ((Abides.forOperand calls known .start onStart).of_ok good done).1
    have known := R.scope_later next.later known
    have next' := ((Abides.forOperand calls known .limit onStop).of_ok next.machine done').1
    exact ⟨next.trans next', onStep _ rfl⟩
  | forCallee =>
    obtain ⟨onCall, -⟩ := Regime.allows_and.mp (Regime.allows_and.mp inside).1
    exact ⟨.refl good, (Regime.allows_and.mp onCall).1⟩
  | forArgs done =>
    obtain ⟨onCall, -⟩ := Regime.allows_and.mp (Regime.allows_and.mp inside).1
    obtain ⟨onCallee, onArgs⟩ := Regime.allows_and.mp onCall
    exact ⟨((Expr.abides calls _ _ _ known onCallee).of_ok good done).1, onArgs⟩
  | declared done =>
    obtain ⟨onTarget, onFunction⟩ := Regime.allows_and.mp inside
    exact ⟨((Abides.closureOf known _ onFunction).of_ok good done).1, onTarget⟩
  | returned => exact ⟨.refl good, inside⟩

end

section

variable {turns : Nat} {p q : Moment}

/-! ## Code -/

/-- A block in a new frame. -/
theorem Regime.At.framed {b : Nat} {s : Scope} {m : Machine} {bs : Bindings} {body : Block}
    {inLoop : Bool} (good : R.machine m) (known : R.scope m s) (bound : ∀ b ∈ bs, R.value m b.2)
    (inside : R.Allows (body.enclosed inLoop)) : R.At (.framed b s m bs body) := by
  obtain ⟨⟨kept, -⟩, inner⟩ := R.pushFrame good known bound
  exact ⟨kept, inner, inLoop, inside⟩

/-- What a turn of a loop over keys binds. -/
theorem Regime.keyed {m : Machine} {names : List String} {id : Nat} {key : Value}
    (good : R.machine m) (fine : R.value m key) :
    ∀ b ∈ Bindings.ofLists names
      (Value.adjust [key, (m.tables.getD id .empty).get key] names.length), R.value m b.2 := by
  have value := R.get (R.contents good id) key
  have both : R.Values m [key, (m.tables.getD id .empty).get key] :=
    List.forall_mem_cons.mpr ⟨fine, List.forall_mem_singleton.mpr value⟩
  exact Values.ofLists names (both.adjust names.length)

/-- A block that has been run in a new frame. -/
theorem Regime.At.onward {b : Nat} {s : Scope} {m m' : Machine} {bs : Bindings} {body : Block}
    {signal : Signal} {inLoop : Bool} (good : R.machine m) (known : R.scope m s)
    (bound : ∀ b ∈ bs, R.value m b.2) (inside : R.Allows (body.enclosed inLoop))
    (ended : (Moment.framed b s m bs body).run turns = .ok signal m') : R.Onward m m' := by
  have ran : Abides R m (inFrame s bs fun s => body.exec (engine turns b) s) (R.Ends inLoop) :=
    .inFrame known bound fun s' m₁ _ inner =>
      Block.abides (abides_callAt turns b) inLoop m₁ s' body inner inside
  exact (ran.of_ok good ended).1

theorem Regime.Onward.traced {m : Machine} (good : R.machine m) (line : Unit → String) :
    R.Onward m ((traceLine line).final m) := by
  have traced : traceLine line m = .ok () ((traceLine line).final m) := rfl
  exact ((Abides.traceLine line).of_ok good traced).1

/-- The body of a function that is known. -/
theorem Regime.At.entered {b id : Nat} {m : Machine} {args : List Value} (good : R.machine m)
    (there : R.value m (.ref (.function id))) (fine : R.Values m args) :
    R.At (.entered b m id args) := by
  obtain ⟨outer, onBody⟩ := R.closure good there
  have bound := Values.ofLists (m.functions.getD id default).params
    (fine.adjust (m.functions.getD id default).params.length)
  obtain ⟨⟨kept, -⟩, inner⟩ := R.pushFrame good outer bound
  have deeper : R.Onward _ { m with
      frames := (m.frames.push (m.functions.getD id default).scope _).1
      depth := m.depth + 1 } := .same kept rfl rfl rfl
  have next : R.Onward _ (Moment.entered b m id args).machine :=
    deeper.trans <| .traced deeper.machine fun _ =>
      s!"call {(m.functions.getD id default).name} (depth {m.depth + 1})"
  exact ⟨next.machine, R.scope_later next.later inner, false, onBody⟩

theorem Inside.abides (part : Inside turns p q) (h : R.At p) : R.At q := by
  obtain ⟨good, known, inLoop, inside⟩ := h
  have calls (b : Nat) : (engine turns b).Abides R := abides_callAt turns b
  cases part with
  | statements => exact ⟨good, known, inLoop, inside⟩
  | @first b s m x xs =>
    obtain ⟨onFirst, -⟩ := Regime.allows_and.mp inside
    have next : R.Onward m (m.announced x) := .traced good _
    exact ⟨next.machine, R.scope_later next.later known, inLoop, onFirst⟩
  | @rest b s s' m m' x xs done =>
    obtain ⟨onFirst, onRest⟩ := Regime.allows_and.mp inside
    have next : R.Onward m (m.announced x) := .traced good _
    have known := R.scope_later next.later known
    obtain ⟨next', -, inner⟩ :=
      (Stmt.abides (calls b) inLoop _ s x known onFirst).of_ok next.machine done
    exact ⟨next'.machine, inner, inLoop, onRest⟩
  | doBlock => exact .framed good known Regime.unbound inside
  | @clauses b s m cs otherwise =>
    cases otherwise with
    | none => exact ⟨good, known, inLoop, inside⟩
    | some body => exact ⟨good, known, inLoop, (Regime.allows_and.mp inside).1⟩
  | otherwise done =>
    obtain ⟨onClauses, onBody⟩ := Regime.allows_and.mp inside
    have next := ((Clause.abides (calls _) inLoop _ _ _ known onClauses).of_ok good done).1
    exact .framed next.machine (R.scope_later next.later known) Regime.unbound onBody
  | clause held =>
    obtain ⟨onFirst, -⟩ := Regime.allows_and.mp inside
    obtain ⟨onCondition, onBody⟩ := Regime.allows_and.mp onFirst
    have next := ((Abides.holds (calls _) known onCondition).of_ok good held).1
    exact .framed next.machine (R.scope_later next.later known) Regime.unbound onBody
  | nextClause held =>
    obtain ⟨onFirst, onRest⟩ := Regime.allows_and.mp inside
    obtain ⟨onCondition, -⟩ := Regime.allows_and.mp onFirst
    have next := ((Abides.holds (calls _) known onCondition).of_ok good held).1
    exact ⟨next.machine, R.scope_later next.later known, inLoop, onRest⟩
  | whileLoop => exact ⟨good, known, inLoop, Regime.allows_and.mp inside⟩
  | numericFor done =>
    obtain ⟨onStart, onStop, onStep, onBody⟩ := Regime.allows_numericFor inside
    have next := ((Abides.counting (calls _) known onStart onStop onStep).of_ok good done).1
    exact ⟨next.machine, R.scope_later next.later known, inLoop, onBody⟩
  | genericFor done =>
    obtain ⟨onValues, onBody⟩ := Regime.allows_and.mp inside
    obtain ⟨next, keys⟩ := (Abides.keying (calls _) known onValues).of_ok good done
    exact ⟨next.machine, R.scope_later next.later known, inLoop, onBody, keys⟩
  | nextWhile held ended =>
    have next := ((Abides.holds (calls _) known inside.1).of_ok good held).1
    have known := R.scope_later next.later known
    have next' := Regime.At.onward next.machine known Regime.unbound inside.2 ended
    exact ⟨next'.machine, R.scope_later next'.later known, inLoop, inside⟩
  | @nextCounter b s m m' name step stop counter body limit _ ended =>
    have bound : ∀ b ∈ [(name, Value.number counter)], R.value m b.2 :=
      List.forall_mem_singleton.mpr (R.plain rfl)
    have next := Regime.At.onward good known bound inside ended
    exact ⟨next.machine, R.scope_later next.later known, inLoop, inside⟩
  | passedOver => exact ⟨good, known, inLoop, inside.1, (List.forall_mem_cons.mp inside.2).2⟩
  | nextKey _ ended =>
    obtain ⟨fine, keys⟩ := List.forall_mem_cons.mp inside.2
    have next := Regime.At.onward good known (Regime.keyed good fine) inside.1 ended
    exact ⟨next.machine, R.scope_later next.later known, inLoop, inside.1,
      Regime.Values.later keys next.later⟩

theorem Turn.abides (part : Turn turns p q) (h : R.At p) : R.At q := by
  obtain ⟨good, known, inLoop, inside⟩ := h
  cases part with
  | @whileLoop b s m m' condition body limit held =>
    have next := ((Abides.holds (abides_callAt turns b) known inside.1).of_ok good held).1
    exact .framed next.machine (R.scope_later next.later known) Regime.unbound inside.2
  | counter => exact .framed good known (List.forall_mem_singleton.mpr (R.plain rfl)) inside
  | key =>
    obtain ⟨fine, -⟩ := List.forall_mem_cons.mp inside.2
    exact .framed good known (Regime.keyed good fine) inside.1

theorem Enters.abides (part : Enters turns p q) (h : R.At p) : R.At q := by
  obtain ⟨good, known, inLoop, inside⟩ := h
  have calls (b : Nat) : (engine turns b).Abides R := abides_callAt turns b
  cases part with
  | @call b s m m' m'' callee args line f id vs done found given =>
    obtain ⟨onCallee, onArgs⟩ := Regime.allows_and.mp inside
    obtain ⟨next, spreads⟩ := (Expr.abides (calls _) m s callee known onCallee).of_ok good done
    have known := R.scope_later next.later known
    obtain ⟨next', fine⟩ := (Expr.abidesAll (calls _) m' s args known onArgs).of_ok next.machine given
    have there : R.value m'' (.ref (.function id)) :=
      R.value_later next'.later (found ▸ spreads.compress)
    exact .entered next'.machine there fine

/-! ## Runs -/

theorem Begins.abides (begins : Begins turns p q) (h : R.At p) : R.At q := by
  cases begins with
  | @evaluates b s m m' x y part =>
    obtain ⟨good, known, inLoop, inside⟩ := h
    obtain ⟨next, inside⟩ := part.abides (abides_callAt turns b) good known inside
    exact ⟨next.machine, R.scope_later next.later known, inLoop, inside⟩
  | inside part => exact part.abides h
  | turn part => exact part.abides h
  | enters part => exact part.abides h

theorem Reaches.abides (reaches : Reaches turns p q) (h : R.At p) : R.At q := by
  induction reaches with
  | refl => exact h
  | tail _ begins ih => exact begins.abides ih

theorem Regime.At.opening {maxDepth : Nat} {m : Machine} {program : Block} (good : R.machine m)
    (inside : R.Allows (program.enclosed false)) : R.At (.opening maxDepth m program) := by
  have reset : R.Onward m { m with depth := 0 } := .same good rfl rfl rfl
  exact .framed reset.machine (R.root reset.machine) Regime.unbound inside

end

end MiniLua
