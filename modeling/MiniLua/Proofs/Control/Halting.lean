import MiniLua.Proofs.Control.Moments
import MiniLua.Proofs.Running.Sequencing

/-!
# Halts leave everything

Nothing catches a halt: what a moment reaches halts the moment, if it halts. On the way out an error
without a line may be given one, and nothing else changes.
-/

namespace MiniLua

open Eval

/-- What a halt is further out. -/
inductive Halt.Becomes : Halt → Halt → Prop
  | same {h : Halt} : h.Becomes h
  | located {error : RuntimeError} {line : Nat} :
    Halt.Becomes (.fault error 0) (.fault error line)

theorem Halt.Becomes.trans {h h' h'' : Halt} (first : h.Becomes h') (second : h'.Becomes h'') :
    h.Becomes h'' := by
  cases first with
  | same => exact second
  | located =>
    cases second with
    | same => exact .located
    | located => exact .located

/-- An error with a line keeps it. -/
theorem Halt.Becomes.exists_line {error : RuntimeError} {line : Nat} {h : Halt}
    (become : Halt.Becomes (.fault error line) h) :
    ∃ line', h = .fault error line' ∧ (line ≠ 0 → line' = line) := by
  cases become with
  | same => exact ⟨line, rfl, fun _ => rfl⟩
  | located => exact ⟨_, rfl, fun lined => absurd rfl lined⟩

namespace Eval

variable {α β : Type} {x : Eval α} {f : α → Eval β} {m m' : Machine} {a : α} {h : Halt}

/-- The step halts, with what the halt has become. -/
def Halts (x : Eval α) (m : Machine) (h : Halt) : Prop :=
  ∃ h' m', x m = .error h' m' ∧ h.Becomes h'

theorem Halts.bind (halts : x.Halts m h) (f : α → Eval β) : (x >>= f).Halts m h := by
  obtain ⟨h', m', failed, become⟩ := halts
  exact ⟨h', m', bind_of_error f failed, become⟩

theorem Halts.next (done : x m = .ok a m') (halts : (f a).Halts m' h) : (x >>= f).Halts m h := by
  obtain ⟨h', m'', failed, become⟩ := halts
  exact ⟨h', m'', (bind_of_ok done).trans failed, become⟩

theorem Halts.atLine (halts : x.Halts m h) (line : Nat) : (Eval.atLine line x).Halts m h := by
  obtain ⟨h', m', failed, become⟩ := halts
  rw [Halts, Eval.atLine, failed]
  cases h' with
  | fault error l =>
    cases l with
    | zero => exact ⟨_, m', rfl, become.trans .located⟩
    | succ l => exact ⟨_, m', rfl, become⟩
  | crash c => exact ⟨_, m', rfl, become⟩
  | exhausted => exact ⟨_, m', rfl, become⟩

theorem Halts.deeper (halts : x.Halts { m with depth := m.depth + 1 } h) :
    (Eval.deeper x).Halts m h := by
  obtain ⟨h', m', failed, become⟩ := halts
  refine ⟨h', { m' with depth := m'.depth - 1 }, ?_, become⟩
  rw [Eval.deeper, failed]

theorem halts_map (f : α → β) : (do return f (← x)).Halts m h ↔ x.Halts m h := by
  simp only [Halts, map_eq_error]

theorem Halts.single {x : Eval Value} (halts : x.Halts m h) : (Eval.single x).Halts m h :=
  halts.bind _

end Eval

/-! ## Headers and turns -/

section

variable {engine : Engine} {s : Scope} {m m' m'' : Machine} {h : Halt}

theorem Eval.Halts.forOperand {e : Expr} (halts : (e.eval engine s).Halts m h)
    (what : ForOperand) : (Eval.forOperand engine s what e).Halts m h := halts.single.bind _

theorem Eval.Halts.holds {e : Expr} (halts : (e.eval engine s).Halts m h) :
    (Eval.holds engine s e).Halts m h := halts.single.bind _

theorem Task.run_keyedTurns_cons (names : List String) (id : Nat) (body : Block) (key : Value)
    (keys : List Value) : (Task.keyedTurns names id body (key :: keys)).run engine s = (do
      let value := (← table id).get key
      if value.isNil then (Task.keyedTurns names id body keys).run engine s
      else
        let signal ← inFrame s (.ofLists names (Value.adjust [key, value] names.length))
          fun s => body.exec engine s
        match signal.ending? with
        | none => (Task.keyedTurns names id body keys).run engine s
        | some ending => return ending) := by
  simp only [Task.run, Eval.keyedTurns, overKeys, bind_assoc, pure_bind]
  refine bind_congr fun t => ?_
  split
  · rfl
  · simp only [bind_assoc]
    refine bind_congr fun signal => ?_
    split
    next none => rw [none]
    next ending some =>
      rw [some]
      rfl

theorem Expr.eval_logical (op : Connective) (left right : Expr) (line : Nat) :
    (Expr.logical op left right line).eval engine s = (do
      let a ← single (left.eval engine s)
      if op.decides a then return a else single (right.eval engine s)) := by
  rw [Expr.eval]
  cases op <;> rfl

end

/-! ## Parts -/

/-- The moment halts, with what the halt has become. -/
def Moment.Halts (turns : Nat) (p : Moment) (h : Halt) : Prop :=
  (p.task.run (engine turns p.budget) p.scope).Halts p.machine h

variable {engine : Engine} {s : Scope} {m m' : Machine} {x y : Task} {h : Halt} {turns : Nat}
variable {p q : Moment}

theorem Evaluates.halts (part : Evaluates engine s m x m' y) (halts : (y.run engine s).Halts m' h) :
    (x.run engine s).Halts m h := by
  cases part <;> simp only [Task.run, halts_map] at halts ⊢
  case indexTarget =>
    rw [Expr.eval]
    exact halts.single.bind _
  case indexKey done =>
    rw [Expr.eval]
    exact .next (single_of_ok done) (halts.single.bind _)
  case call =>
    rw [Expr.eval]
    exact halts
  case table =>
    rw [Expr.eval]
    exact halts.bind _
  case paren =>
    rw [Expr.eval]
    exact halts.single
  case logicalLeft =>
    rw [Expr.eval_logical]
    exact halts.single.bind _
  case logicalRight undecided done =>
    rw [Expr.eval_logical]
    refine .next (single_of_ok done) ?_
    rw [undecided]
    exact halts.single
  case binaryLeft =>
    rw [Expr.eval]
    exact halts.single.bind _
  case binaryRight done =>
    rw [Expr.eval]
    exact .next (single_of_ok done) (halts.single.bind _)
  case unary =>
    rw [Expr.eval]
    exact halts.single.bind _
  case firstExpr e es =>
    cases es with
    | nil =>
      rw [Expr.evalAll]
      exact halts.bind _
    | cons e' es =>
      rw [Expr.evalAll]
      · exact halts.single.bind _
      · exact List.cons_ne_nil _ _
  case moreExprs done =>
    rw [Expr.evalAll]
    · exact .next (single_of_ok done) (halts.bind _)
    · exact List.cons_ne_nil _ _
  case callee =>
    rw [Call.eval]
    exact halts.single.bind _
  case args done =>
    rw [Call.eval]
    exact .next (single_of_ok done) (halts.bind _)
  case positional e line fields position t =>
    cases fields with
    | nil =>
      rw [Field.evalAll]
      exact halts.bind _
    | cons field fields =>
      rw [Field.evalAll]
      · exact halts.single.bind _
      · exact List.cons_ne_nil _ _
  case afterPositional done =>
    rw [Field.evalAll]
    · exact .next (single_of_ok done) halts
    · exact List.cons_ne_nil _ _
  case fieldKey =>
    rw [Field.evalAll]
    exact halts.single.bind _
  case fieldValue done =>
    rw [Field.evalAll]
    exact .next (single_of_ok done) (halts.single.bind _)
  case afterKeyed done set done' =>
    rw [Field.evalAll]
    refine .next (single_of_ok done) (.next (single_of_ok done') ?_)
    rw [set]
    exact halts
  case targetTable =>
    rw [Target.place]
    exact halts.single.bind _
  case targetKey done =>
    rw [Target.place]
    exact .next (single_of_ok done) (halts.single.bind _)
  case firstTarget =>
    rw [Target.places]
    exact halts.bind _
  case moreTargets done =>
    rw [Target.places]
    exact .next done (halts.bind _)
  case localValues =>
    rw [Stmt.exec]
    exact halts.bind _
  case assigned =>
    rw [Stmt.exec]
    exact halts.bind _
  case assignTargets done =>
    rw [Stmt.exec]
    exact .next done (halts.bind _)
  case callStmt =>
    rw [Stmt.exec]
    exact halts.bind _
  case clauseCondition =>
    rw [Clause.execFirst]
    exact halts.single.bind _
  case whileCondition =>
    rw [whileTurns]
    exact halts.holds.bind _
  case forStart =>
    rw [Stmt.exec_numericFor]
    exact ((halts.forOperand .start).bind _).bind _
  case forLimit done =>
    rw [Stmt.exec_numericFor]
    exact (Halts.next done ((halts.forOperand .limit).bind _)).bind _
  case forStep done done' =>
    rw [Stmt.exec_numericFor]
    exact (Halts.next done (.next done' ((halts.forOperand .step).bind _))).bind _
  case forCallee =>
    rw [Stmt.exec_genericFor]
    exact (halts.single.bind _).bind _
  case forArgs pairs done =>
    rw [Stmt.exec_genericFor]
    refine Halts.bind (Halts.next (single_of_ok done) ?_) _
    rw [pairs]
    exact halts.bind _
  case declared done =>
    rw [Stmt.exec]
    exact .next done (halts.bind _)
  case returned =>
    rw [Stmt.exec]
    exact halts.bind _

/-! ## Code inside -/

theorem Moment.Halts.framed {b : Nat} {bs : Bindings} {body : Block}
    (halts : (Moment.framed b s m bs body).Halts turns h) :
    (inFrame s bs fun s => body.exec (Eval.engine turns b) s).Halts m h := .next rfl halts

theorem Inside.halts (part : Inside turns p q) (halts : q.Halts turns h) : p.Halts turns h := by
  unfold Moment.Halts
  cases part with
  | statements => exact halts
  | first =>
    rw [Moment.Halts, Task.run, halts_map] at halts
    rw [Task.run, Stmt.execAll]
    exact .next rfl ((halts.atLine _).bind _)
  | rest done =>
    rw [Task.run, Stmt.execAll]
    exact .next rfl (.next (atLine_eq_ok.mpr done) halts)
  | doBlock =>
    rw [Task.run, halts_map, Stmt.exec]
    exact halts.framed.bind _
  | @clauses b s m cs otherwise =>
    rw [Moment.Halts, Task.run, halts_map] at halts
    rw [Task.run, halts_map]
    cases otherwise <;> exact halts.bind _
  | otherwise done =>
    rw [Task.run, halts_map, Stmt.exec]
    exact .next done (halts.framed.bind _)
  | clause done =>
    rw [Task.run, halts_map, Clause.execFirst_cons]
    exact .next done (halts.framed.bind _)
  | nextClause done =>
    rw [Moment.Halts, Task.run, halts_map] at halts
    rw [Task.run, halts_map, Clause.execFirst_cons]
    exact .next done halts
  | whileLoop =>
    rw [Task.run, halts_map, Stmt.exec]
    exact halts.bind _
  | numericFor done =>
    rw [Task.run, halts_map, Stmt.exec_numericFor]
    exact .next done (halts.bind _)
  | genericFor done =>
    rw [Task.run, halts_map, Stmt.exec_genericFor]
    exact .next done (halts.bind _)
  | nextWhile done ended =>
    rw [Task.run, whileTurns]
    exact .next done (.next ended halts)
  | nextCounter within ended =>
    rw [Task.run, countedTurns, if_pos within]
    exact .next ended halts
  | passedOver none =>
    rw [Task.run_keyedTurns_cons]
    refine .next rfl ?_
    rw [if_pos none]
    exact halts
  | nextKey some ended =>
    rw [Task.run_keyedTurns_cons]
    refine .next rfl ?_
    rw [if_neg (Bool.not_eq_true _ ▸ some)]
    exact .next ended halts

theorem Turn.halts (part : Turn turns p q) (halts : q.Halts turns h) : p.Halts turns h := by
  unfold Moment.Halts
  cases part with
  | whileLoop done =>
    rw [Task.run, whileTurns]
    exact .next done (halts.framed.bind _)
  | counter within =>
    rw [Task.run, countedTurns, if_pos within]
    exact halts.framed.bind _
  | key some =>
    rw [Task.run_keyedTurns_cons]
    refine .next rfl ?_
    rw [if_neg (Bool.not_eq_true _ ▸ some)]
    exact halts.framed.bind _

/-! ## Bodies -/

namespace Eval

variable {b id : Nat} {args : List Value}

theorem halts_resultOf (line : Nat) (m : Machine) :
    (resultOf (.breakLoop line)).Halts m (.fault .breakOutsideLoop line) := ⟨_, m, rfl, .same⟩

/-- A call halts if the body does. -/
theorem halts_callAt (halts : (Moment.entered b m id args).Halts turns h) :
    (callAt turns (b + 1) id args).Halts m h := by
  rw [callAt]
  refine .next rfl (.next rfl (Halts.bind (Halts.deeper ?_) _))
  exact .next rfl (.next rfl halts)

/-- A call halts if a `break` leaves the body. -/
theorem halts_callAt_break {line : Nat}
    (ended : (Moment.entered b m id args).run turns = .ok (.breakLoop line) m') :
    (callAt turns (b + 1) id args).Halts m (.fault .breakOutsideLoop line) := by
  rw [callAt]
  refine .next rfl (.next rfl (.next (deeper_of_ok m' ?_) ((halts_resultOf line _).bind _)))
  exact (bind_of_ok rfl).trans ((bind_of_ok rfl).trans ended)

end Eval

theorem Enters.halts_of_call {b id : Nat} {callee : Expr} {args : List Expr} {line : Nat} {f : Value}
    {vs : List Value} {m'' : Machine} (done : callee.eval (Eval.engine turns (b + 1)) s m = .ok f m')
    (found : f.compress = .ref (.function id))
    (given : Expr.evalAll (Eval.engine turns (b + 1)) s args m' = .ok vs m'')
    (halts : (callAt turns (b + 1) id vs).Halts m'' h) :
    Moment.Halts turns ⟨b + 1, s, m, .call (.mk callee args line)⟩ h := by
  rw [Moment.Halts, Task.run, halts_map, Call.eval]
  refine .next (single_of_ok done) (.next given ?_)
  rw [found]
  exact .atLine (.bind halts _) line

theorem Enters.halts (part : Enters turns p q) (halts : q.Halts turns h) : p.Halts turns h := by
  cases part with
  | call done found given => exact halts_of_call done found given (halts_callAt halts)

/-- A `break` that leaves a body halts the call. -/
theorem Enters.halts_break {line : Nat} (part : Enters turns p q)
    (ended : q.run turns = .ok (.breakLoop line) m) :
    p.Halts turns (.fault .breakOutsideLoop line) := by
  cases part with
  | call done found given => exact halts_of_call done found given (halts_callAt_break ended)

/-! ## Runs -/

theorem Begins.halts (part : Begins turns p q) (halts : q.Halts turns h) : p.Halts turns h := by
  cases part with
  | evaluates part => exact part.halts halts
  | inside part => exact part.halts halts
  | turn part => exact part.halts halts
  | enters part => exact part.halts halts

/-- A halt leaves every moment that has reached it. -/
theorem Reaches.halts (reaches : Reaches turns p q) (halts : q.Halts turns h) : p.Halts turns h := by
  induction reaches using Relation.ReflTransGen.head_induction_on with
  | refl => exact halts
  | head begins _ ih => exact begins.halts ih

theorem Eval.halts_chunk {maxDepth : Nat} {program : Block}
    (halts : (Moment.opening maxDepth m program).Halts turns h) :
    (chunk turns maxDepth program).Halts m h := by
  rw [chunk]
  exact .next rfl (.next rfl (Halts.bind halts _))

theorem Eval.halts_chunk_break {maxDepth line : Nat} {program : Block}
    (ended : (Moment.opening maxDepth m program).run turns = .ok (.breakLoop line) m') :
    (chunk turns maxDepth program).Halts m (.fault .breakOutsideLoop line) := by
  rw [chunk]
  exact .next rfl (.next rfl (.next ended (halts_resultOf line _)))

end MiniLua
