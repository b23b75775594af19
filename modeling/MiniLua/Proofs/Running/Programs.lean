import MiniLua.Proofs.Running.Steps

/-!
# Programs stay within their texts

Rule by rule over the tree: an expression gives values whose texts can be built from the strings of
the programs, and a statement leaves only such values behind. Calls follow by induction on the depth
that is left.
-/

namespace MiniLua

variable {given : List String}

/-- The functions of an engine stay within the texts. -/
def Engine.Stays (given : List String) (e : Engine) : Prop :=
  ∀ id args, AllWithin given args → Eval.Stays given (e.call id args) (AllWithin given)

namespace Eval.Stays

variable {e : Engine} {scope : Scope}

/-! ## Loops -/

theorem inFrame {bs : Bindings} {body : Scope → Eval Signal} (bound : bs.Within given)
    (h : ∀ scope, Stays given (body scope) (·.Within given)) :
    Stays given (Eval.inFrame scope bs body) (·.Within given) :=
  (pushFrame scope bound).bind fun scope _ => h scope

theorem within_ending {signal ending : Signal} (h : signal.Within given)
    (ends : signal.ending? = some ending) : ending.Within given := by
  cases signal with
  | normal => cases ends
  | breakLoop line =>
    cases ends
    trivial
  | returned vs =>
    cases ends
    exact h

theorem whileTurns {condition : Eval Bool} {body : Eval Signal}
    (holds : Stays given condition Anything) (turn : Stays given body (·.Within given))
    (limit : Nat) : Stays given (Eval.whileTurns condition body limit) (·.Within given) := by
  induction limit with
  | zero => exact throw trivial
  | succ limit ih =>
    rw [Eval.whileTurns]
    refine holds.bind fun b _ => ?_
    split
    · refine turn.bind fun signal good => ?_
      split
      · exact ih
      next ends => exact pure (within_ending good ends)
    · exact pure trivial

theorem countedTurns {body : Float → Eval Signal} (step stop : Float)
    (turn : ∀ counter, Stays given (body counter) (·.Within given)) (limit : Nat) (counter : Float) :
    Stays given (Eval.countedTurns step stop body limit counter) (·.Within given) := by
  induction limit generalizing counter with
  | zero => exact throw trivial
  | succ limit ih =>
    rw [Eval.countedTurns]
    split
    · refine (turn counter).bind fun signal good => ?_
      split
      · exact ih _
      next ends => exact pure (within_ending good ends)
    · exact pure trivial

theorem keyedTurns {read : Value → Eval Value} {body : Value → Value → Eval Signal}
    {keys : List Value} (known : AllWithin given keys)
    (reads : ∀ key, Stays given (read key) (·.Within given))
    (turn : ∀ key value, key.Within given → value.Within given →
      Stays given (body key value) (·.Within given)) :
    Stays given (Eval.keyedTurns read body keys) (·.Within given) := by
  let fine (ending : Option Signal) : Prop := ∀ signal ∈ ending, signal.Within given
  have visit (key value : Value) (first : key.Within given) (good : value.Within given) :
      Stays given (do return (← body key value).ending?) fine :=
    (turn key value first good).map fun _ good _ ends => within_ending good ends
  have walk : Stays given
      (overKeys read (fun key value => do return (← body key value).ending?) keys) fine := by
    induction keys with
    | nil => exact pure nofun
    | cons key keys ih =>
      obtain ⟨first, rest⟩ := List.forall_mem_cons.mp known
      rw [overKeys]
      refine (reads key).bind fun value good => ?_
      split
      · exact ih rest
      · refine (visit key value first good).bind fun ending ends => ?_
        split
        · exact ih rest
        next => exact pure ends
  refine walk.map fun ending ends => ?_
  cases ending with
  | none => trivial
  | some signal => exact ends signal rfl

/-! ## Operators and calls -/

theorem apply (engine : e.Stays given) (callee : Value) {args : List Value}
    (h : AllWithin given args) : Stays given (Eval.apply e callee args) (·.Spreads given) := by
  unfold Eval.apply
  split
  · exact (print args).bind fun _ _ => (write _).map fun _ _ => nofun
  · exact fault _
  next id => exact (engine id args h).map fun _ fine => fine
  · exact fault _

theorem binaryOp {op : BinaryOp} {a b : Value} (left right : Expr) (line : Nat)
    (first : a.Within given) (second : b.Within given) :
    Stays given (Eval.binaryOp scope op left right line a b) (·.Within given) := by
  unfold Eval.binaryOp
  split
  · exact faultAt _ _ _ _
  · exact faultAt _ _ _ _
  · exact atLine line (operate first second)

theorem unaryOp {op : UnaryOp} {a : Value} (operand : Expr) (line : Nat) (h : a.Within given) :
    Stays given (Eval.unaryOp scope op operand line a) (·.Within given) := by
  unfold Eval.unaryOp
  split
  · exact pure trivial
  · refine (toNumber? h).bind fun x _ => ?_
    split
    · exact pure trivial
    · exact faultAt _ _ _ _
  · split
    · exact pure trivial
    next id => exact (table id).map fun _ _ => trivial
    · exact faultAt _ _ _ _
  · exact atLine line (fault _)

end Eval.Stays

/-! ## The tree -/

section

open Eval

variable {e : Engine}

mutual

theorem Expr.stays (engine : e.Stays given) : ∀ (scope : Scope) (x : Expr),
    (∀ text ∈ x.texts, text ∈ given) → Stays given (x.eval e scope) (·.Spreads given)
  | _, .nil _, _ => .pure (List.forall_mem_singleton.mpr trivial)
  | _, .bool _ _, _ => .pure (List.forall_mem_singleton.mpr trivial)
  | _, .number _ _, _ => .pure (List.forall_mem_singleton.mpr trivial)
  | _, .string text _, known => by
    rw [Expr.texts] at known
    exact .pure (List.forall_mem_singleton.mpr (.given (known text List.mem_cons_self)))
  | scope, .name n _, _ => (Stays.lookup scope n).mono fun _ good => good.spreads
  | scope, .index target key line, known => by
    rw [Expr.texts] at known
    obtain ⟨onTarget, onKey⟩ := List.forall_mem_append.mp known
    rw [Expr.eval]
    refine (Expr.stays engine scope target onTarget).single.bind fun t _ => ?_
    refine (Expr.stays engine scope key onKey).single.bind fun k good => ?_
    split
    · exact (Stays.table _).map fun t fine => (Table.within_get fine k).spreads
    · exact .faultAt _ _ _ _
  | scope, .call c, known => by
    rw [Expr.eval]
    exact Call.stays engine scope c known
  | scope, .function f, known => by
    rw [Expr.eval]
    exact (Stays.closureOf scope f known).mono fun _ good => good.spreads
  | scope, .table fields _, known => by
    rw [Expr.eval]
    exact (Field.stays engine scope fields 1 .empty known Table.within_empty).bind fun t good =>
      (Stays.newTable good).mono fun _ good => good.spreads
  | scope, .paren inner _, known => by
    rw [Expr.eval]
    exact (Expr.stays engine scope inner known).single.mono fun _ good => good.spreads
  | scope, .logical op left right _, known => by
    rw [Expr.texts] at known
    obtain ⟨onLeft, onRight⟩ := List.forall_mem_append.mp known
    rw [Expr.eval]
    refine (Expr.stays engine scope left onLeft).single.bind fun a good => ?_
    have either (decided : Bool) : Stays given
        (if decided then return a else single (right.eval e scope)) (·.Spreads given) := by
      cases decided with
      | true => exact .pure good.spreads
      | false => exact (Expr.stays engine scope right onRight).single.mono fun _ good => good.spreads
    exact either _
  | scope, .binary op left right line, known => by
    rw [Expr.texts] at known
    obtain ⟨onLeft, onRight⟩ := List.forall_mem_append.mp known
    rw [Expr.eval]
    refine (Expr.stays engine scope left onLeft).single.bind fun a good => ?_
    refine (Expr.stays engine scope right onRight).single.bind fun b good' => ?_
    exact (Stays.binaryOp left right line good good').mono fun _ good => good.spreads
  | scope, .unary op operand line, known => by
    rw [Expr.eval]
    refine (Expr.stays engine scope operand known).single.bind fun a good => ?_
    exact (Stays.unaryOp operand line good).mono fun _ good => good.spreads
  | _, .other kind line, _ => by
    rw [Expr.eval]
    exact .atLine line (.fault _)

theorem Expr.staysAll (engine : e.Stays given) : ∀ (scope : Scope) (xs : List Expr),
    (∀ text ∈ Expr.allTexts xs, text ∈ given) →
    Stays given (Expr.evalAll e scope xs) (AllWithin given)
  | _, [], _ => .pure nofun
  | scope, [x], known => by
    rw [Expr.allTexts] at known
    obtain ⟨onFirst, -⟩ := List.forall_mem_append.mp known
    rw [Expr.evalAll]
    exact (Expr.stays engine scope x onFirst).map fun _ spreads => spreads
  | scope, x :: y :: xs, known => by
    rw [Expr.allTexts] at known
    obtain ⟨onFirst, onRest⟩ := List.forall_mem_append.mp known
    rw [Expr.evalAll]
    · refine (Expr.stays engine scope x onFirst).single.bind fun v good => ?_
      exact (Expr.staysAll engine scope (y :: xs) onRest).map fun vs rest =>
        List.forall_mem_cons.mpr ⟨good, rest⟩
    · nofun

theorem Call.stays (engine : e.Stays given) : ∀ (scope : Scope) (c : Call),
    (∀ text ∈ c.texts, text ∈ given) → Stays given (c.eval e scope) (·.Spreads given)
  | scope, .mk callee args line, known => by
    rw [Call.texts] at known
    obtain ⟨onCallee, onArgs⟩ := List.forall_mem_append.mp known
    rw [Call.eval]
    refine (Expr.stays engine scope callee onCallee).single.bind fun f _ => ?_
    refine (Expr.staysAll engine scope args onArgs).bind fun vs good => ?_
    split
    · exact .atLine line (.apply engine f good)
    · exact .faultAt _ _ _ _

theorem Field.stays (engine : e.Stays given) : ∀ (scope : Scope) (fields : List Field)
    (position : Nat) (t : Table), (∀ text ∈ Field.allTexts fields, text ∈ given) →
    t.Within given → Stays given (Field.evalAll e scope fields position t) (·.Within given)
  | _, [], _, _, _, good => .pure good
  | scope, [.positional x _], position, t, known, good => by
    rw [Field.allTexts] at known
    obtain ⟨onFirst, -⟩ := List.forall_mem_append.mp known
    rw [Field.evalAll]
    exact (Expr.stays engine scope x onFirst).map fun _ spreads =>
      within_putValues good spreads position
  | scope, .positional x _ :: field :: fields, position, t, known, good => by
    rw [Field.allTexts] at known
    obtain ⟨onFirst, onRest⟩ := List.forall_mem_append.mp known
    rw [Field.evalAll]
    · refine (Expr.stays engine scope x onFirst).single.bind fun v fine => ?_
      exact Field.stays engine scope (field :: fields) _ _ onRest
        (Table.within_insert good (Table.within_positionKey position) fine)
    · nofun
  | scope, .keyed key value line :: fields, position, t, known, good => by
    rw [Field.allTexts, Field.texts] at known
    obtain ⟨onFirst, onRest⟩ := List.forall_mem_append.mp known
    obtain ⟨onKey, onValue⟩ := List.forall_mem_append.mp onFirst
    rw [Field.evalAll]
    refine (Expr.stays engine scope key onKey).single.bind fun k fine => ?_
    refine (Expr.stays engine scope value onValue).single.bind fun v fine' => ?_
    unfold Table.set
    split
    next result =>
      split at result
      next => cases result
      next =>
        cases result
        exact Field.stays engine scope fields position _ onRest (Table.within_insert good fine fine')
    next => exact .atLine line (.fault _)

theorem Target.stays (engine : e.Stays given) : ∀ (scope : Scope) (t : Target),
    (∀ text ∈ t.texts, text ∈ given) → Stays given (t.place e scope) (·.Within given)
  | _, .name _ _, _ => .pure trivial
  | scope, .index target key line, known => by
    rw [Target.texts] at known
    obtain ⟨onTarget, onKey⟩ := List.forall_mem_append.mp known
    rw [Target.place]
    refine (Expr.stays engine scope target onTarget).single.bind fun t _ => ?_
    refine (Expr.stays engine scope key onKey).single.bind fun k good => ?_
    split
    · exact .pure good
    · exact .faultAt _ _ _ _

theorem Target.staysAll (engine : e.Stays given) : ∀ (scope : Scope) (ts : List Target),
    (∀ text ∈ Target.allTexts ts, text ∈ given) →
    Stays given (Target.places e scope ts) fun places => ∀ place ∈ places, place.Within given
  | _, [], _ => .pure nofun
  | scope, t :: ts, known => by
    rw [Target.allTexts] at known
    obtain ⟨onFirst, onRest⟩ := List.forall_mem_append.mp known
    rw [Target.places]
    refine (Target.stays engine scope t onFirst).bind fun place good => ?_
    exact (Target.staysAll engine scope ts onRest).map fun places rest =>
      List.forall_mem_cons.mpr ⟨good, rest⟩

end

/-! ## Statements -/

/-- How a statement ends, wherever the next one runs. -/
def Ends (given : List String) (out : Signal × Scope) : Prop := out.1.Within given

theorem Eval.Stays.ends {x : Eval Signal} (h : Stays given x (·.Within given)) (scope : Scope) :
    Stays given (do return (← x, scope)) (Ends given) :=
  h.map fun _ good => good

theorem Eval.Stays.unlessZero {α : Type} {post : α → Prop} {stride : Float} {x : Eval α}
    (h : Stays given x post) :
    Stays given (if stride == 0 then (do Eval.fault .zeroStep; x) else x) post := by
  split
  · exact (Stays.fault _ : Stays given _ Anything).bind fun _ _ => h
  · exact h

mutual

theorem Stmt.stays (engine : e.Stays given) : ∀ (scope : Scope) (s : Stmt),
    (∀ text ∈ s.texts, text ∈ given) → Stays given (s.exec e scope) (Ends given)
  | scope, .localVars names values _, known => by
    rw [Stmt.exec]
    refine (Expr.staysAll engine scope values known).bind fun vs good => ?_
    have bound := Bindings.within_ofLists names (Value.within_adjust good names.length)
    exact (Stays.pushFrame scope bound).bind fun _ _ => .pure trivial
  | scope, .assign targets values _, known => by
    rw [Stmt.texts] at known
    obtain ⟨onTargets, onValues⟩ := List.forall_mem_append.mp known
    rw [Stmt.exec]
    refine (Expr.staysAll engine scope values onValues).bind fun vs good => ?_
    refine (Target.staysAll engine scope targets onTargets).bind fun places there => ?_
    exact (Stays.storeAll scope there (Value.within_adjust good _)).bind fun _ _ => .pure trivial
  | scope, .call c _, known => by
    rw [Stmt.exec]
    exact (Call.stays engine scope c known).bind fun _ _ => .pure trivial
  | scope, .doBlock body _, known => by
    rw [Stmt.exec]
    exact (Stays.inFrame Bindings.within_nil fun scope => Block.stays engine scope body known).ends scope
  | scope, .whileLoop condition body _, known => by
    rw [Stmt.texts] at known
    obtain ⟨onCondition, onBody⟩ := List.forall_mem_append.mp known
    rw [Stmt.exec]
    refine (Stays.whileTurns ?_ ?_ _).ends scope
    · exact (Expr.stays engine scope condition onCondition).single.map fun _ _ => trivial
    · exact .inFrame Bindings.within_nil fun scope => Block.stays engine scope body onBody
  | scope, .branch clauses none _, known => by
    rw [Stmt.exec]
    refine (Clause.stays engine scope clauses known).bind fun taken good => ?_
    split
    next signal => exact .pure (good signal rfl)
    next => exact .pure trivial
  | scope, .branch clauses (some body) _, known => by
    rw [Stmt.texts] at known
    obtain ⟨onClauses, onBody⟩ := List.forall_mem_append.mp known
    rw [Stmt.exec]
    refine (Clause.stays engine scope clauses onClauses).bind fun taken good => ?_
    split
    next signal => exact .pure (good signal rfl)
    next =>
      exact (Stays.inFrame Bindings.within_nil fun scope =>
        Block.stays engine scope body onBody).ends scope
  | scope, .numericFor name start stop step body _, known => by
    obtain ⟨onStart, onStop, onStep, onBody⟩ : (∀ text ∈ start.texts, text ∈ given) ∧
        (∀ text ∈ stop.texts, text ∈ given) ∧ (∀ x ∈ step, ∀ text ∈ x.texts, text ∈ given) ∧
        ∀ text ∈ body.texts, text ∈ given := by
      cases step <;> simp_all [Stmt.texts]
    have turns (stride last first : Float) : Stays given
        (do return (← countedTurns stride last (fun counter =>
          Eval.inFrame scope [(name, .number counter)] fun scope => body.exec e scope)
          e.loopLimit first, scope)) (Ends given) := by
      refine (Stays.countedTurns _ _ (fun counter => ?_) _ _).ends scope
      exact .inFrame (Bindings.within_single name trivial) fun scope =>
        Block.stays engine scope body onBody
    rw [Stmt.exec]
    refine (Expr.stays engine scope start onStart).single.bind fun a good => ?_
    refine (Stays.forNumber .start good).bind fun first _ => ?_
    refine (Expr.stays engine scope stop onStop).single.bind fun b good => ?_
    refine (Stays.forNumber .limit good).bind fun last _ => ?_
    cases step with
    | none => exact Stays.done.bind fun stride _ => .unlessZero (turns _ _ _)
    | some step =>
      refine (Expr.stays engine scope step (onStep step rfl)).single.bind fun c good => ?_
      exact (Stays.forNumber .step good).bind fun stride _ => .unlessZero (turns _ _ _)
  | scope, .genericFor names values body _, known => by
    rw [Stmt.texts] at known
    obtain ⟨onValues, onBody⟩ := List.forall_mem_append.mp known
    by_cases single : ∃ callee args l, values = [.call (.mk callee args l)]
    · obtain ⟨callee, args, l, rfl⟩ := single
      obtain ⟨onCall, -⟩ := List.forall_mem_append.mp onValues
      obtain ⟨onCallee, onArgs⟩ := List.forall_mem_append.mp onCall
      rw [Stmt.exec]
      refine (Expr.stays engine scope callee onCallee).single.bind fun f _ => ?_
      split
      · refine (Expr.staysAll engine scope args onArgs).bind fun vs _ => ?_
        refine (Stays.pairsTable vs).bind fun id _ => ?_
        refine (Stays.table id).bind fun t good => ?_
        have known : AllWithin given (t.items.map (·.1)) := fun key member => by
          obtain ⟨entry, inside, rfl⟩ := List.mem_map.mp member
          exact (Table.within_items good entry inside).1
        refine (Stays.keyedTurns known ?_ ?_).ends scope
        · exact fun key => (Stays.table id).map fun t good => Table.within_get good key
        · intro key value first second
          have both : AllWithin given [key, value] := by simp [AllWithin, first, second]
          exact .inFrame (Bindings.within_ofLists names (Value.within_adjust both _))
            fun scope => Block.stays engine scope body onBody
      · exact .fault _
    · rw [Stmt.exec]
      · exact .fault _
      · exact fun callee args l same => single ⟨callee, args, l, same⟩
  | scope, .functionDecl target function _, known => by
    rw [Stmt.texts] at known
    obtain ⟨onTarget, onFunction⟩ := List.forall_mem_append.mp known
    rw [Stmt.exec]
    refine (Stays.closureOf scope function onFunction).bind fun f good => ?_
    refine (Target.stays engine scope target onTarget).bind fun place there => ?_
    exact (Stays.store scope there good).bind fun _ _ => .pure trivial
  | scope, .localFunction name function _, known => by
    rw [Stmt.exec]
    refine (Stays.pushFrame scope (Bindings.within_single name Value.within_nil)).bind fun scope _ => ?_
    refine (Stays.closureOf scope function known).bind fun f good => ?_
    exact (Stays.assign scope name good).bind fun _ _ => .pure trivial
  | scope, .returnValues values _, known => by
    rw [Stmt.exec]
    exact (Expr.staysAll engine scope values known).map fun vs good => good
  | _, .breakLoop _, _ => .pure trivial
  | _, .other _ _, _ => .fault _

theorem Clause.stays (engine : e.Stays given) : ∀ (scope : Scope) (clauses : List Clause),
    (∀ text ∈ Clause.allTexts clauses, text ∈ given) →
    Stays given (Clause.execFirst e scope clauses) fun taken =>
      ∀ signal, taken = some signal → signal.Within given
  | _, [], _ => .pure nofun
  | scope, .mk condition body :: clauses, known => by
    rw [Clause.allTexts] at known
    obtain ⟨onFirst, onRest⟩ := List.forall_mem_append.mp known
    obtain ⟨onCondition, onBody⟩ := List.forall_mem_append.mp onFirst
    rw [Clause.execFirst]
    refine (Expr.stays engine scope condition onCondition).single.bind fun holds _ => ?_
    split
    · refine (Stays.inFrame Bindings.within_nil fun scope => Block.stays engine scope body onBody).map ?_
      rintro signal good _ ⟨⟩
      exact good
    · exact Clause.stays engine scope clauses onRest

theorem Block.stays (engine : e.Stays given) : ∀ (scope : Scope) (b : Block),
    (∀ text ∈ b.texts, text ∈ given) → Stays given (b.exec e scope) (·.Within given)
  | scope, .mk statements _, known => by
    rw [Block.exec]
    exact Stmt.staysAll engine scope statements known

theorem Stmt.staysAll (engine : e.Stays given) : ∀ (scope : Scope) (statements : List Stmt),
    (∀ text ∈ Stmt.allTexts statements, text ∈ given) →
    Stays given (Stmt.execAll e scope statements) (·.Within given)
  | _, [], _ => .pure trivial
  | scope, s :: statements, known => by
    rw [Stmt.allTexts] at known
    obtain ⟨onFirst, onRest⟩ := List.forall_mem_append.mp known
    rw [Stmt.execAll]
    refine (Stays.traceLine _).bind fun _ _ => ?_
    refine (Stays.atLine s.line (Stmt.stays engine scope s onFirst)).bind fun out good => ?_
    split
    next scope => exact Stmt.staysAll engine scope statements onRest
    next signal _ _ => exact .pure good

end

end

end MiniLua
