import MiniLua.Proofs.Limits.Extension

/-!
# Programs under looser limits

Rule by rule over the tree: under an engine whose limits are looser an evaluation goes at least as
far. Calls follow by induction on the depth that is left.
-/

namespace MiniLua

/-- The second of two limits is the same, or looser where that is allowed. -/
def Loosens (loose : Limit → Prop) (l : Limit) (n n' : Nat) : Prop := n = n' ∨ loose l ∧ n ≤ n'

/-- The calls of the second engine extend those of the first, and its loops may turn no less. -/
structure Engine.Extends (loose : Limit → Prop) (e e' : Engine) : Prop where
  call : ∀ id args, Eval.Extends loose (e.call id args) (e'.call id args)
  turns : Loosens loose .turns e.loopLimit e'.loopLimit

namespace Eval.Extends

variable {loose : Limit → Prop} {scope : Scope}

/-! ## Loops -/

theorem inFrame {x y : Scope → Eval Signal} (bs : Bindings)
    (h : ∀ scope, Extends loose (x scope) (y scope)) :
    Extends loose (Eval.inFrame scope bs x) (Eval.inFrame scope bs y) :=
  (refl (onward_pushFrame scope bs)).bind h

theorem whileTurns {c c' : Eval Bool} {b b' : Eval Signal} (holds : Extends loose c c')
    (turn : Extends loose b b') {limit limit' : Nat} (loosens : Loosens loose .turns limit limit') :
    Extends loose (Eval.whileTurns c b limit) (Eval.whileTurns c' b' limit') := by
  have longer := onward_whileTurns holds.onward turn.onward
  induction limit generalizing limit' with
  | zero =>
    rcases loosens with rfl | ⟨looser, -⟩
    · exact refl (longer 0)
    · exact cut rfl looser (longer limit')
  | succ limit ih =>
    obtain ⟨limit', rfl⟩ : ∃ n, limit' = n + 1 :=
      Nat.exists_eq_succ_of_ne_zero (by rcases loosens with rfl | h <;> omega)
    have loosens' : Loosens loose .turns limit limit' :=
      loosens.imp Nat.succ.inj (And.imp_right Nat.le_of_succ_le_succ)
    refine holds.bind fun b => ?_
    split
    · refine turn.bind fun signal => ?_
      split
      · exact ih loosens'
      · exact pure _
    · exact pure _

theorem countedTurns {step stop : Float} {b b' : Float → Eval Signal}
    (turn : ∀ counter, Extends loose (b counter) (b' counter)) {limit limit' : Nat}
    (loosens : Loosens loose .turns limit limit') (counter : Float) :
    Extends loose (Eval.countedTurns step stop b limit counter)
      (Eval.countedTurns step stop b' limit' counter) := by
  have longer := onward_countedTurns step stop fun counter => (turn counter).onward
  induction limit generalizing limit' counter with
  | zero =>
    rcases loosens with rfl | ⟨looser, -⟩
    · exact refl (longer 0 counter)
    · exact cut rfl looser (longer limit' counter)
  | succ limit ih =>
    obtain ⟨limit', rfl⟩ : ∃ n, limit' = n + 1 :=
      Nat.exists_eq_succ_of_ne_zero (by rcases loosens with rfl | h <;> omega)
    have loosens' : Loosens loose .turns limit limit' :=
      loosens.imp Nat.succ.inj (And.imp_right Nat.le_of_succ_le_succ)
    unfold Eval.countedTurns
    split
    · refine (turn counter).bind fun signal => ?_
      split
      · exact ih loosens' _
      · exact pure _
    · exact pure _

theorem overKeys {α : Type} {read : Value → Eval Value}
    {visit visit' : Value → Value → Eval (Option α)}
    (reading : ∀ key, (read key).IsOnward)
    (visiting : ∀ key value, Extends loose (visit key value) (visit' key value)) (keys : List Value) :
    Extends loose (MiniLua.overKeys read visit keys) (MiniLua.overKeys read visit' keys) := by
  induction keys with
  | nil => exact pure _
  | cons key keys ih =>
    refine (refl (reading key)).bind fun value => ?_
    split
    · exact ih
    · refine (visiting key value).bind fun ending => ?_
      split
      · exact ih
      · exact pure _

theorem keyedTurns {read : Value → Eval Value} {b b' : Value → Value → Eval Signal}
    (reading : ∀ key, (read key).IsOnward)
    (turn : ∀ key value, Extends loose (b key value) (b' key value)) (keys : List Value) :
    Extends loose (Eval.keyedTurns read b keys) (Eval.keyedTurns read b' keys) :=
  (overKeys reading (fun key value => (turn key value).map _) keys).map _

theorem unlessZero {α : Type} {stride : Float} {x y : Eval α} (h : Extends loose x y) :
    Extends loose
      (if stride == 0 then (do Eval.fault .zeroStep; x) else x)
      (if stride == 0 then (do Eval.fault .zeroStep; y) else y) := by
  split
  · exact (fault _ : Extends loose (Eval.fault _ : Eval PUnit) _).bind fun _ => h
  · exact h

theorem apply {e e' : Engine} (engine : e.Extends loose e') (v : Value) (args : List Value) :
    Extends loose (Eval.apply e v args) (Eval.apply e' v args) := by
  unfold Eval.apply
  split
  · refine (aside (.mapM aside_textOf args)).bind fun texts => ?_
    exact (refl (onward_write _)).map _
  · exact fault _
  next id => exact (engine.call id args).map _
  · exact fault _

end Eval.Extends

/-! ## The tree -/

section

open Eval

variable {loose : Limit → Prop} {e e' : Engine}

mutual

theorem Expr.extends (engine : e.Extends loose e') : ∀ (scope : Scope) (x : Expr),
    Extends loose (x.eval e scope) (x.eval e' scope)
  | _, .nil _ => .pure _
  | _, .bool _ _ => .pure _
  | _, .number _ _ => .pure _
  | _, .string _ _ => .pure _
  | scope, .name n _ => .aside (aside_lookup scope n)
  | scope, .index target key line => by
    simp only [Expr.eval]
    refine (Expr.extends engine scope target).single.bind fun t => ?_
    refine (Expr.extends engine scope key).single.bind fun k => ?_
    split
    · exact (Extends.aside (aside_table _)).map _
    · exact .faultAt _ _ _ _
  | scope, .call c => by
    simp only [Expr.eval]
    exact Call.extends engine scope c
  | scope, .function f => .refl (onward_closureOf scope f)
  | scope, .table fields _ => by
    simp only [Expr.eval]
    exact (Field.extends engine scope fields 1 .empty).bind fun t => .refl (onward_newTable t)
  | scope, .paren inner _ => by
    simp only [Expr.eval]
    exact (Expr.extends engine scope inner).single
  | scope, .logical op left right _ => by
    simp only [Expr.eval]
    refine (Expr.extends engine scope left).single.bind fun a => ?_
    have either (decided : Bool) : Extends loose
        (if decided then return a else single (right.eval e scope))
        (if decided then return a else single (right.eval e' scope)) := by
      cases decided with
      | true => exact .pure a
      | false => exact (Expr.extends engine scope right).single
    exact either _
  | scope, .binary op left right line => by
    simp only [Expr.eval]
    refine (Expr.extends engine scope left).single.bind fun a => ?_
    refine (Expr.extends engine scope right).single.bind fun b => ?_
    exact .aside (aside_binaryOp scope op left right line a b)
  | scope, .unary op operand line => by
    simp only [Expr.eval]
    refine (Expr.extends engine scope operand).single.bind fun a => ?_
    exact .aside (aside_unaryOp scope op operand line a)
  | _, .other kind line => .atLine line (.fault _)

theorem Expr.extendsAll (engine : e.Extends loose e') : ∀ (scope : Scope) (xs : List Expr),
    Extends loose (Expr.evalAll e scope xs) (Expr.evalAll e' scope xs)
  | _, [] => .pure _
  | scope, [x] => by
    simp only [Expr.evalAll]
    exact (Expr.extends engine scope x).map _
  | scope, x :: y :: xs => by
    simp only [Expr.evalAll]
    refine (Expr.extends engine scope x).single.bind fun v => ?_
    exact (Expr.extendsAll engine scope (y :: xs)).map _

theorem Call.extends (engine : e.Extends loose e') : ∀ (scope : Scope) (c : Call),
    Extends loose (c.eval e scope) (c.eval e' scope)
  | scope, .mk callee args line => by
    simp only [Call.eval]
    refine (Expr.extends engine scope callee).single.bind fun f => ?_
    refine (Expr.extendsAll engine scope args).bind fun vs => ?_
    split
    · exact .atLine line (.apply engine f vs)
    · exact .faultAt _ _ _ _

theorem Field.extends (engine : e.Extends loose e') : ∀ (scope : Scope) (fields : List Field)
    (position : Nat) (t : Table),
    Extends loose (Field.evalAll e scope fields position t) (Field.evalAll e' scope fields position t)
  | _, [], _, _ => .pure _
  | scope, [.positional x _], position, t => by
    simp only [Field.evalAll]
    exact (Expr.extends engine scope x).map _
  | scope, .positional x _ :: field :: fields, position, t => by
    simp only [Field.evalAll]
    refine (Expr.extends engine scope x).single.bind fun v => ?_
    exact Field.extends engine scope (field :: fields) _ _
  | scope, .keyed key value line :: fields, position, t => by
    simp only [Field.evalAll]
    refine (Expr.extends engine scope key).single.bind fun k => ?_
    refine (Expr.extends engine scope value).single.bind fun v => ?_
    split
    · exact Field.extends engine scope fields position _
    · exact .atLine line (.fault _)

theorem Target.extends (engine : e.Extends loose e') : ∀ (scope : Scope) (t : Target),
    Extends loose (t.place e scope) (t.place e' scope)
  | _, .name _ _ => .pure _
  | scope, .index target key line => by
    simp only [Target.place]
    refine (Expr.extends engine scope target).single.bind fun t => ?_
    refine (Expr.extends engine scope key).single.bind fun k => ?_
    split
    · exact .pure _
    · exact .faultAt _ _ _ _

theorem Target.extendsAll (engine : e.Extends loose e') : ∀ (scope : Scope) (ts : List Target),
    Extends loose (Target.places e scope ts) (Target.places e' scope ts)
  | _, [] => .pure _
  | scope, t :: ts => by
    simp only [Target.places]
    refine (Target.extends engine scope t).bind fun place => ?_
    exact (Target.extendsAll engine scope ts).map _

end

/-! ## Statements -/

mutual

theorem Stmt.extends (engine : e.Extends loose e') : ∀ (scope : Scope) (s : Stmt),
    Extends loose (s.exec e scope) (s.exec e' scope)
  | scope, .localVars names values _ => by
    simp only [Stmt.exec]
    refine (Expr.extendsAll engine scope values).bind fun vs => ?_
    exact (Extends.refl (onward_pushFrame _ _)).map _
  | scope, .assign targets values _ => by
    simp only [Stmt.exec]
    refine (Expr.extendsAll engine scope values).bind fun vs => ?_
    refine (Target.extendsAll engine scope targets).bind fun places => ?_
    exact (Extends.refl (onward_storeAll _ _ _)).map _
  | scope, .call c _ => by
    simp only [Stmt.exec]
    exact (Call.extends engine scope c).map _
  | scope, .doBlock body _ => by
    simp only [Stmt.exec]
    exact (Extends.inFrame [] fun scope => Block.extends engine scope body).map _
  | scope, .whileLoop condition body _ => by
    simp only [Stmt.exec]
    refine (Extends.whileTurns ((Expr.extends engine scope condition).single.map _) ?_
      engine.turns).map _
    exact .inFrame [] fun scope => Block.extends engine scope body
  | scope, .branch clauses none _ => by
    simp only [Stmt.exec]
    refine (Clause.extends engine scope clauses).bind fun taken => ?_
    split
    · exact .pure _
    · exact .pure _
  | scope, .branch clauses (some body) _ => by
    simp only [Stmt.exec]
    refine (Clause.extends engine scope clauses).bind fun taken => ?_
    split
    · exact .pure _
    · exact (Extends.inFrame [] fun scope => Block.extends engine scope body).map _
  | scope, .numericFor name start stop step body _ => by
    have turns (stride last first : Float) : Extends loose
        (do return (← countedTurns stride last (fun counter =>
          Eval.inFrame scope [(name, .number counter)] fun scope => body.exec e scope)
          e.loopLimit first, scope))
        (do return (← countedTurns stride last (fun counter =>
          Eval.inFrame scope [(name, .number counter)] fun scope => body.exec e' scope)
          e'.loopLimit first, scope)) :=
      (Extends.countedTurns (fun counter => .inFrame _ fun scope => Block.extends engine scope body)
        engine.turns first).map _
    simp only [Stmt.exec]
    refine (Expr.extends engine scope start).single.bind fun a => ?_
    refine (Extends.aside (aside_forNumber .start a)).bind fun first => ?_
    refine (Expr.extends engine scope stop).single.bind fun b => ?_
    refine (Extends.aside (aside_forNumber .limit b)).bind fun last => ?_
    cases step with
    | none => exact (Extends.pure _).bind fun stride => .unlessZero (turns _ _ _)
    | some step =>
      refine (Expr.extends engine scope step).single.bind fun c => ?_
      exact (Extends.aside (aside_forNumber .step c)).bind fun stride => .unlessZero (turns _ _ _)
  | scope, .genericFor names values body _ => by
    by_cases single : ∃ callee args l, values = [.call (.mk callee args l)]
    · obtain ⟨callee, args, l, rfl⟩ := single
      simp only [Stmt.exec]
      refine (Expr.extends engine scope callee).single.bind fun f => ?_
      split
      · refine (Expr.extendsAll engine scope args).bind fun vs => ?_
        refine (Extends.aside (aside_pairsTable vs)).bind fun id => ?_
        refine (Extends.aside (aside_table id)).bind fun t => ?_
        refine (Extends.keyedTurns (fun key => ?_) (fun key value => ?_) _).map _
        · exact IsAside.isOnward ((aside_table id).bind fun _ => moves_pure _)
        · exact .inFrame _ fun scope => Block.extends engine scope body
      · exact .fault _
    · have other : ∀ callee args l, values = [.call (.mk callee args l)] → False :=
        fun callee args l same => single ⟨callee, args, l, same⟩
      simp only [Stmt.exec]
      exact .fault _
  | scope, .functionDecl target function _ => by
    simp only [Stmt.exec]
    refine (Extends.refl (onward_closureOf scope function)).bind fun f => ?_
    refine (Target.extends engine scope target).bind fun place => ?_
    exact (Extends.refl (onward_store _ _ _)).map _
  | scope, .localFunction name function _ => by
    simp only [Stmt.exec]
    refine (Extends.refl (onward_pushFrame _ _)).bind fun scope => ?_
    refine (Extends.refl (onward_closureOf scope function)).bind fun f => ?_
    exact (Extends.refl (onward_assign _ _ _)).map _
  | scope, .returnValues values _ => by
    simp only [Stmt.exec]
    exact (Expr.extendsAll engine scope values).map _
  | _, .breakLoop _ => .pure _
  | _, .other _ _ => .fault _

theorem Clause.extends (engine : e.Extends loose e') : ∀ (scope : Scope) (clauses : List Clause),
    Extends loose (Clause.execFirst e scope clauses) (Clause.execFirst e' scope clauses)
  | _, [] => .pure _
  | scope, .mk condition body :: clauses => by
    simp only [Clause.execFirst]
    refine (Expr.extends engine scope condition).single.bind fun holds => ?_
    split
    · exact (Extends.inFrame [] fun scope => Block.extends engine scope body).map _
    · exact Clause.extends engine scope clauses

theorem Block.extends (engine : e.Extends loose e') : ∀ (scope : Scope) (b : Block),
    Extends loose (b.exec e scope) (b.exec e' scope)
  | scope, .mk statements _ => by
    simp only [Block.exec]
    exact Stmt.extendsAll engine scope statements

theorem Stmt.extendsAll (engine : e.Extends loose e') : ∀ (scope : Scope) (statements : List Stmt),
    Extends loose (Stmt.execAll e scope statements) (Stmt.execAll e' scope statements)
  | _, [] => .pure _
  | scope, s :: statements => by
    simp only [Stmt.execAll]
    refine (Extends.aside (aside_traceLine _)).bind fun _ => ?_
    refine (Extends.atLine s.line (Stmt.extends engine scope s)).bind fun out => ?_
    split
    · exact Stmt.extendsAll engine _ statements
    · exact .pure _

end

end

/-! ## Calls -/

namespace Eval

variable {loose : Limit → Prop} {turns turns' budget budget' : Nat}

theorem extends_callAt_succ
    (engine : Engine.Extends loose ⟨callAt turns budget, turns⟩ ⟨callAt turns' budget', turns'⟩)
    (id : Nat) (args : List Value) :
    Extends loose (callAt turns (budget + 1) id args) (callAt turns' (budget' + 1) id args) := by
  simp only [callAt]
  refine (Extends.aside (aside_closure id)).bind fun f => ?_
  refine (Extends.refl (onward_pushFrame _ _)).bind fun scope => ?_
  refine (Extends.deeper ?_).bind fun signal => ?_
  · refine (Extends.aside moves_get).bind fun m => ?_
    exact (Extends.aside (aside_traceLine _)).bind fun _ => Block.extends engine scope f.body
  · refine (Extends.aside (aside_resultOf signal)).bind fun values => ?_
    exact (Extends.aside (aside_traceLine _)).map _

theorem onward_callAt (turns budget id : Nat) (args : List Value) :
    IsOnward (callAt turns budget id args) := by
  induction budget generalizing id args with
  | zero => exact moves_fault _
  | succ budget ih =>
    have engine : Engine.Extends (fun _ => False) ⟨callAt turns budget, turns⟩
        ⟨callAt turns budget, turns⟩ := ⟨fun id args => .refl (ih id args), .inl rfl⟩
    exact (extends_callAt_succ engine id args).onward

theorem extends_engine (longer : Loosens loose .turns turns turns')
    (deeper : Loosens loose .depth budget budget') :
    (engine turns budget).Extends loose (engine turns' budget') := by
  induction budget generalizing budget' with
  | zero =>
    rcases deeper with rfl | ⟨looser, -⟩
    · exact ⟨fun _ _ => .fault _, longer⟩
    · exact ⟨fun id args => .cut rfl looser (onward_callAt turns' budget' id args), longer⟩
  | succ budget ih =>
    obtain ⟨budget', rfl⟩ : ∃ n, budget' = n + 1 :=
      Nat.exists_eq_succ_of_ne_zero (by rcases deeper with rfl | h <;> omega)
    have engine := ih (deeper.imp Nat.succ.inj (And.imp_right Nat.le_of_succ_le_succ))
    exact ⟨extends_callAt_succ engine, longer⟩

end Eval

end MiniLua
