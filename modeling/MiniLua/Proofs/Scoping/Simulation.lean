import MiniLua.Proofs.Scoping.Tracking

/-!
# The watched run is the run

Rule by rule over the tree: whatever stands at its spot in the right scope is evaluated, watched or
not, with the same outcome, and leaves everything that was made standing at its spot.
-/

namespace MiniLua

open Record

namespace Tracks

variable {r : Record} {spot : Spot} {node child : Node} {scope : Scope} {i : Nat}

/-- Running a body in a frame of its own. -/
theorem inFrame {names : List String} {bs : Bindings} {x : Scope → Eval Signal}
    {y : Scope → Watched Signal} (stands : r.Stands spot node scope)
    (inside : node.parts[i]? = some (some names, child))
    (bound : ∀ n, bs.binds n = true ↔ n ∈ names)
    (body : ∀ r' scope', r.Grows r' → r'.Stands (spot.part i) child scope' →
      Follows r' (x scope') (y scope')) :
    Follows r (Eval.inFrame scope bs x) (Watched.inFrame ⟨spot, names⟩ scope bs y) := by
  refine (pushFrame bound).bind fun r' scope' grows made => ?_
  obtain ⟨id, rfl, known⟩ := made
  exact body r' _ grows ((stands.grows grows).inner inside known)

/-! ## Loops -/

theorem whileTurns {c : Eval Bool} {c' : Watched Bool} {b : Eval Signal} {b' : Watched Signal}
    (condition : Follows r c c') (body : Follows r b b') (limit : Nat) :
    Follows r (Eval.whileTurns c b limit) (Watched.whileTurns c' b' limit) := by
  induction limit with
  | zero => exact .throw _
  | succ limit ih =>
    refine condition.bind fun r' holds grows _ => ?_
    cases holds with
    | false => exact .done
    | true =>
      refine (body.grows grows).bind fun r'' signal later _ => ?_
      cases signal.ending? with
      | none => exact ih.grows (grows.trans later)
      | some signal => exact .done

theorem countedTurns {step stop : Float} {b : Float → Eval Signal} {b' : Float → Watched Signal}
    (body : ∀ counter, Follows r (b counter) (b' counter)) (limit : Nat) (counter : Float) :
    Follows r (Eval.countedTurns step stop b limit counter)
      (Watched.countedTurns step stop b' limit counter) := by
  induction limit generalizing counter with
  | zero => exact .throw _
  | succ limit ih =>
    unfold Eval.countedTurns Watched.countedTurns
    split
    · refine (body counter).bind fun r' signal grows _ => ?_
      cases signal.ending? with
      | none => exact (ih _).grows grows
      | some signal => exact .done
    · exact .done

theorem unlessZero {α : Type} {post : Record → α → Prop} {stride : Float} {x : Eval α}
    {y : Watched α} (h : Tracks r x y post) :
    Tracks r
      (if stride == 0 then (do Eval.fault .zeroStep; x) else x)
      (if stride == 0 then (do Watched.lift (Eval.fault .zeroStep); y) else y) post := by
  split
  · exact (Tracks.fault _ : Follows r _ _).bind fun _ _ grows _ => h.grows grows
  · exact h

theorem overKeys {α : Type} {read : Value → Eval Value} {read' : Value → Watched Value}
    {visit : Value → Value → Eval (Option α)} {visit' : Value → Value → Watched (Option α)}
    (reading : ∀ key, Follows r (read key) (read' key))
    (visiting : ∀ key value, Follows r (visit key value) (visit' key value)) (keys : List Value) :
    Follows r (MiniLua.overKeys read visit keys) (MiniLua.overKeys read' visit' keys) := by
  induction keys with
  | nil => exact .done
  | cons key keys ih =>
    refine (reading key).bind fun r' value grows _ => ?_
    split
    · exact ih.grows grows
    · refine ((visiting key value).grows grows).bind fun r'' ending later _ => ?_
      cases ending with
      | none => exact ih.grows (grows.trans later)
      | some a => exact .done

theorem keyedTurns {read : Value → Eval Value} {read' : Value → Watched Value}
    {body : Value → Value → Eval Signal} {body' : Value → Value → Watched Signal}
    (reading : ∀ key, Follows r (read key) (read' key))
    (turn : ∀ key value, Follows r (body key value) (body' key value)) (keys : List Value) :
    Follows r (Eval.keyedTurns read body keys) (Watched.keyedTurns read' body' keys) := by
  refine (overKeys reading (fun key value => ?_) keys).map _
  exact (turn key value).map _

/-! ## Operators and calls -/

theorem apply {e : Engine} {w : WatchedEngine} (engine : EngineFollows e w) (v : Value)
    (args : List Value) : Follows r (Eval.apply e v args) (Watched.apply w v args) := by
  have uncalled (same : Eval.apply e v args = Eval.apply ⟨fun _ _ => return [], 0⟩ v args)
      (builtin : v.isFunction = false) :
      Follows r (Eval.apply e v args)
        (Watched.lift (Eval.apply ⟨fun _ _ => return [], 0⟩ v args)) := by
    rw [same]
    exact .lift (Eval.keeps_apply _ v args builtin)
  cases v with
  | ref ref =>
    cases ref with
    | function id => exact (engine.call r id args).map _
    | table id => exact uncalled rfl rfl
  | builtin b => cases b <;> exact uncalled rfl rfl
  | _ => exact uncalled rfl rfl

theorem binaryOp {e : Expr} {op : BinaryOp} {left right : Expr} {line : Nat} {a b : Value}
    (stands : r.Stands spot (.expr e) scope)
    (parts : (Node.expr e).parts = [(none, .expr left), (none, .expr right)]) :
    Follows r (Eval.binaryOp scope op left right line a b)
      (Watched.binaryOp spot scope op left right line a b) := by
  have onLeft : r.Stands (spot.part 0) (.expr left) scope := stands.part (by rw [parts]; rfl)
  have onRight : r.Stands (spot.part 1) (.expr right) scope := stands.part (by rw [parts]; rfl)
  have operated := Tracks.atLine (r := r) line (.aside (Eval.aside_operate op a b))
  unfold Eval.binaryOp Watched.binaryOp
  cases Value.binary op a b with
  | ok v => exact operated
  | error fault =>
    cases fault with
    | arithmetic side type =>
      cases side with
      | left => exact .faultAt line _ onLeft
      | right => exact .faultAt line _ onRight
    | concat side type =>
      cases side with
      | left => exact .faultAt line _ onLeft
      | right => exact .faultAt line _ onRight
    | _ => exact operated

theorem unaryOp {op : UnaryOp} {operand : Expr} {line : Nat} {a : Value}
    (stands : r.Stands (spot.part 0) (.expr operand) scope) :
    Follows r (Eval.unaryOp scope op operand line a)
      (Watched.unaryOp spot scope op operand line a) := by
  cases op with
  | not => exact .done
  | neg =>
    refine (Tracks.aside (Eval.aside_ofNumeral _)).bind fun r' x grows _ => ?_
    cases x with
    | none => exact .faultAt line _ (stands.grows grows)
    | some x => exact .done
  | len =>
    cases a with
    | string s => exact .done
    | ref ref =>
      cases ref with
      | table id =>
        exact (Tracks.aside (Eval.aside_table id)).map _
      | function id => exact .faultAt line _ stands
    | _ => exact .faultAt line _ stands
  | other symbol => exact .atLine line (.fault _)

end Tracks

/-! ## The tree -/

variable {e : Engine} {w : WatchedEngine} {r : Record} {spot : Spot} {scope : Scope}

mutual

theorem Expr.follows (engine : EngineFollows e w) : ∀ {r : Record} {spot : Spot} (x : Expr),
    r.Stands spot (.expr x) scope → Follows r (x.eval e scope) (x.watch w spot scope)
  | _, _, .nil _, _ => .done
  | _, _, .bool _ _, _ => .done
  | _, _, .number _ _, _ => .done
  | _, _, .string _ _, _ => .done
  | _, _, .name n _, stands => .see stands rfl (.aside (Eval.aside_lookup _ _))
  | _, _, .index target key line, stands => by
    simp only [Expr.eval, Expr.watch]
    have onTarget := stands.part (i := 0) rfl
    have onKey := stands.part (i := 1) rfl
    refine (Expr.follows engine target onTarget).single.bind fun r' t grows _ => ?_
    refine (Expr.follows engine key (onKey.grows grows)).single.bind fun r'' k later _ => ?_
    cases t with
    | ref ref =>
      cases ref with
      | table id =>
        exact (Tracks.aside (Eval.aside_table id)).map _
      | function id => exact .faultAt line _ (onTarget.grows (grows.trans later))
    | _ => exact .faultAt line _ (onTarget.grows (grows.trans later))
  | _, _, .call c, stands => by
    simp only [Expr.eval, Expr.watch]
    exact Call.follows engine c (stands.part (i := 0) rfl)
  | _, _, .function f, stands => by
    simp only [Expr.eval, Expr.watch]
    exact .closureOf (stands.part (i := 0) rfl)
  | _, _, .table fields _, stands => by
    simp only [Expr.eval, Expr.watch]
    exact (Field.follows engine fields 1 .empty (stands.part (i := 0) rfl)).bind fun _ t _ _ =>
      .lift (Eval.keeps_newTable t)
  | _, _, .paren inner _, stands => by
    simp only [Expr.eval, Expr.watch]
    exact (Expr.follows engine inner (stands.part (i := 0) rfl)).single
  | _, _, .logical op left right _, stands => by
    simp only [Expr.eval, Expr.watch]
    refine (Expr.follows engine left (stands.part (i := 0) rfl)).single.bind fun r' a grows _ => ?_
    have onRight := Expr.follows engine right ((stands.part (i := 1) rfl).grows grows)
    cases op with
    | and =>
      cases a.truthy with
      | true => exact onRight.single
      | false => exact .done
    | or =>
      cases a.truthy with
      | true => exact .done
      | false => exact onRight.single
  | _, _, .binary op left right line, stands => by
    simp only [Expr.eval, Expr.watch]
    refine (Expr.follows engine left (stands.part (i := 0) rfl)).single.bind fun r' a grows _ => ?_
    have onRight := (stands.part (i := 1) rfl).grows grows
    refine (Expr.follows engine right onRight).single.bind fun r'' b later _ => ?_
    exact .binaryOp (stands.grows (grows.trans later)) rfl
  | _, _, .unary op operand line, stands => by
    simp only [Expr.eval, Expr.watch]
    have onOperand := stands.part (i := 0) rfl
    refine (Expr.follows engine operand onOperand).single.bind fun r' a grows _ => ?_
    exact .unaryOp (onOperand.grows grows)
  | _, _, .other kind line, _ => .atLine line (.fault _)

theorem Expr.followsAll (engine : EngineFollows e w) : ∀ {r : Record} {spot : Spot} (xs : List Expr),
    r.Stands spot (.exprs xs) scope →
    Follows r (Expr.evalAll e scope xs) (Expr.watchAll w spot scope xs)
  | _, _, [], _ => .done
  | _, _, [x], stands => by
    simp only [Expr.evalAll, Expr.watchAll]
    exact (Expr.follows engine x (stands.part (i := 0) rfl)).map _
  | _, _, x :: y :: xs, stands => by
    simp only [Expr.evalAll, Expr.watchAll]
    refine (Expr.follows engine x (stands.part (i := 0) rfl)).single.bind fun r' v grows _ => ?_
    have onRest := (stands.part (i := 1) rfl).grows grows
    exact (Expr.followsAll engine (y :: xs) onRest).map _

theorem Call.follows (engine : EngineFollows e w) : ∀ {r : Record} {spot : Spot} (c : Call),
    r.Stands spot (.call c) scope → Follows r (c.eval e scope) (c.watch w spot scope)
  | _, _, .mk callee args line, stands => by
    simp only [Call.eval, Call.watch]
    have onCallee := stands.part (i := 0) rfl
    refine (Expr.follows engine callee onCallee).single.bind fun r' f grows _ => ?_
    have onArgs := (stands.part (i := 1) rfl).grows grows
    refine (Expr.followsAll engine args onArgs).bind fun r'' vs later _ => ?_
    split
    · exact .atLine line (.apply engine f vs)
    · exact .faultAt line _ (onCallee.grows (grows.trans later))

theorem Field.follows (engine : EngineFollows e w) : ∀ {r : Record} {spot : Spot}
    (fields : List Field) (position : Nat) (t : Table), r.Stands spot (.fields fields) scope →
    Follows r (Field.evalAll e scope fields position t)
      (Field.watchAll w spot scope fields position t)
  | _, _, [], _, _, _ => .done
  | _, _, [.positional x _], position, t, stands => by
    simp only [Field.evalAll, Field.watchAll]
    exact (Expr.follows engine x (stands.part (i := 0) rfl)).map _
  | _, _, .positional x _ :: field :: fields, position, t, stands => by
    simp only [Field.evalAll, Field.watchAll]
    refine (Expr.follows engine x (stands.part (i := 0) rfl)).single.bind fun r' v grows _ => ?_
    exact Field.follows engine (field :: fields) _ _ ((stands.part (i := 1) rfl).grows grows)
  | _, _, .keyed key value line :: fields, position, t, stands => by
    simp only [Field.evalAll, Field.watchAll]
    refine (Expr.follows engine key (stands.part (i := 0) rfl)).single.bind fun r' k grows _ => ?_
    have onValue := (stands.part (i := 1) rfl).grows grows
    refine (Expr.follows engine value onValue).single.bind fun r'' v later _ => ?_
    cases t.set k v with
    | ok t' =>
      exact Field.follows engine fields position t'
        ((stands.part (i := 2) rfl).grows (grows.trans later))
    | error error => exact .atLine line (.fault error)

theorem Target.follows (engine : EngineFollows e w) : ∀ {r : Record} {spot : Spot} (t : Target),
    r.Stands spot (.target t) scope → Follows r (t.place e scope) (t.watchPlace w spot scope)
  | _, _, .name _ _, stands => .see stands rfl .done
  | _, _, .index target key line, stands => by
    simp only [Target.place, Target.watchPlace]
    have onTarget := stands.part (i := 0) rfl
    have onKey := stands.part (i := 1) rfl
    refine (Expr.follows engine target onTarget).single.bind fun r' t grows _ => ?_
    refine (Expr.follows engine key (onKey.grows grows)).single.bind fun r'' k later _ => ?_
    cases t with
    | ref ref =>
      cases ref with
      | table id => exact .done
      | function id => exact .faultAt line _ (onTarget.grows (grows.trans later))
    | _ => exact .faultAt line _ (onTarget.grows (grows.trans later))

theorem Target.followsAll (engine : EngineFollows e w) : ∀ {r : Record} {spot : Spot}
    (ts : List Target), r.Stands spot (.targets ts) scope →
    Follows r (Target.places e scope ts) (Target.watchPlaces w spot scope ts)
  | _, _, [], _ => .done
  | _, _, t :: ts, stands => by
    simp only [Target.places, Target.watchPlaces]
    refine (Target.follows engine t (stands.part (i := 0) rfl)).bind fun r' place grows _ => ?_
    exact (Target.followsAll engine ts ((stands.part (i := 1) rfl).grows grows)).map _

end

/-! ## Statements -/

/-- Names bound to as many values as there are names. -/
theorem binds_adjust (names : List String) (vs : List Value) (n : String) :
    (Bindings.ofLists names (Value.adjust vs names.length)).binds n = true ↔ n ∈ names :=
  Bindings.binds_ofLists names _ (Nat.le_of_eq (Value.length_adjust vs names.length).symm) n

theorem binds_single (name : String) (v : Value) (n : String) :
    Bindings.binds [(name, v)] n = true ↔ n ∈ [name] := by
  simp [Bindings.binds, eq_comm]

theorem binds_none (n : String) : Bindings.binds [] n = true ↔ n ∈ ([] : List String) := by
  simp [Bindings.binds]

section

variable {names : List String} {values : List Expr} {body : Block} {line : Nat}

theorem Stmt.exec_genericFor_other (e : Engine) (scope : Scope)
    (other : ∀ callee args l, values = [.call (.mk callee args l)] → False) :
    (Stmt.genericFor names values body line).exec e scope = Eval.fault .forWithoutCall := by
  simp only [Stmt.exec]

theorem Stmt.watch_genericFor_other (w : WatchedEngine) (cell : Spot) (scope : Scope)
    (other : ∀ callee args l, values = [.call (.mk callee args l)] → False) :
    (Stmt.genericFor names values body line).watch w cell scope =
      Watched.lift (Eval.fault .forWithoutCall) := by
  simp only [Stmt.watch]

end

mutual

/-- What comes after the statement in its block stands in the scope that it leaves. -/
theorem Stmt.follows (engine : EngineFollows e w) : ∀ {r : Record} {cell : Spot} {scope : Scope}
    (s : Stmt) (rest : List Stmt), r.Stands cell (.stmts (s :: rest)) scope →
    Tracks r (s.exec e scope) (s.watch w cell scope)
      fun r' out => r'.Stands (cell.part 1) (.stmts rest) out.2
  | r, cell, scope, .localVars names values _, rest, stands => by
    simp only [Stmt.exec, Stmt.watch]
    have onStmt := stands.part (i := 0) rfl
    refine (Expr.followsAll engine values (onStmt.part (i := 0) rfl)).bind fun r' vs grows _ => ?_
    refine (Tracks.pushFrame (binds_adjust names vs)).bind fun r'' scope' later made => ?_
    obtain ⟨id, rfl, known⟩ := made
    have after := (stands.grows (grows.trans later)).inner (i := 1) rfl known
    exact .pure fun _ last => after.grows last
  | r, cell, scope, .assign targets values _, rest, stands => by
    simp only [Stmt.exec, Stmt.watch]
    have onStmt := stands.part (i := 0) rfl
    have after := stands.part (i := 1) rfl
    refine (Expr.followsAll engine values (onStmt.part (i := 0) rfl)).bind fun r' vs grows _ => ?_
    refine (Target.followsAll engine targets ((onStmt.part (i := 1) rfl).grows grows)).bind
      fun r'' places later _ => ?_
    refine (Tracks.lift (Eval.keeps_storeAll scope places _ stands.root)).bind fun r₃ _ last _ => ?_
    exact .pure fun _ more => after.grows (((grows.trans later).trans last).trans more)
  | r, cell, scope, .call c _, rest, stands => by
    simp only [Stmt.exec, Stmt.watch]
    have onStmt := stands.part (i := 0) rfl
    have after := stands.part (i := 1) rfl
    refine (Call.follows engine c (onStmt.part (i := 0) rfl)).bind fun r' _ grows _ => ?_
    exact .pure fun _ more => after.grows (grows.trans more)
  | r, cell, scope, .doBlock body _, rest, stands => by
    simp only [Stmt.exec, Stmt.watch]
    have onStmt := stands.part (i := 0) rfl
    have after := stands.part (i := 1) rfl
    refine (Tracks.inFrame onStmt (i := 0) rfl binds_none fun r' scope' _ inside =>
      Block.follows engine body inside).bind fun r' _ grows _ => ?_
    exact .pure fun _ more => after.grows (grows.trans more)
  | r, cell, scope, .whileLoop condition body _, rest, stands => by
    simp only [Stmt.exec, Stmt.watch, engine.loopLimit]
    have onStmt := stands.part (i := 0) rfl
    have after := stands.part (i := 1) rfl
    refine (Tracks.whileTurns ((Expr.follows engine condition (onStmt.part (i := 0) rfl)).single.map _)
      (Tracks.inFrame onStmt (i := 1) rfl binds_none fun r' scope' _ inside =>
        Block.follows engine body inside) _).bind fun r' _ grows _ => ?_
    exact .pure fun _ more => after.grows (grows.trans more)
  | r, cell, scope, .branch clauses none _, rest, stands => by
    simp only [Stmt.exec, Stmt.watch]
    have onStmt := stands.part (i := 0) rfl
    have after := stands.part (i := 1) rfl
    refine (Clause.follows engine clauses (onStmt.part (i := 0) rfl)).bind fun r' taken grows _ => ?_
    cases taken with
    | none => exact .pure fun _ more => after.grows (grows.trans more)
    | some signal => exact .pure fun _ more => after.grows (grows.trans more)
  | r, cell, scope, .branch clauses (some body) _, rest, stands => by
    simp only [Stmt.exec, Stmt.watch]
    have onStmt := stands.part (i := 0) rfl
    have after := stands.part (i := 1) rfl
    refine (Clause.follows engine clauses (onStmt.part (i := 0) rfl)).bind fun r' taken grows _ => ?_
    have onBody := Tracks.inFrame (onStmt.grows grows) (i := 1) rfl binds_none
      fun r'' scope' _ inside => Block.follows engine body inside
    cases taken with
    | some signal => exact .pure fun _ more => after.grows (grows.trans more)
    | none =>
      refine onBody.bind fun r'' _ later _ => ?_
      exact .pure fun _ more => after.grows ((grows.trans later).trans more)
  | r, cell, scope, .numericFor name start stop step body line, rest, stands => by
    simp only [Stmt.exec, Stmt.watch, engine.loopLimit]
    have onStmt := stands.part (i := 0) rfl
    have after := stands.part (i := 1) rfl
    have onBody (counter : Float) := Tracks.inFrame onStmt (i := 2) rfl
      (binds_single name (.number counter)) fun r' scope' _ inside => Block.follows engine body inside
    have turns {r' : Record} (grows : r.Grows r') (stride last first : Float) :
        Tracks r'
          (do
            let signal ← Eval.countedTurns stride last
              (fun counter => Eval.inFrame scope [(name, .number counter)] fun scope =>
                body.exec e scope) e.loopLimit first
            return (signal, scope))
          (do
            let signal ← Watched.countedTurns stride last
              (fun counter => Watched.inFrame ⟨cell.part 0, [name]⟩ scope [(name, .number counter)]
                fun scope => body.watch w ((cell.part 0).part 2) scope) e.loopLimit first
            return (signal, scope))
          fun r' out => r'.Stands (cell.part 1) (.stmts rest) out.2 := by
      refine ((Tracks.countedTurns onBody _ _).grows grows).bind fun r'' _ later _ => ?_
      exact .pure fun _ more => after.grows ((grows.trans later).trans more)
    refine (Expr.follows engine start (onStmt.part (i := 0) rfl)).single.bind fun r₁ a g₁ _ => ?_
    refine (Tracks.aside (Eval.aside_forNumber .start a)).bind fun r₂ first g₂ _ => ?_
    have onStop := (onStmt.part (i := 1) rfl).grows (g₁.trans g₂)
    refine (Expr.follows engine stop onStop).single.bind fun r₃ b g₃ _ => ?_
    refine (Tracks.aside (Eval.aside_forNumber .limit b)).bind fun r₄ last g₄ _ => ?_
    have grown := ((g₁.trans g₂).trans g₃).trans g₄
    cases step with
    | none => exact Tracks.done.bind fun r₅ stride g₅ _ => .unlessZero (turns (grown.trans g₅) _ _ _)
    | some step =>
      have onStep := (onStmt.part (i := 3) rfl).grows grown
      refine (Expr.follows engine step onStep).single.bind fun r₅ c g₅ _ => ?_
      refine (Tracks.aside (Eval.aside_forNumber .step c)).bind fun r₆ stride g₆ _ => ?_
      exact .unlessZero (turns ((grown.trans g₅).trans g₆) _ _ _)
  | r, cell, scope, .genericFor names values body _, rest, stands => by
    have onStmt := stands.part (i := 0) rfl
    have after := stands.part (i := 1) rfl
    have onBody (key value : Value) := Tracks.inFrame onStmt (i := 1) rfl
      (binds_adjust names [key, value]) fun r' scope' _ inside => Block.follows engine body inside
    by_cases single : ∃ callee args l, values = [.call (.mk callee args l)]
    · obtain ⟨callee, args, l, rfl⟩ := single
      have onCall := ((onStmt.part (i := 0) rfl).part (i := 0) rfl).part (i := 0) rfl
      simp only [Stmt.exec, Stmt.watch]
      refine (Expr.follows engine callee (onCall.part (i := 0) rfl)).single.bind fun r₁ f g₁ _ => ?_
      cases f with
      | builtin b =>
        cases b with
        | print => exact .fault _
        | pairs =>
          refine (Expr.followsAll engine args ((onCall.part (i := 1) rfl).grows g₁)).bind
            fun r₂ vs g₂ _ => ?_
          refine (Tracks.aside (Eval.aside_pairsTable vs)).bind fun r₃ id g₃ _ => ?_
          refine (Tracks.aside (Eval.aside_table id)).bind fun r₄ t g₄ _ => ?_
          have grown := ((g₁.trans g₂).trans g₃).trans g₄
          refine (Tracks.keyedTurns (fun key => .aside ?_)
            (fun key value => (onBody key value).grows grown) _).bind fun r₅ signal g₅ _ => ?_
          · exact (Eval.aside_table id).bind fun _ => Eval.moves_pure _
          · exact .pure fun _ more => after.grows ((grown.trans g₅).trans more)
      | _ => exact .fault _
    · have other : ∀ callee args l, values = [.call (.mk callee args l)] → False :=
        fun callee args l same => single ⟨callee, args, l, same⟩
      rw [Stmt.exec_genericFor_other e scope other, Stmt.watch_genericFor_other w cell scope other]
      exact .fault _
  | r, cell, scope, .functionDecl target function _, rest, stands => by
    simp only [Stmt.exec, Stmt.watch]
    have onStmt := stands.part (i := 0) rfl
    have after := stands.part (i := 1) rfl
    refine (Tracks.closureOf (onStmt.part (i := 0) rfl)).bind fun r' f grows _ => ?_
    refine (Target.follows engine target ((onStmt.part (i := 1) rfl).grows grows)).bind
      fun r'' place later _ => ?_
    refine (Tracks.lift (Eval.keeps_store scope place f stands.root)).bind fun r₃ _ last _ => ?_
    exact .pure fun _ more => after.grows (((grows.trans later).trans last).trans more)
  | r, cell, scope, .localFunction name function _, rest, stands => by
    simp only [Stmt.exec, Stmt.watch]
    refine (Tracks.pushFrame (binds_single name .nil)).bind fun r' scope' grows made => ?_
    obtain ⟨id, rfl, known⟩ := made
    have onStmt := (stands.grows grows).inner (i := 0) rfl known
    have after := (stands.grows grows).inner (i := 1) rfl known
    refine (Tracks.closureOf (onStmt.part (i := 0) rfl)).bind fun r'' f later _ => ?_
    refine (Tracks.lift (Eval.keeps_assign _ name f after.root)).bind fun r₃ _ last _ => ?_
    exact .pure fun _ more => after.grows ((later.trans last).trans more)
  | r, cell, scope, .returnValues values _, rest, stands => by
    simp only [Stmt.exec, Stmt.watch]
    have onStmt := stands.part (i := 0) rfl
    have after := stands.part (i := 1) rfl
    refine (Expr.followsAll engine values (onStmt.part (i := 0) rfl)).bind fun r' vs grows _ => ?_
    exact .pure fun _ more => after.grows (grows.trans more)
  | r, cell, scope, .breakLoop line, rest, stands =>
    .pure fun _ more => (stands.part (i := 1) rfl).grows more
  | r, cell, scope, .other kind _, rest, stands => .fault _

theorem Clause.follows (engine : EngineFollows e w) : ∀ {r : Record} {spot : Spot} {scope : Scope}
    (clauses : List Clause), r.Stands spot (.clauses clauses) scope →
    Follows r (Clause.execFirst e scope clauses) (Clause.watchFirst w spot scope clauses)
  | _, _, _, [], _ => .done
  | _, _, _, .mk condition body :: clauses, stands => by
    simp only [Clause.execFirst, Clause.watchFirst]
    refine (Expr.follows engine condition (stands.part (i := 0) rfl)).single.bind
      fun r' holds grows _ => ?_
    split
    · exact (Tracks.inFrame (stands.grows grows) (i := 1) rfl binds_none
        fun r'' scope' _ inside => Block.follows engine body inside).map _
    · exact Clause.follows engine clauses ((stands.part (i := 2) rfl).grows grows)

theorem Block.follows (engine : EngineFollows e w) : ∀ {r : Record} {spot : Spot} {scope : Scope}
    (b : Block), r.Stands spot (.block b) scope →
    Follows r (b.exec e scope) (b.watch w spot scope)
  | _, _, _, .mk statements _, stands => by
    simp only [Block.exec, Block.watch]
    exact Stmt.followsAll engine statements (stands.part (i := 0) rfl)

theorem Stmt.followsAll (engine : EngineFollows e w) : ∀ {r : Record} {spot : Spot} {scope : Scope}
    (statements : List Stmt), r.Stands spot (.stmts statements) scope →
    Follows r (Stmt.execAll e scope statements) (Stmt.watchAll w spot scope statements)
  | _, _, _, [], _ => .done
  | _, _, _, s :: statements, stands => by
    simp only [Stmt.execAll, Stmt.watchAll]
    refine (Tracks.aside (Eval.aside_traceLine _)).bind fun r' _ grows _ => ?_
    refine (Tracks.atLine s.line (Stmt.follows engine s statements (stands.grows grows))).bind
      fun r'' out later after => ?_
    obtain ⟨signal, scope'⟩ := out
    cases signal with
    | normal => exact Stmt.followsAll engine statements after
    | _ => exact .done

end

end MiniLua
