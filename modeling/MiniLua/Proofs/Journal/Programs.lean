import MiniLua.Proofs.Journal.Recording
import MiniLua.Proofs.Limits.Programs

/-!
# The observed run is the run

Rule by rule over the tree: what is observed is recorded, whatever it is. Calls follow by induction on
the depth that is left, which together with the bodies that are running makes up the limit.
-/

namespace MiniLua

variable {c : Setting} {parents : List FrameId}

/-- The calls of an observed engine record those of a plain one. -/
structure Engine.RecordedBy (c : Setting) (e : Engine) (o : ObservedEngine) : Prop where
  call : ∀ parents id args, c.Several args →
    Records c parents (e.call id args) (o.call id args) fun _ vs => c.Several vs
  loopLimit : o.loopLimit = e.loopLimit

namespace Records

variable {scope : Scope}

/-- How a block ends. -/
abbrev Closes (c : Setting) (parents : List FrameId) (x : Eval Signal) (y : Observed Signal) : Prop :=
  Records c parents x y fun _ signal => c.orderly → signal.Within c.given

/-! ## Loops -/

theorem inFrame {bs : Bindings} {x : Scope → Eval Signal} {y : Scope → Observed Signal}
    (rooted : c.Scoped parents scope) (bound : c.orderly → bs.Within c.given)
    (body : ∀ parents' scope', c.Scoped parents' scope' → Closes c parents' (x scope') (y scope')) :
    Closes c parents (Eval.inFrame scope bs x) (Observed.inFrame scope bs y) :=
  (pushFrame_scoped rooted bound).bind fun parents' scope' _ rooted' => body parents' scope' rooted'

theorem whileTurns {condition : Eval Bool} {condition' : Observed Bool} {body : Eval Signal}
    {body' : Observed Signal} (holds : Records c parents condition condition' Whatever)
    (turn : Closes c parents body body') (limit : Nat) :
    Closes c parents (Eval.whileTurns condition body limit)
      (Observed.whileTurns condition' body' limit) := by
  induction limit with
  | zero => exact exhausted
  | succ limit ih =>
    rw [Eval.whileTurns, Observed.whileTurns]
    refine holds.bind fun parents' b grown _ => ?_
    split
    · refine (turn.grows grown).bind fun parents'' signal later fine => ?_
      cases ends : signal.ending? with
      | none => exact ih.grows (grown.trans later)
      | some ending => exact pure fun _ _ o => Eval.Stays.within_ending (fine o) ends
    · exact pure fun _ _ _ => trivial

theorem countedTurns {step stop : Float} {body : Float → Eval Signal}
    {body' : Float → Observed Signal}
    (turn : ∀ counter, Closes c parents (body counter) (body' counter))
    (limit : Nat) (counter : Float) :
    Closes c parents (Eval.countedTurns step stop body limit counter)
      (Observed.countedTurns step stop body' limit counter) := by
  induction limit generalizing counter with
  | zero => exact exhausted
  | succ limit ih =>
    rw [Eval.countedTurns, Observed.countedTurns]
    split
    · refine (turn counter).bind fun parents' signal grown fine => ?_
      cases ends : signal.ending? with
      | none => exact (ih _).grows grown
      | some ending => exact pure fun _ _ o => Eval.Stays.within_ending (fine o) ends
    · exact pure fun _ _ _ => trivial

theorem keyedTurns {read : Value → Eval Value} {read' : Value → Observed Value}
    {body : Value → Value → Eval Signal} {body' : Value → Value → Observed Signal}
    {keys : List Value} (known : c.Several keys)
    (reads : ∀ key, Records c parents (read key) (read' key) fun _ v => c.One v)
    (turn : ∀ parents' key value, parents <+: parents' → c.One key → c.One value →
      Closes c parents' (body key value) (body' key value)) :
    Closes c parents (Eval.keyedTurns read body keys) (Observed.keyedTurns read' body' keys) := by
  let fine (_ : List FrameId) (ending : Option Signal) : Prop :=
    c.orderly → ∀ signal ∈ ending, signal.Within c.given
  have walk : Records c parents
      (overKeys read (fun key value => do return (← body key value).ending?) keys)
      (overKeys read' (fun key value => do return (← body' key value).ending?) keys) fine := by
    induction keys with
    | nil => exact pure fun _ _ _ => nofun
    | cons key keys ih =>
      have rest := ih fun o => (List.forall_mem_cons.mp (known o)).2
      rw [overKeys, overKeys]
      refine (reads key).bind fun parents' value grown one => ?_
      split
      · exact rest.grows grown
      · have visit := turn parents' key value grown
          (fun o => (List.forall_mem_cons.mp (known o)).1) one
        have visited : Records c parents' (do return (← body key value).ending?)
            (do return (← body' key value).ending?) fine :=
          visit.map fun _ _ _ within o _ ends => Eval.Stays.within_ending (within o) ends
        refine visited.bind fun parents'' ending later ends => ?_
        split
        · exact rest.grows (grown.trans later)
        · exact pure fun _ _ => ends
  refine walk.map fun _ ending _ ends o => ?_
  cases ending with
  | none => trivial
  | some signal => exact ends o signal rfl

theorem unlessZero {α : Type} {post : List FrameId → α → Prop} {stride : Float} {x : Eval α}
    {y : Observed α} (h : Records c parents x y post) :
    Records c parents
      (if stride == 0 then (do Eval.fault .zeroStep; x) else x)
      (if stride == 0 then (do Observed.lift (Eval.fault .zeroStep); y) else y) post := by
  split
  · have failing : Records c parents (Eval.fault .zeroStep : Eval PUnit)
        (Observed.lift (Eval.fault .zeroStep)) Whatever := fault _ nofun
    exact failing.bind fun _ _ grown _ => h.grows grown
  · exact h

/-! ## Calls -/

theorem apply {e : Engine} {o : ObservedEngine} (engine : e.RecordedBy c o) {v : Value}
    {args : List Value} (one : c.One v) (several : c.Several args) :
    Records c parents (Eval.apply e v args) (Observed.apply o v args)
      fun _ v => c.orderly → v.Spreads c.given := by
  have uncalled (same : Eval.apply e v args = Eval.apply ⟨fun _ _ => return [], 0⟩ v args)
      (builtin : v.isFunction = false) :
      Records c parents (Eval.apply e v args)
        (do
          Observed.note (.called v args)
          Observed.lift (Eval.apply ⟨fun _ _ => return [], 0⟩ v args))
        fun _ v => c.orderly → v.Spreads c.given := by
    have idle : Engine.Extends (fun _ => False) ⟨fun _ _ => return [], 0⟩
        ⟨fun _ _ => return [], 0⟩ := ⟨fun _ _ => .pure _, .inl rfl⟩
    have still : Engine.Stays c.given ⟨fun _ _ => return [], 0⟩ := fun _ _ _ =>
      .pure fun _ member => absurd member List.not_mem_nil
    rw [same]
    refine noted (fun o => ⟨one o, several o⟩) ?_ ?_
    · rintro ⟨id, args, called⟩
      cases called
      cases builtin
    · exact kept (Eval.Extends.apply idle v args).onward (Eval.raises_apply _ v args builtin).entered.unlimited
        (fun _ => Eval.keeps_apply _ v args builtin) fun o => .apply still v (several o)
  cases v with
  | ref ref =>
    cases ref with
    | function id => exact (engine.call parents id args several).map fun _ _ _ fine => fine
    | table id => exact uncalled rfl rfl
  | builtin b => cases b <;> exact uncalled rfl rfl
  | _ => exact uncalled rfl rfl

/-- An error that says where its value came from; nothing comes after it. -/
theorem faultAt {α : Type} {holds : α → Prop} (line : Nat) (x : Expr)
    (error : Origin → RuntimeError) (unescaped : ∀ origin, error origin ≠ .breakOutsideLoop)
    (entered : ∀ origin, error origin ≠ .stackOverflow) :
    Records c parents (Eval.faultAt line scope x error : Eval α)
      (Observed.lift (Eval.faultAt line scope x error)) fun _ a => c.orderly → holds a :=
  aside (Eval.aside_faultAt line scope x error) (Eval.raises_faultAt line scope x unescaped entered).entered.unlimited
    fun _ => .faultAt line scope x error

theorem ends {x : Eval Signal} {y : Observed Signal} (h : Closes c parents x y)
    (rooted : c.Scoped parents scope) :
    Records c parents (do return (← x, scope)) (do return (← y, scope)) c.Ends :=
  h.map fun _ _ grown within => ⟨within, rooted.grows grown⟩

end Records

/-! ## The tree -/

section

open Records Setting

variable {e : Engine} {o : ObservedEngine} {scope : Scope}

mutual

theorem Expr.records (engine : e.RecordedBy c o) : ∀ {parents : List FrameId} (x : Expr),
    c.Scoped parents scope → c.Knows x.texts →
    Records c parents (x.eval e scope) (x.observe o scope) fun _ v => c.Gives x v
  | _, .nil _, _, _ => .pure fun _ _ => One.gives fun _ => trivial
  | _, .bool _ _, _, _ => .pure fun _ _ => One.gives fun _ => trivial
  | _, .number _ _, _, _ => .pure fun _ _ => One.gives fun _ => trivial
  | _, .string text _, _, known => by
    rw [Expr.texts] at known
    exact .pure fun _ _ => One.gives fun o => Built.given (known o text List.mem_cons_self)
  | _, .name n _, _, _ => by
    simp only [Expr.eval, Expr.observe]
    exact .aside (Eval.aside_lookup scope n) (Eval.raises_lookup scope n).unlimited fun _ =>
      (Eval.Stays.lookup scope n).mono fun _ within => within.gives _
  | _, .index target key line, rooted, known => by
    rw [Expr.texts] at known
    obtain ⟨onTarget, onKey⟩ := known.append
    simp only [Expr.eval, Expr.observe]
    refine (Expr.records engine target rooted onTarget).single.bind fun _ t grown _ => ?_
    refine (Expr.records engine key (rooted.grows grown) onKey).single.bind fun _ k _ _ => ?_
    cases t with
    | ref ref =>
      cases ref with
      | table id =>
        refine (Records.aside (Eval.aside_table id) (Eval.raises_table id).unlimited fun _ =>
          .table id).map fun _ t _ fine o => ?_
        exact (Table.within_get (fine o) k).gives _
      | function id => exact .faultAt line target _ nofun nofun
    | _ => exact .faultAt line target _ nofun nofun
  | _, .call call, rooted, known => by
    simp only [Expr.eval, Expr.observe]
    exact (Call.records engine call rooted known).mono fun _ _ _ spreads o =>
      ⟨spreads o, .inl ⟨call, rfl⟩⟩
  | _, .function f, rooted, known => by
    simp only [Expr.eval, Expr.observe]
    exact (Records.closureOf rooted known).mono fun _ _ _ => One.gives
  | _, .table fields _, rooted, known => by
    simp only [Expr.eval, Expr.observe]
    refine (Field.records engine fields 1 .empty rooted known fun _ => Table.within_empty).bind
      fun _ t _ fine => ?_
    exact .kept (Eval.onward_newTable t) (Eval.raises_modifyGet _).unlimited
      (fun _ => Eval.keeps_newTable t)
      fun o => (Eval.Stays.newTable (fine o)).mono fun _ within => within.gives _
  | _, .paren inner _, rooted, known => by
    simp only [Expr.eval, Expr.observe]
    exact (Expr.records engine inner rooted known).single.mono fun _ _ _ => One.gives
  | _, .logical op left right line, rooted, known => by
    rw [Expr.texts] at known
    obtain ⟨onLeft, onRight⟩ := known.append
    simp only [Expr.eval, Expr.observe]
    refine (Expr.records engine left rooted onLeft).single.bind
      fun parents' a grown one => ?_
    have second := (Expr.records engine right (rooted.grows grown) onRight).single
    have either (decided : Bool) : Records c parents'
        (if decided then return a else Eval.single (right.eval e scope))
        (if decided then return a else Observed.single right (right.observe o scope))
        fun _ v => c.Gives (.logical op left right line) v := by
      cases decided with
      | true => exact .pure fun _ _ => One.gives one
      | false => exact second.mono fun _ _ _ => One.gives
    exact either _
  | _, .binary op left right line, rooted, known => by
    rw [Expr.texts] at known
    obtain ⟨onLeft, onRight⟩ := known.append
    simp only [Expr.eval, Expr.observe]
    refine (Expr.records engine left rooted onLeft).single.bind fun _ a grown one => ?_
    refine (Expr.records engine right (rooted.grows grown) onRight).single.bind fun _ b _ one' => ?_
    exact .aside (Eval.aside_binaryOp scope op left right line a b)
      (Eval.raises_binaryOp scope op left right line a b).entered.unlimited fun o =>
      (Eval.Stays.binaryOp left right line (one o) (one' o)).mono fun _ within => within.gives _
  | _, .unary op operand line, rooted, known => by
    simp only [Expr.eval, Expr.observe]
    refine (Expr.records engine operand rooted known).single.bind fun _ a _ one => ?_
    exact .aside (Eval.aside_unaryOp scope op operand line a)
      (Eval.raises_unaryOp scope op operand line a).entered.unlimited fun o =>
      (Eval.Stays.unaryOp operand line (one o)).mono fun _ within => within.gives _
  | _, .other kind line, _, _ => by
    simp only [Expr.eval, Expr.observe]
    exact .atLine line (.fault _ nofun)

theorem Expr.recordsAll (engine : e.RecordedBy c o) : ∀ {parents : List FrameId} (xs : List Expr),
    c.Scoped parents scope → c.Knows (Expr.allTexts xs) →
    Records c parents (Expr.evalAll e scope xs) (Expr.observeAll o scope xs) fun _ vs => c.Several vs
  | _, [], _, _ => .pure fun _ _ _ => nofun
  | _, [x], rooted, known => by
    rw [Expr.allTexts] at known
    simp only [Expr.evalAll, Expr.observeAll]
    exact (Expr.records engine x rooted known.append.1).spread
  | _, x :: y :: xs, rooted, known => by
    rw [Expr.allTexts] at known
    obtain ⟨onFirst, onRest⟩ := known.append
    simp only [Expr.evalAll, Expr.observeAll]
    refine (Expr.records engine x rooted onFirst).single.bind fun _ v grown one => ?_
    refine (Expr.recordsAll engine (y :: xs) (rooted.grows grown) onRest).map
      fun _ _ _ several o => ?_
    exact List.forall_mem_cons.mpr ⟨one o, several o⟩

theorem Call.records (engine : e.RecordedBy c o) : ∀ {parents : List FrameId} (call : Call),
    c.Scoped parents scope → c.Knows call.texts →
    Records c parents (call.eval e scope) (call.observe o scope)
      fun _ v => c.orderly → v.Spreads c.given
  | _, .mk callee args line, rooted, known => by
    rw [Call.texts] at known
    obtain ⟨onCallee, onArgs⟩ := known.append
    simp only [Call.eval, Call.observe]
    refine (Expr.records engine callee rooted onCallee).single.bind fun _ f grown one => ?_
    refine (Expr.recordsAll engine args (rooted.grows grown) onArgs).bind fun _ vs _ several => ?_
    split
    · exact (Records.atLine line (.apply engine one several)).answer
    · exact .faultAt line callee _ nofun nofun

theorem Field.records (engine : e.RecordedBy c o) : ∀ {parents : List FrameId}
    (fields : List Field) (position : Nat) (t : Table), c.Scoped parents scope →
    c.Knows (Field.allTexts fields) → (c.orderly → t.Within c.given) →
    Records c parents (Field.evalAll e scope fields position t)
      (Field.observeAll o scope fields position t) fun _ t => c.orderly → t.Within c.given
  | _, [], _, _, _, _, fine => .pure fun _ _ => fine
  | _, [.positional x _], position, t, rooted, known, fine => by
    rw [Field.allTexts] at known
    simp only [Field.evalAll, Field.observeAll]
    exact (Expr.records engine x rooted known.append.1).spreadMap fun _ _ several o =>
      Eval.within_putValues (fine o) (several o) position
  | _, .positional x _ :: field :: fields, position, t, rooted, known, fine => by
    rw [Field.allTexts] at known
    obtain ⟨onFirst, onRest⟩ := known.append
    simp only [Field.evalAll, Field.observeAll]
    refine (Expr.records engine x rooted onFirst).single.bind fun _ v grown one => ?_
    exact Field.records engine (field :: fields) _ _ (rooted.grows grown) onRest
      fun o => Table.within_insert (fine o) (Table.within_positionKey position) (one o)
  | _, .keyed key value line :: fields, position, t, rooted, known, fine => by
    rw [Field.allTexts, Field.texts] at known
    obtain ⟨onFirst, onRest⟩ := known.append
    obtain ⟨onKey, onValue⟩ := onFirst.append
    simp only [Field.evalAll, Field.observeAll]
    refine (Expr.records engine key rooted onKey).single.bind fun _ k grown one => ?_
    refine (Expr.records engine value (rooted.grows grown) onValue).single.bind
      fun _ v later one' => ?_
    unfold Table.set
    cases fault : Table.keyFault? k with
    | none =>
      exact Field.records engine fields position _ (rooted.grows (grown.trans later)) onRest
        fun o => Table.within_insert (fine o) (one o) (one' o)
    | some error => exact .atLine line (.fault error (Eval.ordinary_keyFault fault).2.1)

theorem Target.records (engine : e.RecordedBy c o) : ∀ {parents : List FrameId} (t : Target),
    c.Scoped parents scope → c.Knows t.texts →
    Records c parents (t.place e scope) (t.observe o scope)
      fun _ place => c.orderly → place.Within c.given
  | _, .name _ _, _, _ => .pure fun _ _ _ => trivial
  | _, .index target key line, rooted, known => by
    rw [Target.texts] at known
    obtain ⟨onTarget, onKey⟩ := known.append
    simp only [Target.place, Target.observe]
    refine (Expr.records engine target rooted onTarget).single.bind fun _ t grown _ => ?_
    refine (Expr.records engine key (rooted.grows grown) onKey).single.bind fun _ k _ one => ?_
    cases t with
    | ref ref =>
      cases ref with
      | table id => exact .pure fun _ _ => one
      | function id => exact .faultAt line target _ nofun nofun
    | _ => exact .faultAt line target _ nofun nofun

theorem Target.recordsAll (engine : e.RecordedBy c o) : ∀ {parents : List FrameId}
    (ts : List Target), c.Scoped parents scope → c.Knows (Target.allTexts ts) →
    Records c parents (Target.places e scope ts) (Target.observeAll o scope ts)
      fun _ places => c.orderly → ∀ place ∈ places, place.Within c.given
  | _, [], _, _ => .pure fun _ _ _ => nofun
  | _, t :: ts, rooted, known => by
    rw [Target.allTexts] at known
    obtain ⟨onFirst, onRest⟩ := known.append
    simp only [Target.places, Target.observeAll]
    refine (Target.records engine t rooted onFirst).bind fun _ place grown fine => ?_
    refine (Target.recordsAll engine ts (rooted.grows grown) onRest).map fun _ _ _ rest o => ?_
    exact List.forall_mem_cons.mpr ⟨fine o, rest o⟩

end

/-! ## Statements -/

theorem Setting.Ends.next {parents : List FrameId} (rooted : c.Scoped parents scope) :
    c.Ends parents (.normal, scope) := ⟨fun _ => trivial, rooted⟩

section

variable {names : List String} {values : List Expr} {body : Block} {line : Nat}

theorem Stmt.observe_genericFor_other (o : ObservedEngine) (scope : Scope)
    (other : ∀ callee args l, values = [.call (.mk callee args l)] → False) :
    (Stmt.genericFor names values body line).observe o scope =
      Observed.lift (Eval.fault .forWithoutCall) := by
  simp only [Stmt.observe]

end

mutual

theorem Stmt.records (engine : e.RecordedBy c o) : ∀ {parents : List FrameId} {scope : Scope}
    (s : Stmt), c.Scoped parents scope → c.Knows s.texts →
    Records c parents (s.exec e scope) (s.observe o scope) c.Ends
  | _, scope, .localVars names values _, rooted, known => by
    simp only [Stmt.exec, Stmt.observe]
    refine (Expr.recordsAll engine values rooted known).bind fun _ vs grown several => ?_
    have bound (o : c.orderly) :=
      Bindings.within_ofLists names (Value.within_adjust (several o) names.length)
    exact (Records.pushFrame_scoped (rooted.grows grown) bound).map
      fun _ _ _ rooted' => .next rooted'
  | _, scope, .assign targets values _, rooted, known => by
    rw [Stmt.texts] at known
    obtain ⟨onTargets, onValues⟩ := known.append
    simp only [Stmt.exec, Stmt.observe]
    refine (Expr.recordsAll engine values rooted onValues).bind fun _ vs g₁ several => ?_
    refine (Target.recordsAll engine targets (rooted.grows g₁) onTargets).bind
      fun _ places g₂ there => ?_
    have rooted' := rooted.grows (g₁.trans g₂)
    exact (Records.storeAll rooted' there fun o => Value.within_adjust (several o) _).map
      fun _ _ grown _ => .next (rooted'.grows grown)
  | _, scope, .call call _, rooted, known => by
    simp only [Stmt.exec, Stmt.observe]
    exact (Call.records engine call rooted known).map fun _ _ grown _ => .next (rooted.grows grown)
  | _, scope, .doBlock body _, rooted, known => by
    simp only [Stmt.exec, Stmt.observe]
    exact (Records.inFrame rooted (fun _ => Bindings.within_nil) fun _ _ rooted' =>
      Block.records engine body rooted' known).ends rooted
  | _, scope, .whileLoop condition body _, rooted, known => by
    rw [Stmt.texts] at known
    obtain ⟨onCondition, onBody⟩ := known.append
    simp only [Stmt.exec, Stmt.observe, engine.loopLimit]
    refine (Records.whileTurns ?_ ?_ _).ends rooted
    · exact (Expr.records engine condition rooted onCondition).single.map fun _ _ _ _ => trivial
    · exact .inFrame rooted (fun _ => Bindings.within_nil) fun _ _ rooted' =>
        Block.records engine body rooted' onBody
  | _, scope, .branch clauses none _, rooted, known => by
    simp only [Stmt.exec, Stmt.observe]
    refine (Clause.records engine clauses rooted known).bind fun _ taken grown fine => ?_
    cases taken with
    | none => exact .pure fun _ more => .next (rooted.grows (grown.trans more))
    | some signal =>
      exact .pure fun _ more => ⟨fun o => fine o signal rfl, rooted.grows (grown.trans more)⟩
  | _, scope, .branch clauses (some body) _, rooted, known => by
    rw [Stmt.texts] at known
    obtain ⟨onClauses, onBody⟩ := known.append
    simp only [Stmt.exec, Stmt.observe]
    refine (Clause.records engine clauses rooted onClauses).bind fun _ taken grown fine => ?_
    cases taken with
    | none =>
      exact (Records.inFrame (rooted.grows grown) (fun _ => Bindings.within_nil) fun _ _ rooted' =>
        Block.records engine body rooted' onBody).ends (rooted.grows grown)
    | some signal =>
      exact .pure fun _ more => ⟨fun o => fine o signal rfl, rooted.grows (grown.trans more)⟩
  | parents, scope, .numericFor name start stop step body line, rooted, known => by
    obtain ⟨onStart, onStop, onStep, onBody⟩ : c.Knows start.texts ∧ c.Knows stop.texts ∧
        (∀ x ∈ step, c.Knows x.texts) ∧ c.Knows body.texts := by
      cases step <;> simp_all [Stmt.texts, Setting.Knows]
    have turns {parents' : List FrameId} (grown : parents <+: parents') (stride last first : Float) :
        Records c parents'
          (do return (← Eval.countedTurns stride last (fun counter =>
            Eval.inFrame scope [(name, .number counter)] fun scope => body.exec e scope)
            e.loopLimit first, scope))
          (do return (← Observed.countedTurns stride last (fun counter =>
            Observed.inFrame scope [(name, .number counter)] fun scope => body.observe o scope)
            e.loopLimit first, scope)) c.Ends := by
      have rooted' := rooted.grows grown
      refine (Records.countedTurns (fun counter => ?_) _ _).ends rooted'
      exact .inFrame rooted' (fun _ => Bindings.within_single name trivial) fun _ _ rooted'' =>
        Block.records engine body rooted'' onBody
    have number (what : ForOperand) {parents' : List FrameId} {v : Value} (one : c.One v) :
        Records c parents' (Eval.forNumber what v) (Observed.lift (Eval.forNumber what v))
          fun _ _ => c.orderly → True :=
      .aside (Eval.aside_forNumber what v) (Eval.raises_forNumber what v).entered.unlimited fun o =>
        .forNumber what (one o)
    simp only [Stmt.exec, Stmt.observe, engine.loopLimit]
    refine (Expr.records engine start rooted onStart).single.bind fun _ a g₁ one => ?_
    refine (number .start one).bind fun _ first g₂ _ => ?_
    refine (Expr.records engine stop (rooted.grows (g₁.trans g₂)) onStop).single.bind
      fun _ b g₃ one => ?_
    refine (number .limit one).bind fun _ last g₄ _ => ?_
    have grown := ((g₁.trans g₂).trans g₃).trans g₄
    cases step with
    | none => exact Records.done.bind fun _ stride g₅ _ => .unlessZero (turns (grown.trans g₅) _ _ _)
    | some step =>
      refine (Expr.records engine step (rooted.grows grown) (onStep step rfl)).single.bind
        fun _ s g₅ one => ?_
      refine (number .step one).bind fun _ stride g₆ _ => ?_
      exact .unlessZero (turns ((grown.trans g₅).trans g₆) _ _ _)
  | _, scope, .genericFor names values body _, rooted, known => by
    rw [Stmt.texts] at known
    obtain ⟨onValues, onBody⟩ := known.append
    by_cases single : ∃ callee args l, values = [.call (.mk callee args l)]
    · obtain ⟨callee, args, l, rfl⟩ := single
      rw [Expr.allTexts, Expr.texts, Call.texts] at onValues
      obtain ⟨onCallee, onArgs⟩ := onValues.append.1.append
      simp only [Stmt.exec, Stmt.observe]
      refine (Expr.records engine callee rooted onCallee).single.bind fun _ f g₁ one => ?_
      cases f with
      | builtin b =>
        cases b with
        | print => exact .fault _ nofun
        | pairs =>
          refine (Expr.recordsAll engine args (rooted.grows g₁) onArgs).bind fun _ vs g₂ several => ?_
          refine .noted (fun o => ⟨one o, several o⟩) (fun ⟨_, _, called⟩ => nomatch called) ?_
          refine (Records.aside (Eval.aside_pairsTable vs) (Eval.raises_pairsTable vs).entered.unlimited fun _ =>
            .pairsTable vs).bind fun _ id g₃ _ => ?_
          refine (Records.aside (Eval.aside_table id) (Eval.raises_table id).unlimited fun _ =>
            .table id).bind fun _ t g₄ fine => ?_
          have rooted' := rooted.grows (((g₁.trans g₂).trans g₃).trans g₄)
          have keys : c.Several (t.items.map (·.1)) := fun o key member => by
            obtain ⟨entry, inside, rfl⟩ := List.mem_map.mp member
            exact (Table.within_items (fine o) entry inside).1
          refine (Records.keyedTurns keys ?_ ?_).ends rooted'
          · exact fun key => .aside ((Eval.aside_table id).bind fun _ => Eval.moves_pure _)
              (Eval.Raises.unlimited ((Eval.raises_table id).bind fun _ => Eval.raises_pure _)) fun _ =>
              (Eval.Stays.table id).map fun t within => Table.within_get within key
          · intro _ key value grown first second
            have both (o : c.orderly) : AllWithin c.given [key, value] := by
              simp [AllWithin, first o, second o]
            exact .inFrame (rooted'.grows grown)
              (fun o => Bindings.within_ofLists names (Value.within_adjust (both o) _))
              fun _ _ rooted'' => Block.records engine body rooted'' onBody
      | _ => exact .fault _ nofun
    · have other : ∀ callee args l, values = [.call (.mk callee args l)] → False :=
        fun callee args l same => single ⟨callee, args, l, same⟩
      rw [Stmt.exec_genericFor_other e scope other, Stmt.observe_genericFor_other o scope other]
      exact .fault _ nofun
  | _, scope, .functionDecl target function _, rooted, known => by
    rw [Stmt.texts] at known
    obtain ⟨onTarget, onFunction⟩ := known.append
    simp only [Stmt.exec, Stmt.observe]
    refine (Records.closureOf rooted onFunction).bind fun _ f g₁ one => ?_
    refine (Target.records engine target (rooted.grows g₁) onTarget).bind fun _ place g₂ there => ?_
    have rooted' := rooted.grows (g₁.trans g₂)
    exact (Records.store rooted' there one).map fun _ _ grown _ => .next (rooted'.grows grown)
  | _, scope, .localFunction name function _, rooted, known => by
    simp only [Stmt.exec, Stmt.observe]
    refine (Records.pushFrame_scoped rooted fun _ => Bindings.within_single name Value.within_nil).bind
      fun _ scope' _ rooted' => ?_
    refine (Records.closureOf rooted' known).bind fun _ f grown one => ?_
    have assigned : Records c _ (Eval.store scope' (.variable name) f)
        (Observed.lift (Eval.store scope' (.variable name) f)) Whatever :=
      .store (rooted'.grows grown) (fun _ => trivial) one
    exact assigned.map fun _ _ more _ => .next (rooted'.grows (grown.trans more))
  | _, scope, .returnValues values _, rooted, known => by
    simp only [Stmt.exec, Stmt.observe]
    exact (Expr.recordsAll engine values rooted known).map fun _ _ grown several =>
      ⟨several, rooted.grows grown⟩
  | _, scope, .breakLoop _, rooted, _ =>
    .pure fun _ more => ⟨fun _ => trivial, rooted.grows more⟩
  | _, _, .other _ _, _, _ => .fault _ nofun

theorem Clause.records (engine : e.RecordedBy c o) : ∀ {parents : List FrameId} {scope : Scope}
    (clauses : List Clause), c.Scoped parents scope → c.Knows (Clause.allTexts clauses) →
    Records c parents (Clause.execFirst e scope clauses) (Clause.observeFirst o scope clauses)
      fun _ taken => c.orderly → ∀ signal, taken = some signal → signal.Within c.given
  | _, _, [], _, _ => .pure fun _ _ _ => nofun
  | _, scope, .mk condition body :: clauses, rooted, known => by
    rw [Clause.allTexts] at known
    obtain ⟨onFirst, onRest⟩ := known.append
    obtain ⟨onCondition, onBody⟩ := onFirst.append
    simp only [Clause.execFirst, Clause.observeFirst]
    refine (Expr.records engine condition rooted onCondition).single.bind fun _ holds grown _ => ?_
    split
    · refine (Records.inFrame (rooted.grows grown) (fun _ => Bindings.within_nil) fun _ _ rooted' =>
        Block.records engine body rooted' onBody).map fun _ _ _ within o => ?_
      rintro _ ⟨⟩
      exact within o
    · exact Clause.records engine clauses (rooted.grows grown) onRest

theorem Block.records (engine : e.RecordedBy c o) : ∀ {parents : List FrameId} {scope : Scope}
    (b : Block), c.Scoped parents scope → c.Knows b.texts →
    Closes c parents (b.exec e scope) (b.observe o scope)
  | _, _, .mk statements _, rooted, known => by
    simp only [Block.exec, Block.observe]
    exact Stmt.recordsAll engine statements rooted known

theorem Stmt.recordsAll (engine : e.RecordedBy c o) : ∀ {parents : List FrameId} {scope : Scope}
    (statements : List Stmt), c.Scoped parents scope → c.Knows (Stmt.allTexts statements) →
    Closes c parents (Stmt.execAll e scope statements) (Stmt.observeAll o scope statements)
  | _, _, [], _, _ => .pure fun _ _ _ => trivial
  | _, _, s :: statements, rooted, known => by
    rw [Stmt.allTexts] at known
    obtain ⟨onFirst, onRest⟩ := known.append
    simp only [Stmt.execAll, Stmt.observeAll]
    refine (Records.traceLine _).bind fun _ _ grown _ => ?_
    refine (Records.ending (.atLine s.line (Stmt.records engine s (rooted.grows grown) onFirst))).bind
      fun _ out _ ends => ?_
    obtain ⟨signal, scope'⟩ := out
    cases signal with
    | normal => exact Stmt.recordsAll engine statements ends.2 onRest
    | _ => exact .pure fun _ _ => ends.1

end

end

/-! ## Calls and chunks -/

theorem Records.resultOf {signal : Signal} (fine : c.orderly → signal.Within c.given) :
    Records c parents (Eval.resultOf signal) (Observed.lift (Eval.resultOf signal))
      fun _ vs => c.Several vs :=
  have unlimited : (Eval.resultOf signal).Unlimited :=
    ((Eval.raises_resultOf signal).mono fun _ _ escaped => escaped.1 ▸ nofun).unlimited
  aside (Eval.aside_resultOf signal) unlimited fun o => Eval.stays_resultOf (fine o)

/-- With the depth used up a call overflows. -/
theorem Records.overflow {id : Nat} {args : List Value} (full : c.running.length = c.max)
    (several : c.Several args) :
    Records c parents (Eval.fault .stackOverflow : Eval (List Value))
      (do
        Observed.note (.called (.ref (.function id)) args)
        Observed.lift (Eval.fault .stackOverflow))
      fun _ vs => c.Several vs := by
  intro m j ready
  have fine (o : c.orderly) : (Event.called (.ref (.function id)) args).Fine c.given :=
    ⟨trivial, several o⟩
  have called := ready.write fine
  refine .error (called.trans called.ready.stepped) (iff_of_true rfl ?_)
  exact overflows_append.mpr (.inr (overflows_singleton.mpr
    ⟨(congrArg List.length ready.running).trans full, id, args, rfl⟩))

theorem callAt_records (turns budget : Nat) (room : c.running.length + budget = c.max) :
    Engine.RecordedBy c ⟨Eval.callAt turns budget, turns⟩ ⟨Observed.callAt turns budget, turns⟩ := by
  induction budget generalizing c with
  | zero =>
    refine ⟨fun parents id args several => ?_, rfl⟩
    simp only [Eval.callAt, Observed.callAt]
    exact .overflow room several
  | succ budget ih =>
    refine ⟨fun parents id args several => ?_, rfl⟩
    simp only [Eval.callAt, Observed.callAt]
    refine .noted (fun o => ⟨trivial, several o⟩) (fun _ => by omega) ?_
    refine (Records.closure id).bind fun parents₁ f _ made => ?_
    have way (o : c.orderly) : Rooted parents₁ (f.scope.headD 0 :: f.scope.tail) := by
      rcases (made o).2 with rfl | rooted
      · exact .globals
      · rw [rooted.headD_cons_tail]
        exact rooted
    have bound (o : c.orderly) :=
      Bindings.within_ofLists f.params (Value.within_adjust (several o) f.params.length)
    refine (Records.pushFrame way bound).bind fun parents₂ scope _ pushed => ?_
    obtain ⟨frame, rfl, leads⟩ := pushed
    have free : c.running.length < c.max := by omega
    let inner := c.inside id free
    have engine : Engine.RecordedBy inner ⟨Eval.callAt turns budget, turns⟩
        ⟨Observed.callAt turns budget, turns⟩ :=
      ih (by simp only [inner, Setting.inside, List.length_cons]; omega)
    have body (parents : List FrameId) (grown : parents₂ <+: parents) :
        Records.Closes inner parents (f.body.exec ⟨Eval.callAt turns budget, turns⟩ (frame :: f.scope))
          (f.body.observe ⟨Observed.callAt turns budget, turns⟩ (frame :: f.scope)) := by
      -- A reference that is not in the store stands for a function without a body.
      by_cases dangling : c.orderly ∧ f = default
      · obtain ⟨-, rfl⟩ := dangling
        exact .pure fun _ _ _ => trivial
      · refine Block.records engine f.body (fun o => ?_) fun o => (made o).1
        have rooted := (made o).2.resolve_left fun same => dangling ⟨o, same⟩
        rw [← rooted.headD_cons_tail]
        exact (leads o).grows grown
    refine (Records.within free (?_ : Records.Closes inner parents₂ _ _)).bind
      fun _ signal _ fine => ?_
    · refine (Records.aside Eval.moves_get Eval.raises_get.unlimited fun _ => Eval.Stays.get).bind
        fun _ now g₁ _ => ?_
      refine (Records.traceLine _).bind fun _ _ g₂ _ => ?_
      exact body _ (g₁.trans g₂)
    · refine (Records.resultOf (c := c) fine).bind fun _ values _ several => ?_
      exact (Records.traceLine _).map fun _ _ _ _ => several

theorem engine_records (turns budget : Nat) (room : c.running.length + budget = c.max) :
    (Eval.engine turns budget).RecordedBy c (Observed.engine turns budget) :=
  callAt_records turns budget room

/-- A chunk begins with no body running, whatever the depth was before. -/
theorem chunk_recorded (turns : Nat) (program : Block) {m : Machine} {j : Journal}
    (idle : c.running = []) (sound : c.orderly → m.Sound c.given j.parents)
    (known : c.Knows program.texts) :
    Recorded c { j with running := [] } (fun _ vs => c.Several vs)
      (Eval.chunk turns c.max program m) (Observed.chunk turns c.max program (m, j)) := by
  let begun : Machine := { m with depth := 0 }
  let start : Journal := { j with running := [] }
  have ready : c.Ready j.parents begun start :=
    ⟨idle.symm, by rw [idle]; rfl, List.prefix_rfl, fun o => (sound o).of_depth 0⟩
  have run : Records c j.parents
      (do
        let scope ← Eval.pushFrame [0] []
        let signal ← program.exec (Eval.engine turns c.max) scope
        Eval.resultOf signal)
      (do
        let scope ← Observed.pushFrame [0] []
        let signal ← program.observe (Observed.engine turns c.max) scope
        Observed.lift (Eval.resultOf signal))
      fun _ vs => c.Several vs := by
    refine (Records.pushFrame_scoped (fun _ => .globals) fun _ => Bindings.within_nil).bind
      fun _ scope _ rooted => ?_
    have engine := engine_records (c := c) turns c.max (by rw [idle]; exact Nat.zero_add _)
    exact (Block.records engine program rooted known).bind fun _ signal _ fine => .resultOf fine
  exact (run begun _ ready.stepped.ready).after ready.stepped calm_stepped

end MiniLua
