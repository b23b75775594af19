import MiniLua.Proofs.Locating.Tracing
import MiniLua.Proofs.Scoping.Simulation

/-!
# Every error of a program is located

Rule by rule over the tree: expressions, calls, fields and targets locate their own errors, and a
statement those of what it does itself. Calls follow by induction on the depth that is left.
-/

namespace MiniLua

variable {α : Type} {given : List Site} {log : Log}

/-! ## Steps that make no functions -/

theorem Machine.coded_of_functions {m m' : Machine} (same : m'.functions = m.functions) :
    m.StaysCoded given m' := fun coded f member => coded f (same ▸ member)

namespace Eval

/-- The functions that the step makes have no other sites. -/
abbrev IsCoded (given : List Site) (x : Eval α) : Prop := x.Moves (Machine.StaysCoded given)

theorem IsAside.coded {x : Eval α} (h : x.IsAside) : IsCoded given x := fun m =>
  Machine.coded_of_functions (h m).kept.functions

theorem coded_pushFrame (scope : Scope) (bs : Bindings) : IsCoded given (pushFrame scope bs) :=
  moves_modifyGet fun _ => Machine.coded_of_functions rfl

theorem coded_newTable (t : Table) : IsCoded given (newTable t) :=
  moves_modifyGet fun _ => Machine.coded_of_functions rfl

theorem coded_assign (scope : Scope) (name : String) (v : Value) :
    IsCoded given (assign scope name v) :=
  moves_modify fun _ => Machine.coded_of_functions rfl

theorem coded_store (scope : Scope) (place : Place) (v : Value) :
    IsCoded given (store scope place v) := by
  cases place with
  | «variable» name => exact coded_assign scope name v
  | slot id key => exact fun m => Machine.coded_of_functions (keeps_setKey id key v m).functions

theorem coded_storeAll (scope : Scope) (places : List Place) (vs : List Value) :
    IsCoded given (storeAll scope places vs) := .storeAll (coded_store scope) places vs

theorem coded_apply (engine : Engine) (v : Value) (args : List Value)
    (builtin : v.isFunction = false) : IsCoded given (apply engine v args) :=
  fun m => Machine.coded_of_functions (keeps_apply engine v args builtin m).functions

theorem coded_closureOf (scope : Scope) {f : Lambda} (known : f.sites ⊆ given) :
    IsCoded given (closureOf scope f) := by
  cases f with
  | mk params body name line =>
    rw [Lambda.sites] at known
    refine moves_modifyGet fun m coded f member => ?_
    rcases Array.mem_push.mp member with before | rfl
    · exact coded f before
    · exact known

end Eval

/-! ## Calls and loops -/

/-- An error of a call that is still to leave the call: located in the body, or there has been no depth
left to enter it. -/
def Entering (given : List Site) (error : RuntimeError) (line : Nat) (log : Log) : Prop :=
  Located given error line log ∨ Calm log ∧ error = .stackOverflow ∧ line = 0

/-- The calls of a followed engine trace those of a plain one. -/
structure Engine.FollowedBy (given : List Site) (e : Engine) (o : FollowedEngine) : Prop where
  call : ∀ log id args, Traces given log (e.call id args) (o.call id args) Anyhow (Entering given)
  loopLimit : o.loopLimit = e.loopLimit

namespace Traces

variable {fails : RuntimeError → Nat → Log → Prop} {scope : Scope}

theorem single {x : Eval Value} {y : Followed Value} (h : Traces given log x y Anyhow fails) :
    Traces given log (Eval.single x) (Followed.single y) Anyhow fails := h.map fun _ _ _ => trivial

theorem traceLine (line : Unit → String) : Traces given log (Eval.traceLine line)
    (Followed.lift (Eval.traceLine line)) Anyhow fails :=
  quiet (Eval.raises_modify _) (Eval.aside_traceLine line).coded

theorem pushFrame (bs : Bindings) : Traces given log (Eval.pushFrame scope bs)
    (Followed.lift (Eval.pushFrame scope bs)) Anyhow fails :=
  quiet (Eval.raises_modifyGet _) (Eval.coded_pushFrame scope bs)

theorem table (id : Nat) : Traces given log (Eval.table id) (Followed.lift (Eval.table id)) Anyhow
    fails :=
  quiet (Eval.raises_table id) (Eval.aside_table id).coded

theorem closureOf {f : Lambda} (known : f.sites ⊆ given) : Traces given log
    (Eval.closureOf scope f) (Followed.lift (Eval.closureOf scope f)) Anyhow fails :=
  quiet (Eval.raises_closureOf scope f) (Eval.coded_closureOf scope known)

/-- An error of the statement or expression itself; nothing comes after it. -/
theorem fault {post : α → Log → Prop} {n : Site} {error : RuntimeError}
    (ordinary : Ordinary 0 error 0) : Traces given log (Eval.fault error : Eval α)
      (Followed.lift (Eval.fault error)) post (Owed given n 0) :=
  fun _ coded calm => .fault coded
    (.inr ⟨calm, ordinary.1, fun overflow => absurd overflow ordinary.2.1, rfl⟩)

/-- An error that says where its value came from. -/
theorem faultAt {n : Site} {line : Nat} (x : Expr) {error : Origin → RuntimeError}
    (unescaped : ∀ origin, error origin ≠ .breakOutsideLoop)
    (entered : ∀ origin, error origin ≠ .stackOverflow) :
    Traces given log (Eval.faultAt line scope x error : Eval α)
      (Followed.lift (Eval.faultAt line scope x error)) Anyhow (Owed given n line) :=
  operation (Eval.raises_faultAt line scope x unescaped entered)
    (Eval.aside_faultAt line scope x error).coded

theorem apply {e : Engine} {o : FollowedEngine} (engine : e.FollowedBy given o) (c : Call)
    (v : Value) (args : List Value) : Traces given log (Eval.apply e v args)
      (Followed.apply o v args) Anyhow (Owed given (.expr (.call c)) 0) := by
  have uncalled (same : Eval.apply e v args = Eval.apply ⟨fun _ _ => return [], 0⟩ v args)
      (builtin : v.isFunction = false) : Traces given log (Eval.apply e v args)
        (Followed.lift (Eval.apply ⟨fun _ _ => return [], 0⟩ v args)) Anyhow
        (Owed given (.expr (.call c)) 0) := by
    rw [same]
    exact operation (Eval.raises_apply _ v args builtin) (Eval.coded_apply _ v args builtin)
  cases v with
  | ref ref =>
    cases ref with
    | function id =>
      have called : Traces given log (e.call id args) (o.call id args) Anyhow
          (Owed given (.expr (.call c)) 0) :=
        (engine.call log id args).mono (fun _ _ holds => holds) fun error line log' failed => by
          rcases failed with located | ⟨calm, rfl, rfl⟩
          · exact .inl located
          · exact .inr ⟨calm, nofun, fun _ => ⟨c, rfl⟩, rfl⟩
      exact called.map fun _ _ _ => trivial
    | table id => exact uncalled rfl rfl
  | builtin b => cases b <;> exact uncalled rfl rfl
  | _ => exact uncalled rfl rfl

theorem inFrame {bs : Bindings} {x : Scope → Eval Signal} {y : Scope → Followed Signal}
    (body : ∀ log scope', Traces given log (x scope') (y scope') (Closing given) fails) :
    Traces given log (Eval.inFrame scope bs x) (Followed.inFrame scope bs y) (Closing given) fails :=
  (pushFrame bs).bind fun scope' log' _ => body log' scope'

/-- A loop ends its `break`s. -/
theorem closing_ending {signal ending : Signal} {log : Log} (h : signal.ending? = some ending) :
    Closing given ending log := by
  rintro line rfl
  exact absurd h (Signal.ending?_ne_break signal line)

theorem whileTurns {condition : Eval Bool} {condition' : Followed Bool} {body : Eval Signal}
    {body' : Followed Signal} (holds : ∀ log, Traces given log condition condition' Anyhow fails)
    (turn : ∀ log, Traces given log body body' (Closing given) fails) (limit : Nat) :
    Traces given log (Eval.whileTurns condition body limit)
      (Followed.whileTurns condition' body' limit) (Closing given) fails := by
  induction limit generalizing log with
  | zero => exact exhausted
  | succ limit ih =>
    rw [Eval.whileTurns, Followed.whileTurns]
    refine (holds log).bind fun b log₁ _ => ?_
    split
    · refine (turn log₁).bind fun signal log₂ _ => ?_
      cases ends : signal.ending? with
      | none => exact ih
      | some ending => exact pure (closing_ending ends)
    · exact pure nofun

theorem countedTurns {step stop : Float} {body : Float → Eval Signal}
    {body' : Float → Followed Signal}
    (turn : ∀ log counter, Traces given log (body counter) (body' counter) (Closing given) fails)
    (limit : Nat) (counter : Float) :
    Traces given log (Eval.countedTurns step stop body limit counter)
      (Followed.countedTurns step stop body' limit counter) (Closing given) fails := by
  induction limit generalizing log counter with
  | zero => exact exhausted
  | succ limit ih =>
    rw [Eval.countedTurns, Followed.countedTurns]
    split
    · refine (turn log counter).bind fun signal log₁ _ => ?_
      cases ends : signal.ending? with
      | none => exact ih _
      | some ending => exact pure (closing_ending ends)
    · exact pure nofun

theorem keyedTurns {read : Value → Eval Value} {read' : Value → Followed Value}
    {body : Value → Value → Eval Signal} {body' : Value → Value → Followed Signal}
    (reads : ∀ log key, Traces given log (read key) (read' key) Anyhow fails)
    (turn : ∀ log key value, Traces given log (body key value) (body' key value) (Closing given)
      fails) (keys : List Value) :
    Traces given log (Eval.keyedTurns read body keys) (Followed.keyedTurns read' body' keys)
      (Closing given) fails := by
  have walk : Traces given log
      (overKeys read (fun key value => do return (← body key value).ending?) keys)
      (overKeys read' (fun key value => do return (← body' key value).ending?) keys)
      (fun ending log => Closing given (ending.getD .normal) log) fails := by
    induction keys generalizing log with
    | nil => exact pure nofun
    | cons key keys ih =>
      rw [overKeys, overKeys]
      refine (reads log key).bind fun value log₁ _ => ?_
      split
      · exact ih
      · have visited : Traces given log₁ (do return (← body key value).ending?)
            (do return (← body' key value).ending?)
            (fun ending log => Closing given (ending.getD .normal) log) fails := by
          refine (turn log₁ key value).map fun signal log₂ _ => ?_
          cases ends : signal.ending? with
          | none => exact nofun
          | some ending => exact closing_ending ends
        refine visited.bind fun ending log₂ closing => ?_
        cases ending with
        | none => exact ih
        | some ending => exact pure closing
  exact walk.map fun ending log' closing => closing

theorem unlessZero {n : Site} {post : α → Log → Prop} {stride : Float} {x : Eval α}
    {y : Followed α} (h : ∀ log, Traces given log x y post (Owed given n 0)) :
    Traces given log
      (if stride == 0 then (do Eval.fault .zeroStep; x) else x)
      (if stride == 0 then (do Followed.lift (Eval.fault .zeroStep); y) else y) post
      (Owed given n 0) := by
  split
  · have failing : Traces given log (Eval.fault .zeroStep : Eval PUnit)
        (Followed.lift (Eval.fault .zeroStep)) Anyhow (Owed given n 0) :=
      fault ⟨nofun, nofun, rfl⟩
    exact failing.bind fun _ log' _ => h log'
  · exact h log

end Traces

/-! ## The tree -/

section

variable {e : Engine} {o : FollowedEngine} {scope : Scope}

/-- A keyed field is stored before the fields after it are filled in. -/
theorem Field.evalAll_keyed (key value : Expr) (line : Nat) (fields : List Field) (position : Nat)
    (t : Table) : Field.evalAll e scope (.keyed key value line :: fields) position t =
      (do
        let t ← (do
          let k ← Eval.single (key.eval e scope)
          let v ← Eval.single (value.eval e scope)
          match t.set k v with
          | .ok t => return t
          | .error error => Eval.atLine line (Eval.fault error))
        Field.evalAll e scope fields position t) := by
  rw [Field.evalAll, bind_assoc]
  refine bind_congr fun k => ?_
  rw [bind_assoc]
  refine bind_congr fun v => ?_
  cases t.set k v with
  | ok t => exact (pure_bind _ _).symm
  | error error => rfl

mutual

theorem Expr.traces (lined : Lined given) (engine : e.FollowedBy given o) :
    ∀ {log : Log} (x : Expr), x.sites ⊆ given →
    Traces given log (x.eval e scope) (x.follow o scope) Anyhow (Located given)
  | _, .nil _, _ => .done
  | _, .bool _ _, _ => .done
  | _, .number _ _, _ => .done
  | _, .string _ _, _ => .done
  | _, .name n _, _ => by
    simp only [Expr.eval, Expr.follow]
    exact .quiet (Eval.raises_lookup scope n) (Eval.aside_lookup scope n).coded
  | _, .index target key line, known => by
    rw [Expr.sites] at known
    obtain ⟨member, known⟩ := List.cons_subset.mp known
    obtain ⟨onTarget, onKey⟩ := List.append_subset.mp known
    simp only [Expr.eval, Expr.follow]
    refine .site member ?_
    refine (Expr.traces lined engine target onTarget).single.owed.bind fun t _ _ => ?_
    refine (Expr.traces lined engine key onKey).single.owed.bind fun k _ _ => ?_
    cases t with
    | ref ref =>
      cases ref with
      | table id => exact (Traces.table id).map fun _ _ _ => trivial
      | function id => exact .faultAt target nofun nofun
    | _ => exact .faultAt target nofun nofun
  | _, .call call, known => by
    rw [Expr.sites] at known
    simp only [Expr.eval, Expr.follow]
    exact Call.traces lined engine call known
  | _, .function f, known => by
    rw [Expr.sites] at known
    simp only [Expr.eval, Expr.follow]
    exact .closureOf (List.cons_subset.mp known).2
  | _, .table fields _, known => by
    rw [Expr.sites] at known
    obtain ⟨member, known⟩ := List.cons_subset.mp known
    simp only [Expr.eval, Expr.follow]
    refine .site member ?_
    refine (Field.traces lined engine fields 1 .empty known).owed.bind fun t _ _ => ?_
    exact .quiet (Eval.raises_modifyGet _) (Eval.coded_newTable t)
  | _, .paren inner _, known => by
    rw [Expr.sites] at known
    obtain ⟨member, known⟩ := List.cons_subset.mp known
    simp only [Expr.eval, Expr.follow]
    exact .site member (Expr.traces lined engine inner known).single.owed
  | _, .logical op left right line, known => by
    rw [Expr.sites] at known
    obtain ⟨member, known⟩ := List.cons_subset.mp known
    obtain ⟨onLeft, onRight⟩ := List.append_subset.mp known
    simp only [Expr.eval, Expr.follow]
    refine .site member ?_
    refine (Expr.traces lined engine left onLeft).single.owed.bind fun a log' _ => ?_
    have either (decided : Bool) : Traces given log'
        (if decided then return a else Eval.single (right.eval e scope))
        (if decided then return a else Followed.single (right.follow o scope))
        Anyhow (Owed given (.expr (.logical op left right line)) line) := by
      cases decided with
      | true => exact .done
      | false => exact (Expr.traces lined engine right onRight).single.owed
    exact either _
  | _, .binary op left right line, known => by
    rw [Expr.sites] at known
    obtain ⟨member, known⟩ := List.cons_subset.mp known
    obtain ⟨onLeft, onRight⟩ := List.append_subset.mp known
    simp only [Expr.eval, Expr.follow]
    refine .site member ?_
    refine (Expr.traces lined engine left onLeft).single.owed.bind fun a _ _ => ?_
    refine (Expr.traces lined engine right onRight).single.owed.bind fun b _ _ => ?_
    exact .operation (Eval.raises_binaryOp scope op left right line a b)
      (Eval.aside_binaryOp scope op left right line a b).coded
  | _, .unary op operand line, known => by
    rw [Expr.sites] at known
    obtain ⟨member, known⟩ := List.cons_subset.mp known
    simp only [Expr.eval, Expr.follow]
    refine .site member ?_
    refine (Expr.traces lined engine operand known).single.owed.bind fun a _ _ => ?_
    exact .operation (Eval.raises_unaryOp scope op operand line a)
      (Eval.aside_unaryOp scope op operand line a).coded
  | _, .other kind line, known => by
    rw [Expr.sites] at known
    simp only [Expr.eval, Expr.follow]
    exact .site (known List.mem_cons_self) (.atLine lined (.fault ⟨nofun, nofun, rfl⟩))

theorem Expr.tracesAll (lined : Lined given) (engine : e.FollowedBy given o) :
    ∀ {log : Log} (xs : List Expr), Expr.allSites xs ⊆ given →
    Traces given log (Expr.evalAll e scope xs) (Expr.followAll o scope xs) Anyhow (Located given)
  | _, [], _ => .done
  | _, [x], known => by
    rw [Expr.allSites] at known
    simp only [Expr.evalAll, Expr.followAll]
    exact (Expr.traces lined engine x (List.append_subset.mp known).1).map fun _ _ _ => trivial
  | _, x :: y :: xs, known => by
    rw [Expr.allSites] at known
    obtain ⟨onFirst, onRest⟩ := List.append_subset.mp known
    simp only [Expr.evalAll, Expr.followAll]
    refine (Expr.traces lined engine x onFirst).single.bind fun v _ _ => ?_
    exact (Expr.tracesAll lined engine (y :: xs) onRest).map fun _ _ _ => trivial

theorem Call.traces (lined : Lined given) (engine : e.FollowedBy given o) :
    ∀ {log : Log} (call : Call), call.sites ⊆ given →
    Traces given log (call.eval e scope) (call.follow o scope) Anyhow (Located given)
  | _, .mk callee args line, known => by
    rw [Call.sites] at known
    obtain ⟨member, known⟩ := List.cons_subset.mp known
    obtain ⟨onCallee, onArgs⟩ := List.append_subset.mp known
    simp only [Call.eval, Call.follow]
    refine .site member ?_
    refine (Expr.traces lined engine callee onCallee).single.owed.bind fun f _ _ => ?_
    refine (Expr.tracesAll lined engine args onArgs).owed.bind fun vs _ _ => ?_
    split
    · exact .atLine lined (.apply engine _ f vs)
    · exact .faultAt callee nofun nofun

theorem Field.traces (lined : Lined given) (engine : e.FollowedBy given o) :
    ∀ {log : Log} (fields : List Field) (position : Nat) (t : Table),
    Field.allSites fields ⊆ given →
    Traces given log (Field.evalAll e scope fields position t)
      (Field.followAll o scope fields position t) Anyhow (Located given)
  | _, [], _, _, _ => .done
  | _, [.positional x _], position, t, known => by
    rw [Field.allSites, Field.sites] at known
    obtain ⟨member, known⟩ := List.cons_subset.mp (List.append_subset.mp known).1
    simp only [Field.evalAll, Field.followAll]
    exact .site member ((Expr.traces lined engine x known).owed.map fun _ _ _ => trivial)
  | _, .positional x _ :: field :: fields, position, t, known => by
    rw [Field.allSites, Field.sites] at known
    obtain ⟨onFirst, onRest⟩ := List.append_subset.mp known
    obtain ⟨member, onFirst⟩ := List.cons_subset.mp onFirst
    simp only [Field.evalAll, Field.followAll]
    refine (Traces.site member (Expr.traces lined engine x onFirst).single.owed).bind fun v _ _ => ?_
    exact Field.traces lined engine (field :: fields) _ _ onRest
  | _, .keyed key value line :: fields, position, t, known => by
    rw [Field.allSites, Field.sites] at known
    obtain ⟨onFirst, onRest⟩ := List.append_subset.mp known
    obtain ⟨member, onFirst⟩ := List.cons_subset.mp onFirst
    obtain ⟨onKey, onValue⟩ := List.append_subset.mp onFirst
    rw [Field.evalAll_keyed]
    simp only [Field.followAll]
    refine Traces.bind (.site member ?_ : Traces given _ _ _ Anyhow _) fun t _ _ =>
      Field.traces lined engine fields _ t onRest
    refine (Expr.traces lined engine key onKey).single.owed.bind fun k _ _ => ?_
    refine (Expr.traces lined engine value onValue).single.owed.bind fun v _ _ => ?_
    unfold Table.set
    cases fault : Table.keyFault? k with
    | none => exact .done
    | some error => exact .atLine lined (.fault (Eval.ordinary_keyFault fault))

theorem Target.traces (lined : Lined given) (engine : e.FollowedBy given o) :
    ∀ {log : Log} (t : Target), t.sites ⊆ given →
    Traces given log (t.place e scope) (t.follow o scope) Anyhow (Located given)
  | _, .name _ _, _ => .done
  | _, .index target key line, known => by
    rw [Target.sites, Target.toExpr] at known
    obtain ⟨member, known⟩ := List.cons_subset.mp known
    obtain ⟨onTarget, onKey⟩ := List.append_subset.mp known
    simp only [Target.place, Target.follow]
    refine .site member ?_
    refine (Expr.traces lined engine target onTarget).single.owed.bind fun t _ _ => ?_
    refine (Expr.traces lined engine key onKey).single.owed.bind fun k _ _ => ?_
    cases t with
    | ref ref =>
      cases ref with
      | table id => exact .done
      | function id => exact .faultAt target nofun nofun
    | _ => exact .faultAt target nofun nofun

theorem Target.tracesAll (lined : Lined given) (engine : e.FollowedBy given o) :
    ∀ {log : Log} (ts : List Target), Target.allSites ts ⊆ given →
    Traces given log (Target.places e scope ts) (Target.followAll o scope ts) Anyhow (Located given)
  | _, [], _ => .done
  | _, t :: ts, known => by
    rw [Target.allSites] at known
    obtain ⟨onFirst, onRest⟩ := List.append_subset.mp known
    simp only [Target.places, Target.followAll]
    refine (Target.traces lined engine t onFirst).bind fun place _ _ => ?_
    exact (Target.tracesAll lined engine ts onRest).map fun _ _ _ => trivial

end

/-! ## Statements -/

theorem Traces.ends {scope : Scope} {fails : RuntimeError → Nat → Log → Prop} {x : Eval Signal}
    {y : Followed Signal} (h : Traces given log x y (Closing given) fails) :
    Traces given log (do return (← x, scope)) (do return (← y, scope))
      (fun out => Closing given out.1) fails := h.map fun _ _ closing => closing

theorem Stmt.follow_genericFor_other {names : List String} {values : List Expr} {body : Block}
    {line : Nat} (o : FollowedEngine) (scope : Scope)
    (other : ∀ callee args l, values = [.call (.mk callee args l)] → False) :
    (Stmt.genericFor names values body line).follow o scope =
      Followed.lift (Eval.fault .forWithoutCall) := by
  simp only [Stmt.follow]

mutual

theorem Stmt.traces (lined : Lined given) (engine : e.FollowedBy given o) :
    ∀ {log : Log} {scope : Scope} (s : Stmt), s.sites ⊆ given →
    Traces given log (s.exec e scope) (s.follow o scope) (fun out => Closing given out.1)
      (Owed given (.stmt s) 0)
  | _, _, .localVars names values _, known => by
    rw [Stmt.sites] at known
    simp only [Stmt.exec, Stmt.follow]
    refine (Expr.tracesAll lined engine values (List.cons_subset.mp known).2).owed.bind
      fun vs _ _ => ?_
    exact (Traces.pushFrame _).map fun _ _ _ => nofun
  | _, scope, .assign targets values _, known => by
    rw [Stmt.sites] at known
    obtain ⟨onTargets, onValues⟩ := List.append_subset.mp (List.cons_subset.mp known).2
    simp only [Stmt.exec, Stmt.follow]
    refine (Expr.tracesAll lined engine values onValues).owed.bind fun vs _ _ => ?_
    refine (Target.tracesAll lined engine targets onTargets).owed.bind fun places _ _ => ?_
    exact (Traces.operation (Eval.raises_storeAll scope places _)
      (Eval.coded_storeAll scope places _)).map fun _ _ _ => nofun
  | _, _, .call call _, known => by
    rw [Stmt.sites] at known
    simp only [Stmt.exec, Stmt.follow]
    exact (Call.traces lined engine call (List.cons_subset.mp known).2).owed.map
      fun _ _ _ => nofun
  | _, _, .doBlock body _, known => by
    rw [Stmt.sites] at known
    simp only [Stmt.exec, Stmt.follow]
    exact (Traces.inFrame fun _ _ =>
      (Block.traces lined engine body (List.cons_subset.mp known).2).owed).ends
  | _, _, .whileLoop condition body _, known => by
    rw [Stmt.sites] at known
    obtain ⟨onCondition, onBody⟩ := List.append_subset.mp (List.cons_subset.mp known).2
    simp only [Stmt.exec, Stmt.follow, engine.loopLimit]
    refine (Traces.whileTurns (fun _ => ?_) (fun _ => ?_) _).ends
    · exact (Expr.traces lined engine condition onCondition).single.owed.map fun _ _ _ => trivial
    · exact .inFrame fun _ _ => (Block.traces lined engine body onBody).owed
  | _, _, .branch clauses none _, known => by
    rw [Stmt.sites] at known
    simp only [Stmt.exec, Stmt.follow]
    refine (Clause.traces lined engine clauses (List.cons_subset.mp known).2).owed.bind
      fun taken _ closing => ?_
    cases taken with
    | none => exact .pure nofun
    | some signal => exact .pure closing
  | _, _, .branch clauses (some body) _, known => by
    rw [Stmt.sites] at known
    obtain ⟨onClauses, onBody⟩ := List.append_subset.mp (List.cons_subset.mp known).2
    simp only [Stmt.exec, Stmt.follow]
    refine (Clause.traces lined engine clauses onClauses).owed.bind fun taken _ closing => ?_
    cases taken with
    | none => exact (Traces.inFrame fun _ _ => (Block.traces lined engine body onBody).owed).ends
    | some signal => exact .pure closing
  | log, scope, .numericFor name start stop step body line, known => by
    obtain ⟨onStart, onStop, onStep, onBody⟩ : start.sites ⊆ given ∧ stop.sites ⊆ given ∧
        (∀ x ∈ step, x.sites ⊆ given) ∧ body.sites ⊆ given := by
      cases step <;> simp_all [Stmt.sites]
    have turns (log : Log) (stride last first : Float) : Traces given log
        (do return (← Eval.countedTurns stride last (fun counter =>
          Eval.inFrame scope [(name, .number counter)] fun scope => body.exec e scope)
          e.loopLimit first, scope))
        (do return (← Followed.countedTurns stride last (fun counter =>
          Followed.inFrame scope [(name, .number counter)] fun scope => body.follow o scope)
          e.loopLimit first, scope)) (fun out => Closing given out.1)
        (Owed given (.stmt (.numericFor name start stop step body line)) 0) :=
      (Traces.countedTurns (fun _ _ => .inFrame fun _ _ =>
        (Block.traces lined engine body onBody).owed) _ _).ends
    have number (what : ForOperand) (log : Log) (v : Value) : Traces given log
        (Eval.forNumber what v) (Followed.lift (Eval.forNumber what v)) Anyhow
        (Owed given (.stmt (.numericFor name start stop step body line)) 0) :=
      .operation (Eval.raises_forNumber what v) (Eval.aside_forNumber what v).coded
    simp only [Stmt.exec, Stmt.follow, engine.loopLimit]
    refine (Expr.traces lined engine start onStart).single.owed.bind fun a _ _ => ?_
    refine (number .start _ a).bind fun first _ _ => ?_
    refine (Expr.traces lined engine stop onStop).single.owed.bind fun b _ _ => ?_
    refine (number .limit _ b).bind fun last _ _ => ?_
    cases step with
    | none => exact Traces.done.bind fun stride _ _ => .unlessZero fun _ => turns _ _ _ _
    | some step =>
      refine (Expr.traces lined engine step (onStep step rfl)).single.owed.bind fun s _ _ => ?_
      refine (number .step _ s).bind fun stride _ _ => ?_
      exact .unlessZero fun _ => turns _ _ _ _
  | _, scope, .genericFor names values body line, known => by
    rw [Stmt.sites] at known
    obtain ⟨onValues, onBody⟩ := List.append_subset.mp (List.cons_subset.mp known).2
    by_cases single : ∃ callee args l, values = [.call (.mk callee args l)]
    · -- the call of `pairs` is taken apart here; its errors are up to the statement
      obtain ⟨callee, args, l, rfl⟩ := single
      rw [Expr.allSites, Expr.sites, Call.sites] at onValues
      obtain ⟨onCallee, onArgs⟩ := List.append_subset.mp
        (List.cons_subset.mp (List.append_subset.mp onValues).1).2
      simp only [Stmt.exec, Stmt.follow]
      refine (Expr.traces lined engine callee onCallee).single.owed.bind fun f _ _ => ?_
      cases f with
      | builtin b =>
        cases b with
        | print => exact .fault ⟨nofun, nofun, rfl⟩
        | pairs =>
          refine (Expr.tracesAll lined engine args onArgs).owed.bind fun vs _ _ => ?_
          refine (Traces.operation (Eval.raises_pairsTable vs)
            (Eval.aside_pairsTable vs).coded).bind fun id _ _ => ?_
          refine (Traces.table id).bind fun t _ _ => ?_
          refine (Traces.keyedTurns (fun _ key => ?_) (fun _ key value => ?_) _).ends
          · exact .quiet ((Eval.raises_table id).bind fun _ => Eval.raises_pure _)
              (Eval.IsAside.coded ((Eval.aside_table id).bind fun _ => Eval.moves_pure _))
          · exact .inFrame fun _ _ => (Block.traces lined engine body onBody).owed
      | _ => exact .fault ⟨nofun, nofun, rfl⟩
    · have other : ∀ callee args l, values = [.call (.mk callee args l)] → False :=
        fun callee args l same => single ⟨callee, args, l, same⟩
      rw [Stmt.exec_genericFor_other e scope other, Stmt.follow_genericFor_other o scope other]
      exact .fault ⟨nofun, nofun, rfl⟩
  | _, scope, .functionDecl target function _, known => by
    rw [Stmt.sites] at known
    obtain ⟨onTarget, onFunction⟩ := List.append_subset.mp (List.cons_subset.mp known).2
    simp only [Stmt.exec, Stmt.follow]
    refine (Traces.closureOf onFunction).bind fun f _ _ => ?_
    refine (Target.traces lined engine target onTarget).owed.bind fun place _ _ => ?_
    exact (Traces.operation (Eval.raises_store scope place f) (Eval.coded_store scope place f)).map
      fun _ _ _ => nofun
  | _, _, .localFunction name function _, known => by
    rw [Stmt.sites] at known
    simp only [Stmt.exec, Stmt.follow]
    refine (Traces.pushFrame _).bind fun scope' _ _ => ?_
    refine (Traces.closureOf (List.cons_subset.mp known).2).bind fun f _ _ => ?_
    exact (Traces.quiet (Eval.raises_modify _) (Eval.coded_assign scope' name f)).map
      fun _ _ _ => nofun
  | _, _, .returnValues values _, known => by
    rw [Stmt.sites] at known
    simp only [Stmt.exec, Stmt.follow]
    exact (Expr.tracesAll lined engine values (List.cons_subset.mp known).2).owed.map
      fun _ _ _ => nofun
  | log, scope, .breakLoop line, known => by
    rw [Stmt.sites] at known
    intro m coded calm
    refine .ok coded (List.forall_mem_cons.mpr ⟨⟨line, rfl⟩, calm⟩) ?_
    rintro _ ⟨⟩
    exact ⟨known List.mem_cons_self, log, rfl⟩
  | _, _, .other _ _, _ => .fault ⟨nofun, nofun, rfl⟩

theorem Clause.traces (lined : Lined given) (engine : e.FollowedBy given o) :
    ∀ {log : Log} {scope : Scope} (clauses : List Clause), Clause.allSites clauses ⊆ given →
    Traces given log (Clause.execFirst e scope clauses) (Clause.followFirst o scope clauses)
      (fun taken => Closing given (taken.getD .normal)) (Located given)
  | _, _, [], _ => .pure nofun
  | _, _, .mk condition body :: clauses, known => by
    rw [Clause.allSites, Clause.sites] at known
    obtain ⟨onFirst, onRest⟩ := List.append_subset.mp known
    obtain ⟨onCondition, onBody⟩ := List.append_subset.mp onFirst
    simp only [Clause.execFirst, Clause.followFirst]
    refine (Expr.traces lined engine condition onCondition).single.bind fun holds _ _ => ?_
    split
    · exact (Traces.inFrame fun _ _ => Block.traces lined engine body onBody).map
        fun _ _ closing => closing
    · exact Clause.traces lined engine clauses onRest

theorem Block.traces (lined : Lined given) (engine : e.FollowedBy given o) :
    ∀ {log : Log} {scope : Scope} (b : Block), b.sites ⊆ given →
    Traces given log (b.exec e scope) (b.follow o scope) (Closing given) (Located given)
  | _, _, .mk statements _, known => by
    rw [Block.sites] at known
    simp only [Block.exec, Block.follow]
    exact Stmt.tracesAll lined engine statements known

theorem Stmt.tracesAll (lined : Lined given) (engine : e.FollowedBy given o) :
    ∀ {log : Log} {scope : Scope} (statements : List Stmt), Stmt.allSites statements ⊆ given →
    Traces given log (Stmt.execAll e scope statements) (Stmt.followAll o scope statements)
      (Closing given) (Located given)
  | _, _, [], _ => .pure nofun
  | _, _, s :: statements, known => by
    rw [Stmt.allSites] at known
    obtain ⟨onFirst, onRest⟩ := List.append_subset.mp known
    simp only [Stmt.execAll, Stmt.followAll]
    refine (Traces.traceLine _).bind fun _ _ _ => ?_
    refine (Traces.site (onFirst s.mem_sites)
      (.atLine lined (Stmt.traces lined engine s onFirst))).bind fun out _ closing => ?_
    obtain ⟨signal, scope'⟩ := out
    cases signal with
    | normal => exact Stmt.tracesAll lined engine statements onRest
    | _ => exact .pure closing

end

end

/-! ## Calls and chunks -/

/-- The end of a body: a `break` that is still on its way leaves it as an error. -/
theorem Traces.resultOf {signal : Signal} (closing : Closing given signal log) :
    Traces given log (Eval.resultOf signal) (Followed.lift (Eval.resultOf signal)) Anyhow
      (Escaping given) := by
  refine lift (Eval.raises_resultOf signal) (Eval.aside_resultOf signal).coded
    (fun _ _ _ _ _ => trivial) ?_
  rintro _ line ⟨rfl, broken⟩ calm
  obtain ⟨member, before, rfl⟩ := closing line broken
  exact .inr ⟨rfl, member, before, rfl, (List.forall_mem_cons.mp calm).2⟩

/-- A function of the machine has no other sites. -/
theorem Traces.closure {fails : RuntimeError → Nat → Log → Prop} (id : Nat) :
    Traces given log (Eval.closure id) (Followed.lift (Eval.closure id))
      (fun f _ => f.body.sites ⊆ given) fails := by
  refine lift (Eval.raises_closure id : Eval.Raises (fun _ _ => False) _)
    (Eval.aside_closure id).coded (fun m f m' coded result => ?_) fun _ _ raised => raised.elim
  cases result
  rw [Array.getD_eq_getD_getElem?]
  cases found : m.functions[id]? with
  | none => exact List.nil_subset _
  | some f => exact coded f (Array.mem_of_getElem? found)

end MiniLua
