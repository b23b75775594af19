import MiniLua.Proofs.Regimes.Basic
import MiniLua.Proofs.Running.Faults

/-!
# Steps under a regime

Each step of evaluation keeps the regime, and what it gives is known there. The steps that write are
those the regime speaks of; the others are asides that raise ordinary errors.
-/

namespace MiniLua

variable {α : Type} {R : Regime} {m : Machine} {s : Scope} {v : Value}

/-! ## Operators -/

namespace Value

theorem plain_binary {op : BinaryOp} {a b : Value} (h : binary op a b = .ok v) :
    v.plain = true := by
  have compared {x : Except OperatorFault Bool} (h : x.map bool = .ok v) : v.plain = true := by
    rcases compare_cases x with ⟨c, same⟩ | ⟨e, same, -⟩
    · cases same.symm.trans h
      rfl
    · cases same.symm.trans h
  cases op with
  | arith op =>
    rcases arith_cases op a b with ⟨x, same⟩ | ⟨e, same, -⟩
    · cases same.symm.trans h
      rfl
    · cases same.symm.trans h
  | concat =>
    rcases concat_cases a b with ⟨x, y, -, -, same⟩ | ⟨e, same, -⟩
    · cases same.symm.trans h
      rfl
    · cases same.symm.trans h
  | eq =>
    cases h
    rfl
  | ne =>
    cases h
    rfl
  | lt => exact compared h
  | gt => exact compared h
  | le => exact compared h
  | ge => exact compared h

end Value

namespace Eval

theorem faultAt_ne_ok (line : Nat) (e : Expr) (error : Origin → RuntimeError) (a : α)
    (m' : Machine) : (faultAt line s e error : Eval α) m ≠ .ok a m' := by
  intro done
  obtain ⟨origin, m₁, -, failed⟩ := bind_eq_ok.mp done
  cases atLine_eq_ok.mp failed

/-- The step gives nothing that refers to the store. -/
def Plain (x : Eval Value) : Prop := ∀ m v m', x m = .ok v m' → v.plain = true

theorem plain_pure (h : v.plain = true) : Plain (pure v) := by
  intro m w m' done
  obtain ⟨rfl, -⟩ := pure_eq_ok.mp done
  exact h

theorem plain_throw (e : Halt) : Plain (throw e) := nofun

theorem Plain.bind {x : Eval α} {f : α → Eval Value} (h : ∀ a, Plain (f a)) :
    Plain (x >>= f) := by
  intro m v m' done
  obtain ⟨a, m₁, -, rest⟩ := bind_eq_ok.mp done
  exact h a m₁ v m' rest

theorem Plain.atLine {x : Eval Value} (h : Plain x) (line : Nat) : Plain (Eval.atLine line x) :=
  fun m v m' done => h m v m' (atLine_eq_ok.mp done)

theorem plain_faultAt (line : Nat) (e : Expr) (error : Origin → RuntimeError) :
    Plain (faultAt line s e error) :=
  fun _ v m' done => (faultAt_ne_ok line e error v m' done).elim

theorem plain_operate (op : BinaryOp) (a b : Value) : Plain (operate op a b) := by
  unfold operate
  split
  next result => exact plain_pure (Value.plain_binary result)
  all_goals exact plain_throw _

theorem plain_binaryOp (op : BinaryOp) (left right : Expr) (line : Nat) (a b : Value) :
    Plain (binaryOp s op left right line a b) := by
  unfold binaryOp
  split
  · exact plain_faultAt _ _ _
  · exact plain_faultAt _ _ _
  · exact (plain_operate op a b).atLine line

theorem plain_unaryOp (op : UnaryOp) (operand : Expr) (line : Nat) (a : Value) :
    Plain (unaryOp s op operand line a) := by
  unfold unaryOp
  split
  · exact plain_pure rfl
  · refine .bind fun x => ?_
    cases x with
    | none => exact plain_faultAt _ _ _
    | some x => exact plain_pure rfl
  · split
    · exact plain_pure rfl
    · exact .bind fun _ => plain_pure rfl
    · exact plain_faultAt _ _ _
  · exact .atLine (plain_throw _) line

/-! ## Asides -/

theorem Raises.admits {x : Eval α} {line : Nat} (h : Raises (Ordinary line) x) (e : Halt)
    (m' : Machine) (failed : x m = .error e m') : R.Admits e := by
  have such := h m e m' failed
  cases e with
  | fault error l => exact .of_ne such.1 l
  | _ => exact fun _ _ => nofun

namespace Abides

variable {post : Machine → α → Prop}

/-- A step that only reads, traces, numbers references and raises ordinary errors. -/
theorem ordinary {x : Eval α} {line : Nat} (h : x.IsAside) (raises : Raises (Ordinary line) x)
    (gives : ∀ a m', x m = .ok a m' → post m' a) : Abides R m x post := by
  intro good
  have moved := aside (R := R) h raises.admits good
  cases result : x m with
  | ok a m' =>
    rw [result] at moved
    exact ⟨moved.1, gives a m' result⟩
  | error e m' =>
    rw [result] at moved
    exact moved

theorem faultAt (line : Nat) (e : Expr) {error : Origin → RuntimeError}
    (unescaped : ∀ origin, error origin ≠ .breakOutsideLoop)
    (entered : ∀ origin, error origin ≠ .stackOverflow) :
    Abides R m (Eval.faultAt line s e error) post :=
  ordinary (aside_faultAt line s e error) (raises_faultAt line s e unescaped entered)
    fun a m' done => (faultAt_ne_ok line e error a m' done).elim

theorem binaryOp (op : BinaryOp) (left right : Expr) (line : Nat) (a b : Value) :
    Abides R m (Eval.binaryOp s op left right line a b) R.value :=
  ordinary (aside_binaryOp s op left right line a b) (raises_binaryOp s op left right line a b)
    fun _ _ done => R.plain (plain_binaryOp _ _ _ _ _ _ _ _ _ done)

theorem unaryOp (op : UnaryOp) (operand : Expr) (line : Nat) (a : Value) :
    Abides R m (Eval.unaryOp s op operand line a) R.value :=
  ordinary (aside_unaryOp s op operand line a) (raises_unaryOp s op operand line a)
    fun _ _ done => R.plain (plain_unaryOp _ _ _ _ _ _ _ done)

theorem forNumber (what : ForOperand) (v : Value) :
    Abides R m (Eval.forNumber what v) Unsaid :=
  ordinary (aside_forNumber what v) (raises_forNumber what v) fun _ _ _ => trivial

theorem pairsTable (args : List Value) : Abides R m (Eval.pairsTable args) Unsaid :=
  ordinary (aside_pairsTable args) (raises_pairsTable args) fun _ _ _ => trivial

theorem traceLine (line : Unit → String) : Abides R m (Eval.traceLine line) Unsaid := by
  refine modify fun good => ?_
  split
  · exact .same good rfl rfl rfl
  · exact .refl good

/-! ## The store -/

theorem lookup (name : String) : Abides R m (Eval.lookup s name) R.value :=
  read _ fun good => R.lookup good s name

theorem table (id : Nat) : Abides R m (Eval.table id) R.table := read _ fun good => R.contents good id

theorem pushFrame {bs : Bindings} (known : R.scope m s) (bound : ∀ b ∈ bs, R.value m b.2) :
    Abides R m (Eval.pushFrame s bs) R.scope := by
  refine modifyGet fun good => ?_
  obtain ⟨⟨kept, later⟩, inner⟩ := R.pushFrame good known bound
  exact ⟨⟨kept, later⟩, inner⟩

theorem assign (known : R.scope m s) (name : String) (h : R.value m v) :
    Abides R m (Eval.assign s name v) Unsaid := by
  refine modify fun good => ?_
  obtain ⟨kept, later⟩ := R.assign good known h name
  exact ⟨kept, later⟩

theorem newTable {t : Table} (h : R.table m t) : Abides R m (Eval.newTable t) R.value := by
  refine modifyGet fun good => ?_
  obtain ⟨⟨kept, later⟩, fresh⟩ := R.newTable good h
  exact ⟨⟨kept, later⟩, fresh⟩

theorem closureOf (known : R.scope m s) (f : Lambda) (inside : R.Allows f.enclosed) :
    Abides R m (Eval.closureOf s f) R.value := by
  cases f with
  | mk params body name line =>
    refine modifyGet fun good => ?_
    obtain ⟨⟨kept, later⟩, fresh⟩ := R.newFunction (f := ⟨_, params, body, s⟩) good known inside
    exact ⟨⟨kept, later⟩, fresh⟩

theorem store {place : MiniLua.Place} (known : R.scope m s) (there : R.Place m place)
    (h : R.value m v) : Abides R m (Eval.store s place v) Unsaid := by
  cases place with
  | «variable» name => exact assign known name h
  | slot id key =>
    change Abides R m (Eval.setKey id key v) Unsaid
    unfold Eval.setKey
    split
    next error faulty =>
      exact fault fun escaped => by rcases Table.keyFault?_cases faulty with rfl | rfl <;> cases escaped
    next writable =>
      refine modify fun good => ?_
      obtain ⟨kept, later⟩ := R.setKey good there.1 writable there.2 h
      exact ⟨kept, later⟩

theorem storeAll {places : List MiniLua.Place} {vs : List Value} (known : R.scope m s)
    (there : ∀ place ∈ places, R.Place m place) (h : R.Values m vs) :
    Abides R m (Eval.storeAll s places vs) Unsaid := by
  induction places generalizing vs m with
  | nil => exact done
  | cons place places ih =>
    cases vs with
    | nil => exact done
    | cons v vs =>
      obtain ⟨first, rest⟩ := List.forall_mem_cons.mp there
      obtain ⟨head, tail⟩ := List.forall_mem_cons.mp h
      refine (store known first head).bind fun _ m' onward _ => ?_
      have later := onward.later
      exact ih (R.scope_later later known) (fun p member => (rest p member).later later)
        (Regime.Values.later tail later)

/-! ## Bodies and loops -/

variable {inLoop : Bool}

/-- Runs a body in a new frame, in a loop or not. -/
theorem inFrame {bs : Bindings} {body : Scope → Eval Signal} (known : R.scope m s)
    (bound : ∀ b ∈ bs, R.value m b.2)
    (run : ∀ s' m', R.Onward m m' → R.scope m' s' → Abides R m' (body s') (R.Ends inLoop)) :
    Abides R m (Eval.inFrame s bs body) (R.Ends inLoop) :=
  (pushFrame known bound).bind run

/-- A turn that ends its loop: the `break` of a turn goes no further. -/
theorem ending_of_ends {signal : Signal} (ends : R.Ends true m signal) :
    R.Ending inLoop m signal.ending? := by
  rintro ending last
  cases signal with
  | normal => cases last
  | breakLoop line =>
    cases last
    trivial
  | returned vs =>
    cases last
    exact ends

theorem whileTurns {condition : Eval Bool} {body : Eval Signal}
    (holds : ∀ m', R.Onward m m' → Abides R m' condition Unsaid)
    (run : ∀ m', R.Onward m m' → Abides R m' body (R.Ends true)) (limit : Nat) :
    Abides R m (Eval.whileTurns condition body limit) (R.Ends inLoop) := by
  have turns (m' : Machine) (onward : R.Onward m m') :
      Abides R m' (Eval.whileTurns condition body limit) (R.Ends inLoop) := by
    induction limit generalizing m' with
    | zero => exact throw fun _ _ => nofun
    | succ limit ih =>
      rw [Eval.whileTurns]
      refine (holds m' onward).bind fun more m₁ onward₁ _ => ?_
      cases more with
      | false => exact pure trivial
      | true =>
        refine (run m₁ (onward.trans onward₁)).bind fun signal m₂ onward₂ ends => ?_
        cases last : signal.ending? with
        | none => exact ih m₂ ((onward.trans onward₁).trans onward₂)
        | some ending => exact pure (ending_of_ends ends ending last)
  exact fun good => turns m (.refl good) good

theorem countedTurns {body : Float → Eval Signal} (step stop : Float)
    (run : ∀ counter m', R.Onward m m' → Abides R m' (body counter) (R.Ends true))
    (limit : Nat) (counter : Float) :
    Abides R m (Eval.countedTurns step stop body limit counter) (R.Ends inLoop) := by
  have turns (m' : Machine) (onward : R.Onward m m') :
      Abides R m' (Eval.countedTurns step stop body limit counter) (R.Ends inLoop) := by
    induction limit generalizing m' counter with
    | zero => exact throw fun _ _ => nofun
    | succ limit ih =>
      rw [Eval.countedTurns]
      split
      · refine (run counter m' onward).bind fun signal m₁ onward₁ ends => ?_
        cases last : signal.ending? with
        | none => exact ih _ m₁ (onward.trans onward₁)
        | some ending => exact pure (ending_of_ends ends ending last)
      · exact pure trivial
  exact fun good => turns m (.refl good) good

theorem keyedTurns {read : Value → Eval Value} {body : Value → Value → Eval Signal}
    {keys : List Value} (known : R.Values m keys)
    (reads : ∀ key m', R.Onward m m' → Abides R m' (read key) R.value)
    (run : ∀ key value m', R.Onward m m' → R.value m' key → R.value m' value →
      Abides R m' (body key value) (R.Ends true)) :
    Abides R m (Eval.keyedTurns read body keys) (R.Ends inLoop) := by
  have turns (m' : Machine) (onward : R.Onward m m') :
      Abides R m' (overKeys read (fun key value => do return (← body key value).ending?) keys)
        (R.Ending inLoop) := by
    induction keys generalizing m' with
    | nil => exact pure fun signal ended => absurd ended (Option.some_ne_none signal).symm
    | cons key keys ih =>
      obtain ⟨first, rest⟩ := List.forall_mem_cons.mp known
      rw [overKeys]
      refine (reads key m' onward).bind fun value m₁ onward₁ good => ?_
      have here := onward.trans onward₁
      split
      · exact ih rest m₁ here
      · have turn : Abides R m₁ (do return (← body key value).ending?) (R.Ending inLoop) :=
          (run key value m₁ here (R.value_later here.later first) good).map
            fun _ _ => ending_of_ends
        refine turn.bind fun ending m₂ onward₂ ends => ?_
        cases ending with
        | none => exact ih rest m₂ (here.trans onward₂)
        | some signal => exact pure ends
  have whole := fun good => turns m (.refl good) good
  refine Abides.bind whole fun ending m' _ ends => ?_
  cases ending with
  | none => exact pure trivial
  | some signal => exact pure (ends signal rfl)

/-! ## Calls -/

theorem textOf (v : Value) : Abides R m (Eval.textOf v) Unsaid :=
  ordinary (aside_textOf v) (raises_textOf v : Raises (Ordinary 0) _) fun _ _ _ => trivial

theorem texts (args : List Value) : Abides R m (args.mapM Eval.textOf) Unsaid :=
  ordinary (.mapM aside_textOf args) (.mapM raises_textOf args : Raises (Ordinary 0) _)
    fun _ _ _ => trivial

theorem write (text : String) : Abides R m (Eval.write text) Unsaid :=
  modify fun good => .same good rfl rfl rfl

end Abides

end Eval

/-- The engine keeps the regime, whatever function it runs. -/
def Engine.Abides (R : Regime) (engine : Engine) : Prop :=
  ∀ m id args, R.value m (.ref (.function id)) → R.Values m args →
    Eval.Abides R m (engine.call id args) R.Values

theorem Eval.Abides.apply {engine : Engine} (calls : engine.Abides R) {callee : Value}
    {args : List Value} (known : R.value m callee) (good : R.Values m args) :
    Eval.Abides R m (Eval.apply engine callee args) R.Spreads := by
  unfold Eval.apply
  split
  · refine (texts args).bind fun shown m' _ _ => ?_
    exact (write _).bind fun _ m'' _ _ => .pure nofun
  · exact .fault nofun
  next id => exact (calls m id args known good).map fun _ _ fine => fine
  · exact .fault nofun

end MiniLua
