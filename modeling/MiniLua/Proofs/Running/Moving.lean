import Mathlib.Order.Defs.Unbundled
import MiniLua.Eval.Program

/-!
# Where steps lead

A step moves machines along a relation if it ends, early or not, in a machine related to the one it
started in. Along a preorder steps compose. Most of them are asides: they read the machine, and at
most trace something or number a reference.
-/

namespace MiniLua

variable {α β : Type}

/-- The machine that a step ends in. -/
def Eval.final (x : Eval α) (m : Machine) : Machine :=
  match x m with
  | .ok _ m' => m'
  | .error _ m' => m'

/-- The step ends in a machine that is so related to the one it starts in. -/
def Eval.Moves (R : Machine → Machine → Prop) (x : Eval α) : Prop := ∀ m, R m (x.final m)

namespace Eval

variable {R : Machine → Machine → Prop} [IsPreorder Machine R]

omit [IsPreorder Machine R] in
theorem Moves.mono {R' : Machine → Machine → Prop} {x : Eval α} (h : x.Moves R)
    (weaker : ∀ m m', R m m' → R' m m') : x.Moves R' := fun m => weaker m _ (h m)

theorem moves_pure (a : α) : Moves R (pure a) := refl_of R

theorem moves_throw (e : Halt) : Moves R (throw e : Eval α) := refl_of R

theorem moves_get : Moves R get := refl_of R

omit [IsPreorder Machine R] in
theorem moves_modify {f : Machine → Machine} (h : ∀ m, R m (f m)) : Moves R (modify f) := h

omit [IsPreorder Machine R] in
theorem moves_modifyGet {f : Machine → α × Machine} (h : ∀ m, R m (f m).2) :
    Moves R (modifyGet f) := h

/-- What comes after a step moves on from where the step has ended. -/
theorem Moves.after {f : α → Eval β} (hf : ∀ a, Moves R (f a)) (x : Eval α) (m : Machine) :
    R (x.final m) ((x >>= f).final m) := by
  change R (x.final m) (final (EStateM.bind x f) m)
  unfold final EStateM.bind
  cases x m with
  | error e m' => exact refl_of R m'
  | ok a m' => exact hf a m'

theorem Moves.bind {x : Eval α} {f : α → Eval β} (hx : Moves R x) (hf : ∀ a, Moves R (f a)) :
    Moves R (x >>= f) := fun m => trans_of R (hx m) (Moves.after hf x m)

theorem final_atLine (line : Nat) (x : Eval α) (m : Machine) :
    (atLine line x).final m = x.final m := by
  unfold final atLine
  cases x m with
  | ok a m' => rfl
  | error e m' =>
    cases e with
    | fault error l => cases l <;> rfl
    | _ => rfl

omit [IsPreorder Machine R] in
theorem Moves.atLine {x : Eval α} (hx : Moves R x) (line : Nat) : Moves R (Eval.atLine line x) :=
  fun m => (final_atLine line x m).symm ▸ hx m

theorem Moves.mapM {f : α → Eval β} (hf : ∀ a, Moves R (f a)) (as : List α) :
    Moves R (as.mapM f) := by
  induction as with
  | nil => exact moves_pure _
  | cons a as ih =>
    rw [List.mapM_cons]
    exact (hf a).bind fun _ => ih.bind fun _ => moves_pure _

theorem Moves.storeAll {scope : Scope} (h : ∀ place v, Moves R (store scope place v))
    (places : List Place) (vs : List Value) : Moves R (Eval.storeAll scope places vs) := by
  induction places generalizing vs with
  | nil => exact moves_pure _
  | cons place places ih =>
    cases vs with
    | nil => exact moves_pure _
    | cons v vs => exact (h place v).bind fun _ => ih vs

theorem moves_fault (error : RuntimeError) : Moves R (fault error : Eval α) := moves_throw _

end Eval

/-! ## Asides -/

/-- Nothing has changed but the trace and the references that have been written as text. -/
def Machine.Aside (m m' : Machine) : Prop := ∃ trace named, m' = { m with trace, named }

instance : IsPreorder Machine Machine.Aside where
  refl m := ⟨m.trace, m.named, rfl⟩
  trans := by
    rintro m _ _ ⟨trace, named, rfl⟩ ⟨trace', named', rfl⟩
    exact ⟨trace', named', rfl⟩

namespace Eval

/-- A step that only reads, traces and numbers references. -/
abbrev IsAside (x : Eval α) : Prop := x.Moves Machine.Aside

theorem aside_lookup (scope : Scope) (name : String) : IsAside (lookup scope name) :=
  moves_get.bind fun _ => moves_pure _

theorem aside_table (id : Nat) : IsAside (table id) := moves_get.bind fun _ => moves_pure _

theorem aside_closure (id : Nat) : IsAside (closure id) := moves_get.bind fun _ => moves_pure _

theorem aside_traceLine (line : Unit → String) : IsAside (traceLine line) :=
  moves_modify fun m => by
    split
    · exact ⟨_, m.named, rfl⟩
    · exact ⟨m.trace, m.named, rfl⟩

theorem aside_ofNumeral (x : Except Number.NumeralFault α) : IsAside (ofNumeral x) := by
  unfold ofNumeral
  split
  · exact moves_pure _
  · exact moves_throw _

theorem aside_ordinal (r : Ref) : IsAside (ordinal r) :=
  moves_modifyGet fun m => by
    split
    · exact ⟨m.trace, m.named, rfl⟩
    · exact ⟨m.trace, _, rfl⟩

theorem aside_textOf (v : Value) : IsAside (textOf v) := by
  fun_induction textOf v with
  | case6 r => exact (aside_ordinal r).bind fun _ => moves_pure _
  | case8 v vs ih => exact ih
  | _ => exact moves_pure _

theorem aside_originOf (scope : Scope) (e : Expr) : IsAside (originOf scope e) := by
  unfold originOf
  split
  · exact moves_get.bind fun _ => moves_pure _
  · exact moves_pure _
  · exact moves_pure _

theorem aside_faultAt (line : Nat) (scope : Scope) (e : Expr) (error : Origin → RuntimeError) :
    IsAside (faultAt line scope e error : Eval α) :=
  (aside_originOf scope e).bind fun _ => (moves_fault _).atLine line

theorem aside_operate (op : BinaryOp) (a b : Value) : IsAside (operate op a b) := by
  unfold operate
  split
  · exact moves_pure _
  · exact moves_throw _
  · exact moves_fault _
  · exact moves_fault _
  · exact moves_fault _

theorem aside_binaryOp (scope : Scope) (op : BinaryOp) (left right : Expr) (line : Nat)
    (a b : Value) : IsAside (binaryOp scope op left right line a b) := by
  unfold binaryOp
  split
  · exact aside_faultAt _ _ _ _
  · exact aside_faultAt _ _ _ _
  · exact (aside_operate op a b).atLine line

theorem aside_unaryOp (scope : Scope) (op : UnaryOp) (operand : Expr) (line : Nat) (a : Value) :
    IsAside (unaryOp scope op operand line a) := by
  unfold unaryOp
  split
  · exact moves_pure _
  · refine (aside_ofNumeral _).bind fun x => ?_
    split
    · exact moves_pure _
    · exact aside_faultAt _ _ _ _
  · split
    · exact moves_pure _
    · exact (aside_table _).bind fun _ => moves_pure _
    · exact aside_faultAt _ _ _ _
  · exact (moves_fault _).atLine line

theorem aside_forNumber (what : ForOperand) (v : Value) : IsAside (forNumber what v) :=
  (aside_ofNumeral _).bind fun x => by
    cases x with
    | none => exact moves_fault _
    | some x => exact moves_pure _

theorem aside_pairsTable (args : List Value) : IsAside (pairsTable args) := by
  unfold pairsTable
  split
  · exact moves_fault _
  · exact (aside_traceLine _).bind fun _ => moves_pure _
  · exact moves_fault _

theorem aside_resultOf (signal : Signal) : IsAside (resultOf signal) := by
  unfold resultOf
  split
  · exact moves_pure _
  · exact moves_pure _
  · exact moves_throw _

end Eval

end MiniLua
