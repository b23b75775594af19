import MiniLua.Proofs.Running.Moving
import MiniLua.Proofs.Table.Refinement

/-!
# What steps raise

An operation raises its errors without a line, or at the line of the node it belongs to. Of the two
errors that do not come from a value, a stack overflow is raised by calls only and an escaped `break`
only at the end of a body.
-/

namespace MiniLua

variable {α β : Type}

/-- The halt is a crash or such an error. -/
def Halt.Such (such : RuntimeError → Nat → Prop) : Halt → Prop
  | .fault error line => such error line
  | .crash _ => True
  | .exhausted => False

/-- Every error that the step raises is such, and it uses up no turns. -/
def Eval.Raises (such : RuntimeError → Nat → Prop) (x : Eval α) : Prop :=
  ∀ m e m', x m = .error e m' → e.Such such

/-- An error of an operation, at this line. -/
def Ordinary (line : Nat) (error : RuntimeError) (l : Nat) : Prop :=
  error ≠ .breakOutsideLoop ∧ error ≠ .stackOverflow ∧ l = line

namespace Eval

variable {such : RuntimeError → Nat → Prop} {line : Nat}

theorem Raises.mono {such' : RuntimeError → Nat → Prop} {x : Eval α} (h : Raises such x)
    (weaker : ∀ error l, such error l → such' error l) : Raises such' x := by
  intro m e m' result
  have raised := h m e m' result
  cases e with
  | fault error l => exact weaker error l raised
  | _ => exact raised

theorem raises_pure (a : α) : Raises such (pure a) := by
  rintro _ _ _ ⟨⟩

theorem raises_get : Raises such get := by
  rintro _ _ _ ⟨⟩

theorem raises_modify (f : Machine → Machine) : Raises such (modify f) := by
  rintro _ _ _ ⟨⟩

theorem raises_modifyGet (f : Machine → α × Machine) : Raises such (modifyGet f) := by
  rintro _ _ _ ⟨⟩

theorem raises_throw {e : Halt} (h : e.Such such) : Raises such (throw e : Eval α) := by
  rintro m _ _ ⟨⟩
  exact h

theorem raises_fault {error : RuntimeError} (h : such error 0) :
    Raises such (fault error : Eval α) := raises_throw h

theorem Raises.bind {x : Eval α} {f : α → Eval β} (hx : Raises such x) (hf : ∀ a, Raises such (f a)) :
    Raises such (x >>= f) := by
  intro m e m' h
  change EStateM.bind x f m = _ at h
  rw [EStateM.bind] at h
  cases result : x m with
  | ok a m'' =>
    rw [result] at h
    exact hf a m'' e m' h
  | error e' m'' =>
    rw [result] at h
    cases h
    exact hx m e m' result

/-- An error without a line is raised at the line it is given. -/
theorem Raises.atLine {x : Eval α} (hx : Raises (Ordinary 0) x) (line : Nat) :
    Raises (Ordinary line) (Eval.atLine line x) := by
  intro m e m' h
  unfold Eval.atLine at h
  cases result : x m with
  | ok a m'' =>
    rw [result] at h
    cases h
  | error e' m'' =>
    rw [result] at h
    have own := hx m e' m'' result
    cases e' with
    | fault error l =>
      obtain ⟨unescaped, entered, rfl⟩ := own
      cases h
      exact ⟨unescaped, entered, rfl⟩
    | crash c =>
      cases h
      trivial
    | exhausted => exact own.elim

theorem Raises.mapM {f : α → Eval β} (hf : ∀ a, Raises such (f a)) (as : List α) :
    Raises such (as.mapM f) := by
  induction as with
  | nil => exact raises_pure _
  | cons a as ih =>
    rw [List.mapM_cons]
    exact (hf a).bind fun _ => ih.bind fun _ => raises_pure _

/-! ## Steps that raise nothing -/

theorem raises_lookup (scope : Scope) (name : String) : Raises such (lookup scope name) :=
  raises_get.bind fun _ => raises_pure _

theorem raises_table (id : Nat) : Raises such (table id) :=
  raises_get.bind fun _ => raises_pure _

theorem raises_closure (id : Nat) : Raises such (closure id) :=
  raises_get.bind fun _ => raises_pure _

theorem raises_closureOf (scope : Scope) (f : Lambda) : Raises such (closureOf scope f) := by
  cases f with
  | mk params body name line => exact raises_modifyGet _

theorem raises_ofNumeral (x : Except Number.NumeralFault α) : Raises such (ofNumeral x) := by
  unfold ofNumeral
  split
  · exact raises_pure _
  · exact raises_throw trivial

theorem raises_textOf (v : Value) : Raises such (textOf v) := by
  fun_induction textOf v with
  | case6 r => exact (raises_modifyGet _).bind fun _ => raises_pure _
  | case8 v vs ih => exact ih
  | _ => exact raises_pure _

theorem raises_originOf (scope : Scope) (e : Expr) : Raises such (originOf scope e) := by
  unfold originOf
  split
  · exact raises_get.bind fun _ => raises_pure _
  · exact raises_pure _
  · exact raises_pure _

/-! ## Operations -/

theorem raises_faultAt (line : Nat) (scope : Scope) (e : Expr) {error : Origin → RuntimeError}
    (unescaped : ∀ origin, error origin ≠ .breakOutsideLoop)
    (entered : ∀ origin, error origin ≠ .stackOverflow) :
    Raises (Ordinary line) (faultAt line scope e error : Eval α) :=
  (raises_originOf scope e).bind fun origin =>
    (raises_fault ⟨unescaped origin, entered origin, rfl⟩).atLine line

theorem raises_operate (op : BinaryOp) (a b : Value) : Raises (Ordinary 0) (operate op a b) := by
  unfold operate
  split
  · exact raises_pure _
  · exact raises_throw trivial
  · exact raises_fault ⟨nofun, nofun, rfl⟩
  · exact raises_fault ⟨nofun, nofun, rfl⟩
  · exact raises_fault ⟨nofun, nofun, rfl⟩

theorem raises_binaryOp (scope : Scope) (op : BinaryOp) (left right : Expr) (line : Nat)
    (a b : Value) : Raises (Ordinary line) (binaryOp scope op left right line a b) := by
  unfold binaryOp
  split
  · exact raises_faultAt _ _ _ nofun nofun
  · exact raises_faultAt _ _ _ nofun nofun
  · exact (raises_operate op a b).atLine line

theorem raises_unaryOp (scope : Scope) (op : UnaryOp) (operand : Expr) (line : Nat) (a : Value) :
    Raises (Ordinary line) (unaryOp scope op operand line a) := by
  unfold unaryOp
  split
  · exact raises_pure _
  · refine (raises_ofNumeral _).bind fun x => ?_
    split
    · exact raises_pure _
    · exact raises_faultAt _ _ _ nofun nofun
  · split
    · exact raises_pure _
    · exact (raises_table _).bind fun _ => raises_pure _
    · exact raises_faultAt _ _ _ nofun nofun
  · exact (raises_fault ⟨nofun, nofun, rfl⟩).atLine line

theorem raises_forNumber (what : ForOperand) (v : Value) :
    Raises (Ordinary 0) (forNumber what v) :=
  (raises_ofNumeral _).bind fun x => by
    cases x with
    | none => exact raises_fault ⟨nofun, nofun, rfl⟩
    | some x => exact raises_pure _

theorem raises_pairsTable (args : List Value) : Raises (Ordinary 0) (pairsTable args) := by
  unfold pairsTable
  split
  · exact raises_fault ⟨nofun, nofun, rfl⟩
  · exact (raises_modify _).bind fun _ => raises_pure _
  · exact raises_fault ⟨nofun, nofun, rfl⟩

theorem ordinary_keyFault {k : Value} {error : RuntimeError}
    (fault : Table.keyFault? k = some error) : Ordinary 0 error 0 := by
  rcases Table.keyFault?_cases fault with rfl | rfl <;> exact ⟨nofun, nofun, rfl⟩

theorem raises_store (scope : Scope) (place : Place) (v : Value) :
    Raises (Ordinary 0) (store scope place v) := by
  cases place with
  | «variable» name => exact raises_modify _
  | slot id key =>
    change Raises (Ordinary 0) (setKey id key v)
    unfold setKey
    split
    next error fault => exact raises_fault (ordinary_keyFault fault)
    next => exact raises_modify _

theorem raises_storeAll (scope : Scope) (places : List Place) (vs : List Value) :
    Raises (Ordinary 0) (storeAll scope places vs) := by
  induction places generalizing vs with
  | nil => exact raises_pure _
  | cons place places ih =>
    cases vs with
    | nil => exact raises_pure _
    | cons v vs => exact (raises_store scope place v).bind fun _ => ih vs

/-- Nothing but a function can call back. -/
theorem raises_apply (engine : Engine) (v : Value) (args : List Value)
    (builtin : v.isFunction = false) : Raises (Ordinary 0) (apply engine v args) := by
  unfold apply
  split
  · have shown : Raises (Ordinary 0) (args.mapM textOf) := .mapM raises_textOf args
    exact shown.bind fun _ => (raises_modify _).bind fun _ => raises_pure _
  · exact raises_fault ⟨nofun, nofun, rfl⟩
  · cases builtin
  · exact raises_fault ⟨nofun, nofun, rfl⟩

/-- A body raises the `break` that has left every loop, at the line of it. -/
theorem raises_resultOf (signal : Signal) :
    Raises (fun error line => error = .breakOutsideLoop ∧ signal = .breakLoop line)
      (resultOf signal) := by
  unfold resultOf
  split
  · exact raises_pure _
  · exact raises_pure _
  · exact raises_throw ⟨rfl, rfl⟩

end Eval

end MiniLua
