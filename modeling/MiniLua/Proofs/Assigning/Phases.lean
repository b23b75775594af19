import MiniLua.Proofs.Assigning.Stores
import MiniLua.Proofs.Running.Moving

/-!
# The phases of an assignment

An assignment evaluates its values, then the operands of its targets, and only then stores. If it
fails before that, its operands up to the one at fault are all that has been run; if a store fails,
the stores before it have been made and no other.
-/

namespace MiniLua

/-- What a target evaluates, in this order. -/
def Target.operands : Target → List Expr
  | .name _ _ => []
  | .index target key _ => [target, key]

/-- Evaluates expressions in turn for what they do to the machine. -/
def Eval.visit (engine : Engine) (scope : Scope) : List Expr → Eval Unit
  | [] => return ()
  | e :: es => do
    let _ ← e.eval engine scope
    visit engine scope es

section

open Eval

variable {engine : Engine} {scope : Scope} {m m' m₁ : Machine} {halt : Halt}

/-! ## Operands -/

namespace Eval

theorem visit_append (es fs : List Expr) :
    visit engine scope (es ++ fs) =
      (do visit engine scope es; visit engine scope fs) := by
  induction es with
  | nil => rfl
  | cons e es ih =>
    rw [List.cons_append, visit, visit, ih, bind_assoc]

/-- Operands fail at one of them, after those before it. -/
theorem visit_eq_error {es : List Expr} :
    visit engine scope es m = .error halt m' ↔
      ∃ seen e rest m₁, es = seen ++ e :: rest ∧ visit engine scope seen m = .ok () m₁ ∧
        e.eval engine scope m₁ = .error halt m' := by
  induction es generalizing m with
  | nil =>
    constructor
    · rintro ⟨⟩
    · rintro ⟨seen, e, rest, m₁, split, -⟩
      simp at split
  | cons e es ih =>
    rw [visit, bind_eq_error]
    constructor
    · rintro (failed | ⟨v, m₁, done, failed⟩)
      · exact ⟨[], e, es, m, rfl, rfl, failed⟩
      · obtain ⟨seen, e', rest, m₂, rfl, visited, failed⟩ := ih.mp failed
        exact ⟨e :: seen, e', rest, m₂, rfl, (bind_of_ok done).trans visited, failed⟩
    · rintro ⟨seen, e', rest, m₁, split, visited, failed⟩
      cases seen with
      | nil =>
        obtain ⟨rfl, rfl⟩ := List.cons.inj split
        obtain ⟨-, rfl⟩ := pure_eq_ok.mp visited
        exact .inl failed
      | cons e'' seen =>
        obtain ⟨rfl, rfl⟩ := List.cons.inj split
        obtain ⟨v, m₂, done, visited⟩ := bind_eq_ok.mp visited
        exact .inr ⟨v, m₂, done, ih.mpr ⟨seen, e', rest, m₁, rfl, visited, failed⟩⟩

theorem final_of_ok {α : Type} {x : Eval α} {a : α} (h : x m = .ok a m') : x.final m = m' := by
  rw [final, h]

theorem final_of_error {α : Type} {x : Eval α} (h : x m = .error halt m') : x.final m = m' := by
  rw [final, h]

theorem final_visit_append {es fs : List Expr} (done : visit engine scope es m = .ok () m₁) :
    (visit engine scope (es ++ fs)).final m = (visit engine scope fs).final m₁ := by
  rw [visit_append, final, final, bind_of_ok done]

end Eval

/-- The values of expressions are had by visiting them. -/
theorem Expr.visit_eq_evalAll (es : List Expr) :
    visit engine scope es = (do let _ ← Expr.evalAll engine scope es; return ()) := by
  induction es with
  | nil => rfl
  | cons e es ih =>
    cases es with
    | nil => simp [visit, Expr.evalAll]
    | cons e' es =>
      rw [Expr.evalAll]
      · rw [visit, ih]
        simp only [single, bind_assoc, pure_bind]
      · exact List.cons_ne_nil e' es

theorem Expr.evalAll_eq_error {es : List Expr} :
    Expr.evalAll engine scope es m = .error halt m' ↔
      visit engine scope es m = .error halt m' := by
  rw [visit_eq_evalAll, bind_eq_error]
  constructor
  · exact .inl
  · rintro (failed | ⟨vs, m₁, -, ⟨⟩⟩)
    exact failed

theorem Expr.visit_of_evalAll {es : List Expr} {vs : List Value}
    (done : Expr.evalAll engine scope es m = .ok vs m') : visit engine scope es m = .ok () m' := by
  rw [visit_eq_evalAll]
  exact bind_of_ok done

/-! ## Targets -/

/-- A target has no place: one of its operands fails, or the first is no table. -/
inductive Target.Unresolved (engine : Engine) (scope : Scope) (m : Machine) :
    Target → Halt → Machine → Prop
  | table {target key : Expr} {line : Nat} {halt : Halt} {m' : Machine} :
    target.eval engine scope m = .error halt m' →
    Unresolved engine scope m (.index target key line) halt m'
  | key {target key : Expr} {line : Nat} {halt : Halt} {m₁ m' : Machine} {t : Value} :
    target.eval engine scope m = .ok t m₁ → key.eval engine scope m₁ = .error halt m' →
    Unresolved engine scope m (.index target key line) halt m'
  | check {target key : Expr} {line : Nat} {m₁ m' : Machine} {t k : Value} {origin : Origin} :
    target.eval engine scope m = .ok t m₁ → key.eval engine scope m₁ = .ok k m' →
    t.compress.isTable = false → originOf scope target m' = .ok origin m' →
    Unresolved engine scope m (.index target key line)
      (.fault (.index t.compress.typeName origin) line) m'

theorem Eval.originOf_eq (scope : Scope) (e : Expr) (m : Machine) :
    ∃ origin, originOf scope e m = .ok origin m := by
  unfold originOf
  split <;> exact ⟨_, rfl⟩

namespace Target

variable {t : Target} {target key : Expr} {v k : Value} {m₂ : Machine}

/-- The last step of addressing: the value before the key has to be a table. -/
theorem place_cases (line : Nat) (onTarget : target.eval engine scope m = .ok v m₁)
    (onKey : key.eval engine scope m₁ = .ok k m₂) :
    (∃ id, v.compress = .ref (.table id) ∧
      (Target.index target key line).place engine scope m = .ok (.slot id k.compress) m₂) ∨
    v.compress.isTable = false ∧ ∀ origin, originOf scope target m₂ = .ok origin m₂ →
      (Target.index target key line).place engine scope m =
        .error (.fault (.index v.compress.typeName origin) line) m₂ := by
  rw [Target.place, bind_of_ok (single_of_ok onTarget),
    bind_of_ok (single_of_ok onKey)]
  generalize v.compress = w
  cases w with
  | ref r =>
    cases r with
    | table id => exact .inl ⟨id, rfl, rfl⟩
    | function id => exact .inr ⟨rfl, fun origin named => bind_of_ok named⟩
  | _ => exact .inr ⟨rfl, fun origin named => bind_of_ok named⟩

theorem place_eq_error :
    t.place engine scope m = .error halt m' ↔ Unresolved engine scope m t halt m' := by
  constructor
  · intro failed
    cases t with
    | name n line => cases failed
    | index target key line =>
      obtain failed' | ⟨_, m₁, first, rest⟩ := bind_eq_error.mp failed
      · exact .table (single_eq_error.mp failed')
      obtain ⟨v, onTarget, -⟩ := single_eq_ok.mp first
      obtain failed' | ⟨_, m₂, second, -⟩ := bind_eq_error.mp rest
      · exact .key onTarget (single_eq_error.mp failed')
      obtain ⟨k, onKey, -⟩ := single_eq_ok.mp second
      obtain ⟨id, -, resolved⟩ | ⟨none, unresolved⟩ := place_cases line onTarget onKey
      · cases resolved.symm.trans failed
      · obtain ⟨origin, named⟩ := originOf_eq scope target m₂
        cases (unresolved origin named).symm.trans failed
        exact .check onTarget onKey none named
  · intro unresolved
    cases unresolved with
    | table onTarget => exact bind_of_error _ (single_eq_error.mpr onTarget)
    | key onTarget onKey =>
      rw [Target.place, bind_of_ok (single_of_ok onTarget)]
      exact bind_of_error _ (single_eq_error.mpr onKey)
    | check onTarget onKey none named =>
      obtain ⟨id, same, -⟩ | ⟨-, unresolved⟩ := place_cases _ onTarget onKey
      · rw [same] at none
        cases none
      · exact unresolved _ named

theorem visit_of_place {place : Place} (resolved : t.place engine scope m = .ok place m') :
    visit engine scope t.operands m = .ok () m' := by
  cases t with
  | name n line =>
    cases resolved
    rfl
  | index target key line =>
    obtain ⟨_, m₁, first, rest⟩ := bind_eq_ok.mp resolved
    obtain ⟨v, onTarget, -⟩ := single_eq_ok.mp first
    obtain ⟨_, m₂, second, -⟩ := bind_eq_ok.mp rest
    obtain ⟨k, onKey, -⟩ := single_eq_ok.mp second
    obtain ⟨id, -, done⟩ | ⟨-, unresolved⟩ := place_cases line onTarget onKey
    · cases done.symm.trans resolved
      exact (bind_of_ok onTarget).trans (bind_of_ok onKey)
    · obtain ⟨origin, named⟩ := originOf_eq scope target m₂
      cases (unresolved origin named).symm.trans resolved

/-- A target that has no place has evaluated its operands, or those up to one that failed. -/
theorem Unresolved.visited (h : Unresolved engine scope m t halt m') :
    ∃ seen, seen <+: t.operands ∧ (visit engine scope seen).final m = m' := by
  cases h with
  | @table target key line _ _ onTarget =>
    exact ⟨[target], ⟨[key], rfl⟩, final_of_error (bind_of_error _ onTarget)⟩
  | @key target key line _ _ _ _ onTarget onKey =>
    have failed : visit engine scope [target, key] m = .error halt m' :=
      (bind_of_ok onTarget).trans (bind_of_error _ onKey)
    exact ⟨[target, key], List.prefix_rfl, final_of_error failed⟩
  | @check target key line _ _ _ _ _ onTarget onKey =>
    have visited : visit engine scope [target, key] m = .ok () m' :=
      (bind_of_ok onTarget).trans (bind_of_ok onKey)
    exact ⟨[target, key], List.prefix_rfl, final_of_ok visited⟩

/-- Of several targets the first without a place is the one at fault. -/
theorem places_eq_error {targets : List Target} :
    Target.places engine scope targets m = .error halt m' ↔
      ∃ before t after places m₁, targets = before ++ t :: after ∧
        Target.places engine scope before m = .ok places m₁ ∧
        Unresolved engine scope m₁ t halt m' := by
  induction targets generalizing m with
  | nil =>
    constructor
    · rintro ⟨⟩
    · rintro ⟨before, t, after, places, m₁, split, -⟩
      simp at split
  | cons t targets ih =>
    constructor
    · intro failed
      obtain failed' | ⟨place, m₁, first, rest⟩ := bind_eq_error.mp failed
      · exact ⟨[], t, targets, [], m, rfl, rfl, place_eq_error.mp failed'⟩
      obtain failed' | ⟨places, m₂, -, ⟨⟩⟩ := bind_eq_error.mp rest
      obtain ⟨before, t', after, places, m₂, rfl, resolved, unresolved⟩ := ih.mp failed'
      refine ⟨t :: before, t', after, place :: places, m₂, rfl, ?_, unresolved⟩
      exact (bind_of_ok first).trans (bind_of_ok resolved)
    · rintro ⟨before, t', after, places, m₁, split, resolved, unresolved⟩
      cases before with
      | nil =>
        obtain ⟨rfl, rfl⟩ := List.cons.inj split
        obtain ⟨-, rfl⟩ := pure_eq_ok.mp resolved
        exact bind_of_error _ (place_eq_error.mpr unresolved)
      | cons t'' before =>
        obtain ⟨rfl, rfl⟩ := List.cons.inj split
        obtain ⟨place, m₂, first, rest⟩ := bind_eq_ok.mp resolved
        obtain ⟨places', m₃, others, same⟩ := bind_eq_ok.mp rest
        obtain ⟨-, rfl⟩ := pure_eq_ok.mp same
        rw [Target.places, bind_of_ok first]
        exact bind_of_error _ (ih.mpr ⟨before, t', after, places', m₃, rfl, others, unresolved⟩)

theorem visit_of_places {targets : List Target} {places : List Place}
    (resolved : Target.places engine scope targets m = .ok places m') :
    visit engine scope (targets.flatMap operands) m = .ok () m' := by
  induction targets generalizing m places with
  | nil =>
    cases resolved
    rfl
  | cons t targets ih =>
    obtain ⟨place, m₁, first, rest⟩ := bind_eq_ok.mp resolved
    obtain ⟨others, m₂, resolved', same⟩ := bind_eq_ok.mp rest
    obtain ⟨-, rfl⟩ := pure_eq_ok.mp same
    rw [List.flatMap_cons, visit_append, bind_of_ok (visit_of_place first)]
    exact ih resolved'

theorem length_places {targets : List Target} {places : List Place}
    (resolved : Target.places engine scope targets m = .ok places m') :
    places.length = targets.length := by
  induction targets generalizing m places with
  | nil =>
    cases resolved
    rfl
  | cons t targets ih =>
    obtain ⟨place, m₁, -, rest⟩ := bind_eq_ok.mp resolved
    obtain ⟨others, m₂, resolved', same⟩ := bind_eq_ok.mp rest
    obtain ⟨rfl, rfl⟩ := pure_eq_ok.mp same
    rw [List.length_cons, List.length_cons, ih resolved']

end Target

/-! ## Assignments -/

/-- How an assignment fails, in which phase and in which machine. -/
inductive AssignFails (engine : Engine) (scope : Scope) (targets : List Target)
    (values : List Expr) (m : Machine) : Halt → Machine → Prop
  /-- A value fails after the values before it. -/
  | value {seen rest : List Expr} {e : Expr} {m₁ m' : Machine} {halt : Halt} :
    values = seen ++ e :: rest → visit engine scope seen m = .ok () m₁ →
    e.eval engine scope m₁ = .error halt m' → AssignFails engine scope targets values m halt m'
  /-- A target has no place; the values and the targets before it have been evaluated. -/
  | target {vs : List Value} {before after : List Target} {t : Target} {places : List Place}
      {m₁ m₂ m' : Machine} {halt : Halt} :
    Expr.evalAll engine scope values m = .ok vs m₁ → targets = before ++ t :: after →
    Target.places engine scope before m₁ = .ok places m₂ →
    t.Unresolved engine scope m₂ halt m' → AssignFails engine scope targets values m halt m'
  /-- A key cannot be written; the stores before it have been made, in order. -/
  | store {vs : List Value} {places : List Place} {before after : List (Place × Value)}
      {s : Place × Value} {m₁ m₂ : Machine} {error : RuntimeError} :
    Expr.evalAll engine scope values m = .ok vs m₁ →
    Target.places engine scope targets m₁ = .ok places m₂ →
    storesOf places vs = before ++ s :: after → (∀ b ∈ before, b.1.fault? = none) →
    s.1.fault? = some error →
    AssignFails engine scope targets values m (.fault error 0) (m₂.storedAll scope before)

theorem Stmt.assign_eq_error {targets : List Target} {values : List Expr} {line : Nat} :
    (Stmt.assign targets values line).exec engine scope m = .error halt m' ↔
      AssignFails engine scope targets values m halt m' := by
  rw [Stmt.exec]
  constructor
  · intro failed
    obtain failed' | ⟨vs, m₁, valued, rest⟩ := bind_eq_error.mp failed
    · obtain ⟨seen, e, rest, m₁, split, visited, failed⟩ :=
        visit_eq_error.mp (Expr.evalAll_eq_error.mp failed')
      exact .value split visited failed
    obtain failed' | ⟨places, m₂, resolved, rest⟩ := bind_eq_error.mp rest
    · obtain ⟨before, t, after, places, m₂, split, resolved, unresolved⟩ :=
        Target.places_eq_error.mp failed'
      exact .target valued split resolved unresolved
    obtain failed' | ⟨_, m₃, -, ⟨⟩⟩ := bind_eq_error.mp rest
    obtain ⟨before, s, after, error, split, writable, fault, rfl, rfl⟩ :=
      storeAll_eq_error.mp failed'
    exact .store valued resolved split writable fault
  · intro fails
    cases fails with
    | value split visited failed =>
      refine bind_of_error _ (Expr.evalAll_eq_error.mpr (visit_eq_error.mpr ?_))
      exact ⟨_, _, _, _, split, visited, failed⟩
    | target valued split resolved unresolved =>
      refine (bind_of_ok valued).trans (bind_of_error _ (Target.places_eq_error.mpr ?_))
      exact ⟨_, _, _, _, _, split, resolved, unresolved⟩
    | store valued resolved split writable fault =>
      refine (bind_of_ok valued).trans ((bind_of_ok resolved).trans (bind_of_error _ ?_))
      exact storeAll_of_fault split writable fault _

theorem Stmt.assign_eq_ok {targets : List Target} {values : List Expr} {line : Nat}
    {out : Signal × Scope} :
    (Stmt.assign targets values line).exec engine scope m = .ok out m' ↔
      ∃ vs m₁ places m₂, Expr.evalAll engine scope values m = .ok vs m₁ ∧
        Target.places engine scope targets m₁ = .ok places m₂ ∧
        (∀ s ∈ storesOf places vs, s.1.fault? = none) ∧ out = (.normal, scope) ∧
        m' = m₂.storedAll scope (storesOf places vs) := by
  rw [Stmt.exec]
  constructor
  · intro done
    obtain ⟨vs, m₁, valued, rest⟩ := bind_eq_ok.mp done
    obtain ⟨places, m₂, resolved, rest⟩ := bind_eq_ok.mp rest
    obtain ⟨_, m₃, stored, same⟩ := bind_eq_ok.mp rest
    obtain ⟨rfl, rfl⟩ := pure_eq_ok.mp same
    obtain ⟨writable, rfl⟩ := storeAll_eq_ok.mp stored
    exact ⟨vs, m₁, places, m₂, valued, resolved, writable, rfl, rfl⟩
  · rintro ⟨vs, m₁, places, m₂, valued, resolved, writable, rfl, rfl⟩
    refine (bind_of_ok valued).trans ((bind_of_ok resolved).trans ?_)
    exact bind_of_ok (storeAll_of_writable writable m₂)

theorem Eval.closureOf_eq (scope : Scope) (function : Lambda) (m : Machine) :
    ∃ id m', closureOf scope function m = .ok (.ref (.function id)) m' := by
  cases function with
  | mk params body name line => exact ⟨m.functions.size, _, rfl⟩

theorem Eval.storeAll_single (scope : Scope) (place : Place) (v : Value) :
    storeAll scope [place] (Value.adjust [v] [place].length) = store scope place v := by
  have one : Value.adjust [v] [place].length = [v] := rfl
  rw [one, storeAll]
  exact bind_pure_unit

/-- A declaration assigns its function to its target. -/
theorem Stmt.exec_functionDecl (target : Target) (function : Lambda) (line : Nat) :
    (Stmt.functionDecl target function line).exec engine scope =
      (Stmt.assign [target] [.function function] line).exec engine scope := by
  funext m
  obtain ⟨id, m', created⟩ := closureOf_eq scope function m
  have valued : Expr.evalAll engine scope [.function function] m =
      .ok [.ref (.function id)] m' := bind_of_ok created
  rw [Stmt.exec, Stmt.exec, bind_of_ok created, bind_of_ok valued, Target.places, Target.places]
  simp only [bind_assoc, pure_bind, storeAll_single]

/-- Before its first store an assignment has done nothing but evaluate operands, in order. -/
theorem early_of_unresolved {targets : List Target} {values : List Expr}
    (failed : Expr.evalAll engine scope values m = .error halt m' ∨
      ∃ vs m₁, Expr.evalAll engine scope values m = .ok vs m₁ ∧
        Target.places engine scope targets m₁ = .error halt m') :
    ∃ seen, seen <+: values ++ targets.flatMap Target.operands ∧
      (visit engine scope seen).final m = m' := by
  obtain failed | ⟨vs, m₁, valued, failed⟩ := failed
  · exact ⟨values, List.prefix_append values _, final_of_error (Expr.evalAll_eq_error.mp failed)⟩
  · obtain ⟨before, t, after, places, m₂, rfl, resolved, unresolved⟩ :=
      Target.places_eq_error.mp failed
    obtain ⟨seen, partly, ends⟩ := unresolved.visited
    refine ⟨values ++ (before.flatMap Target.operands ++ seen), ?_, ?_⟩
    · rw [List.flatMap_append, List.flatMap_cons]
      exact (List.prefix_append_right_inj _).mpr <|
        (List.prefix_append_right_inj _).mpr (partly.trans (List.prefix_append _ _))
    · rw [final_visit_append (Expr.visit_of_evalAll valued),
        final_visit_append (Target.visit_of_places resolved), ends]

/-- The statement stores after everything else, and its stores one after another. -/
structure StoresLast (engine : Engine) (scope : Scope) (targets : List Target)
    (values : List Expr) (x : Eval (Signal × Scope)) : Prop where
  fails : ∀ m halt m', x m = .error halt m' ↔ AssignFails engine scope targets values m halt m'
  /-- A value or a target fails: nothing is left behind but what operands have done. -/
  early : ∀ m halt m', (Expr.evalAll engine scope values m = .error halt m' ∨
      ∃ vs m₁, Expr.evalAll engine scope values m = .ok vs m₁ ∧
        Target.places engine scope targets m₁ = .error halt m') →
    x m = .error halt m' ∧ ∃ seen, seen <+: values ++ targets.flatMap Target.operands ∧
      (visit engine scope seen).final m = m'
  /-- A store fails: the stores before it are all that has been made. -/
  late : ∀ m vs m₁ places m₂, Expr.evalAll engine scope values m = .ok vs m₁ →
    Target.places engine scope targets m₁ = .ok places m₂ →
    ∀ before s after error, storesOf places vs = before ++ s :: after →
      (∀ b ∈ before, b.1.fault? = none) → s.1.fault? = some error →
      ∃ m', x m = .error (.fault error 0) m' ∧ m' = m₂.storedAll scope before ∧
        (∀ id, (∀ b ∈ before, ∀ key, b.1 ≠ .slot id key) → m'.tables[id]? = m₂.tables[id]?) ∧
        ∀ name, (∀ b ∈ before, b.1 ≠ .variable name) → ∀ id,
          (m'.frames.bindings id).lookup name = (m₂.frames.bindings id).lookup name

theorem Stmt.storesLast_assign (targets : List Target) (values : List Expr) (line : Nat) :
    StoresLast engine scope targets values
      ((Stmt.assign targets values line).exec engine scope) where
  fails _ _ _ := assign_eq_error
  early m halt m' failed := by
    refine ⟨?_, early_of_unresolved failed⟩
    rw [Stmt.exec]
    obtain failed | ⟨vs, m₁, valued, failed⟩ := failed
    · exact bind_of_error _ failed
    · exact (bind_of_ok valued).trans (bind_of_error _ failed)
  late m vs m₁ places m₂ valued resolved before s after error split writable fault :=
    ⟨_, assign_eq_error.mpr (.store valued resolved split writable fault), rfl,
      fun _ elsewhere => Machine.tables_storedAll elsewhere m₂,
      fun _ elsewhere id => Machine.lookup_storedAll elsewhere id m₂⟩

/-- Assignments and declarations store after everything else: a failure before the first store
leaves nothing stored, and a store that fails leaves those before it. -/
theorem assignments_store_last (engine : Engine) (scope : Scope) :
    (∀ targets values line, StoresLast engine scope targets values
      ((Stmt.assign targets values line).exec engine scope)) ∧
    ∀ target function line, StoresLast engine scope [target] [.function function]
      ((Stmt.functionDecl target function line).exec engine scope) := by
  refine ⟨Stmt.storesLast_assign, fun target function line => ?_⟩
  rw [Stmt.exec_functionDecl]
  exact Stmt.storesLast_assign [target] [.function function] line

end

end MiniLua
