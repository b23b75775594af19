import MiniLua.Eval.Program
import MiniLua.Proofs.Running.Texts
import MiniLua.Proofs.Scoping.Names
import MiniLua.Proofs.Table.Contents

/-!
# What a run holds

Variables and tables hold single values, whose texts can be built from given ones, and functions
have no other strings in their bodies. Reading and writing keep it so, whatever the keys.
-/

namespace MiniLua

variable {given : List String}

/-- A single value; a text is one that can be built. -/
def Value.Within (given : List String) : Value → Prop
  | .string text => Built given text
  | .list _ => False
  | _ => True

namespace Value

variable {v : Value} {vs : List Value}

/-- The values of a result: those of a list, or the value itself. -/
def Spreads (given : List String) (v : Value) : Prop := ∀ w ∈ v.expand, w.Within given

theorem within_nil : nil.Within given := trivial

theorem Within.spreads (h : v.Within given) : v.Spreads given := by
  cases v with
  | list vs => exact h.elim
  | _ => exact List.forall_mem_singleton.mpr h

theorem Spreads.compress (h : v.Spreads given) : v.compress.Within given := by
  cases v with
  | list vs =>
    cases vs with
    | nil => trivial
    | cons v vs => exact h v List.mem_cons_self
  | _ => exact List.forall_mem_singleton.mp h

theorem within_adjust (h : ∀ v ∈ vs, v.Within given) (count : Nat) :
    ∀ v ∈ adjust vs count, v.Within given := by
  refine List.forall_mem_append.mpr ⟨fun v member => h v (List.take_subset _ _ member), ?_⟩
  intro v member
  rw [List.eq_of_mem_replicate member]
  trivial

/-! ## Operators -/

theorem toNumber?_eq_error {fault : Number.NumeralFault} :
    v.toNumber? = .error fault ↔ ∃ text, v = .string text ∧ Oversize text := by
  cases fault
  cases v with
  | string text =>
    constructor
    · exact fun large => ⟨text, rfl, large⟩
    · rintro ⟨text', same, large⟩
      cases same
      exact large
  | _ =>
    constructor
    · exact nofun
    · rintro ⟨text, same, -⟩
      cases same

theorem arithOperand_eq_numeral {side : Side} {fault : Number.NumeralFault}
    (h : arithOperand side v = .error (.numeral fault)) :
    ∃ text, v = .string text ∧ Oversize text := by
  unfold arithOperand at h
  split at h
  next large => exact toNumber?_eq_error.mp large
  next => cases h
  next => cases h

theorem concatOperand_ne_numeral {side : Side} {fault : Number.NumeralFault} :
    concatOperand side v ≠ .error (.numeral fault) := by
  cases v <;> nofun

theorem less_ne_numeral {a b : Value} {fault : Number.NumeralFault} :
    less a b ≠ .error (.numeral fault) := by
  unfold less
  split <;> nofun

theorem lessEq_ne_numeral {a b : Value} {fault : Number.NumeralFault} :
    lessEq a b ≠ .error (.numeral fault) := by
  unfold lessEq
  split <;> nofun

section

variable {a b : Value}

theorem arith_cases (op : ArithOp) (a b : Value) :
    (∃ x, arith op a b = .ok (number x)) ∨
      ∃ e, arith op a b = .error e ∧
        (arithOperand .left a = .error e ∨ arithOperand .right b = .error e) := by
  unfold arith
  cases arithOperand .left a with
  | error e => exact .inr ⟨e, rfl, .inl rfl⟩
  | ok x =>
    cases arithOperand .right b with
    | error e => exact .inr ⟨e, rfl, .inr rfl⟩
    | ok y => exact .inl ⟨_, rfl⟩

theorem concat_cases (a b : Value) :
    (∃ s t, concatOperand .left a = .ok s ∧ concatOperand .right b = .ok t ∧
      concat a b = .ok (string (s ++ t))) ∨
      ∃ e, concat a b = .error e ∧
        (concatOperand .left a = .error e ∨ concatOperand .right b = .error e) := by
  unfold concat
  cases concatOperand .left a with
  | error e => exact .inr ⟨e, rfl, .inl rfl⟩
  | ok s =>
    cases concatOperand .right b with
    | error e => exact .inr ⟨e, rfl, .inr rfl⟩
    | ok t => exact .inl ⟨s, t, rfl, rfl, rfl⟩

theorem compare_cases (x : Except OperatorFault Bool) :
    (∃ c, x.map bool = .ok (bool c)) ∨ ∃ e, x.map bool = .error e ∧ x = .error e := by
  cases x with
  | ok c => exact .inl ⟨c, rfl⟩
  | error e => exact .inr ⟨e, rfl, rfl⟩

/-- An operator crashes only on an operand that is an oversize text. -/
theorem binary_eq_numeral {op : BinaryOp} {fault : Number.NumeralFault}
    (h : binary op a b = .error (.numeral fault)) :
    ∃ text, (a = .string text ∨ b = .string text) ∧ Oversize text := by
  have compared {x : Except OperatorFault Bool} (other : x ≠ .error (.numeral fault))
      (h : x.map bool = .error (.numeral fault)) : False := by
    rcases compare_cases x with ⟨c, same⟩ | ⟨e, same, at_fault⟩
    · cases same.symm.trans h
    · cases same.symm.trans h
      exact other at_fault
  cases op with
  | arith op =>
    rcases arith_cases op a b with ⟨x, same⟩ | ⟨e, same, at_fault⟩
    · cases same.symm.trans h
    · cases same.symm.trans h
      rcases at_fault with left | right
      · obtain ⟨text, same, large⟩ := arithOperand_eq_numeral left
        exact ⟨text, .inl same, large⟩
      · obtain ⟨text, same, large⟩ := arithOperand_eq_numeral right
        exact ⟨text, .inr same, large⟩
  | concat =>
    rcases concat_cases a b with ⟨s, t, -, -, same⟩ | ⟨e, same, at_fault⟩
    · cases same.symm.trans h
    · cases same.symm.trans h
      exact (at_fault.elim concatOperand_ne_numeral concatOperand_ne_numeral).elim
  | eq => cases h
  | ne => cases h
  | lt => exact (compared less_ne_numeral h).elim
  | gt => exact (compared less_ne_numeral h).elim
  | le => exact (compared lessEq_ne_numeral h).elim
  | ge => exact (compared lessEq_ne_numeral h).elim

theorem built_of_concatOperand {side : Side} {text : String} (h : v.Within given)
    (read : concatOperand side v = .ok text) : Built given text := by
  cases v with
  | string s =>
    cases read
    exact h
  | number x =>
    cases read
    exact .display x
  | _ => cases read

/-- An operator gives a number, a truth value or a text put together from its operands. -/
theorem within_binary {op : BinaryOp} (left : a.Within given) (right : b.Within given)
    (h : binary op a b = .ok v) : v.Within given := by
  have compared {x : Except OperatorFault Bool} (h : x.map bool = .ok v) : v.Within given := by
    rcases compare_cases x with ⟨c, same⟩ | ⟨e, same, -⟩
    · cases same.symm.trans h
      trivial
    · cases same.symm.trans h
  cases op with
  | arith op =>
    rcases arith_cases op a b with ⟨x, same⟩ | ⟨e, same, -⟩
    · cases same.symm.trans h
      trivial
    · cases same.symm.trans h
  | concat =>
    rcases concat_cases a b with ⟨s, t, first, second, same⟩ | ⟨e, same, -⟩
    · cases same.symm.trans h
      exact .append (built_of_concatOperand left first) (built_of_concatOperand right second)
    · cases same.symm.trans h
  | eq =>
    cases h
    trivial
  | ne =>
    cases h
    trivial
  | lt => exact compared h
  | gt => exact compared h
  | le => exact compared h
  | ge => exact compared h

end

end Value

/-! ## Tables -/

namespace Table

/-- Keys and values of a table. -/
structure Within (given : List String) (t : Table) : Prop where
  array : ∀ v ∈ t.array, v.Within given
  entries : ∀ e ∈ t.entries, e.1.Within given ∧ e.2.Within given

variable {t : Table} {k v : Value}

theorem within_iff : t.Within given ↔ t.Holds (·.Within given) :=
  ⟨fun h => ⟨h.array, h.entries⟩, fun h => ⟨h.array, h.entries⟩⟩

theorem within_empty : Within given empty := ⟨nofun, nofun⟩

theorem within_positionKey (n : Nat) : (positionKey n).Within given := trivial

theorem within_get (h : t.Within given) (k : Value) : (t.get k).Within given :=
  (within_iff.mp h).get Value.within_nil k

theorem within_insert (h : t.Within given) (key : k.Within given) (value : v.Within given) :
    (t.insert k v).Within given :=
  within_iff.mpr ((within_iff.mp h).insert within_positionKey key value)

theorem within_items (h : t.Within given) :
    ∀ e ∈ t.items, e.1.Within given ∧ e.2.Within given :=
  (within_iff.mp h).items within_positionKey

end Table

theorem Eval.within_putValues {t : Table} {vs : List Value} (h : t.Within given)
    (values : ∀ v ∈ vs, v.Within given) (position : Nat) :
    (putValues t position vs).Within given := by
  induction vs generalizing t position with
  | nil => exact h
  | cons v vs ih =>
    obtain ⟨first, rest⟩ := List.forall_mem_cons.mp values
    exact ih (Table.within_insert h (Table.within_positionKey position) first) rest (position + 1)

/-! ## Frames -/

namespace Bindings

def Within (given : List String) (bs : Bindings) : Prop := ∀ b ∈ bs, b.2.Within given

variable {bs : Bindings} {v : Value}

theorem within_nil : Within given [] := nofun

theorem within_single (name : String) (h : v.Within given) : Within given [(name, v)] :=
  List.forall_mem_singleton.mpr h

theorem within_ofLists (names : List String) {values : List Value}
    (h : ∀ v ∈ values, v.Within given) : (ofLists names values).Within given :=
  forall_ofLists names h

end Bindings

namespace Frames

variable {fs : Frames}

theorem within_lookup (h : ∀ bs ∈ fs, Bindings.Within given bs) (scope : Scope) (name : String) :
    (fs.lookup scope name).Within given :=
  forall_lookup h Value.within_nil scope name

theorem within_assign (h : ∀ bs ∈ fs, Bindings.Within given bs) (scope : Scope) (name : String)
    {v : Value} (value : v.Within given) : ∀ bs ∈ fs.assign scope name v, bs.Within given :=
  forall_assign h scope name value

end Frames

/-! ## Machines -/

/-- Every value that is stored, and every string in the body of a function. -/
structure Machine.Within (given : List String) (m : Machine) : Prop where
  frames : ∀ bs ∈ m.frames, Bindings.Within given bs
  tables : ∀ t ∈ m.tables, t.Within given
  functions : ∀ f ∈ m.functions, ∀ text ∈ f.body.texts, text ∈ given

namespace Machine

variable {m : Machine}

theorem Within.table (h : m.Within given) (id : Nat) :
    (m.tables.getD id .empty).Within given := by
  rw [Array.getD_eq_getD_getElem?]
  cases found : m.tables[id]? with
  | none => exact Table.within_empty
  | some t => exact h.tables t (Array.mem_of_getElem? found)

theorem Within.function (h : m.Within given) (id : Nat) :
    ∀ text ∈ (m.functions.getD id default).body.texts, text ∈ given := by
  rw [Array.getD_eq_getD_getElem?]
  cases found : m.functions[id]? with
  | none => exact nofun
  | some f => exact h.functions f (Array.mem_of_getElem? found)

theorem within_initial (tracing : Bool) : (Machine.initial tracing).Within given where
  frames := by
    refine fun bs member b bound => ?_
    obtain rfl : bs = _ := Array.mem_singleton.mp member
    obtain ⟨builtin, -, rfl⟩ := List.mem_map.mp bound
    trivial
  tables := nofun
  functions := nofun

end Machine

end MiniLua
