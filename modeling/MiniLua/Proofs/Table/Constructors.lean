import MiniLua.Proofs.Number.Whole
import MiniLua.Proofs.Running.Sequencing
import MiniLua.Proofs.Table.Length

/-!
# Table constructors

What the fields give is evaluated without the table. The table is then the one that the writes of
these values make of the empty one, in the order of the fields: values without a key are numbered,
those with a key are not counted.
-/

namespace MiniLua

/-- What a field gives to a table: a value alone, or one under a key of its own. -/
inductive Given where
  | positional (value : Value)
  | keyed (key value : Value)

namespace Given

/-- The writes of what is given; the values alone are numbered on from a position. -/
def writes : Nat → List Given → List (Value × Value)
  | _, [] => []
  | n, .positional v :: given => (Table.positionKey n, v) :: writes (n + 1) given
  | n, .keyed k v :: given => (k, v) :: writes n given

end Given

open Eval Given

section

variable (engine : Engine) (scope : Scope)

/-- What fields give, from left to right: a field without a key gives one value, and all of its
values if it is the last field. -/
def Field.givenAll : List Field → Eval (List Given)
  | [] => return []
  | [.positional e _] => do return (← e.eval engine scope).expand.map .positional
  | .positional e _ :: fields => do
    let v ← single (e.eval engine scope)
    let given ← givenAll fields
    return .positional v :: given
  | .keyed key value _ :: fields => do
    let k ← single (key.eval engine scope)
    let v ← single (value.eval engine scope)
    let given ← givenAll fields
    return .keyed k v :: given

end

namespace Table

def insertAll (t : Table) (ws : List (Value × Value)) : Table := ws.foldl (fun t w => t.insert w.1 w.2) t

/-- A map from keys to values with one entry changed: nil is what a key without a value reads. -/
def updated (reads : Value → Value) (w : Value × Value) : Value → Value :=
  fun k => if w.1.rawEq k then w.2 else reads k

theorem Proper.insertAll {t : Table} (proper : t.Proper) {ws : List (Value × Value)}
    (allowed : ∀ w ∈ ws, keyFault? w.1 = none) :
    (t.insertAll ws).Proper ∧ ∀ k, (t.insertAll ws).get k = ws.foldl updated t.get k := by
  induction ws generalizing t with
  | nil => exact ⟨proper, fun _ => rfl⟩
  | cons w ws ih =>
    have first := allowed w List.mem_cons_self
    have reads : (t.insert w.1 w.2).get = updated t.get w :=
      funext (proper.write first w.2).1.reads
    have rest := ih (proper.insert first w.2) fun w' h => allowed w' (List.mem_cons_of_mem w h)
    rw [reads] at rest
    exact rest

end Table

section

open Table

variable {engine : Engine} {scope : Scope}

theorem putValues_eq (t : Table) (position : Nat) (vs : List Value) :
    putValues t position vs = t.insertAll (writes position (vs.map .positional)) := by
  induction vs generalizing t position with
  | nil => rfl
  | cons v vs ih => exact ih (t.insert (positionKey position) v) (position + 1)

theorem allowed_positional (position : Nat) (vs : List Value) :
    ∀ w ∈ writes position (vs.map .positional), keyFault? w.1 = none := by
  induction vs generalizing position with
  | nil => exact List.forall_mem_nil _
  | cons v vs ih =>
    intro w h
    rcases List.mem_cons.mp h with rfl | h
    · exact keyFault?_positionKey position
    · exact ih (position + 1) w h

/-- Filling a table is evaluating the fields and then writing what they give. -/
theorem Field.evalAll_eq_ok {fields : List Field} {position : Nat} {t t' : Table} {m m' : Machine}
    (done : Field.evalAll engine scope fields position t m = .ok t' m') :
    ∃ given, Field.givenAll engine scope fields m = .ok given m' ∧
      (∀ w ∈ writes position given, keyFault? w.1 = none) ∧
      t' = t.insertAll (writes position given) := by
  induction fields generalizing position t m with
  | nil =>
    rw [Field.evalAll] at done
    obtain ⟨rfl, rfl⟩ := pure_eq_ok.mp done
    exact ⟨[], rfl, List.forall_mem_nil _, rfl⟩
  | cons field fields ih =>
    cases field with
    | positional e line =>
      cases fields with
      | nil =>
        rw [Field.evalAll] at done
        obtain ⟨v, evaluated, rfl⟩ := map_eq_ok.mp done
        refine ⟨v.expand.map .positional, ?_, allowed_positional position v.expand,
          putValues_eq t position v.expand⟩
        rw [Field.givenAll]
        exact map_eq_ok.mpr ⟨v, evaluated, rfl⟩
      | cons next fields =>
        rw [Field.evalAll] at done
        · obtain ⟨v, m₁, evaluated, rest⟩ := bind_eq_ok.mp done
          obtain ⟨given, gives, allowed, rfl⟩ := ih rest
          refine ⟨.positional v :: given, ?_, ?_, rfl⟩
          · rw [Field.givenAll]
            · exact (bind_of_ok evaluated).trans ((bind_of_ok gives).trans rfl)
            · exact List.cons_ne_nil _ _
          · intro w h
            rcases List.mem_cons.mp h with rfl | h
            · exact keyFault?_positionKey position
            · exact allowed w h
        · exact List.cons_ne_nil _ _
    | keyed key value line =>
      rw [Field.evalAll] at done
      obtain ⟨k, m₁, evaluated, done⟩ := bind_eq_ok.mp done
      obtain ⟨v, m₂, evaluated', done⟩ := bind_eq_ok.mp done
      cases fault : keyFault? k with
      | some e =>
        simp only [Table.set, fault] at done
        rw [atLine_eq_ok] at done
        cases done
      | none =>
        simp only [Table.set, fault] at done
        obtain ⟨given, gives, allowed, rfl⟩ := ih done
        refine ⟨.keyed k v :: given, ?_, ?_, rfl⟩
        · rw [Field.givenAll]
          exact (bind_of_ok evaluated).trans
            ((bind_of_ok evaluated').trans ((bind_of_ok gives).trans rfl))
        · intro w h
          rcases List.mem_cons.mp h with rfl | h
          · exact fault
          · exact allowed w h

/-! ## Values without keys -/

theorem givenAll_positional {fields : List Field} (unkeyed : ∀ f ∈ fields, ∃ e l, f = .positional e l)
    {given : List Given} {m m' : Machine}
    (gives : Field.givenAll engine scope fields m = .ok given m') :
    ∃ vs : List Value, given = vs.map .positional := by
  induction fields generalizing given m with
  | nil =>
    rw [Field.givenAll] at gives
    obtain ⟨rfl, -⟩ := pure_eq_ok.mp gives
    exact ⟨[], rfl⟩
  | cons field fields ih =>
    obtain ⟨e, line, rfl⟩ := unkeyed field List.mem_cons_self
    cases fields with
    | nil =>
      rw [Field.givenAll] at gives
      obtain ⟨v, -, rfl⟩ := map_eq_ok.mp gives
      exact ⟨v.expand, rfl⟩
    | cons next fields =>
      rw [Field.givenAll] at gives
      · obtain ⟨v, m₁, -, rest⟩ := bind_eq_ok.mp gives
        obtain ⟨later, given', rfl⟩ := map_eq_ok.mp rest
        obtain ⟨vs, rfl⟩ := ih (fun f h => unkeyed f (List.mem_cons_of_mem _ h)) given'
        exact ⟨v :: vs, rfl⟩
      · exact List.cons_ne_nil _ _

end

namespace Table

/-- The rounded key of a number beyond `2 ^ 53` does not fall below it. -/
theorem le_of_position?_positionKey {n p : Nat} (large : 2 ^ 53 ≤ n)
    (position : position? (positionKey n) = some p) : 2 ^ 53 ≤ p := by
  obtain ⟨m, e, hm, unpacked, full, -, whole⟩ := (position?_number_eq_some_iff _ p).mp position
  have bits : 53 ≤ n.log2 := (Nat.le_log2 (by omega)).mpr large
  have logs := Number.log2_mul_two_pow (m := n) (by omega) 53
  obtain ⟨m', e', hm', rounded, full', atLeast, -⟩ :=
    Number.roundWithAccuracy_full .positive (m := n * 2 ^ 53) (e := -53) (by omega)
      (by simp only [Float.Model.totalExponent]; omega)
  simp only [Float.Model.totalExponent] at atLeast
  rw [Number.ofNat_eq_pack (by omega) (by omega), rounded] at unpacked
  change (Float.Model.pack (.finite .positive m' e' hm')).unpack = _ at unpacked
  by_cases high : e' ≤ 971
  · rw [Number.unpack_pack_normal hm' full' (by omega) high] at unpacked
    obtain ⟨-, rfl, rfl⟩ := Float.Model.UnpackedFloat.finite.inj unpacked
    have upward : (-e').toNat = 0 := by omega
    have mantissa : 2 ^ 52 ≤ m' := (Nat.le_log2 (by omega)).mp (by omega)
    rw [upward, Nat.pow_zero, Nat.mul_one] at whole
    calc 2 ^ 53 = 2 ^ 52 * 2 ^ 1 := by decide
      _ ≤ m' * 2 ^ e'.toNat := Nat.mul_le_mul mantissa (Nat.pow_le_pow_right (by decide) (by omega))
      _ = p := whole
  · rw [Number.unpack_pack_overflow hm' (by omega)] at unpacked
    cases unpacked

/-- The keys of two positions are equal only if rounding makes them so. -/
theorem positionKey_apart {p n : Nat} (hp : 0 < p) (before : p < n)
    (near : n ≤ 2 ^ 53 ∨ p < 2 ^ 53) : (positionKey n).rawEq (positionKey p) = false := by
  rw [Bool.eq_false_iff]
  intro same
  have position := (rawEq_positionKey hp (by omega) _).mp same
  by_cases small : n ≤ 2 ^ 53
  · rw [position?_positionKey (by omega) small] at position
    cases position
    omega
  · have := le_of_position?_positionKey (by omega) position
    omega

section

variable {reads : Value → Value} {k : Value}

theorem updated_elsewhere {ws : List (Value × Value)} (elsewhere : ∀ w ∈ ws, w.1.rawEq k = false) :
    ws.foldl updated reads k = reads k := by
  induction ws generalizing reads with
  | nil => rfl
  | cons w ws ih =>
    rw [List.foldl_cons, ih fun w' h => elsewhere w' (List.mem_cons_of_mem w h), updated,
      elsewhere w List.mem_cons_self]
    rfl

theorem mem_writes_positional {n : Nat} {vs : List Value} {w : Value × Value}
    (h : w ∈ writes n (vs.map .positional)) : ∃ i < vs.length, w.1 = positionKey (n + i) := by
  induction vs generalizing n with
  | nil => cases h
  | cons v vs ih =>
    rcases List.mem_cons.mp h with rfl | h
    · exact ⟨0, by simp, rfl⟩
    · obtain ⟨i, hi, key⟩ := ih h
      exact ⟨i + 1, by simpa using hi, by rw [key]; congr 1; omega⟩

/-- A position reads its value if no position after it has an equal key. -/
theorem updated_positional {n i : Nat} {vs : List Value} (hi : i < vs.length)
    (same : (positionKey (n + i)).rawEq k = true)
    (last : ∀ j, i < j → j < vs.length → (positionKey (n + j)).rawEq k = false) :
    (writes n (vs.map .positional)).foldl updated reads k = vs[i] := by
  induction vs generalizing n i reads with
  | nil => cases hi
  | cons v vs ih =>
    cases i with
    | zero =>
      have elsewhere : ∀ w ∈ writes (n + 1) (vs.map .positional), w.1.rawEq k = false := by
        intro w h
        obtain ⟨j, hj, key⟩ := mem_writes_positional h
        have := last (j + 1) (by omega) (by simpa using hj)
        rwa [key, Nat.add_right_comm]
      exact (updated_elsewhere elsewhere).trans (if_pos same)
    | succ i =>
      have shift (j : Nat) : n + 1 + j = n + (j + 1) := by omega
      refine ih (by simpa using hi) ?_ ?_
      · rwa [shift]
      · intro j before within
        rw [shift]
        exact last (j + 1) (by omega) (by simpa using within)

end

/-- The table holds these values at its first positions and nothing else. Positions count as far as
doubles tell them apart. -/
structure Lists (t : Table) (vs : List Value) : Prop where
  position : ∀ i (h : i < vs.length), vs.length ≤ 2 ^ 53 ∨ i + 1 < 2 ^ 53 →
    t.get (positionKey (i + 1)) = vs[i]
  elsewhere : ∀ k, (∀ i < vs.length, (positionKey (i + 1)).rawEq k = false) → t.get k = .nil
  /-- The length is the number of values in front of the first nil. -/
  length : vs.length ≤ 2 ^ 53 ∨ vs.findIdx Value.isNil + 1 < 2 ^ 53 →
    t.length = vs.findIdx Value.isNil

theorem Proper.lists {t : Table} (proper : t.Proper) {vs : List Value}
    (reads : ∀ k, t.get k = (writes 1 (vs.map .positional)).foldl updated (fun _ => .nil) k) :
    t.Lists vs := by
  have position : ∀ i (h : i < vs.length), vs.length ≤ 2 ^ 53 ∨ i + 1 < 2 ^ 53 →
      t.get (positionKey (i + 1)) = vs[i] := by
    intro i h near
    rw [reads]
    refine updated_positional h ?_ ?_
    · rw [Nat.add_comm]
      exact (rawEq_positionKey (by omega) (by omega) _).mpr (position?_positionKey (by omega) (by omega))
    · intro j before within
      exact positionKey_apart (by omega) (by omega) (by omega)
  have elsewhere : ∀ k, (∀ i < vs.length, (positionKey (i + 1)).rawEq k = false) → t.get k = .nil := by
    intro k none
    rw [reads, updated_elsewhere]
    intro w h
    obtain ⟨i, hi, key⟩ := mem_writes_positional h
    rw [key, Nat.add_comm]
    exact none i hi
  refine ⟨position, elsewhere, fun near => ?_⟩
  have fits := proper.fits
  have within : vs.findIdx Value.isNil ≤ vs.length := List.findIdx_le_length
  rcases lt_trichotomy t.length (vs.findIdx Value.isNil) with short | same | long
  · -- the first key after the array reads a value that is not nil
    have after := get_after_length proper.toValid (by omega)
    rw [position t.length (by omega) (by omega)] at after
    have := List.not_of_lt_findIdx short
    rw [after] at this
    cases this
  · exact same
  · -- a key inside the array reads nil
    rw [length] at long
    have inside := proper.get_inside_length (n := vs.findIdx Value.isNil) long
    rcases Nat.lt_or_eq_of_le within with found | none
    · rw [position _ found (by omega)] at inside
      exact absurd (Value.isNil_eq_true.mp (List.findIdx_getElem (w := found))) inside
    · rw [none] at inside long
      refine absurd (elsewhere _ fun i hi => ?_) inside
      rw [Value.rawEq_comm]
      exact positionKey_apart (by omega) (by omega) (by omega)

end Table

open Table

/-- A constructor writes what its fields give in the order of the source. Without keys it lists the
values. -/
theorem table_constructed (engine : Engine) (scope : Scope) (fields : List Field) (line : Nat)
    (m m' : Machine) (v : Value) (done : (Expr.table fields line).eval engine scope m = .ok v m') :
    ∃ given m₁ t, Field.givenAll engine scope fields m = .ok given m₁ ∧
      v = .ref (.table m₁.tables.size) ∧ m' = { m₁ with tables := m₁.tables.push t } ∧
      (∀ k, t.get k = (writes 1 given).foldl updated (fun _ => .nil) k) ∧
      ((∀ f ∈ fields, ∃ e l, f = .positional e l) →
        ∃ vs : List Value, given = vs.map .positional ∧ t.Lists vs) := by
  rw [Expr.eval] at done
  obtain ⟨t, m₁, filled, created⟩ := bind_eq_ok.mp done
  obtain ⟨given, gives, allowed, rfl⟩ := Field.evalAll_eq_ok filled
  obtain ⟨proper, reads⟩ := proper_empty.insertAll allowed
  rw [funext get_empty] at reads
  cases created
  refine ⟨given, m₁, _, gives, rfl, rfl, reads, fun unkeyed => ?_⟩
  obtain ⟨vs, rfl⟩ := givenAll_positional unkeyed gives
  exact ⟨vs, rfl, proper.lists reads⟩

/-- The constructor `{"a", nil, [1] = "z", "c"}`. -/
def mixedFields : List Field :=
  [.positional (.string "a" 1) 1, .positional (.nil 1) 1,
    .keyed (.number 1 1) (.string "z" 1) 1, .positional (.string "c" 1) 1]

theorem table_constructed_mixed :
    ∃ v m' t, (Expr.table mixedFields 1).eval (engine 1 1) [] (Machine.initial false) = .ok v m' ∧
      m'.tables = #[t] ∧ t.get (.number 1) = .string "z" ∧ t.get (.number 2) = .nil ∧
      t.get (.number 3) = .string "c" := by
  obtain ⟨given, m₁, t, gives, -, state, reads, -⟩ :=
    table_constructed (engine 1 1) [] mixedFields 1 (Machine.initial false) _ _ rfl
  obtain ⟨rfl, rfl⟩ := EStateM.Result.ok.inj (gives.symm.trans (by rfl))
  exact ⟨_, _, t, rfl, congrArg Machine.tables state, (reads _).trans (by rfl), (reads _).trans (by rfl),
    (reads _).trans (by rfl)⟩

end MiniLua
