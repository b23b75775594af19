import Mathlib.Order.Bounds.Basic
import MiniLua.Proofs.Table.Listing

/-!
# The length of a table

The length is the size of the array. No slot of a valid table's array reads nil and no entry
continues it, so the readings alone say where the array ends: before the first whole number that
reads nil. What was written in which order leaves no trace in it.
-/

namespace MiniLua.Table

variable {t t' : Table}

theorem Proper.get_inside_length (proper : t.Proper) {n : Nat} (inside : n < t.length) :
    t.get (positionKey (n + 1)) ≠ .nil := by
  have fits := proper.fits
  rw [length] at inside
  have key := position?_positionKey (n := n + 1) (by omega) (by omega)
  rw [get_of_inside key (by omega), Nat.add_sub_cancel, Array.getElem?_eq_getElem inside,
    Option.getD_some, Ne, ← Value.isNil_eq_true, proper.values _ (Array.getElem_mem inside)]
  exact nofun

theorem get_after_length (valid : t.Valid) (room : t.length < 2 ^ 53) :
    t.get (positionKey (t.length + 1)) = .nil := by
  have next : position? (positionKey (t.length + 1)) = some (t.array.size + 1) :=
    position?_positionKey (by omega) (by omega)
  rw [get_of_outside (by simp [next]), entryValue, absent_of_settled next valid]
  rfl

section

variable (valid : t.Valid) (small : t.items.length < 2 ^ 53)
include valid small

theorem isLeast_length : IsLeast {n | t.get (positionKey (n + 1)) = .nil} t.length := by
  rw [length_items] at small
  have proper : t.Proper := ⟨valid, by omega⟩
  refine ⟨get_after_length valid (by rw [length]; omega), ?_⟩
  intro n reads
  by_contra beyond
  exact proper.get_inside_length (by omega) reads

/-- The length is zero or the last key in front of the first gap. -/
theorem length_border :
    (t.length = 0 ∨ t.get (positionKey t.length) ≠ .nil) ∧
      t.get (positionKey (t.length + 1)) = .nil := by
  rw [length_items] at small
  have proper : t.Proper := ⟨valid, by omega⟩
  refine ⟨?_, get_after_length valid (by rw [length]; omega)⟩
  cases last : t.length with
  | zero => exact .inl rfl
  | succ n => exact .inr (proper.get_inside_length (by omega))

/-- Tables that lack the same keys are of the same length. -/
theorem length_congr (valid' : t'.Valid) (small' : t'.items.length < 2 ^ 53)
    (agree : ∀ k, t'.get k = .nil ↔ t.get k = .nil) : t'.length = t.length := by
  have same : {n | t'.get (positionKey (n + 1)) = .nil} = {n | t.get (positionKey (n + 1)) = .nil} :=
    Set.ext fun n => agree (positionKey (n + 1))
  have least := isLeast_length valid' small'
  rw [same] at least
  exact least.unique (isLeast_length valid small)

end

/-- However a table was written, its length is the least `n` for which the key `n + 1` reads nil. It
is a border, and tables in which the same keys read nil have the same one. -/
theorem length_ofWrites (ops : List (Value × Value)) (small : Small ops) :
    let t := ofWrites ops
    IsLeast {n | t.get (positionKey (n + 1)) = .nil} t.length ∧
    ((t.length = 0 ∨ t.get (positionKey t.length) ≠ .nil) ∧
      t.get (positionKey (t.length + 1)) = .nil) ∧
    ∀ ops', Small ops' → (∀ k, (ofWrites ops').get k = .nil ↔ t.get k = .nil) →
      (ofWrites ops').length = t.length := by
  intro t
  have valid : t.Valid := (valid_ofWrites ops small).1
  have few : t.items.length < 2 ^ 53 := small ops List.prefix_rfl
  refine ⟨isLeast_length valid few, length_border valid few, ?_⟩
  intro ops' small' agree
  exact length_congr valid few (valid_ofWrites ops' small').1 (small' ops' List.prefix_rfl) agree

/-- The keys 3, 1, 2 in this order, then a hole at 2. -/
def gapWrites : List (Value × Value) :=
  [(.number 3, .string "c"), (.number 1, .string "a"), (.number 2, .string "b"), (.number 2, .nil)]

/-- The same readings without the hole ever filled. -/
def sparseWrites : List (Value × Value) := [(.number 1, .string "a"), (.number 3, .string "c")]

theorem length_gapWrites :
    Small gapWrites ∧ Small sparseWrites ∧
    (ofWrites gapWrites).length = 1 ∧
    IsLeast {n | (ofWrites gapWrites).get (positionKey (n + 1)) = .nil} 1 ∧
    (ofWrites sparseWrites).length = (ofWrites gapWrites).length := by
  have small : Small gapWrites := by decide +kernel
  have small' : Small sparseWrites := by decide +kernel
  have one : (ofWrites gapWrites).length = 1 := by decide +kernel
  have allowed : keyFault? (.number 1) = none ∧ keyFault? (.number 2) = none ∧
      keyFault? (.number 3) = none := by decide +kernel
  have agree (k : Value) :
      (ofWrites sparseWrites).get k = .nil ↔ (ofWrites gapWrites).get k = .nil := by
    rw [(valid_ofWrites sparseWrites small').2, (valid_ofWrites gapWrites small).2]
    simp only [lastWritten, sparseWrites, gapWrites, List.reverse_cons, List.reverse_nil,
      List.nil_append, List.cons_append, List.find?_cons, allowed, Option.isNone_none,
      Bool.true_and]
    cases two : (Value.number 2).rawEq k with
    | true =>
      have one : (Value.number 1).rawEq k = false := by
        rw [Value.rawEq_comm, ← Value.rawEq_congr two]
        decide +kernel
      have three : (Value.number 3).rawEq k = false := by
        rw [Value.rawEq_comm, ← Value.rawEq_congr two]
        decide +kernel
      simp [one, three]
    | false =>
      cases (Value.number 1).rawEq k <;> cases (Value.number 3).rawEq k <;> simp
  obtain ⟨least, -, independent⟩ := length_ofWrites gapWrites small
  rw [one] at least
  exact ⟨small, small', one, least, independent sparseWrites small' agree⟩

end MiniLua.Table
