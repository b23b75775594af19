import MiniLua.Proofs.Export.Sharing
import MiniLua.Proofs.Regimes.Intact
import MiniLua.Proofs.Table.Listing

/-!
# Keys that clash in plain data

Two keys of a table are one key of plain data only if one is a flag and the other the number it
counts as, or one a builtin function and the other the string of its name. No third key can be
involved, so an object has the entries of its table, but for such pairs: there the first key stays
with the value of the last.
-/

namespace MiniLua

/-! ## Clashes -/

namespace Value

/-- Two different keys that are one key in plain data. -/
def clash : Value → Value → Bool
  | bool b, number x => (if b then 1 else 0) == x
  | number x, bool b => x == if b then 1 else 0
  | builtin f, string s => f.name == s
  | string s, builtin f => s == f.name
  | _, _ => false

/-- A table can have the key, and it is a single value. -/
structure IsKey (k : Value) : Prop where
  writable : Table.keyFault? k = none
  single : k.isList = false

end Value

namespace Value

variable {a b c : Value}

theorem IsKey.rawEq_self (h : a.IsKey) : a.rawEq a = true := Table.rawEq_self h.writable h.single

end Value
/-! ## Filling an object -/

namespace PlainEntries

/-- No key occurs twice. -/
def Apart (entries : PlainEntries) : Prop := entries.Pairwise fun a b => a.1.same b.1 = false

variable {entries : PlainEntries} {key : PlainKey} {value : Plain} {entry : PlainKey × Plain}

/-- A put replaces the value of its key, or adds an entry at the end. -/
theorem mem_put_iff (apart : Apart entries) : entry ∈ entries.put key value ↔
    (entry ∈ entries ∧ entry.1.same key = false) ∨
    (∃ old ∈ entries, old.1.same key = true ∧ entry = (old.1, value)) ∨
    (∀ old ∈ entries, old.1.same key = false) ∧ entry = (key, value) := by
  induction entries with
  | nil => simp [put]
  | cons a entries ih =>
    obtain ⟨first, rest⟩ := List.pairwise_cons.mp apart
    by_cases here : a.1.same key = true
    · have others : ∀ old ∈ entries, old.1.same key = false := by
        intro old member
        rw [PlainKey.same_comm, ← PlainKey.same_congr here, first old member]
      rw [put, if_pos here]
      constructor
      · intro member
        rcases List.mem_cons.mp member with rfl | member
        · exact .inr (.inl ⟨a, List.mem_cons_self, here, rfl⟩)
        · exact .inl ⟨List.mem_cons_of_mem a member, others entry member⟩
      · rintro (⟨member, other⟩ | ⟨old, member, same, rfl⟩ | ⟨none, -⟩)
        · rcases List.mem_cons.mp member with rfl | member
          · rw [here] at other
            cases other
          · exact List.mem_cons_of_mem _ member
        · rcases List.mem_cons.mp member with rfl | member
          · exact List.mem_cons_self
          · rw [others old member] at same
            cases same
        · rw [none a List.mem_cons_self] at here
          cases here
    · rw [put, if_neg here, List.mem_cons, ih rest]
      simp only [Bool.not_eq_true] at here
      simp only [List.mem_cons, exists_eq_or_imp, forall_eq_or_imp, here, Bool.false_eq_true,
        false_and, false_or, true_and]
      constructor
      · rintro (rfl | ⟨member, other⟩ | replaced | added)
        · exact .inl ⟨.inl rfl, here⟩
        · exact .inl ⟨.inr member, other⟩
        · exact .inr (.inl replaced)
        · exact .inr (.inr added)
      · rintro (⟨rfl | member, other⟩ | replaced | added)
        · exact .inl rfl
        · exact .inr (.inl ⟨member, other⟩)
        · exact .inr (.inr (.inl replaced))
        · exact .inr (.inr (.inr added))

theorem Apart.put (apart : Apart entries) : Apart (entries.put key value) := by
  induction entries with
  | nil => exact List.pairwise_singleton _ _
  | cons a entries ih =>
    obtain ⟨first, rest⟩ := List.pairwise_cons.mp apart
    by_cases here : a.1.same key = true
    · rw [PlainEntries.put, if_pos here]
      exact List.pairwise_cons.mpr ⟨first, rest⟩
    · rw [PlainEntries.put, if_neg here]
      refine List.pairwise_cons.mpr ⟨fun b member => ?_, ih rest⟩
      rcases (mem_put_iff rest).mp member with ⟨old, -⟩ | ⟨old, inside, -, rfl⟩ | ⟨-, rfl⟩
      · exact first b old
      · exact first old inside
      · simpa using here

end PlainEntries

section

variable {convert : Value → Plain} {es : List (Value × Value)} {e : Value × Value}

/-- An entry of the object that `es` fill: that of a key which clashes with none, or the one that
two keys share. -/
inductive Kept (convert : Value → Plain) (es : List (Value × Value)) : PlainKey × Plain → Prop
  | alone {e : Value × Value} (member : e ∈ es) (free : ∀ other ∈ es, e.1.clash other.1 = false) :
      Kept convert es (.ofValue e.1, convert e.2)
  | shared {first last : Value × Value} (order : [first, last].Sublist es)
      (clash : first.1.clash last.1 = true) : Kept convert es (.ofValue first.1, convert last.2)

/-- Entries of different keys that a table can have. -/
structure Listed (es : List (Value × Value)) : Prop where
  keys : ∀ e ∈ es, e.1.IsKey
  apart : Table.Apart es

theorem Listed.before (h : Listed (es ++ [e])) : Listed es where
  keys := (List.forall_mem_append.mp h.keys).1
  apart := (List.pairwise_append.mp h.apart).1

instance : Std.Symm fun a b : Value × Value =>
    (PlainKey.ofValue a.1).same (.ofValue b.1) = false where
  symm a b apart := by rwa [PlainKey.same_comm]

end

theorem Machine.Intact.listed {m : Machine} (intact : m.Intact) (id : Nat) :
    Listed (m.table id).items := by
  obtain ⟨proper, holds⟩ := intact.table id
  refine ⟨fun e listed => ⟨?_, ?_⟩, proper.apart_items⟩
  · rcases Table.mem_items listed with ⟨i, -, -, position⟩ | entry
    · rw [position]
      exact Table.keyFault?_positionKey _
    · exact proper.writable e entry
  · have lives := (holds.items Machine.lives_positionKey e listed).1
    cases key : e.1 with
    | list vs =>
      rw [key] at lives
      exact lives.elim
    | _ => rfl

end MiniLua
