import MiniLua.Proofs.Number.Whole
import MiniLua.Proofs.Table.Filing
import MiniLua.Proofs.Table.Order

/-!
# How tables are represented

The loop that pulls entries into the array is stated here without a bound on its turns. It ends on
every table, since each turn takes an entry out of the list, and what it has moved is the longest run
of positions that continues the array.

Between two writes neither part of a table holds a nil, and no entry has a key that belongs into the
array or continues it.
-/

namespace MiniLua.Table

variable {t t' : Table} {k v : Value} {n m : Nat}

/-! ## Turns of the loop -/

/-- The entry under the position behind the array. -/
def next? (t : Table) : Option (Value × Value) :=
  findEntry (positionKey (t.array.size + 1)) t.entries

/-- The loop goes from `t` to `t'` in `n` turns that move an entry and one that finds none. -/
inductive Pulls : Table → Table → Nat → Prop where
  | stop {t : Table} (absent : t.next? = none) : Pulls t t 0
  | turn {t t' : Table} {e : Value × Value} {n : Nat} (found : t.next? = some e)
      (rest : Pulls (t.absorbOne e) t' n) : Pulls t t' (n + 1)

namespace Pulls

/-- Each turn takes an entry out of the list. -/
theorem turns_le (h : Pulls t t' n) : n ≤ t.entries.length := by
  induction h with
  | stop => omega
  | @turn t t' e n found rest ih =>
    have shorter : (t.absorbOne e).entries.length + 1 = t.entries.length := length_eraseEntry found
    omega

/-- The loop ends on every table, and a bound on its turns that leaves one for each entry does not
show. -/
theorem absorb (t : Table) {fuel : Nat} (enough : t.entries.length ≤ fuel) :
    ∃ n, Pulls t (absorb fuel t) n := by
  induction fuel generalizing t with
  | zero =>
    have none : t.entries = [] := List.length_eq_zero_iff.mp (by omega)
    exact ⟨0, .stop (by rw [next?, none]; rfl)⟩
  | succ fuel ih =>
    cases found : t.next? with
    | none =>
      rw [absorb_absent fuel found]
      exact ⟨0, .stop found⟩
    | some e =>
      have shorter : (t.absorbOne e).entries.length + 1 = t.entries.length := length_eraseEntry found
      obtain ⟨n, rest⟩ := ih (t.absorbOne e) (by omega)
      rw [absorb_found fuel found]
      exact ⟨n + 1, .turn found rest⟩

/-- The loop ends in one table only, after the same number of turns. -/
theorem unique {t₁ t₂ : Table} (h : Pulls t t₁ n) (h' : Pulls t t₂ m) : t₁ = t₂ ∧ n = m := by
  induction h generalizing m with
  | stop absent =>
    cases h' with
    | stop => exact ⟨rfl, rfl⟩
    | turn found => simp [absent] at found
  | turn found rest ih =>
    cases h' with
    | stop absent => simp [absent] at found
    | turn found' rest' =>
      obtain rfl := Option.some.inj (found.symm.trans found')
      obtain ⟨same, turns⟩ := ih rest'
      exact ⟨same, congrArg (· + 1) turns⟩

end Pulls

/-! ## What the loop moves -/

/-- The keys of `n` positions from `first` on. -/
def positionKeys (first n : Nat) : List Value := (List.range' first n).map positionKey

/-- The loop has moved the entries of `n` positions behind the array, which are there one and all,
and left everything else; the position behind them has no entry. -/
structure Migrated (t t' : Table) (n : Nat) : Prop where
  kept : ∀ i < t.array.size, t'.array[i]? = t.array[i]?
  moved : ∀ i < n, ∃ e, findEntry (positionKey (t.array.size + (i + 1))) t.entries = some e ∧
    t'.array[t.array.size + i]? = some e.2
  size : t'.array.size = t.array.size + n
  maximal : findEntry (positionKey (t.array.size + (n + 1))) t.entries = none
  rest : t'.entries = t.entries.filter fun e =>
    !(positionKeys (t.array.size + 1) n).any fun key => e.1.rawEq key

section

variable {e : Value × Value}

theorem Migrated.none (absent : t.next? = none) : Migrated t t 0 where
  kept _ _ := rfl
  moved := nofun
  size := rfl
  maximal := absent
  rest := by simp [positionKeys]

/-- One turn before a run makes the run longer by one. -/
theorem Migrated.turn (apart : Apart t.entries) (small : t.array.size + (n + 1) < 2 ^ 53)
    (found : t.next? = some e) (later : Migrated (t.absorbOne e) t' n) :
    Migrated t t' (n + 1) := by
  have size : (t.absorbOne e).array.size = t.array.size + 1 := by simp [absorbOne]
  have first : positionKeys (t.array.size + 1) (n + 1) =
      positionKey (t.array.size + 1) :: positionKeys (t.array.size + 1 + 1) n := by
    simp [positionKeys, List.range'_succ]
  have erased : (t.absorbOne e).entries =
      t.entries.filter fun e => !e.1.rawEq (positionKey (t.array.size + 1)) :=
    eraseEntry_eq_filter apart _
  -- The entry taken out stands under another position than those that follow.
  have others (i : Nat) (hi : i ≤ n) :
      findEntry (positionKey ((t.absorbOne e).array.size + (i + 1))) (t.absorbOne e).entries =
        findEntry (positionKey (t.array.size + (i + 1 + 1))) t.entries := by
    have position : t.array.size + 1 + (i + 1) = t.array.size + (i + 1 + 1) := by omega
    have different : (positionKey (t.array.size + 1)).rawEq
        (positionKey (t.array.size + (i + 1 + 1))) = false := by
      rw [Bool.eq_false_iff, Ne, rawEq_positionKeys] <;> omega
    rw [size, position, absorbOne, findEntry_eraseEntry apart, different]
    rfl
  constructor
  · intro i hi
    rw [later.kept i (by omega), absorbOne, Array.getElem?_push, if_neg (by omega)]
  · intro i hi
    cases i with
    | zero =>
      refine ⟨e, found, ?_⟩
      rw [Nat.add_zero, later.kept t.array.size (by omega), absorbOne, Array.getElem?_push_size]
    | succ i =>
      obtain ⟨a, stored, slot⟩ := later.moved i (by omega)
      refine ⟨a, by rw [← others i (by omega)]; exact stored, ?_⟩
      rw [← slot, size]
      congr 1
      omega
  · have := later.size
    omega
  · rw [← others n le_rfl]
    exact later.maximal
  · rw [later.rest, erased, List.filter_filter, first, size]
    apply List.filter_congr
    intro a _
    simp [Bool.and_comm]

end

/-- What the loop moves is the longest run of positions behind the array. -/
theorem Pulls.migrated (h : Pulls t t' n) (apart : Apart t.entries)
    (small : t.items.length < 2 ^ 53) : Migrated t t' n := by
  induction h with
  | stop absent => exact .none absent
  | @turn t t' e n found rest ih =>
    have turns := (Pulls.turn found rest).turns_le
    have count := length_items_absorbOne found
    rw [length_items] at small
    refine .turn apart (by omega) found (ih (apart_eraseEntry apart _) ?_)
    rw [count, length_items]
    exact small

/-! ## The parts of a table between two writes -/

/-- No part holds a nil; a key beside the array is neither nil nor NaN and no whole number from 1 to
one more than the array has slots; no two of these keys are equal. -/
structure Represented (t : Table) : Prop where
  arrayValues : ∀ v ∈ t.array, v ≠ .nil
  entryValues : ∀ e ∈ t.entries, e.2 ≠ .nil
  notNil : ∀ e ∈ t.entries, e.1 ≠ .nil
  notNaN : ∀ e ∈ t.entries, ∀ x, e.1 = .number x → x.isNaN = false
  beside : ∀ e ∈ t.entries, ∀ x, e.1 = .number x → ∀ p : Nat, 1 ≤ p → p ≤ t.length + 1 →
    ¬ Number.IsWhole x p
  apart : t.entries.Pairwise fun a b => a.1.rawEq b.1 = false

/-- A positive whole number stands for its position. -/
theorem position?_of_isWhole {x : Float} {p : Nat} (whole : Number.IsWhole x p) (hp : 1 ≤ p) :
    position? (.number x) = some p := by
  have one : Number.IsWhole 1 ((1 : Nat) : Int) := by
    constructor <;> decide +kernel
  have above : (1 : Float) ≤ x := (one.le_iff whole).mpr (by omega)
  simp [position?, above, whole.integral, whole.floor]

theorem Valid.represented (valid : t.Valid) : t.Represented := by
  have written (e : Value × Value) (he : e ∈ t.entries) : keyFault? e.1 = none :=
    valid.writable e he
  constructor
  · intro v hv nil
    have := valid.values v hv
    simp [nil, Value.isNil] at this
  · intro e he nil
    have := valid.entryValues e he
    simp [nil, Value.isNil] at this
  · intro e he nil
    have := written e he
    simp [nil, keyFault?] at this
  · intro e he x key
    have := written e he
    cases nan : x.isNaN with
    | false => rfl
    | true =>
      rw [key, keyFault?_number, if_pos nan] at this
      cases this
  · intro e he x key p hp hle whole
    have position := position?_of_isWhole whole hp
    rw [← key] at position
    have after := valid.beyond e he p position
    have next : p = t.array.size + 1 := by
      simp only [length] at hle
      omega
    exact valid.settled e he (next ▸ position)
  · exact valid.apart

/-- The table on which the loop starts: the value of a key that continues the array is in it. -/
def appended (t : Table) (k v : Value) : Table :=
  { array := t.array.push v, entries := eraseEntry k t.entries }

theorem insert_pulls (valid : t.Valid) (hv : v ≠ .nil)
    (next : position? k = some (t.length + 1)) (still : (t.insert k v).items.length < 2 ^ 53) :
    ∃ n, Pulls (t.appended k v) (t.insert k v) n ∧
      (∀ t' m, Pulls (t.appended k v) t' m → t' = t.insert k v ∧ m = n) ∧
      Migrated (t.appended k v) (t.insert k v) n := by
  have present : v.isNil = false := by
    rw [Bool.eq_false_iff, Ne, Value.isNil_eq_true]
    exact hv
  have outside : ∀ q, position? k = some q → t.array.size < q := by
    intro q hq
    have : q = t.array.size + 1 := Option.some.inj (hq.symm.trans next)
    omega
  have absent := eraseEntry_of_absent (absent_of_settled next valid)
  have start : t.insert k v = absorb t.entries.length (t.appended k v) :=
    insert_append outside present next
  have enough : (t.appended k v).entries.length ≤ t.entries.length := by
    simp only [appended, absent, le_refl]
  obtain ⟨n, pulls⟩ := Pulls.absorb (t.appended k v) enough
  rw [start, length_items_absorb] at still
  rw [start]
  exact ⟨n, pulls, fun t' m pulls' => pulls'.unique pulls,
    pulls.migrated (apart_eraseEntry valid.apart k) still⟩

/-- However a table was written, neither part holds a nil and no entry has a key of the array or the
key behind it; each entry is filed under the identity of the key it stores, and no two of these keys
are equal; and a write that continues the array pulls in exactly the positions that follow, by a loop
that ends. -/
theorem represented_ofWrites (ops : List (Value × Value)) (small : Small ops) :
    let t := ofWrites ops
    Represented t ∧
    ((∀ op ∈ ops, op.1.isList = false) → (Cabinet.ofWrites ops).Keeps t) ∧
    ∀ k v t', t.set k v = .ok t' → v ≠ .nil → position? k = some (t.length + 1) →
      t'.items.length < 2 ^ 53 →
      ∃ n, Pulls (t.appended k v) t' n ∧
        (∀ t'' m, Pulls (t.appended k v) t'' m → t'' = t' ∧ m = n) ∧
        Migrated (t.appended k v) t' n := by
  intro t
  have valid : t.Valid := (valid_ofWrites ops small).1
  refine ⟨valid.represented, Cabinet.Keeps.ofWrites, ?_⟩
  intro k v t' written hv next still
  cases fault : keyFault? k with
  | some e =>
    rw [set, fault] at written
    cases written
  | none =>
    rw [set, fault] at written
    obtain rfl : t.insert k v = t' := Except.ok.inj written
    exact insert_pulls valid hv next still

/-- One zero overwritten by the other, and the keys 3 and 2 that wait for 1. -/
def waitingWrites : List (Value × Value) :=
  [(.number 0, .string "z"), (.number (-0.0), .bool true), (.number 3, .string "c"),
    (.number 2, .string "b")]

theorem represented_waitingWrites :
    Small waitingWrites ∧
      let t := ofWrites waitingWrites
      Represented t ∧ (Cabinet.ofWrites waitingWrites).Keeps t ∧ t.entries.length = 3 ∧
      Migrated (t.appended (.number 1) (.string "a")) (t.insert (.number 1) (.string "a")) 2 := by
  have small : Small waitingWrites := by decide +kernel
  have allowed : keyFault? (.number 1) = none := by decide +kernel
  have before : ((ofWrites waitingWrites).appended (.number 1) (.string "a")).array.size = 1 := by
    decide +kernel
  have after : ((ofWrites waitingWrites).insert (.number 1) (.string "a")).array.size = 3 := by
    decide +kernel
  obtain ⟨represented, keeps, migrates⟩ := represented_ofWrites waitingWrites small
  obtain ⟨n, -, -, migrated⟩ := migrates (.number 1) (.string "a")
    ((ofWrites waitingWrites).insert (.number 1) (.string "a")) (by rw [set, allowed]) nofun
    (by decide +kernel) (by decide +kernel)
  have two : n = 2 := by
    have := migrated.size
    omega
  exact ⟨small, represented, keeps (by decide), by decide +kernel, two ▸ migrated⟩

end MiniLua.Table
