import MiniLua.Proofs.Number.Finite
import MiniLua.Proofs.Table.Entries

/-!
# The invariant of tables

The array and the entries share no key, no value is nil, and the first key after the array has no
entry. Every branch of a write breaks one of these in a place of its own and puts it right again;
reading follows along: a write changes what its own key reads and nothing else.
-/

namespace MiniLua.Table

/-- What a key reads among the entries. -/
def entryValue (k : Value) (es : Entries) : Value := ((findEntry k es).map (·.2)).getD .nil

section

variable {t : Table} {k : Value}

theorem get_of_inside {p : Nat} (hk : position? k = some p) (hp : p ≤ t.array.size) :
    t.get k = (t.array[p - 1]?).getD .nil := by
  simp [get, inArray, hk, hp, Option.filter]

theorem get_of_outside (hk : ∀ p, position? k = some p → t.array.size < p) :
    t.get k = entryValue k t.entries := by
  have none : t.inArray k = none := by
    cases h : position? k with
    | none => simp [inArray, h]
    | some p =>
      have := hk p h
      simp [inArray, h, Option.filter]
      omega
  simp [get, none, entryValue]

/-- A key stands for a slot of the array or for none. -/
theorem inside_or_outside (t : Table) (k : Value) :
    (∃ p, position? k = some p ∧ p ≤ t.array.size) ∨
      ∀ p, position? k = some p → t.array.size < p := by
  by_cases inside : ∃ p, position? k = some p ∧ p ≤ t.array.size
  · exact .inl inside
  · refine .inr fun p hk => ?_
    by_contra hp
    exact inside ⟨p, hk, by omega⟩

end

/-- Array and entries are apart and hold no nil. -/
structure Sound (t : Table) : Prop where
  values : ∀ v ∈ t.array, v.isNil = false
  entryValues : ∀ e ∈ t.entries, e.2.isNil = false
  writable : ∀ e ∈ t.entries, keyFault? e.1 = none
  beyond : ∀ e ∈ t.entries, ∀ p, position? e.1 = some p → t.array.size < p
  apart : Apart t.entries

/-- No entry continues the array. -/
def Settled (t : Table) : Prop := ∀ e ∈ t.entries, position? e.1 ≠ some (t.array.size + 1)

/-- Between two writes a table is sound and settled. -/
structure Valid (t : Table) : Prop extends Sound t where
  settled : t.Settled

theorem valid_empty : Valid empty where
  values := by simp [empty]
  entryValues := by simp [empty]
  writable := by simp [empty]
  beyond := by simp [empty]
  apart := List.Pairwise.nil
  settled := by simp [Settled, empty]

theorem get_empty (k : Value) : empty.get k = .nil :=
  get_of_outside fun _ hk => position?_pos hk

/-- The number of entries, those of the array included. -/
theorem length_items (t : Table) : t.items.length = t.array.size + t.entries.length := by
  simp [items]

theorem keyFault?_positionKey (n : Nat) : keyFault? (positionKey n) = none := by
  rw [positionKey, keyFault?, Number.isNaN_ofNat]
  rfl

/-- A valid table whose array has no more slots than there are positions for keys to stand for. -/
structure Proper (t : Table) : Prop extends Valid t where
  fits : t.array.size ≤ 2 ^ 53

theorem proper_empty : Proper empty where
  toValid := valid_empty
  fits := Nat.zero_le _

/-! ## Absorbing entries into the array -/

section

variable {t : Table} {e : Value × Value}

theorem findEntry_of_position (small : t.array.size < 2 ^ 53) (k : Value)
    (hk : position? k = some (t.array.size + 1)) :
    findEntry k t.entries = findEntry (positionKey (t.array.size + 1)) t.entries :=
  findEntry_congr ((rawEq_positionKey (by omega) (by omega) k).mpr hk) t.entries

theorem settled_of_absent (small : t.array.size < 2 ^ 53)
    (absent : findEntry (positionKey (t.array.size + 1)) t.entries = none) : t.Settled := by
  intro e he hp
  have different := findEntry_eq_none.mp absent e he
  rw [(rawEq_positionKey (by omega) (by omega) e.1).mpr hp] at different
  cases different

/-- Moving the entry that continues the array into it. -/
def absorbOne (t : Table) (e : Value × Value) : Table :=
  { array := t.array.push e.2
    entries := eraseEntry (positionKey (t.array.size + 1)) t.entries }

theorem sound_absorbOne (sound : t.Sound) (small : t.array.size < 2 ^ 53)
    (found : findEntry (positionKey (t.array.size + 1)) t.entries = some e) :
    (t.absorbOne e).Sound where
  values := by
    intro v hv
    rcases Array.mem_push.mp hv with hv | rfl
    · exact sound.values v hv
    · exact sound.entryValues e (findEntry_some found).1
  entryValues := fun e he => sound.entryValues e (mem_eraseEntry he)
  writable := fun e he => sound.writable e (mem_eraseEntry he)
  beyond := by
    intro a ha p hp
    have hlt := sound.beyond a (mem_eraseEntry ha) p hp
    have erased := findEntry_eraseEntry sound.apart (positionKey (t.array.size + 1)) a.1
    have hne : p ≠ t.array.size + 1 := by
      rintro rfl
      have same := (rawEq_positionKey (by omega) (by omega) a.1).mpr hp
      rw [Value.rawEq_comm, same, if_pos rfl] at erased
      have := findEntry_eq_none.mp erased a ha
      rw [Value.rawEq_trans same (Value.rawEq_symm same)] at this
      cases this
    simp only [absorbOne, Array.size_push]
    omega
  apart := apart_eraseEntry sound.apart _

theorem get_absorbOne (sound : t.Sound) (small : t.array.size < 2 ^ 53)
    (found : findEntry (positionKey (t.array.size + 1)) t.entries = some e) (k : Value) :
    (t.absorbOne e).get k = t.get k := by
  have hsize : (t.absorbOne e).array.size = t.array.size + 1 := by simp [absorbOne]
  have unchanged (hk : position? k ≠ some (t.array.size + 1)) :
      findEntry k (t.absorbOne e).entries = findEntry k t.entries := by
    have different : (positionKey (t.array.size + 1)).rawEq k = false := by
      rw [Bool.eq_false_iff, Value.rawEq_comm]
      exact fun h => hk ((rawEq_positionKey (by omega) (by omega) k).mp h)
    simp [absorbOne, findEntry_eraseEntry sound.apart, different]
  cases hk : position? k with
  | none =>
    rw [get_of_outside (by simp [hk]), get_of_outside (by simp [hk]), entryValue, entryValue,
      unchanged (by simp [hk])]
  | some p =>
    rcases Nat.lt_trichotomy p (t.array.size + 1) with hp | rfl | hp
    · have := position?_pos hk
      rw [get_of_inside hk (by omega), get_of_inside hk (by omega)]
      simp [absorbOne, Array.getElem?_push, show p - 1 ≠ t.array.size by omega]
    · rw [get_of_inside hk (by omega), get_of_outside (by simp [hk]), entryValue,
        findEntry_of_position small k hk, found]
      simp [absorbOne]
    · rw [get_of_outside (by simp [hk, hsize]; omega), get_of_outside (by simp [hk]; omega),
        entryValue, entryValue, unchanged (by simp [hk]; omega)]

theorem length_items_absorbOne
    (found : findEntry (positionKey (t.array.size + 1)) t.entries = some e) :
    (t.absorbOne e).items.length = t.items.length := by
  have shorter := length_eraseEntry found
  simp only [length_items, absorbOne, Array.size_push]
  omega

theorem absorb_found (fuel : Nat)
    (found : findEntry (positionKey (t.array.size + 1)) t.entries = some e) :
    absorb (fuel + 1) t = absorb fuel (t.absorbOne e) := by
  simp only [absorb, found, absorbOne]

theorem absorb_absent (fuel : Nat)
    (absent : findEntry (positionKey (t.array.size + 1)) t.entries = none) :
    absorb (fuel + 1) t = t := by
  simp only [absorb, absent]

end

variable {t : Table}

theorem length_items_absorb (fuel : Nat) (t : Table) :
    (absorb fuel t).items.length = t.items.length := by
  induction fuel generalizing t with
  | zero => rfl
  | succ fuel ih =>
    cases found : findEntry (positionKey (t.array.size + 1)) t.entries with
    | none => rw [absorb_absent fuel found]
    | some e => rw [absorb_found fuel found, ih, length_items_absorbOne found]

/-- A full array is continued by no entry: the double next to `2 ^ 53` stands for a slot of it. -/
theorem absent_of_full (sound : t.Sound) (full : t.array.size = 2 ^ 53) :
    findEntry (positionKey (t.array.size + 1)) t.entries = none := by
  have rounded : position? (positionKey (2 ^ 53 + 1)) = some (2 ^ 53) := by decide +kernel
  rw [full, findEntry_eq_none]
  intro e he
  rw [Bool.eq_false_iff, Value.rawEq_comm]
  intro same
  have after := sound.beyond e he _ ((rawEq_iff_of_position rounded e.1).mp same)
  exact Nat.ne_of_lt after full

theorem absorb_spec (fuel : Nat) (t : Table) (sound : t.Sound) (enough : t.entries.length ≤ fuel)
    (fits : t.array.size ≤ 2 ^ 53) :
    (absorb fuel t).Proper ∧ ∀ k, (absorb fuel t).get k = t.get k := by
  induction fuel generalizing t with
  | zero =>
    have empty : t.entries = [] := List.length_eq_zero_iff.mp (by omega)
    exact ⟨⟨⟨sound, by simp [Settled, absorb, empty]⟩, fits⟩, fun _ => rfl⟩
  | succ fuel ih =>
    rcases Nat.lt_or_eq_of_le fits with small | full
    · cases found : findEntry (positionKey (t.array.size + 1)) t.entries with
      | none =>
        rw [absorb_absent fuel found]
        exact ⟨⟨⟨sound, settled_of_absent small found⟩, fits⟩, fun _ => rfl⟩
      | some e =>
        have shorter := length_eraseEntry found
        obtain ⟨proper, reads⟩ := ih (t.absorbOne e) (sound_absorbOne sound small found)
          (by simp only [absorbOne]; omega) (by simp only [absorbOne, Array.size_push]; omega)
        rw [absorb_found fuel found]
        refine ⟨proper, fun k => ?_⟩
        rw [reads, get_absorbOne sound small found]
    · rw [absorb_absent fuel (absent_of_full sound full)]
      have settled : t.Settled := fun e _ => full ▸ position?_ne_of_missing e.1
      exact ⟨⟨⟨sound, settled⟩, fits⟩, fun _ => rfl⟩

end MiniLua.Table
