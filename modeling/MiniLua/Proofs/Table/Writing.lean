import MiniLua.Proofs.Table.Invariant

/-!
# Writing

A write is one of five moves: it clears a slot of the array, overwrites one, erases an entry, appends
to the array, or puts an entry. Each move keeps the table valid and changes one reading.
-/

namespace MiniLua.Table

variable {t : Table} {k v : Value} {p : Nat}

/-- A write that keeps the table valid and makes `k` read `v`, and no other key anything else. -/
structure Written (t : Table) (k v : Value) (t' : Table) : Prop where
  valid : t'.Valid
  reads : ∀ k', t'.get k' = if k.rawEq k' then v else t.get k'

/-! ## Slots of the array -/

section

variable (hk : position? k = some p) (hp : p ≤ t.array.size)
include hk hp

theorem insert_clear : t.insert k .nil = t.clearSlot p := by
  simp [insert, inArray, hk, hp, Option.filter, Value.isNil]

theorem insert_overwrite (hv : v.isNil = false) :
    t.insert k v = { t with array := t.array.setIfInBounds (p - 1) v } := by
  simp [insert, inArray, hk, hp, Option.filter, hv]

theorem written_overwrite (valid : t.Valid) (hv : v.isNil = false) :
    Written t k v { t with array := t.array.setIfInBounds (p - 1) v } where
  valid :=
    { values := by
        intro w hw
        rcases Array.mem_or_eq_of_mem_setIfInBounds hw with hw | rfl
        · exact valid.values w hw
        · exact hv
      entryValues := valid.entryValues
      writable := valid.writable
      beyond := by simpa using valid.beyond
      apart := valid.apart
      settled := by simpa [Settled] using valid.settled }
  reads := by
    intro k'
    have hpos := position?_pos hk
    have same := rawEq_iff_of_position hk k'
    cases hk' : position? k' with
    | none =>
      rw [if_neg (by simp [same, hk']), get_of_outside (by simp [hk']),
        get_of_outside (by simp [hk'])]
    | some q =>
      have hq := position?_pos hk'
      by_cases inside : q ≤ t.array.size
      · rw [get_of_inside hk' (by simpa using inside), get_of_inside hk' inside]
        by_cases hpq : p = q
        · subst hpq
          rw [if_pos (same.mpr hk'), Array.getElem?_setIfInBounds, if_pos rfl, if_pos (by omega)]
          rfl
        · have different : ¬ k.rawEq k' = true := by simp [same, hk', Ne.symm hpq]
          rw [if_neg different, Array.getElem?_setIfInBounds, if_neg (by omega)]
      · have different : ¬ k.rawEq k' = true := by
          rw [same, hk']
          simp
          omega
        rw [if_neg different, get_of_outside (by simp [hk']; omega),
          get_of_outside (by simp [hk']; omega)]

theorem written_clear (valid : t.Valid) (fits : t.array.size ≤ 2 ^ 53) :
    Written t k .nil (t.clearSlot p) := by
  have hpos := position?_pos hk
  generalize htail : (t.array.extract p).toList = tail
  have cleared : t.clearSlot p = ⟨t.array.shrink (p - 1), putTail (p + 1) tail t.entries⟩ := by
    simp only [clearSlot, putTail, htail]
  have size : (t.array.shrink (p - 1)).size = p - 1 := by
    simp
    omega
  have length : tail.length = t.array.size - p := by simp [← htail]
  have slot (i : Nat) : tail[i]? = t.array[p + i]? := by
    rw [← htail, Array.getElem?_toList, Array.getElem?_extract]
    split
    · rfl
    · simp
      omega
  have after : ∀ e ∈ putTail (p + 1) tail t.entries, ∀ q, position? e.1 = some q → p < q := by
    intro e he q hq
    rcases mem_putTail he with ⟨i, hv, hkey⟩ | he
    · have := (List.getElem?_eq_some_iff.mp hv).1
      rw [hkey, position?_positionKey (by omega) (by omega)] at hq
      cases hq
      omega
    · have := valid.beyond e he q hq
      omega
  rw [cleared]
  refine ⟨⟨⟨?_, ?_, ?_, ?_, apart_putTail valid.apart⟩, ?_⟩, ?_⟩
  · intro w hw
    obtain ⟨i, hi, rfl⟩ := Array.mem_iff_getElem.mp hw
    rw [Array.getElem_shrink]
    exact valid.values _ (Array.getElem_mem _)
  · intro e he
    rcases mem_putTail he with ⟨i, hv, -⟩ | he
    · rw [slot] at hv
      exact valid.values _ (Array.mem_of_getElem? hv)
    · exact valid.entryValues e he
  · intro e he
    rcases mem_putTail he with ⟨i, hv, hkey⟩ | he
    · rw [hkey]
      exact keyFault?_positionKey _
    · exact valid.writable e he
  · intro e he q hq
    have := after e he q hq
    rw [size]
    omega
  · intro e he hq
    have := after e he _ hq
    rw [size] at this
    omega
  · intro k'
    have same := rawEq_iff_of_position hk k'
    have outside (h : ∀ i < tail.length, position? k' ≠ some (p + 1 + i)) :
        findEntry k' (putTail (p + 1) tail t.entries) = findEntry k' t.entries :=
      findEntry_putTail_of_outside (by omega) (by omega) h t.entries
    cases hk' : position? k' with
    | none =>
      rw [if_neg (by simp [same, hk']), get_of_outside (by simp [hk']), get_of_outside (by simp [hk']),
        entryValue, entryValue, outside (by simp [hk'])]
    | some q =>
      have hq := position?_pos hk'
      rcases Nat.lt_trichotomy q p with hlt | rfl | hgt
      · have different : ¬ k.rawEq k' = true := by
          rw [same, hk']
          simp
          omega
        rw [if_neg different, get_of_inside hk' (by rw [size]; omega),
          get_of_inside hk' (by omega)]
        rw [Array.getElem?_eq_getElem (by rw [size]; omega), Array.getElem_shrink,
          Array.getElem?_eq_getElem (by omega)]
      · rw [if_pos (same.mpr hk'), get_of_outside (by simp [hk']; omega), entryValue,
          outside (by simp [hk']; omega)]
        have absent : findEntry k' t.entries = none := by
          rw [findEntry_eq_none]
          intro e he
          rw [Bool.eq_false_iff, Value.rawEq_comm]
          intro h
          have := valid.beyond e he _ ((rawEq_iff_of_position hk' e.1).mp h)
          omega
        simp [absent]
      · have different : ¬ k.rawEq k' = true := by
          rw [same, hk']
          simp
          omega
        rw [if_neg different, get_of_outside (by simp [hk']; omega), entryValue]
        by_cases inside : q ≤ t.array.size
        · have hv : tail[q - (p + 1)]? = some t.array[q - 1] := by
            have : p + (q - (p + 1)) = q - 1 := by omega
            rw [slot, this, Array.getElem?_eq_getElem]
          rw [findEntry_putTail (by omega) (by omega) (by rw [hk']; congr 1; omega) hv,
            get_of_inside hk' inside, Array.getElem?_eq_getElem]
          rfl
        · rw [get_of_outside (by simp [hk']; omega), entryValue, outside (by simp [hk']; omega)]

end

/-! ## Entries -/

section

variable (hk : ∀ q, position? k = some q → t.array.size < q)
include hk

theorem inArray_of_outside : t.inArray k = none := by
  cases h : position? k with
  | none => simp [inArray, h]
  | some q =>
    have := hk q h
    simp [inArray, h, Option.filter]
    omega

theorem insert_erase : t.insert k .nil = { t with entries := eraseEntry k t.entries } := by
  simp [insert, inArray_of_outside hk, Value.isNil]

theorem insert_append (hv : v.isNil = false) (next : position? k = some (t.array.size + 1)) :
    t.insert k v = absorb t.entries.length
      { array := t.array.push v, entries := eraseEntry k t.entries } := by
  simp [insert, inArray_of_outside hk, hv, next]

theorem insert_put (hv : v.isNil = false) (next : position? k ≠ some (t.array.size + 1)) :
    t.insert k v = { t with entries := putEntry k v t.entries } := by
  simp [insert, inArray_of_outside hk, hv, next]

/-- Equal keys are both outside the array. -/
theorem outside_of_rawEq {k' : Value} (h : k.rawEq k' = true) (q : Nat)
    (hk' : position? k' = some q) : t.array.size < q :=
  hk q ((rawEq_iff_of_position hk' k).mp (Value.rawEq_symm h))

/-- A new reading of `k` among the entries is one of the whole table, and the only one. -/
theorem get_of_entries {es : Entries}
    (found : ∀ k', entryValue k' es = if k.rawEq k' then v else entryValue k' t.entries)
    (k' : Value) :
    ({ t with entries := es } : Table).get k' = if k.rawEq k' then v else t.get k' := by
  rcases inside_or_outside t k' with ⟨q, hq, hle⟩ | outside
  · have different : ¬ k.rawEq k' = true := by
      intro h
      have := outside_of_rawEq hk h q hq
      omega
    rw [if_neg different, get_of_inside (t := { t with entries := es }) hq hle,
      get_of_inside hq hle]
  · rw [get_of_outside (t := { t with entries := es }) outside, get_of_outside outside]
    exact found k'

theorem written_erase (valid : t.Valid) :
    Written t k .nil { t with entries := eraseEntry k t.entries } where
  valid :=
    { values := valid.values
      entryValues := fun e he => valid.entryValues e (mem_eraseEntry he)
      writable := fun e he => valid.writable e (mem_eraseEntry he)
      beyond := fun e he => valid.beyond e (mem_eraseEntry he)
      apart := apart_eraseEntry valid.apart k
      settled := fun e he => valid.settled e (mem_eraseEntry he) }
  reads := by
    refine get_of_entries hk fun k' => ?_
    rw [entryValue, findEntry_eraseEntry valid.apart]
    split <;> rfl

theorem written_put (valid : t.Valid) (allowed : keyFault? k = none) (hv : v.isNil = false)
    (next : position? k ≠ some (t.array.size + 1)) :
    Written t k v { t with entries := putEntry k v t.entries } where
  valid :=
    { values := valid.values
      entryValues := by
        intro e he
        rcases mem_putEntry he with rfl | he
        · exact hv
        · exact valid.entryValues e he
      writable := by
        intro e he
        rcases mem_putEntry he with rfl | he
        · exact allowed
        · exact valid.writable e he
      beyond := by
        intro e he
        rcases mem_putEntry he with rfl | he
        · exact hk
        · exact valid.beyond e he
      apart := apart_putEntry valid.apart k v
      settled := by
        intro e he
        rcases mem_putEntry he with rfl | he
        · exact next
        · exact valid.settled e he }
  reads := by
    refine get_of_entries hk fun k' => ?_
    rw [entryValue, findEntry_putEntry]
    split <;> rfl

end

/-! ## Appending -/

section

theorem sound_push (valid : t.Valid) (hv : v.isNil = false) :
    Sound { t with array := t.array.push v } where
  values := by
    intro w hw
    rcases Array.mem_push.mp hw with hw | rfl
    · exact valid.values w hw
    · exact hv
  entryValues := valid.entryValues
  writable := valid.writable
  beyond := by
    intro e he q hq
    have := valid.beyond e he q hq
    have : q ≠ t.array.size + 1 := by
      rintro rfl
      exact valid.settled e he hq
    simp only [Array.size_push]
    omega
  apart := valid.apart

variable (next : position? k = some (t.array.size + 1))
include next

theorem absent_of_settled (valid : t.Valid) : findEntry k t.entries = none := by
  rw [findEntry_eq_none]
  intro e he
  rw [Bool.eq_false_iff, Value.rawEq_comm]
  exact fun h => valid.settled e he ((rawEq_iff_of_position next e.1).mp h)

theorem get_push (k' : Value) :
    ({ t with array := t.array.push v } : Table).get k' = if k.rawEq k' then v else t.get k' := by
  have same := rawEq_iff_of_position next k'
  have size : (t.array.push v).size = t.array.size + 1 := by simp
  cases hk' : position? k' with
  | none =>
    rw [if_neg (by simp [same, hk']), get_of_outside (by simp [hk']), get_of_outside (by simp [hk'])]
  | some q =>
    have hq := position?_pos hk'
    rcases Nat.lt_trichotomy q (t.array.size + 1) with hlt | rfl | hgt
    · have different : ¬ k.rawEq k' = true := by
        rw [same, hk']
        simp
        omega
      rw [if_neg different, get_of_inside (t := { t with array := t.array.push v }) hk' (by simp; omega),
        get_of_inside hk' (by omega), Array.getElem?_push, if_neg (by omega)]
    · rw [if_pos (same.mpr hk'),
        get_of_inside (t := { t with array := t.array.push v }) hk' (by simp),
        Nat.add_sub_cancel, Array.getElem?_push_size]
      rfl
    · have different : ¬ k.rawEq k' = true := by
        rw [same, hk']
        simp
        omega
      rw [if_neg different,
        get_of_outside (t := { t with array := t.array.push v }) (by simp [hk']; omega),
        get_of_outside (by simp [hk']; omega)]

theorem length_items_append (valid : t.Valid) (hv : v.isNil = false) :
    (t.insert k v).items.length = t.items.length + 1 := by
  rw [insert_append (by simp [next]) hv next, length_items_absorb,
    eraseEntry_of_absent (absent_of_settled next valid)]
  simp only [length_items, Array.size_push]
  omega

theorem written_append (valid : t.Valid) (fits : t.array.size ≤ 2 ^ 53) (hv : v.isNil = false) :
    Written t k v (t.insert k v) ∧ (t.insert k v).array.size ≤ 2 ^ 53 := by
  rw [insert_append (by simp [next]) hv next, eraseEntry_of_absent (absent_of_settled next valid)]
  have room : t.array.size ≠ 2 ^ 53 := fun full => position?_ne_of_missing k (full ▸ next)
  obtain ⟨result, reads⟩ := absorb_spec t.entries.length { t with array := t.array.push v }
    (sound_push valid hv) (Nat.le_refl _) (by simp only [Array.size_push]; omega)
  refine ⟨⟨result.toValid, fun k' => ?_⟩, result.fits⟩
  rw [reads, get_push next]

end

/-- Any write of a key that can be written. -/
theorem Proper.write (proper : t.Proper) (allowed : keyFault? k = none) (v : Value) :
    Written t k v (t.insert k v) ∧ (t.insert k v).array.size ≤ 2 ^ 53 := by
  obtain ⟨valid, fits⟩ := proper
  rcases inside_or_outside t k with ⟨p, hk, hp⟩ | outside
  · cases hv : v.isNil with
    | false =>
      rw [insert_overwrite hk hp hv]
      exact ⟨written_overwrite hk hp valid hv, by simpa using fits⟩
    | true =>
      obtain rfl := Value.isNil_eq_true.mp hv
      rw [insert_clear hk hp]
      refine ⟨written_clear hk hp valid fits, ?_⟩
      simp only [clearSlot, Array.size_shrink]
      omega
  · cases hv : v.isNil with
    | true =>
      obtain rfl := Value.isNil_eq_true.mp hv
      rw [insert_erase outside]
      exact ⟨written_erase outside valid, fits⟩
    | false =>
      by_cases next : position? k = some (t.array.size + 1)
      · exact written_append next valid fits hv
      · rw [insert_put outside hv next]
        exact ⟨written_put outside valid allowed hv next, fits⟩

theorem Proper.insert (proper : t.Proper) (allowed : keyFault? k = none) (v : Value) :
    (t.insert k v).Proper :=
  ⟨(proper.write allowed v).1.valid, (proper.write allowed v).2⟩

/-- A write to a table of fewer than `2 ^ 53` entries. -/
theorem written_insert (valid : t.Valid) (allowed : keyFault? k = none)
    (small : t.items.length < 2 ^ 53) (_ : (t.insert k v).items.length < 2 ^ 53) :
    Written t k v (t.insert k v) := by
  rw [length_items] at small
  have proper : t.Proper := ⟨valid, by omega⟩
  exact (proper.write allowed v).1

end MiniLua.Table
