import MiniLua.Proofs.Table.Refinement

/-!
# The keys of a table

The list of a valid table's entries is its readings put down once: a key that reads something has
exactly one entry there, whether it lives in the array or among the others.
-/

namespace MiniLua.Table

/-- The keys of a table at this moment: those of the array first. -/
def keys (t : Table) : List Value := t.items.map (·.1)

variable {t : Table} {k : Value}

theorem items_eq_append (t : Table) : t.items = tailEntries 1 t.array.toList ++ t.entries := by
  simp only [items, tailEntries, Nat.add_comm 1]

theorem length_keys (t : Table) : t.keys.length = t.items.length := by simp [keys]

/-! ## No key is listed twice -/

theorem rawEq_positionKeys {i j : Nat} (hi : 0 < i) (hj : 0 < j) (hi' : i ≤ 2 ^ 53)
    (hj' : j ≤ 2 ^ 53) : (positionKey i).rawEq (positionKey j) = true ↔ i = j := by
  rw [rawEq_positionKey hj hj', position?_positionKey hi hi', Option.some.injEq]

theorem mem_tailEntries {first : Nat} {values : List Value} {e : Value × Value}
    (h : e ∈ tailEntries first values) :
    ∃ i, values[i]? = some e.2 ∧ e.1 = positionKey (first + i) := by
  obtain ⟨⟨v, i⟩, mem, rfl⟩ := List.mem_map.mp h
  exact ⟨i, List.mem_zipIdx_iff_getElem?.mp mem, rfl⟩

theorem mem_items {e : Value × Value} (he : e ∈ t.items) :
    (∃ i, t.array[i]? = some e.2 ∧ i < t.array.size ∧ e.1 = positionKey (1 + i)) ∨
      e ∈ t.entries := by
  rw [items_eq_append] at he
  rcases List.mem_append.mp he with he | he
  · obtain ⟨i, hv, hkey⟩ := mem_tailEntries he
    rw [Array.getElem?_toList] at hv
    exact .inl ⟨i, hv, (Array.getElem?_eq_some_iff.mp hv).1, hkey⟩
  · exact .inr he

theorem apart_tailEntries {first : Nat} {values : List Value} (hfirst : 0 < first)
    (small : first + values.length ≤ 2 ^ 53 + 1) : Apart (tailEntries first values) := by
  induction values generalizing first with
  | nil => exact List.Pairwise.nil
  | cons v values ih =>
    rw [List.length_cons] at small
    rw [tailEntries_cons]
    refine List.pairwise_cons.mpr ⟨fun e he => ?_, ih (by omega) (by omega)⟩
    obtain ⟨i, hv, hkey⟩ := mem_tailEntries he
    have := (List.getElem?_eq_some_iff.mp hv).1
    rw [hkey, Bool.eq_false_iff, Ne, rawEq_positionKeys hfirst (by omega) (by omega) (by omega)]
    omega

theorem Proper.apart_items (proper : t.Proper) : Apart t.items := by
  obtain ⟨valid, fits⟩ := proper
  rw [items_eq_append]
  refine List.pairwise_append.mpr
    ⟨apart_tailEntries (by omega) (by simp; omega), valid.apart, fun a ha e he => ?_⟩
  obtain ⟨i, hv, hkey⟩ := mem_tailEntries ha
  have inside : i < t.array.size := by simpa using (List.getElem?_eq_some_iff.mp hv).1
  rw [hkey, Value.rawEq_comm, Bool.eq_false_iff, Ne, rawEq_positionKey (by omega) (by omega)]
  intro hp
  have := valid.beyond e he _ hp
  omega

theorem pairwise_keys (valid : t.Valid) (small : t.items.length < 2 ^ 53) :
    t.keys.Pairwise fun a b => a.rawEq b = false := by
  rw [length_items] at small
  have proper : t.Proper := ⟨valid, by omega⟩
  exact List.pairwise_map.mpr proper.apart_items

/-! ## The listed keys are those that read something -/

theorem position?_congr {k' : Value} (same : k.rawEq k' = true) : position? k = position? k' := by
  cases hk : position? k with
  | some p => exact ((rawEq_iff_of_position hk k').mp same).symm
  | none =>
    cases hk' : position? k' with
    | none => rfl
    | some p =>
      rw [(rawEq_iff_of_position hk' k).mp (Value.rawEq_symm same)] at hk
      cases hk

theorem get_congr {k' : Value} (same : k.rawEq k' = true) (t : Table) : t.get k = t.get k' := by
  simp only [get, inArray, position?_congr same, findEntry_congr same]

theorem findEntry_of_mem {es : Entries} (apart : Apart es) {e : Value × Value} (he : e ∈ es)
    (same : e.1.rawEq k = true) : findEntry k es = some e := by
  induction es with
  | nil => cases he
  | cons a es ih =>
    obtain ⟨first, rest⟩ := List.pairwise_cons.mp apart
    rcases List.mem_cons.mp he with rfl | he
    · simp [findEntry, same]
    · have different : a.1.rawEq k = false := by
        rw [Value.rawEq_comm, ← Value.rawEq_congr same, Value.rawEq_comm]
        exact first e he
      simp only [findEntry, List.find?_cons, different]
      exact ih rest he

theorem get_of_mem_items (valid : t.Valid) (small : t.items.length < 2 ^ 53) {e : Value × Value}
    (he : e ∈ t.items) (same : e.1.rawEq k = true) : t.get k = e.2 ∧ e.2.isNil = false := by
  rw [length_items] at small
  rcases mem_items he with ⟨i, hv, inside, hkey⟩ | he
  · rw [hkey, Value.rawEq_comm, rawEq_positionKey (by omega) (by omega)] at same
    refine ⟨?_, valid.values _ (Array.mem_of_getElem? hv)⟩
    rw [get_of_inside same (by omega), Nat.add_sub_cancel_left, hv, Option.getD_some]
  · have outside : ∀ p, position? k = some p → t.array.size < p := fun p hp =>
      valid.beyond e he p ((rawEq_iff_of_position hp e.1).mp (Value.rawEq_symm same))
    refine ⟨?_, valid.entryValues e he⟩
    rw [get_of_outside outside, entryValue, findEntry_of_mem valid.apart he same]
    rfl

theorem exists_item_of_get (small : t.items.length < 2 ^ 53) (reads : (t.get k).isNil = false) :
    ∃ e ∈ t.items, e.1.rawEq k = true := by
  rw [length_items] at small
  rw [items_eq_append]
  rcases inside_or_outside t k with ⟨p, hk, hp⟩ | outside
  · have hpos := position?_pos hk
    refine ⟨(positionKey p, t.array[p - 1]), List.mem_append_left _ ?_, ?_⟩
    · refine List.mem_map.mpr ⟨(t.array[p - 1], p - 1), ?_, ?_⟩
      · rw [List.mem_zipIdx_iff_getElem?, Array.getElem?_toList, Array.getElem?_eq_getElem]
      · simp only [show 1 + (p - 1) = p by omega]
    · rw [Value.rawEq_comm]
      exact (rawEq_positionKey hpos (by omega) k).mpr hk
  · rw [get_of_outside outside, entryValue] at reads
    cases found : findEntry k t.entries with
    | none => simp [found, Value.isNil] at reads
    | some e =>
      obtain ⟨he, same⟩ := findEntry_some found
      exact ⟨e, List.mem_append_right _ he, same⟩

/-- A key reads something exactly when an equal key is listed. -/
theorem get_isNil_iff (valid : t.Valid) (small : t.items.length < 2 ^ 53) (k : Value) :
    (t.get k).isNil = false ↔ ∃ key ∈ t.keys, key.rawEq k = true := by
  constructor
  · intro reads
    obtain ⟨e, he, same⟩ := exists_item_of_get small reads
    exact ⟨e.1, List.mem_map_of_mem he, same⟩
  · rintro ⟨key, mem, same⟩
    obtain ⟨e, he, rfl⟩ := List.mem_map.mp mem
    obtain ⟨reads, present⟩ := get_of_mem_items valid small he same
    rw [reads]
    exact present

/-! ## Single keys are equal to themselves -/

theorem rawEq_self (allowed : keyFault? k = none) (one : k.isList = false) :
    k.rawEq k = true := by
  cases k with
  | nil => rfl
  | bool b => simp [Value.rawEq]
  | string text => simp [Value.rawEq]
  | ref r => simp [Value.rawEq]
  | builtin b => simp [Value.rawEq]
  | list vs => cases one
  | number x =>
    refine (Number.beq_iff x x).mpr ⟨fun unpacked => ?_, rfl⟩
    have notNaN : x.isNaN = true := by
      change (Number.unpacked x).isNaN = true
      rw [unpacked]
      rfl
    rw [keyFault?_number, if_pos notNaN] at allowed
    cases allowed

theorem mem_entries_absorb {fuel : Nat} {e : Value × Value} (h : e ∈ (absorb fuel t).entries) :
    e ∈ t.entries := by
  induction fuel generalizing t with
  | zero => exact h
  | succ fuel ih =>
    cases found : findEntry (positionKey (t.array.size + 1)) t.entries with
    | none =>
      rw [absorb_absent fuel found] at h
      exact h
    | some a =>
      rw [absorb_found fuel found] at h
      exact mem_eraseEntry (ih h)

/-- A write lists no key but its own and those of positions anew. -/
theorem mem_entries_insert {v : Value} {e : Value × Value} (h : e ∈ (t.insert k v).entries) :
    e.1 = k ∨ (∃ n, e.1 = positionKey n) ∨ e ∈ t.entries := by
  unfold insert at h
  split at h
  next p _ =>
    split at h
    · rcases mem_putTail h with ⟨i, -, hkey⟩ | h
      · exact .inr (.inl ⟨_, hkey⟩)
      · exact .inr (.inr h)
    · exact .inr (.inr h)
  next =>
    split at h
    · exact .inr (.inr (mem_eraseEntry h))
    · split at h
      · exact .inr (.inr (mem_eraseEntry (mem_entries_absorb h)))
      · rcases mem_putEntry h with rfl | h
        · exact .inl rfl
        · exact .inr (.inr h)

theorem single_keys {ops : List (Value × Value)} (single : ∀ op ∈ ops, op.1.isList = false) :
    ∀ key ∈ (ofWrites ops).keys, key.isList = false := by
  have entries : ∀ e ∈ (ofWrites ops).entries, e.1.isList = false := by
    induction ops using List.reverseRecOn with
    | nil => exact nofun
    | append_singleton ops op ih =>
      obtain ⟨before, own⟩ := List.forall_mem_append.mp single
      rw [ofWrites_concat]
      cases fault : keyFault? op.1 with
      | some e =>
        rw [attempt_of_fault fault]
        exact ih before
      | none =>
        rw [attempt_of_allowed fault]
        intro e he
        rcases mem_entries_insert he with same | ⟨n, same⟩ | he
        · rw [same]
          exact own op List.mem_cons_self
        · rw [same]
          rfl
        · exact ih before e he
  intro key mem
  obtain ⟨e, he, rfl⟩ := List.mem_map.mp mem
  rcases mem_items he with ⟨i, -, -, hkey⟩ | he
  · rw [hkey]
    rfl
  · exact entries e he

/-- A single key that is listed reads something. -/
theorem get_of_mem_keys (valid : t.Valid) (small : t.items.length < 2 ^ 53) (mem : k ∈ t.keys)
    (single : k.isList = false) : (t.get k).isNil = false := by
  refine (get_isNil_iff valid small k).mpr ⟨k, mem, rawEq_self ?_ single⟩
  obtain ⟨e, he, rfl⟩ := List.mem_map.mp mem
  rcases mem_items he with ⟨i, -, -, hkey⟩ | he
  · rw [hkey]
    exact keyFault?_positionKey _
  · exact valid.writable e he

end MiniLua.Table
