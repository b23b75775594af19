import MiniLua.Proofs.Table.Listing

/-!
# The order of the entries

The list of entries is the array under the keys 1, 2, 3, … and after it the other entries in the
order they came. A write changes one entry in its place, adds one at an end, takes one out, or moves
a whole run of entries across the end of the array: the slots after a cleared one go to the very end
of the list, and the entries that continue a grown array leave the rest in its order.
-/

namespace MiniLua.Table

variable {t t' : Table} {k v : Value} {es : Entries}

/-! ## Moves of the list of other entries -/

theorem putEntry_of_absent (absent : findEntry k es = none) : putEntry k v es = es ++ [(k, v)] := by
  rw [findEntry_eq_none] at absent
  induction es with
  | nil => rfl
  | cons e es ih =>
    obtain ⟨first, rest⟩ := List.forall_mem_cons.mp absent
    rw [putEntry, if_neg (by simp [first]), ih rest, List.cons_append]

/-- Entries under other keys are not the one that a write of `k` replaces. -/
theorem map_replace_of_absent (absent : ∀ e ∈ es, e.1.rawEq k = false) (new : Value × Value) :
    es.map (fun e => if e.1.rawEq k then new else e) = es := by
  rw [List.map_congr_left (g := id), List.map_id]
  intro e he
  rw [absent e he]
  rfl

theorem putEntry_of_found {old : Value × Value} (apart : Apart es)
    (found : findEntry k es = some old) :
    putEntry k v es = es.map fun e => if e.1.rawEq k then (k, v) else e := by
  induction es with
  | nil => cases found
  | cons e es ih =>
    obtain ⟨first, rest⟩ := List.pairwise_cons.mp apart
    rw [putEntry, List.map_cons]
    by_cases own : e.1.rawEq k = true
    · have others : ∀ e' ∈ es, e'.1.rawEq k = false := by
        intro e' he'
        rw [Value.rawEq_comm, ← Value.rawEq_congr own]
        exact first e' he'
      rw [if_pos own, if_pos own, map_replace_of_absent others]
    · have later : findEntry k es = some old := by
        rw [← found, findEntry, findEntry, List.find?_cons_of_neg (by exact own)]
      rw [if_neg own, if_neg own, ih rest later]

theorem eraseEntry_eq_filter (apart : Apart es) (k : Value) :
    eraseEntry k es = es.filter fun e => !e.1.rawEq k := by
  induction es with
  | nil => rfl
  | cons e es ih =>
    obtain ⟨first, rest⟩ := List.pairwise_cons.mp apart
    by_cases own : e.1.rawEq k = true
    · have others : es.filter (fun e => !e.1.rawEq k) = es := by
        rw [List.filter_eq_self]
        intro e' he'
        rw [Value.rawEq_comm, ← Value.rawEq_congr own, first e' he']
        rfl
      rw [List.filter_cons_of_neg (by simp [own]), others]
      exact List.eraseP_cons_of_pos own
    · rw [List.filter_cons_of_pos (by simpa using own), ← ih rest]
      exact List.eraseP_cons_of_neg own

/-! ## Entries of consecutive positions -/

section

variable {first : Nat} {values : List Value}

theorem length_tailEntries (first : Nat) (values : List Value) :
    (tailEntries first values).length = values.length := by
  simp [tailEntries]

theorem getElem?_tailEntries (first : Nat) (values : List Value) (i : Nat) :
    (tailEntries first values)[i]? = values[i]?.map fun v => (positionKey (first + i), v) := by
  rw [tailEntries, List.getElem?_map, List.getElem?_zipIdx, Nat.zero_add, Option.map_map]
  rfl

theorem tailEntries_append (first : Nat) (values more : List Value) :
    tailEntries first (values ++ more) =
      tailEntries first values ++ tailEntries (first + values.length) more := by
  induction values generalizing first with
  | nil => rfl
  | cons v values ih =>
    rw [List.cons_append, tailEntries_cons, tailEntries_cons, ih, List.cons_append,
      List.length_cons, Nat.add_right_comm, Nat.add_assoc first]

theorem take_tailEntries (n : Nat) :
    (tailEntries first values).take n = tailEntries first (values.take n) := by
  apply List.ext_getElem?
  intro i
  rw [getElem?_tailEntries, List.getElem?_take, List.getElem?_take, getElem?_tailEntries]
  split <;> rfl

theorem drop_tailEntries (n : Nat) :
    (tailEntries first values).drop n = tailEntries (first + n) (values.drop n) := by
  apply List.ext_getElem?
  intro i
  rw [getElem?_tailEntries, List.getElem?_drop, List.getElem?_drop, getElem?_tailEntries,
    Nat.add_assoc]

/-- Values that a function gives for their positions. -/
theorem tailEntries_eq_map {f : Nat → Value} (given : ∀ i w, values[i]? = some w → f (first + i) = w) :
    tailEntries first values =
      (List.range' first values.length).map fun p => (positionKey p, f p) := by
  apply List.ext_getElem?
  intro i
  rw [getElem?_tailEntries, List.getElem?_map]
  by_cases inside : i < values.length
  · rw [List.getElem?_eq_getElem inside, List.getElem?_range' inside, Nat.one_mul]
    simp only [Option.map_some, given i _ (List.getElem?_eq_getElem inside)]
  · simp [inside]

/-- Values put under new positions come last, in ascending order. -/
theorem putTail_of_absent (hfirst : 0 < first) (small : first + values.length ≤ 2 ^ 53 + 1)
    (absent : ∀ e ∈ es, ∀ i < values.length, position? e.1 ≠ some (first + i)) :
    putTail first values es = es ++ tailEntries first values := by
  induction values generalizing first es with
  | nil => exact (List.append_nil es).symm
  | cons v values ih =>
    rw [List.length_cons] at small absent
    have new : findEntry (positionKey first) es = none := by
      rw [findEntry_eq_none]
      intro e he
      rw [Bool.eq_false_iff, Ne, rawEq_positionKey hfirst (by omega)]
      exact absent e he 0 (by omega)
    rw [putTail_cons, putEntry_of_absent new, ih (by omega) (by omega), tailEntries_cons,
      List.append_assoc, List.singleton_append]
    intro e he i hi
    rcases List.mem_append.mp he with he | he
    · have := absent e he (i + 1) (by omega)
      rwa [← Nat.add_assoc, Nat.add_right_comm] at this
    · obtain rfl := List.mem_singleton.mp he
      rw [position?_positionKey hfirst (by omega), Ne, Option.some.injEq]
      omega

end

/-! ## Array and other entries in the list -/

theorem take_length_items (t : Table) : t.items.take t.length = tailEntries 1 t.array.toList := by
  rw [items_eq_append, List.take_left' (by rw [length_tailEntries]; rfl)]

theorem drop_length_items (t : Table) : t.items.drop t.length = t.entries := by
  rw [items_eq_append, List.drop_left' (by rw [length_tailEntries]; rfl)]

theorem map_fst_tailEntries (first : Nat) (values : List Value) :
    (tailEntries first values).map (·.1) =
      (List.range values.length).map fun i => positionKey (first + i) := by
  apply List.ext_getElem?
  intro i
  rw [List.getElem?_map, getElem?_tailEntries, List.getElem?_map, Option.map_map]
  by_cases inside : i < values.length
  · simp [inside]
  · simp [inside]

theorem keys_eq_append (t : Table) :
    t.keys = (List.range t.length).map (fun i => positionKey (i + 1)) ++ t.entries.map (·.1) := by
  rw [keys, items_eq_append, List.map_append, map_fst_tailEntries, Array.length_toList]
  simp only [Nat.add_comm 1]
  rfl

/-! ## Pulling entries into the array -/

/-- The entries that an array of this size leaves to the list. -/
def beyond (size : Nat) (es : Entries) : Entries :=
  es.filter fun e => (position? e.1).all (size < ·)

theorem beyond_of_sound (sound : t.Sound) : beyond t.array.size t.entries = t.entries := by
  rw [beyond, List.filter_eq_self]
  intro e he
  rw [Option.all_eq_true_iff_get]
  intro some
  exact decide_eq_true (sound.beyond e he _ (Option.some_get some).symm)

theorem beyond_eraseEntry (apart : Apart es) {p size : Nat} (hp : 0 < p) (hle : p ≤ 2 ^ 53)
    (inside : p ≤ size) : beyond size (eraseEntry (positionKey p) es) = beyond size es := by
  rw [eraseEntry_eq_filter apart, beyond, beyond, List.filter_filter]
  apply List.filter_congr
  intro e _
  rw [Bool.eq_iff_iff, Bool.and_eq_true, Bool.not_eq_true', Bool.eq_false_iff, Ne,
    rawEq_positionKey hp hle]
  cases position? e.1 with
  | none => simp
  | some q =>
    simp only [Option.all_some, decide_eq_true_eq, Option.some.injEq, and_iff_left_iff_imp]
    omega

theorem absorb_pulled (fuel : Nat) (sound : t.Sound) (small : t.items.length < 2 ^ 53) :
    (∃ pulled, (absorb fuel t).array.toList = t.array.toList ++ pulled) ∧
      (absorb fuel t).entries = beyond (absorb fuel t).array.size t.entries := by
  induction fuel generalizing t with
  | zero => exact ⟨⟨[], (List.append_nil _).symm⟩, (beyond_of_sound sound).symm⟩
  | succ fuel ih =>
    have few := small
    rw [length_items] at few
    cases found : findEntry (positionKey (t.array.size + 1)) t.entries with
    | none =>
      rw [absorb_absent fuel found]
      exact ⟨⟨[], (List.append_nil _).symm⟩, (beyond_of_sound sound).symm⟩
    | some e =>
      obtain ⟨⟨pulled, array⟩, entries⟩ := ih (sound_absorbOne sound (by omega) found)
        (by rw [length_items_absorbOne found]; exact small)
      have longer : t.array.size + 1 ≤ (absorb fuel (t.absorbOne e)).array.size := by
        have := congrArg List.length array
        rw [Array.length_toList, List.length_append, Array.length_toList] at this
        rw [this, absorbOne, Array.size_push]
        exact Nat.le_add_right _ _
      rw [absorb_found fuel found]
      refine ⟨⟨e.2 :: pulled, ?_⟩, ?_⟩
      · rw [array]
        simp [absorbOne]
      · rw [entries]
        exact beyond_eraseEntry sound.apart (by omega) (by omega) longer

/-! ## What a write does to the list -/

/-- The list of entries before and after a write of `v` under `k`, move by move. -/
structure Rearranged (t : Table) (k v : Value) (t' : Table) : Prop where
  /-- A present key is overwritten in its place. -/
  overwritten : t.get k ≠ .nil → v ≠ .nil → ∃ key, key.rawEq k = true ∧
    t'.items = t.items.map fun e => if e.1.rawEq k then (key, v) else e
  /-- A new key that does not continue the array comes last. -/
  added : t.get k = .nil → v ≠ .nil → position? k ≠ some (t.length + 1) →
    t'.items = t.items ++ [(k, v)]
  /-- A key beside the array is taken out, everything else stays. -/
  removed : v = .nil → (∀ p, position? k = some p → t.length < p) →
    t'.items = t.items.eraseP fun e => e.1.rawEq k
  /-- The slots after a cleared one come after all other entries. -/
  cleared : v = .nil → ∀ p, position? k = some p → p ≤ t.length →
    t'.items = t.items.take (p - 1) ++ t.items.drop t.length ++
      (t.items.take t.length).drop p
  /-- A key that continues the array pulls in the positions that follow it. -/
  continued : v ≠ .nil → position? k = some (t.length + 1) → t.length < t'.length ∧
    t'.items = t.items.take t.length ++ (positionKey (t.length + 1), v) ::
      (List.range' (t.length + 2) (t'.length - (t.length + 1))).map
        (fun p => (positionKey p, t.get (positionKey p))) ++
      beyond t'.length (t.items.drop t.length)

theorem items_overwrite {p : Nat} (valid : t.Valid) (small : t.items.length < 2 ^ 53)
    (hk : position? k = some p) (hp : p ≤ t.array.size) :
    ({ t with array := t.array.setIfInBounds (p - 1) v } : Table).items =
      t.items.map fun e => if e.1.rawEq k then (positionKey p, v) else e := by
  have hpos := position?_pos hk
  rw [length_items] at small
  have others : ∀ e ∈ t.entries, e.1.rawEq k = false := by
    intro e he
    rw [Bool.eq_false_iff, Value.rawEq_comm, Ne, rawEq_iff_of_position hk]
    intro position
    have := valid.beyond e he p position
    omega
  have own {i : Nat} (inside : i < t.array.size) :
      (positionKey (1 + i)).rawEq k = true ↔ p - 1 = i := by
    rw [Value.rawEq_comm, rawEq_positionKey (by omega) (by omega), hk, Option.some.injEq]
    omega
  rw [items_eq_append, items_eq_append, List.map_append, map_replace_of_absent others,
    Array.toList_setIfInBounds]
  congr 1
  apply List.ext_getElem?
  intro i
  rw [getElem?_tailEntries, List.getElem?_map, getElem?_tailEntries, Option.map_map,
    List.getElem?_set, Array.length_toList, Array.getElem?_toList]
  by_cases inside : i < t.array.size
  · rw [Array.getElem?_eq_getElem inside]
    by_cases slot : p - 1 = i
    · rw [if_pos slot, if_pos (by omega), Option.map_some, Option.map_some, Function.comp_apply,
        if_pos ((own inside).mpr slot), ← slot, Nat.add_sub_cancel' hpos]
    · rw [if_neg slot, Option.map_some, Option.map_some, Function.comp_apply,
        if_neg (fun h => slot ((own inside).mp h))]
  · rw [if_neg (by omega), Array.getElem?_eq_none (by omega)]
    rfl

theorem items_clear {p : Nat} (valid : t.Valid) (small : t.items.length < 2 ^ 53)
    (hk : position? k = some p) (hp : p ≤ t.array.size) :
    (t.clearSlot p).items = t.items.take (p - 1) ++ t.items.drop t.length ++
      (t.items.take t.length).drop p := by
  have hpos := position?_pos hk
  rw [length_items] at small
  have run : t.items.take (p - 1) = tailEntries 1 (t.array.toList.take (p - 1)) := by
    rw [← take_tailEntries, ← take_length_items, List.take_take, length, min_eq_left (by omega)]
  have displaced : (t.items.take t.length).drop p =
      tailEntries (p + 1) (t.array.extract p).toList := by
    rw [take_length_items, drop_tailEntries, Nat.add_comm 1, Array.toList_extract,
      List.extract_eq_take_drop, List.take_of_length_le (by simp)]
  have absent : ∀ e ∈ t.entries, ∀ i < (t.array.extract p).toList.length,
      position? e.1 ≠ some (p + 1 + i) := by
    intro e he i hi position
    have := valid.beyond e he _ position
    rw [Array.length_toList, Array.size_extract] at hi
    omega
  have entries : (t.clearSlot p).entries = t.entries ++ tailEntries (p + 1) (t.array.extract p).toList :=
    putTail_of_absent (by omega) (by simp; omega) absent
  rw [run, drop_length_items, displaced, List.append_assoc, ← entries, items_eq_append, clearSlot,
    Array.toList_shrink]

section

variable (outside : ∀ p, position? k = some p → t.array.size < p)
include outside

theorem run_apart (small : t.items.length < 2 ^ 53) :
    ∀ e ∈ tailEntries 1 t.array.toList, e.1.rawEq k = false := by
  rw [length_items] at small
  intro e he
  obtain ⟨i, slot, key⟩ := mem_tailEntries he
  have inside := (List.getElem?_eq_some_iff.mp slot).1
  rw [Array.length_toList] at inside
  rw [key, Bool.eq_false_iff, Ne, Value.rawEq_comm, rawEq_positionKey (by omega) (by omega)]
  intro position
  have := outside _ position
  omega

theorem items_erase (small : t.items.length < 2 ^ 53) :
    ({ t with entries := eraseEntry k t.entries } : Table).items =
      t.items.eraseP fun e => e.1.rawEq k := by
  rw [items_eq_append t, List.eraseP_append_right, items_eq_append]
  · rfl
  · intro e he
    rw [run_apart outside small e he]
    exact Bool.false_ne_true

theorem items_put_found {old : Value × Value} (valid : t.Valid) (small : t.items.length < 2 ^ 53)
    (found : findEntry k t.entries = some old) :
    ({ t with entries := putEntry k v t.entries } : Table).items =
      t.items.map fun e => if e.1.rawEq k then (k, v) else e := by
  rw [items_eq_append t, List.map_append, map_replace_of_absent (run_apart outside small),
    ← putEntry_of_found valid.apart found, items_eq_append]

end

theorem items_put_absent (absent : findEntry k t.entries = none) :
    ({ t with entries := putEntry k v t.entries } : Table).items = t.items ++ [(k, v)] := by
  rw [items_eq_append t, List.append_assoc, ← putEntry_of_absent absent, items_eq_append]

section

variable (valid : t.Valid) (small : t.items.length + 1 < 2 ^ 53) (hv : v.isNil = false)
  (next : position? k = some (t.array.size + 1))
include valid small hv next

theorem insert_pulled :
    (∃ pulled, (t.insert k v).array.toList = t.array.toList ++ v :: pulled) ∧
      (t.insert k v).entries = beyond (t.insert k v).length t.entries := by
  have pushed : ({ t with array := t.array.push v } : Table).items.length < 2 ^ 53 := by
    simp only [length_items, Array.size_push] at small ⊢
    omega
  obtain ⟨⟨pulled, array⟩, entries⟩ := absorb_pulled t.entries.length (sound_push valid hv) pushed
  rw [insert_append (by simp [next]) hv next, eraseEntry_of_absent (absent_of_settled next valid)]
  refine ⟨⟨pulled, ?_⟩, entries⟩
  rw [array, Array.toList_push, List.append_assoc, List.singleton_append]

theorem items_append :
    t.length < (t.insert k v).length ∧
    (t.insert k v).items = t.items.take t.length ++ (positionKey (t.length + 1), v) ::
      (List.range' (t.length + 2) ((t.insert k v).length - (t.length + 1))).map
        (fun p => (positionKey p, t.get (positionKey p))) ++
      beyond (t.insert k v).length (t.items.drop t.length) := by
  have fits : t.array.size ≤ 2 ^ 53 := by
    rw [length_items] at small
    omega
  obtain ⟨valid', reads⟩ := (written_append next valid fits hv).1
  have count := length_items_append next valid hv
  obtain ⟨⟨pulled, array⟩, entries⟩ := insert_pulled valid small hv next
  generalize t.insert k v = t' at *
  rw [length_items] at count
  have grown : t'.array.size = t.array.size + (pulled.length + 1) := by
    rw [← Array.length_toList, array, List.length_append, Array.length_toList, List.length_cons]
  -- A pulled value is what its key has read all along, as only `k` reads anything new.
  have given (i : Nat) (w : Value) (slot : pulled[i]? = some w) :
      t.get (positionKey (t.array.size + 2 + i)) = w := by
    have inside := (List.getElem?_eq_some_iff.mp slot).1
    have position := position?_positionKey (n := t.array.size + 2 + i) (by omega) (by omega)
    have other : ¬ k.rawEq (positionKey (t.array.size + 2 + i)) = true := by
      rw [rawEq_iff_of_position next, position, Option.some.injEq]
      omega
    have later : t.array.size + 2 + i - 1 = t.array.toList.length + (i + 1) := by
      rw [Array.length_toList]
      omega
    have read := reads (positionKey (t.array.size + 2 + i))
    rw [if_neg other, get_of_inside position (by omega), ← Array.getElem?_toList, array, later,
      List.getElem?_append_right (Nat.le_add_right _ _), Nat.add_sub_cancel_left,
      List.getElem?_cons_succ, slot] at read
    exact read.symm
  have rest : t'.length - (t.length + 1) = pulled.length := by
    rw [length, length, grown]
    omega
  refine ⟨by rw [length, length]; omega, ?_⟩
  rw [rest, take_length_items, drop_length_items, items_eq_append, entries, array,
    tailEntries_append, tailEntries_cons, Array.length_toList, Nat.add_comm 1, Nat.add_assoc]
  rw [tailEntries_eq_map (f := fun p => t.get (positionKey p)) given]
  rfl

end

/-- Whatever a write that succeeds does to the list, it is one of the moves. -/
theorem rearranged_insert (valid : t.Valid) (small : t.items.length < 2 ^ 53)
    (still : (t.insert k v).items.length < 2 ^ 53) : Rearranged t k v (t.insert k v) where
  overwritten := by
    intro present hv
    rw [Ne, ← Value.isNil_eq_true, Bool.not_eq_true] at hv present
    rcases inside_or_outside t k with ⟨p, hk, hp⟩ | outside
    · have few := small
      rw [length_items] at few
      refine ⟨positionKey p, ?_, ?_⟩
      · rw [Value.rawEq_comm, rawEq_positionKey (position?_pos hk) (by omega), hk]
      · rw [insert_overwrite hk hp hv, items_overwrite valid small hk hp]
    · rw [get_of_outside outside, entryValue] at present
      cases found : findEntry k t.entries with
      | none => simp [found, Value.isNil] at present
      | some old =>
        have next : position? k ≠ some (t.array.size + 1) := by
          intro hk
          rw [absent_of_settled hk valid] at found
          cases found
        obtain ⟨-, same⟩ := findEntry_some found
        refine ⟨k, Value.rawEq_trans (Value.rawEq_symm same) same, ?_⟩
        rw [insert_put outside hv next, items_put_found outside valid small found]
  added := by
    intro absent hv next
    rw [Ne, ← Value.isNil_eq_true, Bool.not_eq_true] at hv
    rcases inside_or_outside t k with ⟨p, hk, hp⟩ | outside
    · have hpos := position?_pos hk
      have inside : p - 1 < t.array.size := by omega
      have present := valid.values _ (Array.getElem_mem inside)
      rw [get_of_inside hk hp, Array.getElem?_eq_getElem inside, Option.getD_some] at absent
      rw [absent] at present
      cases present
    · have unlisted : findEntry k t.entries = none := by
        rw [get_of_outside outside, entryValue] at absent
        cases found : findEntry k t.entries with
        | none => rfl
        | some old =>
          have present := valid.entryValues old (findEntry_some found).1
          rw [found, Option.map_some, Option.getD_some] at absent
          rw [absent] at present
          cases present
      rw [insert_put outside hv next, items_put_absent unlisted]
  removed := by
    rintro rfl outside
    rw [insert_erase outside, items_erase outside small]
  cleared := by
    rintro rfl p hk hp
    rw [insert_clear hk hp, items_clear valid small hk hp]
  continued := by
    intro hv next
    rw [Ne, ← Value.isNil_eq_true, Bool.not_eq_true] at hv
    refine items_append valid ?_ hv next
    rw [← length_items_append next valid hv]
    exact still

/-- However a table was written, its entries are the keys 1, 2, … up to the length and after them the
remaining keys, each key once and with what it reads; and every further write rearranges the list by
one of the moves. -/
theorem items_ofWrites (ops : List (Value × Value)) (small : Small ops) :
    let t := ofWrites ops
    (∃ others, t.keys = (List.range t.length).map (fun i => positionKey (i + 1)) ++ others) ∧
    t.keys.Pairwise (fun a b => a.rawEq b = false) ∧
    (∀ k v, (∃ e ∈ t.items, e.1.rawEq k = true ∧ e.2 = v) ↔ t.get k = v ∧ v ≠ .nil) ∧
    ∀ k v t', t.set k v = .ok t' → t'.items.length < 2 ^ 53 → Rearranged t k v t' := by
  intro t
  have valid : t.Valid := (valid_ofWrites ops small).1
  have few : t.items.length < 2 ^ 53 := small ops List.prefix_rfl
  refine ⟨⟨_, keys_eq_append t⟩, pairwise_keys valid few, ?_, ?_⟩
  · intro k v
    constructor
    · rintro ⟨e, he, same, rfl⟩
      obtain ⟨reads, present⟩ := get_of_mem_items valid few he same
      refine ⟨reads, ?_⟩
      rw [Ne, ← Value.isNil_eq_true, present]
      exact Bool.false_ne_true
    · rintro ⟨rfl, present⟩
      rw [Ne, ← Value.isNil_eq_true, Bool.not_eq_true] at present
      obtain ⟨e, he, same⟩ := exists_item_of_get few present
      exact ⟨e, he, same, (get_of_mem_items valid few he same).1.symm⟩
  · intro k v t' written still
    cases fault : keyFault? k with
    | some e =>
      rw [set, fault] at written
      cases written
    | none =>
      rw [set, fault] at written
      obtain rfl : t.insert k v = t' := Except.ok.inj written
      exact rearranged_insert valid few still

/-- Four slots of the array and two entries beside it. -/
def mixedWrites : List (Value × Value) :=
  [(.number 4, .string "d"), (.string "x", .bool true), (.number 2, .string "b"),
    (.number 1, .string "a"), (.number 3, .string "c"), (.number 9, .bool false)]

theorem items_mixedWrites :
    Small mixedWrites ∧
      let t := ofWrites mixedWrites
      t.length = 4 ∧ (t.insert (.number 2) .nil).items =
        t.items.take 1 ++ t.items.drop 4 ++ (t.items.take 4).drop 2 := by
  have small : Small mixedWrites := by decide +kernel
  have allowed : keyFault? (.number 2) = none := by decide +kernel
  have four : (ofWrites mixedWrites).length = 4 := by decide +kernel
  obtain ⟨-, -, -, rearranged⟩ := items_ofWrites mixedWrites small
  have moved := rearranged (.number 2) .nil ((ofWrites mixedWrites).insert (.number 2) .nil)
    (by rw [set, allowed]) (by decide +kernel)
  have cleared := moved.cleared rfl 2 (by decide +kernel) (by omega)
  rw [four] at cleared
  exact ⟨small, four, cleared⟩

end MiniLua.Table
