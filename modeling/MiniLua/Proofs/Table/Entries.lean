import MiniLua.Proofs.Table.Keys

/-!
# The list of entries

Putting and erasing act on the entry of one key, wherever it stands in the list. The slots that a
cleared position leaves behind are put one after another under consecutive positions.
-/

namespace MiniLua.Table

abbrev Entries := List (Value × Value)

/-- No two entries have equal keys. -/
def Apart (es : Entries) : Prop := es.Pairwise fun a b => a.1.rawEq b.1 = false

theorem findEntry_congr {k k' : Value} (h : k.rawEq k' = true) (es : Entries) :
    findEntry k es = findEntry k' es := by
  unfold findEntry
  congr 1
  funext e
  rw [Value.rawEq_comm e.1 k, Value.rawEq_comm e.1 k', Value.rawEq_congr h]

theorem findEntry_some {k : Value} {es : Entries} {e : Value × Value}
    (h : findEntry k es = some e) : e ∈ es ∧ e.1.rawEq k = true := by
  exact ⟨List.mem_of_find?_eq_some h, by simpa using List.find?_some h⟩

theorem findEntry_eq_none {k : Value} {es : Entries} :
    findEntry k es = none ↔ ∀ e ∈ es, e.1.rawEq k = false := by
  simp [findEntry]

/-! ## Putting -/

theorem findEntry_putEntry (k v k' : Value) (es : Entries) :
    findEntry k' (putEntry k v es) = if k.rawEq k' then some (k, v) else findEntry k' es := by
  induction es with
  | nil =>
    cases h : k.rawEq k' <;> simp [putEntry, findEntry, h]
  | cons e es ih =>
    by_cases he : e.1.rawEq k = true
    · have same := Value.rawEq_congr he k'
      cases h : k.rawEq k' <;> simp [putEntry, findEntry, he, h, same]
    · cases hk : e.1.rawEq k' with
      | true =>
        have different : k.rawEq k' = false := by
          rw [Bool.eq_false_iff]
          intro h
          exact he (Value.rawEq_trans hk (Value.rawEq_symm h))
        simp [putEntry, findEntry, he, hk, different]
      | false =>
        simp only [putEntry, if_neg he, findEntry, List.find?_cons, hk]
        exact ih

theorem mem_putEntry {k v : Value} {es : Entries} {e : Value × Value}
    (h : e ∈ putEntry k v es) : e = (k, v) ∨ e ∈ es := by
  induction es with
  | nil => simpa [putEntry] using h
  | cons a es ih =>
    rw [putEntry] at h
    split at h
    · rcases List.mem_cons.mp h with rfl | h
      · exact Or.inl rfl
      · exact Or.inr (List.mem_cons_of_mem a h)
    · rcases List.mem_cons.mp h with rfl | h
      · exact Or.inr List.mem_cons_self
      · exact (ih h).imp_right (List.mem_cons_of_mem a)

theorem apart_putEntry {es : Entries} (apart : Apart es) (k v : Value) :
    Apart (putEntry k v es) := by
  induction es with
  | nil => simp [putEntry, Apart]
  | cons a es ih =>
    obtain ⟨first, rest⟩ := List.pairwise_cons.mp apart
    rw [putEntry]
    split
    next ha =>
      refine List.pairwise_cons.mpr ⟨?_, rest⟩
      intro b hb
      rw [← Value.rawEq_congr ha]
      exact first b hb
    next ha =>
      refine List.pairwise_cons.mpr ⟨?_, ih rest⟩
      intro b hb
      rcases mem_putEntry hb with rfl | hb
      · simpa using ha
      · exact first b hb

/-! ## Erasing -/

theorem findEntry_eraseEntry {es : Entries} (apart : Apart es) (k k' : Value) :
    findEntry k' (eraseEntry k es) = if k.rawEq k' then none else findEntry k' es := by
  induction es with
  | nil => simp [eraseEntry, findEntry]
  | cons e es ih =>
    obtain ⟨first, rest⟩ := List.pairwise_cons.mp apart
    by_cases he : e.1.rawEq k = true
    · have same := Value.rawEq_congr he k'
      have erased : eraseEntry k (e :: es) = es := by simp [eraseEntry, he]
      rw [erased]
      cases h : k.rawEq k' with
      | true =>
        rw [if_pos rfl, findEntry_eq_none]
        intro b hb
        rw [Value.rawEq_comm, ← Value.rawEq_congr (Value.rawEq_trans he h)]
        exact first b hb
      | false => simp [findEntry, same, h]
    · have erased : eraseEntry k (e :: es) = e :: eraseEntry k es := by simp [eraseEntry, he]
      rw [erased]
      cases hk : e.1.rawEq k' with
      | true =>
        have different : k.rawEq k' = false := by
          rw [Bool.eq_false_iff]
          intro h
          exact he (Value.rawEq_trans hk (Value.rawEq_symm h))
        simp [findEntry, hk, different]
      | false =>
        simp only [findEntry, List.find?_cons, hk]
        exact ih rest

theorem mem_eraseEntry {k : Value} {es : Entries} {e : Value × Value}
    (h : e ∈ eraseEntry k es) : e ∈ es :=
  List.mem_of_mem_eraseP h

theorem apart_eraseEntry {es : Entries} (apart : Apart es) (k : Value) :
    Apart (eraseEntry k es) :=
  apart.sublist List.eraseP_sublist

theorem eraseEntry_of_absent {k : Value} {es : Entries} (absent : findEntry k es = none) :
    eraseEntry k es = es := by
  apply List.eraseP_of_forall_not
  intro e he
  simp [findEntry_eq_none.mp absent e he]

theorem length_eraseEntry {k : Value} {es : Entries} {e : Value × Value}
    (h : findEntry k es = some e) : (eraseEntry k es).length + 1 = es.length := by
  obtain ⟨he, hk⟩ := findEntry_some h
  have := List.length_eraseP_of_mem (p := fun e => e.1.rawEq k) he hk
  have := List.length_pos_of_mem he
  simp only [eraseEntry]
  omega

/-! ## Values under consecutive positions -/

/-- The entries after values have been put under the positions from `first` on. -/
def putTail (first : Nat) (values : List Value) (es : Entries) : Entries :=
  (tailEntries first values).foldl (fun es e => putEntry e.1 e.2 es) es

theorem tailEntries_cons (first : Nat) (v : Value) (values : List Value) :
    tailEntries first (v :: values) = (positionKey first, v) :: tailEntries (first + 1) values := by
  simp only [tailEntries, List.zipIdx_cons, List.map_cons, Nat.add_zero, Nat.zero_add]
  rw [List.zipIdx_succ]
  simp [Function.comp_def, Nat.add_assoc, Nat.add_comm 1]

theorem putTail_cons (first : Nat) (v : Value) (values : List Value) (es : Entries) :
    putTail first (v :: values) es =
      putTail (first + 1) values (putEntry (positionKey first) v es) := by
  rw [putTail, tailEntries_cons]
  rfl

section

variable {first : Nat} {values : List Value}

theorem findEntry_putTail_of_outside (hfirst : 0 < first) (small : first + values.length ≤ 2 ^ 53 + 1)
    {k : Value} (outside : ∀ i < values.length, position? k ≠ some (first + i)) (es : Entries) :
    findEntry k (putTail first values es) = findEntry k es := by
  induction values generalizing first es with
  | nil => rfl
  | cons v values ih =>
    rw [List.length_cons] at small outside
    rw [putTail_cons, ih (by omega) (by omega), findEntry_putEntry]
    · have different : (positionKey first).rawEq k = false := by
        rw [Bool.eq_false_iff, Value.rawEq_comm]
        intro h
        exact outside 0 (by omega) ((rawEq_positionKey hfirst (by omega) k).mp h)
      simp [different]
    · intro i hi
      have := outside (i + 1) (by omega)
      rwa [← Nat.add_assoc, Nat.add_right_comm] at this

theorem findEntry_putTail (hfirst : 0 < first) (small : first + values.length ≤ 2 ^ 53 + 1)
    {k v : Value} {i : Nat} (hk : position? k = some (first + i)) (hv : values[i]? = some v)
    (es : Entries) :
    findEntry k (putTail first values es) = some (positionKey (first + i), v) := by
  induction values generalizing first i es with
  | nil => simp at hv
  | cons w values ih =>
    rw [List.length_cons] at small
    cases i with
    | zero =>
      obtain rfl : w = v := by simpa using hv
      rw [putTail_cons, findEntry_putTail_of_outside (by omega) (by omega), findEntry_putEntry]
      · have same : (positionKey first).rawEq k = true := by
          rw [Value.rawEq_comm]
          exact (rawEq_positionKey hfirst (by omega) k).mpr hk
        simp [same]
      · intro i _ h
        rw [hk] at h
        simp at h
        omega
    | succ i =>
      have shifted : first + (i + 1) = first + 1 + i := by omega
      rw [shifted] at hk ⊢
      rw [putTail_cons]
      exact ih (by omega) (by omega) hk (by simpa using hv) _

theorem mem_putTail {es : Entries} {e : Value × Value} (h : e ∈ putTail first values es) :
    (∃ i, values[i]? = some e.2 ∧ e.1 = positionKey (first + i)) ∨ e ∈ es := by
  induction values generalizing first es with
  | nil => exact Or.inr h
  | cons v values ih =>
    rw [putTail_cons] at h
    rcases ih h with ⟨i, hv, hk⟩ | h
    · exact Or.inl ⟨i + 1, by simpa using hv, by rw [hk]; congr 1; omega⟩
    · rcases mem_putEntry h with rfl | h
      · exact Or.inl ⟨0, by simp, rfl⟩
      · exact Or.inr h

theorem apart_putTail {es : Entries} (apart : Apart es) : Apart (putTail first values es) := by
  induction values generalizing first es with
  | nil => exact apart
  | cons v values ih =>
    rw [putTail_cons]
    exact ih (apart_putEntry apart _ _)

end

end MiniLua.Table
