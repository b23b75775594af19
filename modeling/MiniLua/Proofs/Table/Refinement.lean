import MiniLua.Eval.Machine
import MiniLua.Proofs.Table.Writing

/-!
# Tables are finite maps

However a table was written, a key reads the value last written under an equal key. A write that
fails leaves nothing behind, in the table or in the machine that holds it.
-/

namespace MiniLua.Table

/-- A write that may fail; the table is then the one from before. -/
def attempt (t : Table) (op : Value × Value) : Table :=
  match t.set op.1 op.2 with
  | .ok written => written
  | .error _ => t

/-- The table that a sequence of writes makes of the empty one. -/
def ofWrites (ops : List (Value × Value)) : Table := ops.foldl attempt empty

/-- The value of the last write that succeeded under a key equal to this one. -/
def lastWritten (ops : List (Value × Value)) (k : Value) : Value :=
  ((ops.reverse.find? fun op => (keyFault? op.1).isNone && op.1.rawEq k).map (·.2)).getD .nil

/-- No table on the way reaches `2 ^ 53` entries. -/
def Small (ops : List (Value × Value)) : Prop :=
  ∀ before, before <+: ops → (ofWrites before).items.length < 2 ^ 53

instance (ops : List (Value × Value)) : Decidable (Small ops) :=
  decidable_of_iff (∀ before ∈ ops.inits, (ofWrites before).items.length < 2 ^ 53) <| by
    simp only [Small, List.mem_inits]

section

variable {t : Table} {k v : Value} {ops : List (Value × Value)}

theorem attempt_of_fault {e : RuntimeError} (fault : keyFault? k = some e) :
    t.attempt (k, v) = t := by
  simp [attempt, set, fault]

theorem attempt_of_allowed (allowed : keyFault? k = none) : t.attempt (k, v) = t.insert k v := by
  simp [attempt, set, allowed]

theorem ofWrites_concat (op : Value × Value) : ofWrites (ops ++ [op]) = (ofWrites ops).attempt op := by
  simp [ofWrites]

theorem lastWritten_of_fault {e : RuntimeError} (fault : keyFault? k = some e) (k' : Value) :
    lastWritten (ops ++ [(k, v)]) k' = lastWritten ops k' := by
  simp [lastWritten, fault]

theorem lastWritten_of_allowed (allowed : keyFault? k = none) (k' : Value) :
    lastWritten (ops ++ [(k, v)]) k' = if k.rawEq k' then v else lastWritten ops k' := by
  cases h : k.rawEq k' <;> simp [lastWritten, allowed, h]

theorem Small.before {op : Value × Value} (small : Small (ops ++ [op])) : Small ops :=
  fun _ h => small _ (h.trans (List.prefix_append ops [op]))

theorem valid_ofWrites (ops : List (Value × Value)) (small : Small ops) :
    (ofWrites ops).Valid ∧ ∀ k, (ofWrites ops).get k = lastWritten ops k := by
  induction ops using List.reverseRecOn with
  | nil => exact ⟨valid_empty, get_empty⟩
  | append_singleton ops op ih =>
    obtain ⟨k, v⟩ := op
    obtain ⟨valid, reads⟩ := ih small.before
    have whole := small _ List.prefix_rfl
    rw [ofWrites_concat] at whole ⊢
    cases fault : keyFault? k with
    | some e =>
      rw [attempt_of_fault fault]
      refine ⟨valid, fun k' => ?_⟩
      rw [reads, lastWritten_of_fault fault]
    | none =>
      rw [attempt_of_allowed fault] at whole ⊢
      have written := written_insert valid fault (small.before _ List.prefix_rfl) whole
      refine ⟨written.valid, fun k' => ?_⟩
      rw [written.reads, reads, lastWritten_of_allowed fault]

/-! ## Keys that cannot be written -/

theorem keyFault?_number (x : Float) :
    keyFault? (.number x) = if x.isNaN then some .nanKey else none := rfl

theorem keyFault?_nilKey : keyFault? k = some .nilKey ↔ k = .nil := by
  cases k with
  | number x =>
    rw [keyFault?_number]
    split <;> simp only [reduceCtorEq, Option.some.injEq]
  | _ => simp [keyFault?]

theorem keyFault?_nanKey : keyFault? k = some .nanKey ↔ ∃ x, k = .number x ∧ x.isNaN := by
  cases k with
  | number x =>
    rw [keyFault?_number]
    constructor
    · intro fault
      refine ⟨x, rfl, ?_⟩
      by_contra h
      rw [if_neg h] at fault
      cases fault
    · rintro ⟨y, same, h⟩
      obtain rfl : x = y := Value.number.inj same
      rw [if_pos h]
  | _ => simp [keyFault?]

theorem keyFault?_cases {e : RuntimeError} (fault : keyFault? k = some e) :
    e = .nilKey ∨ e = .nanKey := by
  cases k with
  | nil => exact .inl (Option.some.inj fault).symm
  | number x =>
    rw [keyFault?_number] at fault
    split at fault
    · exact .inr (Option.some.inj fault).symm
    · cases fault
  | _ => cases fault

/-- A key that equals one that can be written can be written. -/
theorem allowed_of_rawEq {k' : Value} (same : k'.rawEq k = true) (allowed : keyFault? k' = none) :
    keyFault? k = none := by
  cases fault : keyFault? k with
  | none => rfl
  | some e =>
    rcases keyFault?_cases fault with rfl | rfl
    · rw [keyFault?_nilKey.mp fault] at same
      cases k' <;> simp_all [Value.rawEq, keyFault?]
    · obtain ⟨x, rfl, hx⟩ := keyFault?_nanKey.mp fault
      cases k' with
      | number y =>
        have := ((Number.beq_iff x y).mp (Number.beq_symm same)).1
        exact absurd (Number.unpacked_of_isNaN hx) this
      | _ => simp [Value.rawEq] at same

theorem lastWritten_unwritable {e : RuntimeError} (fault : keyFault? k = some e) :
    lastWritten ops k = .nil := by
  have none : (ops.reverse.find? fun op => (keyFault? op.1).isNone && op.1.rawEq k) = none := by
    rw [List.find?_eq_none]
    intro op _ found
    simp only [Bool.and_eq_true, Option.isNone_iff_eq_none] at found
    rw [allowed_of_rawEq found.2 found.1] at fault
    cases fault
  simp [lastWritten, none]

end

theorem modify_eq_setIfInBounds (tables : Array Table) (id : Nat) (f : Table → Table) :
    tables.modify id f = tables.setIfInBounds id (f (tables.getD id empty)) := by
  apply Array.ext_getElem?
  intro i
  rw [Array.getElem?_modify, Array.getElem?_setIfInBounds]
  by_cases h : id = i
  · subst h
    by_cases hlt : id < tables.size <;> simp [hlt]
  · simp [h]

/-- Writing into a table of the machine is writing into the table. -/
theorem setKey_eq (id : Nat) (k v : Value) (m : Machine) :
    Eval.setKey id k v m =
      match (m.tables.getD id empty).set k v with
      | .ok written => .ok () { m with tables := m.tables.setIfInBounds id written }
      | .error e => .error (.fault e 0) m := by
  cases fault : keyFault? k with
  | some e =>
    simp only [Eval.setKey, fault, set]
    rfl
  | none =>
    simp only [Eval.setKey, fault, set, ← modify_eq_setIfInBounds m.tables id (·.insert k v)]
    rfl

/-- Tables refine finite maps: readings are last writings, one write changes one reading, and the
writes that fail are those under nil and NaN. -/
theorem get_ofWrites (ops : List (Value × Value)) (small : Small ops) :
    (∀ k, (ofWrites ops).get k = lastWritten ops k) ∧
    (∀ k, k = .nil ∨ (∃ x, k = .number x ∧ x.isNaN) → (ofWrites ops).get k = .nil) ∧
    (∀ k v written, (ofWrites ops).set k v = .ok written → written.items.length < 2 ^ 53 →
      ∀ k', written.get k' = if k.rawEq k' then v else (ofWrites ops).get k') ∧
    (∀ k v, (∃ e, (ofWrites ops).set k v = .error e) ↔
      k = .nil ∨ ∃ x, k = .number x ∧ x.isNaN) ∧
    ∀ k v e, (ofWrites ops).set k v = .error e →
      e.isTypeError ∧ ofWrites (ops ++ [(k, v)]) = ofWrites ops ∧
      ∀ id m, Eval.setKey id k v m = .error (.fault e 0) m := by
  obtain ⟨valid, reads⟩ := valid_ofWrites ops small
  have whole := small ops List.prefix_rfl
  have unwritable (k : Value) :
      (∃ e, keyFault? k = some e) ↔ k = .nil ∨ ∃ x, k = .number x ∧ x.isNaN := by
    rw [← keyFault?_nilKey, ← keyFault?_nanKey]
    constructor
    · rintro ⟨e, fault⟩
      rcases keyFault?_cases fault with rfl | rfl
      · exact .inl fault
      · exact .inr fault
    · rintro (fault | fault)
      · exact ⟨_, fault⟩
      · exact ⟨_, fault⟩
  refine ⟨reads, ?_, ?_, ?_, ?_⟩
  · intro k hk
    obtain ⟨e, fault⟩ := (unwritable k).mpr hk
    rw [reads, lastWritten_unwritable fault]
  · intro k v written hset still
    cases allowed : keyFault? k with
    | some e => simp [set, allowed] at hset
    | none =>
      obtain rfl : (ofWrites ops).insert k v = written := by simpa [set, allowed] using hset
      exact (written_insert valid allowed whole still).reads
  · intro k v
    rw [← unwritable]
    cases fault : keyFault? k <;> simp [set, fault]
  · intro k v e hset
    cases fault : keyFault? k with
    | none => simp [set, fault] at hset
    | some e' =>
      obtain rfl : e' = e := by simpa [set, fault] using hset
      refine ⟨?_, ?_, ?_⟩
      · rcases keyFault?_cases fault with rfl | rfl <;> rfl
      · rw [ofWrites_concat, attempt_of_fault fault]
      · intro id m
        simp [setKey_eq, set, fault]

/-- Fills a hole, opens it again and tries a key that cannot be written. -/
def holeWrites : List (Value × Value) :=
  [(.number 1, .string "a"), (.number 3, .string "c"), (.number 2, .string "b"),
    (.number 2, .nil), (.number (0 / 0), .bool true)]

theorem get_holeWrites :
    Small holeWrites ∧ (ofWrites holeWrites).get (.number 3) = .string "c" ∧
      (ofWrites holeWrites).get (.number 2) = .nil := by
  have small : Small holeWrites := by
    intro before h
    have bounded : ∀ before ∈ holeWrites.inits, (ofWrites before).items.length < 2 ^ 53 := by
      decide +kernel
    exact bounded before ((List.mem_inits before holeWrites).mpr h)
  have reads := (get_ofWrites holeWrites small).1
  exact ⟨small, (reads _).trans (by rfl), (reads _).trans (by rfl)⟩

end MiniLua.Table
