import MiniLua.Proofs.Running.Sequencing
import MiniLua.Proofs.Scoping.Sharing
import MiniLua.Proofs.Table.Refinement

/-!
# Stores

A store writes one place, or its key cannot be written and it leaves the machine as it is. Stores in
turn are made up to the first whose key cannot be written.
-/

namespace MiniLua

/-- Why nothing can be stored at a place. -/
def Place.fault? : Place → Option RuntimeError
  | .variable _ => none
  | .slot _ key => Table.keyFault? key

/-- What a store that goes through makes of the machine. -/
def Machine.stored (scope : Scope) (m : Machine) (s : Place × Value) : Machine :=
  match s.1 with
  | .variable name => { m with frames := m.frames.assign scope name s.2 }
  | .slot id key => { m with tables := m.tables.modify id (·.insert key s.2) }

/-- What stores make of the machine, the first one first. -/
def Machine.storedAll (scope : Scope) (m : Machine) (stores : List (Place × Value)) : Machine :=
  stores.foldl (Machine.stored scope) m

/-- The stores of an assignment: its places with their values, one for each. -/
def storesOf (places : List Place) (values : List Value) : List (Place × Value) :=
  places.zip (Value.adjust values places.length)

namespace Machine

variable {scope : Scope} {stores : List (Place × Value)}

theorem storedAll_cons (s : Place × Value) (m : Machine) :
    m.storedAll scope (s :: stores) = (m.stored scope s).storedAll scope stores := rfl

/-- Stores leave a table alone that they have no place in. -/
theorem tables_storedAll {id : Nat} (elsewhere : ∀ s ∈ stores, ∀ key, s.1 ≠ .slot id key)
    (m : Machine) : (m.storedAll scope stores).tables[id]? = m.tables[id]? := by
  induction stores generalizing m with
  | nil => rfl
  | cons s stores ih =>
    obtain ⟨first, rest⟩ := List.forall_mem_cons.mp elsewhere
    rw [storedAll_cons, ih rest]
    obtain ⟨place, v⟩ := s
    cases place with
    | «variable» name => rfl
    | slot id' key =>
      have other : id' ≠ id := fun same => first key (same ▸ rfl)
      simp [stored, Array.getElem?_modify, other]

/-- Stores leave the variables of a name alone that they do not store. -/
theorem lookup_storedAll {name : String} (elsewhere : ∀ s ∈ stores, s.1 ≠ .variable name)
    (id : FrameId) (m : Machine) :
    ((m.storedAll scope stores).frames.bindings id).lookup name =
      (m.frames.bindings id).lookup name := by
  induction stores generalizing m with
  | nil => rfl
  | cons s stores ih =>
    obtain ⟨first, rest⟩ := List.forall_mem_cons.mp elsewhere
    rw [storedAll_cons, ih rest]
    obtain ⟨place, v⟩ := s
    cases place with
    | «variable» name' =>
      have other : name ≠ name' := fun same => first (same ▸ rfl)
      change (((m.frames.define _ name' v).bindings id).lookup name) = _
      rw [Frames.bindings_define]
      split
      · rw [Bindings.lookup_bind, if_neg other]
      · rfl
    | slot id' key => rfl

end Machine

theorem map_fst_storesOf (places : List Place) (values : List Value) :
    (storesOf places values).map (·.1) = places :=
  List.map_fst_zip (Nat.le_of_eq (Value.length_adjust values places.length).symm)

namespace Eval

variable {scope : Scope} {place : Place} {v : Value} {m m' : Machine} {halt : Halt}

theorem store_of_fault {error : RuntimeError} (fault : place.fault? = some error) (v : Value)
    (m : Machine) : store scope place v m = .error (.fault error 0) m := by
  cases place with
  | «variable» name => cases fault
  | slot id key =>
    rw [Place.fault?] at fault
    simp only [store, setKey, fault]
    rfl

theorem store_of_writable (writable : place.fault? = none) (v : Value) (m : Machine) :
    store scope place v m = .ok () (m.stored scope (place, v)) := by
  cases place with
  | «variable» name => rfl
  | slot id key =>
    rw [Place.fault?] at writable
    simp only [store, setKey, writable]
    rfl

/-! ## Stores in turn -/

variable {places : List Place} {vs : List Value} {before after : List (Place × Value)}
  {s : Place × Value} {error : RuntimeError}

theorem storeAll_of_writable (writable : ∀ s ∈ places.zip vs, s.1.fault? = none) (m : Machine) :
    storeAll scope places vs m = .ok () (m.storedAll scope (places.zip vs)) := by
  induction places generalizing vs m with
  | nil => rfl
  | cons place places ih =>
    cases vs with
    | nil => rfl
    | cons v vs =>
      obtain ⟨first, rest⟩ := List.forall_mem_cons.mp writable
      rw [storeAll, bind_of_ok (store_of_writable first v m)]
      exact ih rest _

theorem storeAll_of_fault (split : places.zip vs = before ++ s :: after)
    (writable : ∀ b ∈ before, b.1.fault? = none) (fault : s.1.fault? = some error) (m : Machine) :
    storeAll scope places vs m = .error (.fault error 0) (m.storedAll scope before) := by
  induction before generalizing places vs m with
  | nil =>
    obtain ⟨places, vs, rfl, rfl, -⟩ := List.zip_eq_cons_iff.mp split
    exact bind_of_error _ (store_of_fault fault s.2 m)
  | cons b before ih =>
    obtain ⟨places, vs, rfl, rfl, rest⟩ := List.zip_eq_cons_iff.mp split
    obtain ⟨first, others⟩ := List.forall_mem_cons.mp writable
    rw [storeAll, bind_of_ok (store_of_writable first b.2 m)]
    exact ih rest.symm others _

/-- Every store goes through, or there is a first one that does not. -/
theorem writable_or_fault (stores : List (Place × Value)) :
    (∀ s ∈ stores, s.1.fault? = none) ∨
      ∃ before s after error, stores = before ++ s :: after ∧
        (∀ b ∈ before, b.1.fault? = none) ∧ s.1.fault? = some error := by
  cases found : stores.find? (·.1.fault?.isSome) with
  | none =>
    refine .inl fun s member => ?_
    simpa using List.find?_eq_none.mp found s member
  | some s =>
    obtain ⟨faulty, before, after, split, fine⟩ := List.find?_eq_some_iff_append.mp found
    obtain ⟨error, fault⟩ := Option.isSome_iff_exists.mp faulty
    exact .inr ⟨before, s, after, error, split, fun b member => by simpa using fine b member, fault⟩

theorem storeAll_eq_ok :
    storeAll scope places vs m = .ok () m' ↔
      (∀ s ∈ places.zip vs, s.1.fault? = none) ∧ m' = m.storedAll scope (places.zip vs) := by
  constructor
  · intro done
    obtain writable | ⟨before, s, after, error, split, writable, fault⟩ :=
      writable_or_fault (places.zip vs)
    · rw [storeAll_of_writable writable] at done
      cases done
      exact ⟨writable, rfl⟩
    · rw [storeAll_of_fault split writable fault] at done
      cases done
  · rintro ⟨writable, rfl⟩
    exact storeAll_of_writable writable m

theorem storeAll_eq_error :
    storeAll scope places vs m = .error halt m' ↔
      ∃ before s after error, places.zip vs = before ++ s :: after ∧
        (∀ b ∈ before, b.1.fault? = none) ∧ s.1.fault? = some error ∧
        halt = .fault error 0 ∧ m' = m.storedAll scope before := by
  constructor
  · intro failed
    obtain writable | ⟨before, s, after, error, split, writable, fault⟩ :=
      writable_or_fault (places.zip vs)
    · rw [storeAll_of_writable writable] at failed
      cases failed
    · rw [storeAll_of_fault split writable fault] at failed
      cases failed
      exact ⟨before, s, after, error, split, writable, fault, rfl, rfl⟩
  · rintro ⟨before, s, after, error, split, writable, fault, rfl, rfl⟩
    exact storeAll_of_fault split writable fault m

end Eval

end MiniLua
