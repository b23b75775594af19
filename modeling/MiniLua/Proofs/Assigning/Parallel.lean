import MiniLua.Proofs.Assigning.Phases
import MiniLua.Proofs.Regimes.Intact
import MiniLua.Proofs.Table.Listing

/-!
# Assignments as parallel updates

Stores in turn do what storing all values at once does: the frames that names resolve to are those
from before the first store, whatever globals the stores make, and a table reads what was last
written, however its entries move. Only equal addresses get in each other's way, and there the last
store decides.
-/

namespace MiniLua

/-- What can be stored to: a variable of a frame or a key of a table. -/
inductive Address where
  | «variable» (frame : FrameId) (name : String)
  | slot (table : Nat) (key : Value)

namespace Address

/-- The same variable, or equal keys of one table. -/
def same : Address → Address → Bool
  | .variable id n, .variable id' n' => id == id' && n == n'
  | .slot id k, .slot id' k' => id == id' && k.rawEq k'
  | _, _ => false

theorem same_comm (a b : Address) : a.same b = b.same a := by
  cases a with
  | «variable» id n =>
    cases b with
    | «variable» id' n' => simp only [same, Bool.beq_comm]
    | slot id' k' => rfl
  | slot id k =>
    cases b with
    | «variable» id' n' => rfl
    | slot id' k' => simp only [same, Bool.beq_comm, Value.rawEq_comm k k']

end Address

/-- What a place stands for while it is being stored to. -/
def Place.address (m : Machine) (scope : Scope) : Place → Address
  | .variable name => .variable (m.frames.home scope name) name
  | .slot id key => .slot id key

namespace Machine

/-- The value at an address, nil if there is none. -/
def read (m : Machine) : Address → Value
  | .variable id name => ((m.frames.bindings id).lookup name).getD .nil
  | .slot id key => (m.tables.getD id .empty).get key

/-- A store that goes through and leaves an intact machine. -/
structure Storable (m : Machine) (s : Place × Value) : Prop where
  writable : s.1.fault? = none
  place : Regime.intact.Place m s.1
  value : s.2.Lives m

variable {m m' : Machine} {scope : Scope} {s : Place × Value} {stores : List (Place × Value)}

theorem Storable.later (h : m.Storable s) (outlives : m'.Outlives m) : m'.Storable s :=
  ⟨h.writable, h.place.later outlives, outlives.lives s.2 h.value⟩

theorem Intact.stored (intact : m.Intact) (outward : m.frames.Outward scope) (h : m.Storable s) :
    (m.stored scope s).Intact ∧ (m.stored scope s).Outlives m := by
  obtain ⟨place, v⟩ := s
  cases place with
  | «variable» name => exact intact.assign outward h.value name
  | slot id key => exact intact.setKey h.writable h.place.2 h.value

/-! ## One store -/

theorem read_stored (intact : m.Intact) (outward : m.frames.Outward scope) (h : m.Storable s)
    (a : Address) :
    (m.stored scope s).read a = if (s.1.address m scope).same a then s.2 else m.read a := by
  obtain ⟨place, v⟩ := s
  cases place with
  | «variable» name =>
    cases a with
    | slot id key => rfl
    | «variable» id n =>
      have reads := Frames.lookup_bindings_assign outward name v id n
      change (((m.frames.assign scope name v).bindings id).lookup n).getD .nil = _
      rw [reads]
      by_cases here : id = m.frames.home scope name ∧ n = name
      · obtain ⟨rfl, rfl⟩ := here
        simp [Place.address, Address.same]
      · have other : (Address.variable (m.frames.home scope name) name).same (.variable id n) =
            false := by
          simp only [Address.same, Bool.and_eq_false_imp, beq_iff_eq, beq_eq_false_iff_ne]
          exact fun frame same => here ⟨frame.symm, same.symm⟩
        rw [if_neg here, Place.address, if_neg (by simp [other])]
        rfl
  | slot id key =>
    cases a with
    | «variable» id' n => rfl
    | slot id' k =>
      have inside : id < m.tables.size := h.place.1
      change ((m.tables.modify id (·.insert key v)).getD id' .empty).get k = _
      by_cases here : id = id'
      · subst here
        have written := ((intact.table id).1.write h.writable v).1.reads k
        rw [Table.modify_eq_setIfInBounds]
        simpa [Array.getElem?_setIfInBounds, inside, Place.address, Address.same, read] using written
      · rw [Table.modify_eq_setIfInBounds]
        simp [here, Place.address, Address.same, read]

/-- A store changes no address of a place: a name resolves alike, or is then the global it makes. -/
theorem address_stored (outward : m.frames.Outward scope) (s : Place × Value) (place : Place) :
    place.address (m.stored scope s) scope = place.address m scope := by
  cases place with
  | slot id key => rfl
  | «variable» name =>
    obtain ⟨place', v⟩ := s
    cases place' with
    | slot id key => rfl
    | «variable» name' =>
      have resolves := Frames.resolve?_assign outward outward name' v name
      have root : Frames.root scope = 0 := outward.root
      simp only [Place.address, stored, Frames.home, resolves]
      split
      next made =>
        obtain ⟨rfl, -, free⟩ := made
        rw [free, root]
        rfl
      next => rfl

/-! ## Stores in turn -/

/-- The value of the last store to the same address. -/
def lastStored (m : Machine) (scope : Scope) (stores : List (Place × Value)) (a : Address) :
    Option Value :=
  (stores.reverse.find? fun s => (s.1.address m scope).same a).map (·.2)

theorem lastStored_cons (s : Place × Value) (a : Address) :
    m.lastStored scope (s :: stores) a = (m.lastStored scope stores a).or
      (if (s.1.address m scope).same a then some s.2 else none) := by
  unfold lastStored
  rw [List.reverse_cons, List.find?_append]
  cases stores.reverse.find? fun s => (s.1.address m scope).same a with
  | some s' => rfl
  | none => cases same : (s.1.address m scope).same a <;> simp [same]

theorem lastStored_stored (outward : m.frames.Outward scope) (a : Address) :
    (m.stored scope s).lastStored scope stores a = m.lastStored scope stores a := by
  simp only [lastStored, address_stored outward s]

theorem read_storedAll (intact : m.Intact) (outward : m.frames.Outward scope)
    (storable : ∀ s ∈ stores, m.Storable s) (a : Address) :
    (m.storedAll scope stores).read a = (m.lastStored scope stores a).getD (m.read a) := by
  induction stores generalizing m with
  | nil => rfl
  | cons s stores ih =>
    obtain ⟨first, rest⟩ := List.forall_mem_cons.mp storable
    obtain ⟨intact', outlives⟩ := intact.stored outward first
    have outward' := outward.stable outlives.frames
    rw [storedAll_cons, ih intact' outward' fun s' member => (rest s' member).later outlives,
      lastStored_stored outward, lastStored_cons, read_stored intact outward first]
    cases m.lastStored scope stores a with
    | some v => rfl
    | none => cases (s.1.address m scope).same a <;> rfl

theorem tables_stored (s : Place × Value) (m : Machine) :
    m.stored scope s = { m with
      frames := (m.stored scope s).frames, tables := (m.stored scope s).tables } := by
  obtain ⟨place, v⟩ := s
  cases place <;> rfl

theorem storedAll_eq (stores : List (Place × Value)) (m : Machine) :
    m.storedAll scope stores = { m with
      frames := (m.storedAll scope stores).frames, tables := (m.storedAll scope stores).tables } := by
  induction stores generalizing m with
  | nil => rfl
  | cons s stores ih =>
    rw [storedAll_cons, ih, tables_stored s m]

/-- The machine `m'` is `m` with the values stored at once at the addresses of their places in `m`;
of equal addresses the last one counts. -/
structure StoredAtOnce (scope : Scope) (stores : List (Place × Value)) (m m' : Machine) : Prop where
  last : ∀ before s after, stores = before ++ s :: after →
    (∀ t ∈ after, (t.1.address m scope).same (s.1.address m scope) = false) →
    m'.read (s.1.address m scope) = s.2
  others : ∀ a, (∀ s ∈ stores, (s.1.address m scope).same a = false) → m'.read a = m.read a
  rest : m' = { m with frames := m'.frames, tables := m'.tables }

theorem Storable.same_self (h : m.Storable s) :
    (s.1.address m scope).same (s.1.address m scope) = true := by
  obtain ⟨place, v⟩ := s
  cases place with
  | «variable» name => simp [Place.address, Address.same]
  | slot id key =>
    have one : key.isList = false := by
      cases key with
      | list vs => exact h.place.2.elim
      | _ => rfl
    simp [Place.address, Address.same, Table.rawEq_self h.writable one]

theorem storedAtOnce (intact : m.Intact) (outward : m.frames.Outward scope)
    (storable : ∀ s ∈ stores, m.Storable s) :
    StoredAtOnce scope stores m (m.storedAll scope stores) where
  last before s after split alone := by
    have itself : (s.1.address m scope).same (s.1.address m scope) = true :=
      (storable s (split ▸ List.mem_append_right _ List.mem_cons_self)).same_self
    have found : m.lastStored scope stores (s.1.address m scope) = some s.2 := by
      have missed : after.reverse.find?
          (fun t => (t.1.address m scope).same (s.1.address m scope)) = none :=
        List.find?_eq_none.mpr fun t member => by simp [alone t (List.mem_reverse.mp member)]
      simp [lastStored, split, missed, itself]
    rw [read_storedAll intact outward storable, found]
    rfl
  others a untouched := by
    have missed : m.lastStored scope stores a = none := by
      have none : stores.reverse.find? (fun t => (t.1.address m scope).same a) = none :=
        List.find?_eq_none.mpr fun t member => by simp [untouched t (List.mem_reverse.mp member)]
      rw [lastStored, none]
      rfl
    rw [read_storedAll intact outward storable, missed]
    rfl
  rest := storedAll_eq stores m

/-- Where all addresses are distinct every place reads its own value. -/
theorem StoredAtOnce.each (h : StoredAtOnce scope stores m m')
    (distinct : stores.Pairwise fun s t => (s.1.address m scope).same (t.1.address m scope) = false)
    (member : s ∈ stores) : m'.read (s.1.address m scope) = s.2 := by
  obtain ⟨before, after, rfl⟩ := List.append_of_mem member
  refine h.last before s after rfl fun t there => ?_
  rw [Address.same_comm]
  have tail := (List.pairwise_append.mp distinct).2.1
  exact (List.pairwise_cons.mp tail).1 t there

end Machine

/-! ## Assignments -/

open Eval

/-- The values and places of an assignment are storable in the machine in which it starts to store. -/
theorem Stmt.storable_of_assign {turns budget : Nat} {scope : Scope} {targets : List Target}
    {values : List Expr} {m m₁ m₂ : Machine} {vs : List Value} {places : List Place}
    (intact : m.Intact) (outward : m.frames.Outward scope)
    (valued : Expr.evalAll (engine turns budget) scope values m = .ok vs m₁)
    (resolved : Target.places (engine turns budget) scope targets m₁ = .ok places m₂)
    (writable : ∀ s ∈ storesOf places vs, s.1.fault? = none) :
    m₂.Intact ∧ m₂.frames.Outward scope ∧ ∀ s ∈ storesOf places vs, m₂.Storable s := by
  have calls : (engine turns budget).Abides .intact := abides_callAt turns budget
  obtain ⟨onward, known⟩ := (Expr.abidesAll calls m scope values outward False.elim).of_ok intact valued
  have outward₁ := outward.stable onward.later.frames
  obtain ⟨onward', there⟩ :=
    (Target.abidesAll calls m₁ scope targets outward₁ False.elim).of_ok onward.machine resolved
  have fine : Regime.intact.Values m₂ vs := Regime.Values.later known onward'.later
  refine ⟨onward'.machine, outward₁.stable onward'.later.frames, fun s member => ?_⟩
  obtain ⟨place, v⟩ := s
  obtain ⟨placed, valued⟩ := List.of_mem_zip member
  exact ⟨writable _ member, there place placed, Regime.Values.adjust fine _ v valued⟩

/-- An assignment that ends stores its values at once at the places its targets denote before the
first store. In particular it permutes distinct places exactly. Wherever a session runs one, the
machine is intact and the scope leads out (`Session.intact_reached`). -/
theorem assign_parallel (turns budget : Nat) (scope : Scope) (targets : List Target)
    (values : List Expr) (line : Nat) (m m' : Machine) (out : Signal × Scope) (intact : m.Intact)
    (outward : m.frames.Outward scope)
    (done : (Stmt.assign targets values line).exec (engine turns budget) scope m = .ok out m') :
    ∃ vs m₁ places m₂,
      Expr.evalAll (engine turns budget) scope values m = .ok vs m₁ ∧
      Target.places (engine turns budget) scope targets m₁ = .ok places m₂ ∧
      places.length = targets.length ∧ out = (.normal, scope) ∧
      m₂.StoredAtOnce scope (storesOf places vs) m' ∧
      ∀ σ : Equiv.Perm (Fin places.length),
        (∀ i : Fin places.length, (Value.adjust vs places.length)[i]? =
          some (m₂.read (places[σ i].address m₂ scope))) →
        (places.Pairwise fun p q => (p.address m₂ scope).same (q.address m₂ scope) = false) →
        ∀ i : Fin places.length,
          m'.read (places[i].address m₂ scope) = m₂.read (places[σ i].address m₂ scope) := by
  obtain ⟨vs, m₁, places, m₂, valued, resolved, writable, rfl, rfl⟩ := Stmt.assign_eq_ok.mp done
  obtain ⟨intact₂, outward₂, storable⟩ :=
    Stmt.storable_of_assign intact outward valued resolved writable
  have update := Machine.storedAtOnce intact₂ outward₂ storable
  refine ⟨vs, m₁, places, m₂, valued, resolved, Target.length_places resolved, rfl, update, ?_⟩
  intro σ permuted distinct i
  have stored : (storesOf places vs)[i]? =
      some (places[i], m₂.read (places[σ i].address m₂ scope)) :=
    List.getElem?_zip_eq_some.mpr ⟨List.getElem?_eq_getElem i.isLt, permuted i⟩
  have apart : ((storesOf places vs).map (·.1)).Pairwise fun p q =>
      (p.address m₂ scope).same (q.address m₂ scope) = false :=
    (map_fst_storesOf places vs).symm ▸ distinct
  exact update.each (List.pairwise_map.mp apart) (List.mem_of_getElem? stored)

/-- Two globals change places. -/
theorem assign_parallel_swap :
    ∃ m', (Stmt.assign [.name "print" 1, .name "pairs" 1] [.name "pairs" 1, .name "print" 1] 1).exec
        (engine 0 0) [0] (.initial false) = .ok (.normal, [0]) m' ∧
      m'.read (.variable 0 "print") = .builtin .pairs ∧
      m'.read (.variable 0 "pairs") = .builtin .print := by
  have intact := Machine.intact_initial false
  refine ⟨_, rfl, ?_⟩
  obtain ⟨vs, m₁, places, m₂, valued, resolved, -, -, update, -⟩ :=
    assign_parallel 0 0 [0] [.name "print" 1, .name "pairs" 1] [.name "pairs" 1, .name "print" 1] 1
      (.initial false) _ _ intact (.globals intact.globals) rfl
  cases valued
  cases resolved
  exact ⟨update.last [] (.variable "print", .builtin .pairs) [(.variable "pairs", .builtin .print)]
    rfl (by decide), update.last [(.variable "print", .builtin .pairs)]
    (.variable "pairs", .builtin .print) [] rfl nofun⟩

end MiniLua
