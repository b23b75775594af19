import MiniLua.Proofs.Export.Entries
import Mathlib.Data.Finset.Card
import Mathlib.Logic.Relation

/-!
# Converting tables, each once

The tables met so far are the objects in their order. What a conversion adds to them are the tables
that can be reached from the ones it is asked for; when it is done, every table it has added has its
entries. While a table is converted it counts as met, so that no more tables can be nested than are
yet unmet.
-/

namespace MiniLua

open Relation

/-! ## Plain data, given the objects -/

namespace Value

mutual

/-- A value as plain data, given the object of each table. -/
def exported (object : Nat → Nat) : Value → Plain
  | nil => .nil
  | bool b => .bool b
  | number x => .number x
  | string s => .text s
  | builtin b => .text b.name
  | ref (.table id) => .table (object id)
  | ref (.function id) => .function id
  | list vs => .list (exportedAll object vs)

def exportedAll (object : Nat → Nat) : List Value → List Plain
  | [] => []
  | v :: vs => v.exported object :: exportedAll object vs

end

mutual

/-- The tables that occur in a value itself. -/
def tableIds : Value → List Nat
  | ref (.table id) => [id]
  | list vs => tableIdsOfAll vs
  | _ => []

def tableIdsOfAll : List Value → List Nat
  | [] => []
  | v :: vs => v.tableIds ++ tableIdsOfAll vs

end

variable {object object' : Nat → Nat}

mutual

theorem exported_congr : ∀ {v : Value}, (∀ id ∈ v.tableIds, object id = object' id) →
    v.exported object = v.exported object'
  | nil, _ | bool _, _ | number _, _ | string _, _ | builtin _, _ | ref (.function _), _ => rfl
  | ref (.table id), same => by rw [exported, exported, same id List.mem_cons_self]
  | list vs, same => by rw [exported, exported, exportedAll_congr same]

theorem exportedAll_congr : ∀ {vs : List Value}, (∀ id ∈ tableIdsOfAll vs, object id = object' id) →
    exportedAll object vs = exportedAll object' vs
  | [], _ => rfl
  | v :: vs, same => by
    rw [exportedAll, exportedAll,
      exported_congr fun id member => same id (List.mem_append_left _ member),
      exportedAll_congr fun id member => same id (List.mem_append_right _ member)]

end

end Value

namespace Table

/-- The entries of a table's object. -/
def exported (object : Nat → Nat) (t : Table) : PlainEntries :=
  objectFrom (·.exported object) t.items

/-- The tables that are values of a table. -/
def tableIds (t : Table) : List Nat := t.items.flatMap (·.2.tableIds)

theorem exported_congr {object object' : Nat → Nat} {t : Table}
    (h : ∀ id ∈ t.tableIds, object id = object' id) : t.exported object = t.exported object' := by
  have values : ∀ e ∈ t.items, e.2.exported object = e.2.exported object' := fun e member =>
    Value.exported_congr fun id inside => h id (List.mem_flatMap.mpr ⟨e, member, inside⟩)
  refine List.foldl_ext _ _ _ fun entries e member => ?_
  dsimp only
  rw [values e member]

end Table

/-- A table has another as a value. -/
def Machine.Holds (m : Machine) (a b : Nat) : Prop := b ∈ (m.table a).tableIds

/-! ## Orderly conversions -/

namespace Conversion

variable {m : Machine} {s s' s₁ s₂ : Conversion} {made made₁ made₂ : List Nat} {id object : Nat}

/-- Objects are numbered as the tables have been met. -/
structure Orderly (made : List Nat) (s : Conversion) : Prop where
  nodup : made.Nodup
  size : s.objects.size = made.length
  seen : ∀ id object, s.seen.lookup id = some object ↔ made[object]? = some id

theorem getElem?_concat_eq_some_iff {a k : Nat} :
    (made ++ [id])[k]? = some a ↔ made[k]? = some a ∨ k = made.length ∧ id = a := by
  rcases Nat.lt_trichotomy k made.length with inside | rfl | outside
  · rw [List.getElem?_append_left inside]
    simp [inside.ne]
  · simp
  · have beyond : (made ++ [id]).length ≤ k := by simpa using outside
    rw [List.getElem?_eq_none beyond, List.getElem?_eq_none outside.le]
    simp [outside.ne']

theorem orderly_start : Orderly [] .start := ⟨.nil, rfl, by simp [start]⟩

theorem Orderly.register (h : Orderly made s) (new : id ∉ made) :
    Orderly (made ++ [id]) (s.register id) where
  nodup := by
    refine List.nodup_append.mpr ⟨h.nodup, List.nodup_singleton _, ?_⟩
    rintro a member b single rfl
    exact new (List.mem_singleton.mp single ▸ member)
  size := by simp [Conversion.register, h.size]
  seen := by
    intro a k
    rw [Conversion.register, List.lookup_cons, getElem?_concat_eq_some_iff, ← h.seen, h.size]
    cases same : a == id with
    | true =>
      obtain rfl := beq_iff_eq.mp same
      have unseen : s.seen.lookup a ≠ some k :=
        fun seen => new (List.mem_of_getElem? ((h.seen a k).mp seen))
      simp [unseen, eq_comm]
    | false =>
      have other : id ≠ a := fun same' => by simp [same'] at same
      simp [other]

theorem Orderly.idxOf_eq (h : Orderly made s) (found : made[object]? = some id) :
    made.idxOf id = object := by
  obtain ⟨inside, rfl⟩ := List.getElem?_eq_some_iff.mp found
  exact h.nodup.idxOf_getElem object inside

theorem Orderly.put (h : Orderly made s) (key : PlainKey) (value : Plain) :
    Orderly made (s.put object key value) :=
  ⟨h.nodup, by rw [Conversion.put, Array.size_modify, h.size], h.seen⟩

/-- How many tables of the store have not been met. -/
def unmet (m : Machine) (made : List Nat) : Nat :=
  (Finset.range m.tables.size \ made.toFinset).card

theorem unmet_mono (front : made <+: made₁) : unmet m made₁ ≤ unmet m made := by
  refine Finset.card_le_card (Finset.sdiff_subset_sdiff (Finset.Subset.refl _) fun id member => ?_)
  exact List.mem_toFinset.mpr (front.subset (List.mem_toFinset.mp member))

/-- A new table has its entries, all tables in it are met, and it has been reached from `roots`. -/
structure Done (m : Machine) (roots made : List Nat) (s : Conversion) (object id : Nat) : Prop where
  filled : s.objects[object]? = some ((m.table id).exported made.idxOf)
  closed : ∀ b, m.Holds id b → b ∈ made
  reached : ∃ a ∈ roots, ReflTransGen m.Holds a id

/-- What a conversion adds if tables are asked for: these are met, and whatever is new is done. Of
the objects from before at most one is being filled. -/
structure Grown (m : Machine) (filling : Option Nat) (roots made : List Nat) (s : Conversion)
    (made' : List Nat) (s' : Conversion) : Prop where
  orderly : Orderly made' s'
  front : made <+: made'
  met : ∀ a ∈ roots, a ∈ made'
  kept : ∀ k < made.length, some k ≠ filling → s'.objects[k]? = s.objects[k]?
  done : ∀ k id, made.length ≤ k → made'[k]? = some id → Done m roots made' s' k id

theorem idxOf_extended (front : made <+: made₁) (member : id ∈ made) :
    made₁.idxOf id = made.idxOf id := by
  obtain ⟨rest, rfl⟩ := front
  exact List.idxOf_append_of_mem member

/-- A value whose tables have been met stays as it is while more is added. -/
theorem exported_extended {v : Value} (front : made <+: made₁) (met : ∀ a ∈ v.tableIds, a ∈ made) :
    v.exported made.idxOf = v.exported made₁.idxOf :=
  Value.exported_congr fun a inside => (idxOf_extended front (met a inside)).symm

/-- Nothing has to be added for tables that have been met. -/
theorem Orderly.grown {filling : Option Nat} {roots : List Nat} (h : Orderly made s)
    (met : ∀ a ∈ roots, a ∈ made) : Grown m filling roots made s made s where
  orderly := h
  front := List.prefix_rfl
  met := met
  kept := fun _ _ _ => rfl
  done := by
    intro k id outside new
    rw [List.getElem?_eq_none outside] at new
    cases new

/-- What is done stays done while more is added. -/
theorem Done.later {roots roots' : List Nat} (h : Done m roots made s object id)
    (front : made <+: made₁) (kept : s₁.objects[object]? = s.objects[object]?)
    (more : ∀ a ∈ roots, a ∈ roots') : Done m roots' made₁ s₁ object id where
  filled := by
    rw [kept, h.filled]
    exact congrArg some
      (Table.exported_congr fun b held => (idxOf_extended front (h.closed b held)).symm)
  closed := fun b held => front.subset (h.closed b held)
  reached := by
    obtain ⟨a, asked, path⟩ := h.reached
    exact ⟨a, more a asked, path⟩

theorem Grown.trans {filling : Option Nat} {roots roots' : List Nat}
    (first : Grown m filling roots made s made₁ s₁)
    (second : Grown m filling roots' made₁ s₁ made₂ s₂) (old : ∀ k ∈ filling, k < made.length) :
    Grown m filling (roots ++ roots') made s made₂ s₂ where
  orderly := second.orderly
  front := first.front.trans second.front
  met := by
    intro a asked
    rcases List.mem_append.mp asked with asked | asked
    · exact second.front.subset (first.met a asked)
    · exact second.met a asked
  kept := by
    intro k before other
    rw [second.kept k (before.trans_le first.front.length_le) other, first.kept k before other]
  done := by
    intro k id outside new
    by_cases middle : k < made₁.length
    · have other : some k ≠ filling := fun same => absurd (old k same.symm) (by omega)
      have new₁ : made₁[k]? = some id := by
        obtain ⟨rest, rfl⟩ := second.front
        rwa [List.getElem?_append_left middle] at new
      exact (first.done k id outside new₁).later second.front (second.kept k middle other)
        fun a => List.mem_append_left _
    · exact (second.done k id (by omega) new).later List.prefix_rfl rfl
        fun a => List.mem_append_right _

theorem getElem?_put_of_ne {key : PlainKey} {value : Plain} {k : Nat} (h : k ≠ object) :
    (s.put object key value).objects[k]? = s.objects[k]? := by
  rw [put, Array.getElem?_modify, if_neg h.symm]

/-- While a conversion goes on the object that is being filled takes one more entry. -/
theorem Grown.put {roots : List Nat} (h : Grown m none roots made s made₁ s₁)
    (old : object < made.length) (key : PlainKey) (value : Plain) :
    Grown m (some object) roots made s made₁ (s₁.put object key value) where
  orderly := h.orderly.put key value
  front := h.front
  met := h.met
  kept := by
    intro k before other
    rw [getElem?_put_of_ne (fun same => other (congrArg some same)), h.kept k before nofun]
  done := by
    intro k id outside new
    refine (h.done k id outside new).later List.prefix_rfl ?_ fun _ asked => asked
    exact getElem?_put_of_ne (by omega)

/-! ## Conversions that come to an end -/

theorem run_bind_of {α β : Type} {x : Converter α} {a : α} (h : x.run s = some (a, s'))
    (f : α → Converter β) : (x >>= f).run s = (f a).run s' := by
  rw [StateT.run_bind, h]
  rfl

/-- Where fewer tables than a limit are unmet, every table gets its object. -/
def Serves (m : Machine) (limit : Nat) (object : Nat → Converter Nat) : Prop :=
  ∀ {made s} id, Orderly made s → unmet m made < limit → ∃ k made' s',
    (object id).run s = some (k, s') ∧ Grown m none [id] made s made' s' ∧ made'[k]? = some id

section

variable {limit : Nat} {objects : Nat → Converter Nat}

mutual

theorem toPlain_grows (serves : Serves m limit objects) : ∀ (v : Value) {made : List Nat}
    {s : Conversion}, Orderly made s → unmet m made < limit → ∃ made' s',
      (v.toPlain objects).run s = some (v.exported made'.idxOf, s') ∧
        Grown m none v.tableIds made s made' s'
  | .nil, made, s, orderly, _ | .bool _, made, s, orderly, _ | .number _, made, s, orderly, _
  | .string _, made, s, orderly, _ | .builtin _, made, s, orderly, _
  | .ref (.function _), made, s, orderly, _ => ⟨made, s, rfl, orderly.grown nofun⟩
  | .ref (.table id), made, s, orderly, enough => by
    obtain ⟨k, made', s', ran, grown, found⟩ := serves id orderly enough
    refine ⟨made', s', ?_, grown⟩
    rw [Value.toPlain, run_bind_of ran, Value.exported, grown.orderly.idxOf_eq found]
    rfl
  | .list vs, made, s, orderly, enough => by
    obtain ⟨made', s', ran, grown⟩ := toPlainAll_grows serves vs orderly enough
    refine ⟨made', s', ?_, grown⟩
    rw [Value.toPlain, run_bind_of ran]
    rfl

theorem toPlainAll_grows (serves : Serves m limit objects) : ∀ (vs : List Value) {made : List Nat}
    {s : Conversion}, Orderly made s → unmet m made < limit → ∃ made' s',
      (Value.toPlainAll objects vs).run s = some (Value.exportedAll made'.idxOf vs, s') ∧
        Grown m none (Value.tableIdsOfAll vs) made s made' s'
  | [], made, s, orderly, _ => ⟨made, s, rfl, orderly.grown nofun⟩
  | v :: vs, made, s, orderly, enough => by
    obtain ⟨made₁, s₁, ran₁, grown₁⟩ := toPlain_grows serves v orderly enough
    obtain ⟨made₂, s₂, ran₂, grown₂⟩ :=
      toPlainAll_grows serves vs grown₁.orderly ((unmet_mono grown₁.front).trans_lt enough)
    refine ⟨made₂, s₂, ?_, grown₁.trans grown₂ nofun⟩
    rw [Value.toPlainAll, run_bind_of ran₁, run_bind_of ran₂, Value.exportedAll,
      exported_extended grown₂.front grown₁.met]
    rfl

end

end

/-- One object function succeeds where another does, with the same result. -/
def Refines (objects objects' : Nat → Converter Nat) : Prop :=
  ∀ id s r, (objects id).run s = some r → (objects' id).run s = some r

section

variable {objects objects' : Nat → Converter Nat}

theorem run_bind_refines {α β : Type} {x x' : Converter α} {f f' : α → Converter β}
    (first : ∀ {r}, x.run s = some r → x'.run s = some r)
    (next : ∀ {a s r}, (f a).run s = some r → (f' a).run s = some r) {r : β × Conversion}
    (h : (x >>= f).run s = some r) : (x' >>= f').run s = some r := by
  rw [StateT.run_bind] at h ⊢
  obtain ⟨⟨a, s₁⟩, ran, rest⟩ := Option.bind_eq_some_iff.mp h
  rw [first ran]
  exact next rest

mutual

theorem toPlain_refines (refines : Refines objects objects') : ∀ (v : Value) {s : Conversion} {r},
    (v.toPlain objects).run s = some r → (v.toPlain objects').run s = some r
  | .nil, _, _, h | .bool _, _, _, h | .number _, _, _, h | .string _, _, _, h
  | .builtin _, _, _, h | .ref (.function _), _, _, h => h
  | .ref (.table id), s, _, h => run_bind_refines (refines id s _) (fun ran => ran) h
  | .list vs, _, _, h => run_bind_refines (toPlainAll_refines refines vs) (fun ran => ran) h

theorem toPlainAll_refines (refines : Refines objects objects') : ∀ (vs : List Value)
    {s : Conversion} {r}, (Value.toPlainAll objects vs).run s = some r →
      (Value.toPlainAll objects' vs).run s = some r
  | [], _, _, h => h
  | v :: vs, _, _, h =>
    run_bind_refines (toPlain_refines refines v)
      (run_bind_refines (toPlainAll_refines refines vs) fun ran => ran) h

end

end

end Conversion

end MiniLua
