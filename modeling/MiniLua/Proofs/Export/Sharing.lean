import MiniLua.Proofs.Export.Conversion
import MiniLua.Proofs.Table.Keys

/-!
# Sharing in exported values

The objects of an export are the tables that can be reached from the value, each once. Between them
are the references that the tables have to each other, but for those whose key is the same in plain
data as a later one.
-/

namespace MiniLua

open Relation Conversion

/-- A table can be reached from a value through tables that are values of tables. -/
def Machine.Reaches (m : Machine) (v : Value) (id : Nat) : Prop :=
  ∃ a ∈ v.tableIds, ReflTransGen m.Holds a id

namespace Plain

mutual

/-- The objects that occur in plain data. -/
def objects : Plain → List Nat
  | table object => [object]
  | list values => objectsOfAll values
  | _ => []

def objectsOfAll : List Plain → List Nat
  | [] => []
  | value :: values => value.objects ++ objectsOfAll values

end

end Plain

namespace Value

variable {object : Nat → Nat}

mutual

theorem objects_exported : ∀ v : Value, (v.exported object).objects = v.tableIds.map object
  | nil | bool _ | number _ | string _ | builtin _ | ref (.function _) => rfl
  | ref (.table _) => rfl
  | list vs => by
    rw [exported, Plain.objects, tableIds, objectsOfAll_exported vs]

theorem objectsOfAll_exported : ∀ vs : List Value,
    Plain.objectsOfAll (exportedAll object vs) = (tableIdsOfAll vs).map object
  | [] => rfl
  | v :: vs => by
    rw [exportedAll, Plain.objectsOfAll, tableIdsOfAll, List.map_append, objects_exported v,
      objectsOfAll_exported vs]

end

end Value

/-- An object has another as a value. -/
def Export.Refers (e : Export) (a b : Nat) : Prop :=
  ∃ entries, e.tables.lookup a = some entries ∧ ∃ entry ∈ entries, b ∈ entry.2.objects

/-- An export is made of the tables `made`, in the order of their objects, and has their shape. -/
structure Export.Mirrors (e : Export) (m : Machine) (v : Value) (made : List Nat) : Prop where
  once : made.Nodup
  reached : ∀ id, id ∈ made ↔ m.Reaches v id
  /-- A table is the same object wherever it occurs. -/
  root : e.root = v.exported made.idxOf
  tables : e.tables = made.zipIdx.map fun (id, object) =>
    (object, (m.table id).exported made.idxOf)
  distinct : ∀ a ∈ made, ∀ b ∈ made, made.idxOf a = made.idxOf b → a = b
  /-- An object refers to the tables in the entries that no later entry replaces. -/
  refers : ∀ a ∈ made, ∀ object, e.Refers (made.idxOf a) object ↔
    ∃ entry ∈ lasting (m.table a).items, ∃ b ∈ entry.2.tableIds, made.idxOf b = object
  /-- Nothing is lost of a table whose keys stay apart. -/
  shape : ∀ a ∈ made, KeysApart (m.table a).items → ∀ b ∈ made,
    (e.Refers (made.idxOf a) (made.idxOf b) ↔ m.Holds a b)

namespace Conversion

variable {m : Machine} {s : Conversion} {roots made : List Nat}

end Conversion

/-! ## The objects of an export -/

namespace Export.Mirrors

variable {m : Machine} {v : Value} {made : List Nat} {e : Export}

end Export.Mirrors

end MiniLua
