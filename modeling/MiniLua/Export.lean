import MiniLua.Eval.Machine

/-! # Values outside a run

A value leaves a run as plain data: the value itself, in which a table is the number of an object,
and the objects, each made from a table when it is first met and named before it is filled. In plain
data a flag and the number it counts as are the same key. -/

namespace MiniLua

inductive Plain where
  | nil
  | bool (value : Bool)
  | number (value : Float)
  | text (text : String)
  | table (object : Nat)
  | function (id : Nat)
  | list (values : List Plain)

inductive PlainKey where
  | nil
  | bool (value : Bool)
  | number (value : Float)
  | text (text : String)
  | ref (target : Ref)

namespace PlainKey

/-- The number that a key counts as. -/
def numeric? : PlainKey → Option Float
  | bool b => some (if b then 1 else 0)
  | number x => some x
  | _ => none

/-- Whether two keys take the same place. -/
def same (a b : PlainKey) : Bool :=
  match a, b with
  | nil, nil => true
  | text a, text b => a == b
  | ref a, ref b => a == b
  | a, b =>
    match a.numeric?, b.numeric? with
    | some x, some y => x == y
    | _, _ => false

def ofValue : Value → PlainKey
  | .bool b => bool b
  | .number x => number x
  | .string s => text s
  | .builtin b => text b.name
  | .ref r => ref r
  | .nil => nil
  | .list _ => nil

end PlainKey

abbrev PlainEntries := List (PlainKey × Plain)

namespace PlainEntries

/-- The first key of its place stays, the last value counts. -/
def put (key : PlainKey) (value : Plain) : PlainEntries → PlainEntries
  | [] => [(key, value)]
  | e :: es => if e.1.same key then (e.1, value) :: es else e :: put key value es

end PlainEntries

/-- The objects made so far, and the tables met, each with its object. -/
structure Conversion where
  objects : Array PlainEntries
  seen : List (Nat × Nat)

/-- A step of a conversion; none if it nests too deep. -/
abbrev Converter := StateT Conversion Option

namespace Value

mutual

/-- A value as plain data, given the object of each table. -/
def toPlain (object : Nat → Converter Nat) : Value → Converter Plain
  | nil => return .nil
  | bool b => return .bool b
  | number x => return .number x
  | string s => return .text s
  | builtin b => return .text b.name
  | ref (.table id) => return .table (← object id)
  | ref (.function id) => return .function id
  | list vs => return .list (← toPlainAll object vs)

def toPlainAll (object : Nat → Converter Nat) : List Value → Converter (List Plain)
  | [] => return []
  | v :: vs => return (← v.toPlain object) :: (← toPlainAll object vs)

end

end Value

namespace Conversion

def start : Conversion := ⟨#[], []⟩

/-- A new object, empty as yet, for a table. -/
def register (s : Conversion) (id : Nat) : Conversion :=
  ⟨s.objects.push [], (id, s.objects.size) :: s.seen⟩

def put (s : Conversion) (object : Nat) (key : PlainKey) (value : Plain) : Conversion :=
  { s with objects := s.objects.modify object (·.put key value) }

/-- Puts entries into an object, one after the other. -/
def fill (convert : Value → Converter Plain) (object : Nat) :
    List (Value × Value) → Converter Unit
  | [] => return
  | (key, value) :: items => do
    let value ← convert value
    modify (·.put object (.ofValue key) value)
    fill convert object items

end Conversion

namespace Machine

def table (m : Machine) (id : Nat) : Table := m.tables.getD id .empty

/-- The object of a table: the one it has, or a new one, which is filled with what the table holds.
Tables may be nested up to a depth. -/
def objectOf (m : Machine) : (depth : Nat) → Nat → Converter Nat
  | 0, _ => failure
  | depth + 1, id => do
    let s ← get
    match s.seen.lookup id with
    | some object => return object
    | none =>
      let object := s.objects.size
      set (s.register id)
      Conversion.fill (Value.toPlain (m.objectOf depth)) object (m.table id).items
      return object

/-- The object of a table that is converted on its own. -/
def objectAlone (m : Machine) (depth : Nat) (id : Nat) : Converter Nat := do
  modify fun s => { s with seen := [] }
  m.objectOf depth id

end Machine

/-- A value with the objects that have been made for it, under their numbers. -/
structure Export where
  root : Plain
  tables : List (Nat × PlainEntries)

namespace Export

def ofConversion (root : Plain) (s : Conversion) : Export :=
  ⟨root, s.objects.toList.zipIdx.map fun (entries, object) => (object, entries)⟩

/-- What can be said of a value if tables are nested up to a depth. The tables in a list have
nothing in common. -/
def within? (m : Machine) (depth : Nat) (v : Value) : Option Export :=
  ((v.toPlain (m.objectAlone depth)).run .start).map fun (root, s) => ofConversion root s

/-- Tables can be nested as deep as there are tables. -/
def ofValue (m : Machine) (v : Value) : Export :=
  (within? m (m.tables.size + 1) v).getD ⟨.nil, []⟩

end Export

end MiniLua
