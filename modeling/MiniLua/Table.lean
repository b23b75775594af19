import MiniLua.Error
import MiniLua.Number.Binary
import MiniLua.Value.Basic

/-! # Tables

A table keeps the values of the keys `1 … n` in an array and all other entries in a list, in the
order they were added. Keys that continue the array move into it; clearing a slot of the array moves
the slots after it to the end of the list. -/

namespace MiniLua

structure Table where
  array : Array Value
  entries : List (Value × Value)
  deriving Inhabited

namespace Table

def empty : Table := ⟨#[], []⟩

/-- The array position that a key stands for: a positive whole number, counted from 1. -/
def position? : Value → Option Nat
  | .number x =>
    if 1 ≤ x && Number.isIntegral x then some (Number.Binary.ofFloat x).floor.toNat else none
  | _ => none

/-- The key of an array position. -/
def positionKey (n : Nat) : Value := .number (Float.ofNat n)

/-! ## The list of other entries -/

def findEntry (key : Value) (entries : List (Value × Value)) : Option (Value × Value) :=
  entries.find? fun e => e.1.rawEq key

def eraseEntry (key : Value) (entries : List (Value × Value)) : List (Value × Value) :=
  entries.eraseP fun e => e.1.rawEq key

/-- An entry with an equal key is replaced in its place, key included; else the entry comes last. -/
def putEntry (key value : Value) : List (Value × Value) → List (Value × Value)
  | [] => [(key, value)]
  | e :: es => if e.1.rawEq key then (key, value) :: es else e :: putEntry key value es

/-! ## Reading -/

def inArray (t : Table) (key : Value) : Option Nat :=
  (position? key).filter (· ≤ t.array.size)

/-- The value of a key; keys that are not there, nil and NaN read as nil. -/
def get (t : Table) (key : Value) : Value :=
  match t.inArray key with
  | some p => t.array.getD (p - 1) .nil
  | none => ((findEntry key t.entries).map (·.2)).getD .nil

def length (t : Table) : Nat := t.array.size

/-- Keys and values: the array first, then the other entries in their order. -/
def items (t : Table) : List (Value × Value) :=
  t.array.toList.zipIdx.map (fun (v, k) => (positionKey (k + 1), v)) ++ t.entries

/-! ## Writing -/

/-- Why a key cannot be written. -/
def keyFault? : Value → Option RuntimeError
  | .nil => some .nilKey
  | .number x => if x.isNaN then some .nanKey else none
  | _ => none

/-- Moves entries into the array while one continues it, at most `fuel` of them. -/
def absorb : Nat → Table → Table
  | 0, t => t
  | fuel + 1, t =>
    let key := positionKey (t.array.size + 1)
    match findEntry key t.entries with
    | none => t
    | some e => absorb fuel { array := t.array.push e.2, entries := eraseEntry key t.entries }

/-- The values from a position on as entries of their own. -/
def tailEntries (first : Nat) (values : List Value) : List (Value × Value) :=
  values.zipIdx.map fun (v, k) => (positionKey (first + k), v)

/-- Clears an array slot; the slots after it become entries. -/
def clearSlot (t : Table) (p : Nat) : Table :=
  let tail := (t.array.extract p).toList
  { array := t.array.shrink (p - 1)
    entries := (tailEntries (p + 1) tail).foldl
      (fun entries e => putEntry e.1 e.2 entries) t.entries }

/-- Writes a key that may be written; nil removes it. -/
def insert (t : Table) (key value : Value) : Table :=
  match t.inArray key with
  | some p =>
    if value.isNil then t.clearSlot p
    else { t with array := t.array.setIfInBounds (p - 1) value }
  | none =>
    if value.isNil then { t with entries := eraseEntry key t.entries }
    else if position? key = some (t.array.size + 1) then
      absorb t.entries.length
        { array := t.array.push value, entries := eraseEntry key t.entries }
    else { t with entries := putEntry key value t.entries }

def set (t : Table) (key value : Value) : Except RuntimeError Table :=
  match keyFault? key with
  | some e => .error e
  | none => .ok (t.insert key value)

end Table

end MiniLua
