import MiniLua.Number.Numeral

/-! # Values

Tables and functions are references into a store and are equal only to themselves. A list is the
result of a call; it is spread or cut to one value before it is stored anywhere. -/

namespace MiniLua

inductive Builtin where
  | print
  | pairs
  deriving DecidableEq, Repr

namespace Builtin

def name : Builtin → String
  | print => "print"
  | pairs => "pairs"

def all : List Builtin := [print, pairs]

end Builtin

inductive Ref where
  | table (id : Nat)
  | function (id : Nat)
  deriving DecidableEq, Repr

namespace Ref

def kind : Ref → String
  | table _ => "table"
  | function _ => "function"

end Ref

inductive Value where
  | nil
  | bool (value : Bool)
  | string (text : String)
  | number (value : Float)
  | ref (target : Ref)
  | builtin (function : Builtin)
  | list (values : List Value)
  deriving Inhabited

namespace Value

/-- The first value of a list, any other value itself. -/
def compress : Value → Value
  | list [] => nil
  | list (v :: _) => v
  | v => v

/-- The values of a list, or the value alone. -/
def expand : Value → List Value
  | list vs => vs
  | v => [v]

/-- Exactly `count` values: the rest cut off, or filled up with nil. -/
def adjust (values : List Value) (count : Nat) : List Value :=
  values.take count ++ List.replicate (count - values.length) nil

theorem length_adjust (values : List Value) (count : Nat) :
    (adjust values count).length = count := by
  simp [adjust]; omega

def isNil : Value → Bool
  | nil => true
  | _ => false

/-- Everything but nil and false. -/
def truthy : Value → Bool
  | nil => false
  | bool b => b
  | _ => true

def isTable : Value → Bool
  | ref (.table _) => true
  | _ => false

def isFunction : Value → Bool
  | ref (.function _) => true
  | _ => false

/-- The name of a value's type; a list has the type of its first value. -/
def typeName : Value → String
  | nil => "nil"
  | bool _ => "boolean"
  | string _ => "string"
  | number _ => "number"
  | ref r => r.kind
  | builtin _ => "function"
  | list [] => "nil"
  | list (v :: _) => v.typeName

mutual

/-- Equality without conversions. NaN is not equal to itself, the two zeros are equal. -/
def rawEq : Value → Value → Bool
  | nil, nil => true
  | bool a, bool b => a == b
  | string a, string b => a == b
  | number a, number b => a == b
  | ref a, ref b => a == b
  | builtin a, builtin b => a == b
  | list as, list bs => rawEqAll as bs
  | _, _ => false

def rawEqAll : List Value → List Value → Bool
  | [], [] => true
  | a :: as, b :: bs => a.rawEq b && rawEqAll as bs
  | _, _ => false

end

/-- A number, or the number that a string spells. -/
def toNumber? : Value → Except Number.NumeralFault (Option Float)
  | number x => .ok (some x)
  | string s => Number.parse? s.toList
  | _ => .ok none

end Value

end MiniLua
