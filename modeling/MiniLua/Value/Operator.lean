import MiniLua.Ast.Basic
import MiniLua.Number.Arithmetic
import MiniLua.Number.Text
import MiniLua.Value.Basic

/-! # Binary operators on values

Arithmetic takes numbers and strings that spell numbers, concatenation takes strings and numbers,
order compares two numbers or two strings. Equality takes anything. -/

namespace MiniLua

inductive Side where
  | left
  | right
  deriving DecidableEq

/-- Why an operator does not apply to its operands. -/
inductive OperatorFault where
  | arithmetic (side : Side) (type : String)
  | concat (side : Side) (type : String)
  | compare (left right : String)
  | numeral (fault : Number.NumeralFault)
  deriving DecidableEq

namespace ArithOp

def apply : ArithOp → Float → Float → Float
  | add, a, b => a + b
  | sub, a, b => a - b
  | mul, a, b => a * b
  | div, a, b => a / b
  | floorDiv, a, b => Number.floorDiv a b
  | mod, a, b => Number.mod a b
  | pow, a, b => Number.pow a b

end ArithOp

namespace Value

def arithOperand (side : Side) (v : Value) : Except OperatorFault Float :=
  match v.toNumber? with
  | .error fault => .error (.numeral fault)
  | .ok none => .error (.arithmetic side v.typeName)
  | .ok (some x) => .ok x

def arith (op : ArithOp) (left right : Value) : Except OperatorFault Value := do
  let a ← arithOperand .left left
  let b ← arithOperand .right right
  return number (op.apply a b)

def concatOperand (side : Side) : Value → Except OperatorFault String
  | string s => .ok s
  | number x => .ok (Number.display x)
  | v => .error (.concat side v.typeName)

def concat (left right : Value) : Except OperatorFault Value := do
  let a ← concatOperand .left left
  let b ← concatOperand .right right
  return string (a ++ b)

/-- Whether the left value comes before the right one. -/
def less : Value → Value → Except OperatorFault Bool
  | number a, number b => .ok (a < b)
  | string a, string b => .ok (a < b)
  | left, right => .error (.compare left.typeName right.typeName)

/-- Whether the left value comes before the right one or is the same in the order. -/
def lessEq : Value → Value → Except OperatorFault Bool
  | number a, number b => .ok (a ≤ b)
  | string a, string b => .ok (!(b < a))
  | left, right => .error (.compare left.typeName right.typeName)

/-- The value of a binary operation; `>` and `>=` swap their operands. -/
def binary (op : BinaryOp) (left right : Value) : Except OperatorFault Value :=
  match op with
  | .arith op => arith op left right
  | .concat => concat left right
  | .eq => .ok (bool (left.rawEq right))
  | .ne => .ok (bool (!left.rawEq right))
  | .lt => (less left right).map bool
  | .gt => (less right left).map bool
  | .le => (lessEq left right).map bool
  | .ge => (lessEq right left).map bool

end Value

end MiniLua
