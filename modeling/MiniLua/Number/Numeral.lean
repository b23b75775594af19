import MiniLua.Text.Blank
import MiniLua.Text.Digit

/-! # Numerals

A numeral is hexadecimal (`0x` and digits) or decimal, with digits of any script. Programs and
strings that are used as numbers share the same scanner; a string may have blanks around its numeral
and one sign in front. -/

namespace MiniLua.Number

open MiniLua.Text

inductive Numeral where
  | hex (value : Nat)
  /-- The number `digits · 10 ^ exponent`. -/
  | decimal (digits : Nat) (exponent : Int)
  deriving DecidableEq

/-- A hexadecimal numeral that no double can hold. -/
inductive NumeralFault where
  | tooLarge
  deriving DecidableEq

def ofDigits (base : Nat) (values : List Nat) : Nat :=
  values.foldl (fun n d => base * n + d) 0

def decimalsOf (cs : List Char) : List Nat := cs.filterMap decimalValue?

namespace Numeral

/-- Hexadecimal digits after `0x`: the numeral and what follows. -/
def scanHex : List Char → Option (Numeral × List Char)
  | '0' :: x :: cs =>
    if x = 'x' || x = 'X' then
      match cs.takeWhile isHex with
      | [] => none
      | digits => some (.hex (ofDigits 16 (digits.filterMap hexValue?)), cs.dropWhile isHex)
    else none
  | _ => none

/-- An exponent part: `e`, an optional sign, digits. Without digits nothing is taken. -/
def scanExponent (cs : List Char) : Int × List Char :=
  match cs with
  | [] => (0, cs)
  | e :: rest =>
    if e = 'e' || e = 'E' then
      let (negative, body) := match rest with
        | '-' :: body => (true, body)
        | '+' :: body => (false, body)
        | body => (false, body)
      match body.takeWhile isDecimal with
      | [] => (0, cs)
      | digits =>
        let value := ofDigits 10 (decimalsOf digits)
        (if negative then -(value : Int) else value, body.dropWhile isDecimal)
    else (0, cs)

/-- Whole digits, point, further digits; at least one digit on one side. -/
def scanMantissa (cs : List Char) : Option (List Char × List Char × List Char) :=
  let whole := cs.takeWhile isDecimal
  match cs.dropWhile isDecimal with
  | '.' :: rest =>
    let part := rest.takeWhile isDecimal
    if whole.isEmpty && part.isEmpty then none
    else some (whole, part, rest.dropWhile isDecimal)
  | rest => if whole.isEmpty then none else some (whole, [], rest)

def scanDecimal (cs : List Char) : Option (Numeral × List Char) :=
  (scanMantissa cs).map fun (whole, part, rest) =>
    let (exponent, rest) := scanExponent rest
    (.decimal (ofDigits 10 (decimalsOf (whole ++ part))) (exponent - part.length), rest)

/-- The longest numeral at the front of a text, and what follows it. -/
def scan (cs : List Char) : Option (Numeral × List Char) :=
  (scanHex cs).or (scanDecimal cs)

/-- The nearest double. A decimal numeral too large for one is infinite, a hexadecimal one is a
fault. -/
def toFloat : Numeral → Except NumeralFault Float
  | hex value =>
    let x := Float.ofNat value
    if x.isInf then .error .tooLarge else .ok x
  | decimal digits exponent =>
    let magnitude : Int := (Nat.toDigits 10 digits).length + exponent
    if digits = 0 || magnitude < -400 then .ok 0
    else if 400 < magnitude then .ok (1.0 / 0.0)
    else .ok (Float.ofScientific digits (exponent < 0) exponent.natAbs)

end Numeral

/-- A text without its sign: whether it was a minus, and the rest. -/
def splitSign : List Char → Bool × List Char
  | '-' :: cs => (true, cs)
  | '+' :: cs => (false, cs)
  | cs => (false, cs)

/-- The number that a whole text spells, if it is a numeral. -/
def parse? (cs : List Char) : Except NumeralFault (Option Float) :=
  let (negative, body) := splitSign (trim cs)
  match Numeral.scan body with
  | some (numeral, []) => numeral.toFloat.map fun x => some (if negative then -x else x)
  | _ => .ok none

example : (parse? [' ', '-', '0', 'x', '1', 'F']).toOption = some (some (-31)) := by
  decide +kernel
example : (parse? ['1', '.', 'e', '2']).toOption = some (some 100) := by decide +kernel
example : (parse? ['-', '-', '1']).toOption = some none := by decide +kernel

end MiniLua.Number
