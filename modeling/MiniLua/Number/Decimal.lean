/-! # Decimal digits of a ratio

Rounding a positive ratio to a number of significant digits, and laying digits out as text. The two
texts of a number in this library differ in how many digits they take and in `Layout`. -/

namespace MiniLua.Number

/-- The nearest natural number to `num / den`; a tie goes to the even neighbour. -/
def roundDiv (num den : Nat) : Nat :=
  let q := num / den
  let twice := 2 * (num % den)
  if twice < den then q
  else if den < twice then q + 1
  else if q % 2 = 0 then q else q + 1

/-- The number of decimal digits of a natural number. -/
def digitCount (n : Nat) : Nat := (Nat.toDigits 10 n).length

/-- The power of ten below or at a positive ratio. -/
def decimalExponent (num den : Nat) : Int :=
  let guess := (digitCount num : Int) - digitCount den
  let below := if 0 ≤ guess then decide (num < den * Nat.pow 10 guess.toNat)
    else decide (num * Nat.pow 10 (-guess).toNat < den)
  if below then guess - 1 else guess

/-- `num / den * 10 ^ places` as a ratio. -/
def scale (num den : Nat) (places : Int) : Nat × Nat :=
  if 0 ≤ places then (num * Nat.pow 10 places.toNat, den)
  else (num, den * Nat.pow 10 (-places).toNat)

/-- Significant digits: the value is `0.d₁d₂…` shifted so that `d₁` counts `10 ^ exponent`. -/
structure Decimal where
  digits : List Char
  exponent : Int

namespace Decimal

def zero : Decimal := ⟨['0'], 0⟩

/-- A positive ratio to `count` significant digits. -/
def ofRatio (count num den : Nat) : Decimal :=
  let exponent := decimalExponent num den
  let (n, d) := scale num den ((count : Int) - 1 - exponent)
  let rounded := roundDiv n d
  if rounded = Nat.pow 10 count then
    ⟨Nat.toDigits 10 (Nat.pow 10 (count - 1)), exponent + 1⟩
  else ⟨Nat.toDigits 10 rounded, exponent⟩

/-- Without the zeros at the end; one digit stays. -/
def stripZeros (x : Decimal) : Decimal :=
  match (x.digits.reverse.dropWhile (· = '0')).reverse with
  | [] => ⟨['0'], x.exponent⟩
  | digits => ⟨digits, x.exponent⟩

end Decimal

/-- How digits are laid out: positional from `10 ^ -4` up to below `10 ^ limit`, else with an
exponent of two digits or more; `wholeMark` ends a whole number in positional form. -/
structure Layout where
  limit : Int
  wholeMark : List Char

/-- Digits with the point after the first `whole` of them, if any digit follows. -/
def pointAfter (whole : Nat) (digits : List Char) : List Char :=
  if digits.length ≤ whole then digits else digits.take whole ++ '.' :: digits.drop whole

def exponentText (e : Int) : List Char :=
  let digits := Nat.toDigits 10 e.natAbs
  let padded := if digits.length < 2 then '0' :: digits else digits
  'e' :: (if e < 0 then '-' else '+') :: padded

namespace Layout

def text (layout : Layout) (x : Decimal) : List Char :=
  if x.exponent < -4 || layout.limit ≤ x.exponent then
    pointAfter 1 x.digits ++ exponentText x.exponent
  else if x.exponent < 0 then
    '0' :: '.' :: List.replicate (-x.exponent - 1).toNat '0' ++ x.digits
  else
    let whole := x.exponent.toNat + 1
    if x.digits.length ≤ whole then
      x.digits ++ List.replicate (whole - x.digits.length) '0' ++ layout.wholeMark
    else pointAfter whole x.digits

end Layout

end MiniLua.Number
