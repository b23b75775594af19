import MiniLua.Number.Binary
import MiniLua.Number.Decimal

/-! # The two texts of a number

`display` is what a program prints: fourteen significant digits without zeros at the end.
`shortest` is what a listing shows: the fewest digits that read back as the same number, with `.0`
on a whole number. -/

namespace MiniLua.Number

/-- A program sees fourteen digits, positional below `10 ^ 14`, a whole number without a point. -/
def displayLayout : Layout := ⟨14, []⟩

/-- A listing is positional below `10 ^ 16` and marks a whole number. -/
def shortestLayout : Layout := ⟨16, ['.', '0']⟩

def displayMagnitude (b : Binary) : Decimal :=
  if b.mantissa = 0 then .zero
  else (Decimal.ofRatio 14 b.ratio.1 b.ratio.2).stripZeros

/-- The ends of the interval of reals that round to a positive double, over a common power of two:
lower end, upper end and exponent. The interval holds its ends iff the mantissa is even. -/
def roundingInterval (b : Binary) : Nat × Nat × Int :=
  let below := if b.mantissa = Nat.pow 2 52 && -1074 < b.exponent then 1 else 2
  (4 * b.mantissa - below, 4 * b.mantissa + 2, b.exponent - 2)

/-- Whether `digits · 10 ^ power` rounds to the positive double `b`. -/
def readsBack (b : Binary) (digits : Nat) (power : Int) : Bool :=
  let (lower, upper, exponent) := roundingInterval b
  let (n, d) := scale digits 1 power
  let (twoUp, twoDown) :=
    if 0 ≤ exponent then (Nat.pow 2 exponent.toNat, 1)
    else (1, Nat.pow 2 (-exponent).toNat)
  let value := n * twoDown
  let low := lower * twoUp * d
  let high := upper * twoUp * d
  if b.mantissa % 2 = 0 then low ≤ value && value ≤ high else low < value && value < high

/-- The better neighbour of `b` among the decimals of `count` digits, if one reads back. -/
def neighbour? (b : Binary) (exponent : Int) (count : Nat) : Option Decimal :=
  let power := exponent - (count : Int) + 1
  let (n, d) := scale b.ratio.1 b.ratio.2 (-power)
  let low := n / d
  let best := roundDiv n d
  let other := if best = low then low + 1 else low
  let chosen :=
    if readsBack b best power then some best
    else if readsBack b other power then some other
    else none
  chosen.map fun m =>
    let digits := Nat.toDigits 10 m
    ⟨digits, power + digits.length - 1⟩

def shortestMagnitude (b : Binary) : Decimal :=
  if b.mantissa = 0 then .zero
  else
    let exponent := decimalExponent b.ratio.1 b.ratio.2
    let found := (List.range 17).findSome? fun k => neighbour? b exponent (k + 1)
    (found.getD (Decimal.ofRatio 17 b.ratio.1 b.ratio.2)).stripZeros

/-- A number with its sign, or the name of what is not finite. -/
def textWith (layout : Layout) (magnitude : Binary → Decimal) (x : Float) : String :=
  if x.isNaN then "nan"
  else if x.isInf then if x < 0 then "-inf" else "inf"
  else
    let b := Binary.ofFloat x
    let body := layout.text (magnitude b)
    String.ofList (if b.negative then '-' :: body else body)

def display (x : Float) : String := textWith displayLayout displayMagnitude x

def shortest (x : Float) : String := textWith shortestLayout shortestMagnitude x

example : display 1e15 = "1e+15" ∧ display 0.1 = "0.1" ∧ display (-0.0) = "-0" := by
  decide +kernel
example : display 123456789.5 = "123456789.5" ∧ display 1e-5 = "1e-05" := by decide +kernel
example : shortest 1e16 = "1e+16" ∧ shortest 1e15 = "1000000000000000.0" := by decide +kernel
example : shortest (0.1 + 0.2) = "0.30000000000000004" ∧ shortest 5e-324 = "5e-324" := by
  decide +kernel
example : shortest 9007199254740993 = "9007199254740992.0" := by decide +kernel

end MiniLua.Number
