/-! # Doubles as binary fractions

A finite double is `± mantissa · 2 ^ exponent`. Both directions work on the bit pattern, so results
that are exact by construction (remainders, floors) are put together without rounding. Powers are
written `Nat.pow`, which means the same with and without an algebra library. -/

namespace MiniLua.Number

structure Binary where
  negative : Bool
  mantissa : Nat
  exponent : Int
  deriving DecidableEq, Repr

namespace Binary

/-- Reads the bits of a finite double; infinities and NaN give no meaningful fraction. -/
def ofFloat (x : Float) : Binary :=
  let bits := x.toBits.toNat
  let biased : Nat := bits / Nat.pow 2 52 % Nat.pow 2 11
  let fraction := bits % Nat.pow 2 52
  { negative := Nat.pow 2 63 ≤ bits
    mantissa := if biased = 0 then fraction else fraction + Nat.pow 2 52
    exponent := if biased = 0 then -1074 else Int.ofNat biased - 1075 }

/-- The double of a fraction that one can hold: a mantissa below `2 ^ 53`, in range. -/
def toFloat (b : Binary) : Float :=
  let sign := if b.negative then Nat.pow 2 63 else 0
  if b.mantissa = 0 then Float.ofBits (UInt64.ofNat sign)
  else
    let room := (b.exponent + 1074).toNat
    let shift := min (52 - b.mantissa.log2) room
    let mantissa := b.mantissa * Nat.pow 2 shift
    let biased := if mantissa < Nat.pow 2 52 then 0 else room - shift + 1
    Float.ofBits (UInt64.ofNat (sign + biased * Nat.pow 2 52 + mantissa % Nat.pow 2 52))

/-- The signed mantissa. -/
def signed (b : Binary) : Int := if b.negative then -(b.mantissa : Int) else b.mantissa

/-- The magnitude as numerator and denominator. -/
def ratio (b : Binary) : Nat × Nat :=
  if 0 ≤ b.exponent then (b.mantissa * Nat.pow 2 b.exponent.toNat, 1)
  else (b.mantissa, Nat.pow 2 (-b.exponent).toNat)

/-- The largest integer that is not above the fraction. -/
def floor (b : Binary) : Int :=
  if 0 ≤ b.exponent then b.signed * Nat.pow 2 b.exponent.toNat
  else Int.fdiv b.signed (Nat.pow 2 (-b.exponent).toNat)

/-- The remainder of the magnitudes, with the sign of the first fraction. -/
def remainder (a b : Binary) : Binary :=
  let exponent := min a.exponent b.exponent
  let left := a.mantissa * Nat.pow 2 (a.exponent - exponent).toNat
  let right := b.mantissa * Nat.pow 2 (b.exponent - exponent).toNat
  { negative := a.negative, mantissa := left % right, exponent }

end Binary

/-- Whether a double is an integer; infinities and NaN are not. -/
def isIntegral (x : Float) : Bool :=
  x.isFinite &&
    let b := Binary.ofFloat x
    0 ≤ b.exponent || b.mantissa % Nat.pow 2 (-b.exponent).toNat = 0

example : (Binary.ofFloat 0.75).toFloat = 0.75 := by decide +kernel
example : (Binary.ofFloat (-2.5)).floor = -3 := by decide +kernel
example : isIntegral 1e300 = true ∧ isIntegral 0.5 = false := by decide +kernel

end MiniLua.Number
