import MiniLua.Number.Binary

/-! # Arithmetic beyond the four IEEE operations

Floor division goes through an integer, so it never gives a negative zero from a finite quotient.
The remainder is exact and takes the sign of the divisor. A power that overflows is always positive
infinity, and one without a real value is NaN, except that zero to a negative power is infinite. -/

namespace MiniLua.Number

def nan : Float := 0.0 / 0.0

def infinity : Float := 1.0 / 0.0

def floorDiv (a b : Float) : Float :=
  let quotient := a / b
  if !quotient.isFinite then quotient
  else
    let q := Binary.ofFloat quotient
    if 0 ≤ q.exponent then quotient else Float.ofInt q.floor

/-- The remainder with the sign of the dividend, for a finite dividend and a divisor not zero. -/
def truncMod (a b : Float) : Float :=
  if b.isInf then a else ((Binary.ofFloat a).remainder (Binary.ofFloat b)).toFloat

def mod (a b : Float) : Float :=
  if b == 0 || a.isInf || a.isNaN || b.isNaN then nan
  else
    let r := truncMod a b
    if r != 0 && (r < 0) != (b < 0) then r + b else r

def pow (a b : Float) : Float :=
  let power := Float.pow a b
  if a.isFinite && b.isFinite && power.isInf then infinity else power

example : (floorDiv (-0.0) 1).toBits = (0.0 : Float).toBits := by decide +kernel
example : floorDiv (-7) 2 = -4 ∧ mod (-7) 2 = 1 ∧ mod 7 (-2) = -1 := by decide +kernel
example : (mod (-6) 3).toBits = (-0.0 : Float).toBits := by decide +kernel
example : mod (-1) infinity = infinity := by decide +kernel

end MiniLua.Number
