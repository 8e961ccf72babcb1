/-!
# Exact values of binary64 numbers

A finite binary64 number is an integer times a power of two. This module reads that pair off the
bits, and rounds the exact value to integers, so that no rounding mode of the machine is involved.
-/

namespace Throughput

/-- The exact value of a binary64 number: a finite one is `± mantissa * 2 ^ exponent`. -/
inductive Binary64 where
  | notANumber
  | infinite (negative : Bool)
  | finite (negative : Bool) (mantissa : Nat) (exponent : Int)
deriving DecidableEq, Repr

namespace Binary64

/-- Splits the bits into sign, exponent and fraction. -/
def ofFloat (x : Float) : Binary64 :=
  let bits := x.toBits.toNat
  let negative : Bool := Nat.pow 2 63 ≤ bits
  let biased : Nat := bits / Nat.pow 2 52 % Nat.pow 2 11
  let fraction : Nat := bits % Nat.pow 2 52
  if biased = 2047 then
    if fraction = 0 then .infinite negative else .notANumber
  else if biased = 0 then .finite negative fraction (-1074)
  else .finite negative (Nat.pow 2 52 + fraction) ((biased : Int) - 1075)

/-- A non-negative rational number as numerator and denominator. -/
def magnitude (mantissa : Nat) (exponent : Int) : Nat × Nat :=
  if 0 ≤ exponent then (mantissa * Nat.pow 2 exponent.toNat, 1)
  else (mantissa, Nat.pow 2 (-exponent).toNat)

/-- The quotient rounded to the nearest integer, a half going up. -/
def divHalfUp (num den : Nat) : Nat := (2 * num + den) / (2 * den)

/-- The quotient rounded to the nearest integer, a half going to the even neighbour. -/
def divHalfEven (num den : Nat) : Nat :=
  let below := num / den
  let twice := 2 * (num % den)
  if twice < den then below
  else if den < twice then below + 1
  else below + below % 2

end Binary64

/-- The largest 64-bit count, which stands for everything above it. -/
def maxCount : Nat := UInt64.size - 1

/-- The nearest count, a half going up; negative numbers and NaN give zero. -/
def nearestCount (x : Float) : Nat :=
  match Binary64.ofFloat x with
  | .notANumber | .infinite true | .finite true _ _ => 0
  | .infinite false => maxCount
  | .finite false m e =>
    let (num, den) := Binary64.magnitude m e
    min (Binary64.divHalfUp num den) maxCount

/-- The least count that is not below a number; negative numbers and NaN give zero. -/
def ceilingCount (x : Float) : Nat :=
  match Binary64.ofFloat x with
  | .notANumber | .infinite true | .finite true _ _ => 0
  | .infinite false => maxCount
  | .finite false m e =>
    let (num, den) := Binary64.magnitude m e
    min ((num + den - 1) / den) maxCount

end Throughput
