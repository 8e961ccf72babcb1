import Throughput.Word

/-!
# Measurements

A figure that cannot be computed says why, so that no quotient by zero reaches a report.
-/

namespace Throughput

/-- A finite figure, or the reason why there is none. -/
inductive Measurement where
  | defined (value : Float)
  | undefined (reason : String)

namespace Measurement

/-- A number as a figure, if it is finite. -/
def finite (value : Float) (reason : String) : Measurement :=
  if value.isFinite then .defined value else .undefined reason

/-- A quotient, undefined for the denominator zero and where the result is not finite. -/
def ratio (numerator denominator : Float) (reason : String) : Measurement :=
  if denominator == 0 then .undefined reason else finite (numerator / denominator) reason

/-- The figure, if there is one. -/
def value? : Measurement → Option Float
  | .defined value => some value
  | .undefined _ => none

/-- Goes on with a defined figure and keeps the reason of an undefined one. -/
def andThen (m : Measurement) (f : Float → Measurement) : Measurement :=
  match m with
  | .defined value => f value
  | .undefined reason => .undefined reason

end Measurement

/-- A duration in seconds: the whole seconds plus the rest over a thousand million. -/
def inSeconds (d : Duration) : Float :=
  Float.ofNat (d / 1_000_000_000) + Float.ofNat (d % 1_000_000_000) / 1_000_000_000

/-- Adds up from left to right. -/
def sumFloats (values : List Float) : Float := values.foldl (· + ·) 0

end Throughput
