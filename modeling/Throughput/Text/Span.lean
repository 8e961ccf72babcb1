/-!
# Text of a duration

A duration is written in the largest of s, ms, µs and ns that it reaches, with all its digits and no
zeros at the end.
-/

namespace Throughput

/-- Drops the zeros at the end of a run of digits. -/
def dropFinalZeros (digits : List Char) : List Char :=
  (digits.reverse.dropWhile (· == '0')).reverse

/-- `ns / 10 ^ places`, exactly. -/
def scaledText (places ns : Nat) : String :=
  let whole := toString (ns / Nat.pow 10 places)
  let digits := (toString (ns % Nat.pow 10 places)).toList
  let fraction := dropFinalZeros (List.replicate (places - digits.length) '0' ++ digits)
  if places = 0 ∨ fraction.isEmpty then whole else whole ++ "." ++ String.ofList fraction

/-- A number of nanoseconds with its unit. -/
def spanText (ns : Nat) : String :=
  if 1_000_000_000 ≤ ns then scaledText 9 ns ++ "s"
  else if 1_000_000 ≤ ns then scaledText 6 ns ++ "ms"
  else if 1_000 ≤ ns then scaledText 3 ns ++ "µs"
  else scaledText 0 ns ++ "ns"

end Throughput
