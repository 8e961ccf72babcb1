import Throughput.Figure.Measurement
import Throughput.Number.Binary64

/-!
# Latency figures

Mean, extremes and two quantiles of a list of durations, in seconds.
-/

namespace Throughput

/-- The latency figures of a list of samples. -/
structure LatencyStats where
  samples : Nat
  mean : Measurement
  min : Measurement
  p50 : Measurement
  p99 : Measurement
  max : Measurement

namespace LatencyStats

/-- The sample at a quantile: the one whose rank is the quantile of the count, rounded up. -/
def atQuantile (sorted : List Float) (quantile : Float) : Option Float :=
  let rank := ceilingCount (quantile * Float.ofNat sorted.length)
  sorted[Nat.max 1 (Nat.min rank sorted.length) - 1]?

/-- The figures of durations in any order. -/
def ofSamples (samples : List Duration) : LatencyStats :=
  let sorted := (samples.mergeSort (· ≤ ·)).map inSeconds
  let pick (value : Option Float) : Measurement :=
    match value with
    | some x => .defined x
    | none => .undefined "no latency samples"
  { samples := sorted.length
    mean := if sorted.isEmpty then .undefined "no latency samples"
      else .ratio (sumFloats sorted) (Float.ofNat sorted.length) "no samples"
    min := pick sorted.head?
    p50 := pick (atQuantile sorted 0.50)
    p99 := pick (atQuantile sorted 0.99)
    max := pick sorted.getLast? }

end LatencyStats

end Throughput
