import Throughput.Number.Binary64

/-!
# Estimates of the included submissions

An exhaustive round counts. A sampled round projects the share of its hits onto the whole set, with
a 95 % band for a sample without replacement; no bound falls below what is known to be included.
-/

namespace Throughput

/-- How many of the tracked submissions are included. -/
structure Estimate where
  tracked : Nat := 0
  included : Nat := 0
  lower : Nat := 0
  upper : Nat := 0
  exact : Bool := false
  sampleSize : Nat := 0
deriving DecidableEq, Repr

namespace Estimate

/-- The estimate after all tracked submissions were looked at. -/
def counted (tracked included : Nat) : Estimate :=
  { tracked, included, lower := included, upper := included, exact := true, sampleSize := tracked }

/-- The normal quantile of a two-sided 95 % band. -/
def quantile : Float := 1.96

/-- A share kept between zero and one. -/
def clampShare (share : Float) : Float :=
  if share < 0 then 0 else if 1 < share then 1 else share

/-- A share of the tracked submissions as a count, at least the known one. -/
def project (tracked known : Nat) (share : Float) : Nat :=
  max (nearestCount (clampShare share * Float.ofNat tracked)) known

/-- Half the width of the band around a share, shrunk as the sample nears the whole set. -/
def margin (tracked sampleSize : Nat) (share : Float) : Float :=
  let n := Float.ofNat tracked
  let k := Float.ofNat sampleSize
  let correction := if 1 < tracked then
      let c := (n - k) / (n - 1)
      if c < 0 then 0 else c
    else 0
  quantile * (share * (1 - share) / k * correction).sqrt

/-- The estimate from a sample with the given hits, where `known` are included for certain. -/
def sampled (tracked sampleSize hits known : Nat) : Estimate :=
  if sampleSize = 0 ∨ tracked = 0 then { counted tracked known with sampleSize }
  else
    let share := Float.ofNat hits / Float.ofNat sampleSize
    let margin := margin tracked sampleSize share
    let included := project tracked known share
    { tracked
      included
      lower := project tracked known (share - margin)
      upper := max (project tracked known (share + margin)) included
      exact := false
      sampleSize }

/-- The included share, if anything is tracked. -/
def fraction (e : Estimate) : Option Float :=
  if 0 < e.tracked then some (Float.ofNat e.included / Float.ofNat e.tracked) else none

end Estimate

end Throughput
