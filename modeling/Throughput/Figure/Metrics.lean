import Throughput.Figure.Cadence
import Throughput.Figure.Latency

/-!
# The figures of a run

Everything here is computed from what a run recorded.
-/

namespace Throughput

/-- What the figures are computed from. -/
structure Observations where
  accepted : Nat := 0
  sendDuration : Duration := 0
  included : Nat := 0
  inclusionDuration : Duration := 0
  blocksProduced : Option UInt64 := none
  blocks : List Block := []
  baseline : Option Block := none
  gasPerTransaction : UInt64 := 21000
  gasLimitPerBlock : Option UInt64 := none
  submitLatencies : List Duration := []
  inclusionLatencies : List Duration := []

/-- The rate of one block: its transactions over the interval before it. -/
structure BlockRate where
  number : UInt64
  transactions : UInt64
  interval : UInt64
  rate : Measurement

/-- The figures of a run. -/
structure Metrics where
  sendRate : Measurement
  inclusionRate : Measurement
  successRate : Measurement
  submitLatency : LatencyStats
  inclusionLatency : LatencyStats
  blockCadence : Option Cadence
  maxTransactions : Option UInt64
  theoreticalCapacity : Measurement
  utilization : Measurement
  blocksProduced : Option UInt64
  blocksAnalyzed : Nat
  transactionsPerBlock : Measurement
  gasUtilization : Measurement
  peakRate : Measurement
  blockRates : List BlockRate

/-- The send rate tells how fast requests were made and says nothing about the ledger. -/
def Metrics.sendRateIsAuthoritative (_ : Metrics) : Bool := false

/-- The rate of each block that follows a known one. -/
def blockRates (baseline : Option Block) (blocks : List Block) : List BlockRate :=
  (consecutive (baseline.toList ++ blocks)).map fun (a, b) =>
    { number := b.number, transactions := b.transactions, interval := interval a b
      rate := .ratio b.transactions.toFloat (interval a b).toFloat "zero block interval" }

/-- The largest of some numbers, the first of equals. -/
def largest? : List Float → Option Float
  | [] => none
  | first :: rest => some (rest.foldl (fun m x => if m < x then x else m) first)

/-- The highest defined rate. -/
def peakRate (rates : List BlockRate) : Measurement :=
  match largest? (rates.filterMap (·.rate.value?)) with
  | some rate => .defined rate
  | none => .undefined "no block intervals"

/-- The included submissions per second, unless no block was produced. -/
def Observations.inclusionRate (o : Observations) : Measurement :=
  if o.blocksProduced = some 0 then .undefined "no blocks produced"
  else .ratio (Float.ofNat o.included) (inSeconds o.inclusionDuration) "zero inclusion duration"

/-- The gas limit that counts: the given one, or else that of the last block. -/
def Observations.gasLimit (o : Observations) : Option UInt64 :=
  o.gasLimitPerBlock.or (o.blocks.getLast?.map (·.gasLimit))

/-- Computes the figures. -/
def Observations.metrics (o : Observations) : Metrics :=
  let cadence := Throughput.blockCadence o.baseline o.blocks
  let capacity := Throughput.theoreticalCapacity cadence o.gasLimit o.gasPerTransaction
  let count := Float.ofNat o.blocks.length
  let gasShares := o.blocks.filterMap Block.gasUtilization
  let rates := Throughput.blockRates o.baseline o.blocks
  { sendRate := .ratio (Float.ofNat o.accepted) (inSeconds o.sendDuration) "zero send duration"
    inclusionRate := o.inclusionRate
    successRate := .ratio (Float.ofNat o.included) (Float.ofNat o.accepted) "nothing accepted"
    submitLatency := .ofSamples o.submitLatencies
    inclusionLatency := .ofSamples o.inclusionLatencies
    blockCadence := cadence
    maxTransactions := Throughput.maxTransactions o.gasLimit o.gasPerTransaction
    theoreticalCapacity := capacity
    utilization := o.inclusionRate.andThen fun rate =>
      capacity.andThen fun most => .ratio rate most "zero theoretical capacity"
    blocksProduced := o.blocksProduced
    blocksAnalyzed := o.blocks.length
    transactionsPerBlock := .ratio (totalTransactions o.blocks).toFloat count "no blocks analyzed"
    gasUtilization :=
      .ratio (sumFloats gasShares) (Float.ofNat gasShares.length) "no blocks analyzed"
    peakRate := Throughput.peakRate rates
    blockRates := rates }

end Throughput
