import Throughput.Error
import Throughput.Figure.Cadence

/-!
# Block times of recent history

How the intervals of the latest blocks compare to a target.
-/

namespace Throughput

/-- How many intervals meet, undercut and exceed a target. -/
structure IntervalTally where
  onTarget : Nat := 0
  faster : Nat := 0
  slower : Nat := 0
deriving DecidableEq, Repr

/-- Counts one interval. -/
def IntervalTally.add (t : IntervalTally) (target interval : UInt64) : IntervalTally :=
  if interval < target then { t with faster := t.faster + 1 }
  else if interval = target then { t with onTarget := t.onTarget + 1 }
  else { t with slower := t.slower + 1 }

/-- Counts the intervals between neighbours whose heights follow each other. -/
def tallyIntervals (target : UInt64) : List Block → IntervalTally → IntervalTally
  | a :: b :: rest, t =>
    tallyIntervals target (b :: rest)
      (if b.number = a.number + 1 then t.add target (interval a b) else t)
  | _, t => t

/-- The figures of recent history. -/
structure BlockTimeReport where
  fromHeight : UInt64
  toHeight : UInt64
  blocksAnalyzed : Nat
  cadence : Option Cadence
  targetSeconds : UInt64
  tally : IntervalTally
  gasLimit : Option UInt64
  theoreticalCapacity : Measurement
  transactionsPerBlock : Measurement
  maxTransactions : UInt64

namespace BlockTimeReport

/-- Computes the figures of blocks in height order. -/
def ofBlocks (fromHeight toHeight gasPerTransaction targetSeconds : UInt64) (blocks : List Block) :
    BlockTimeReport :=
  let cadence := blockCadence none blocks
  let gasLimit := blocks.getLast?.map (·.gasLimit)
  { fromHeight
    toHeight
    blocksAnalyzed := blocks.length
    cadence
    targetSeconds
    tally := tallyIntervals targetSeconds blocks {}
    gasLimit
    theoreticalCapacity := Throughput.theoreticalCapacity cadence gasLimit gasPerTransaction
    transactionsPerBlock :=
      .ratio (totalTransactions blocks).toFloat (Float.ofNat blocks.length) "no blocks analyzed"
    maxTransactions := blocks.foldl (fun m b => max m b.transactions) 0 }

/-- Reads blocks at increasing heights and stops at the first that fails; missing ones are skipped. -/
def readHistory (ledger : Ledger σ) (now : Instant) :
    Nat → UInt64 → σ → Answer (List Block) × σ
  | 0, _, s => (.ok [], s)
  | count + 1, height, s =>
    match ledger.block now height s with
    | (.error e, s) => (.error e, s)
    | (.ok b, s) =>
      let (others, s) := readHistory ledger now count (height + 1) s
      (others.map (b.toList ++ ·), s)

/-- Reads the blocks of the last `count` intervals of a ledger and computes their figures. -/
def read (ledger : Ledger σ) (now : Instant) (count gasPerTransaction : UInt64)
    (target : Duration) (s : σ) : Except SetupError BlockTimeReport × σ :=
  match ledger.height now s with
  | (.error e, s) => (.error (.unreachable e), s)
  | (.ok toHeight, s) =>
    let fromHeight := if count ≤ toHeight then toHeight - count else 0
    match readHistory ledger now (toHeight.toNat + 1 - fromHeight.toNat) fromHeight s with
    | (.error e, s) => (.error (.unreachable e), s)
    | (.ok blocks, s) =>
      (.ok (ofBlocks fromHeight toHeight gasPerTransaction (target / 1_000_000_000).toUInt64 blocks), s)

end BlockTimeReport

end Throughput
