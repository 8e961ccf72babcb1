import Throughput.Figure.Measurement
import Throughput.Ledger.Basic

/-!
# Block cadence and capacity

The intervals of a chain are taken between blocks whose heights follow each other; gaps in a list of
blocks are skipped.
-/

namespace Throughput

/-- The pairs of neighbours in a list whose heights follow each other. -/
def consecutive (blocks : List Block) : List (Block × Block) :=
  (blocks.zip blocks.tail).filter fun (a, b) => b.number == a.number + 1

/-- The seconds between two blocks, zero if time went back. -/
def interval (a b : Block) : UInt64 :=
  if a.timestamp ≤ b.timestamp then b.timestamp - a.timestamp else 0

/-- Mean and extremes of the block intervals, in seconds. -/
structure Cadence where
  mean : Float
  min : Float
  max : Float
  intervals : Nat

/-- The cadence of intervals, if there are any. -/
def Cadence.ofIntervals? : List UInt64 → Option Cadence
  | [] => none
  | first :: rest =>
    let total := rest.foldl (· + ·) first
    some {
      mean := total.toFloat / Float.ofNat (rest.length + 1)
      min := (rest.foldl Min.min first).toFloat
      max := (rest.foldl Max.max first).toFloat
      intervals := rest.length + 1 }

/-- The cadence of blocks that may follow a baseline block. -/
def blockCadence (baseline : Option Block) (blocks : List Block) : Option Cadence :=
  Cadence.ofIntervals? ((consecutive (baseline.toList ++ blocks)).map fun (a, b) => interval a b)

/-- How many transactions fit into a block, when that is known. -/
def maxTransactions (gasLimit : Option UInt64) (gasPerTransaction : UInt64) : Option UInt64 :=
  gasLimit.bind fun limit => if gasPerTransaction = 0 then none else some (limit / gasPerTransaction)

/-- Transactions per second of full blocks at the measured cadence. -/
def theoreticalCapacity (cadence : Option Cadence) (gasLimit : Option UInt64)
    (gasPerTransaction : UInt64) : Measurement :=
  match cadence with
  | none => .undefined "no blocks produced"
  | some cadence =>
    match maxTransactions gasLimit gasPerTransaction with
    | some count => .ratio count.toFloat cadence.mean "zero block cadence"
    | none =>
      .undefined (if gasPerTransaction = 0 then "zero gas per transaction"
        else "unknown block gas limit")

/-- The transactions of all blocks together. -/
def totalTransactions (blocks : List Block) : UInt64 :=
  blocks.foldl (fun sum b => sum + b.transactions) 0

end Throughput
