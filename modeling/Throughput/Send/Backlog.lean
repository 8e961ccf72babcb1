import Throughput.Ledger.Basic
import Throughput.Number.Binary64
import Throughput.Send.Strategy

/-!
# Estimating the backlog

An estimator is asked at every refill how many requests have left the backlog since it was last
asked.
-/

namespace Throughput

/-- An estimator with memory of type `ε`. Priming answers an error or nothing. Either call may take
time and sees the ledger as it is at its end. -/
structure Estimator (σ ε : Type) where
  prime : Instant → σ × ε → Option LedgerError × σ × ε
  consumed : Instant → σ × ε → Answer Nat × σ × ε
  primeTime : Instant → σ × ε → Duration := fun _ _ => 0
  consumedTime : Instant → σ × ε → Duration := fun _ _ => 0

/-- The height up to which blocks have been counted. -/
abbrev CountedHeight := Option UInt64

/-- The transactions of `count` blocks from a height on; a missing block has none. -/
def readTransactions (ledger : Ledger σ) (now : Instant) :
    Nat → UInt64 → UInt64 → σ → Answer UInt64 × σ
  | 0, _, sum, s => (.ok sum, s)
  | count + 1, height, sum, s =>
    match ledger.block now height s with
    | (.error e, s) => (.error e, s)
    | (.ok none, s) => readTransactions ledger now count (height + 1) sum s
    | (.ok (some b), s) =>
      readTransactions ledger now count (height + 1) (sum + b.transactions) s

namespace RefillEstimate

/-- Remembers the present height. -/
def prime (ledger : Ledger σ) (now : Instant) : σ × CountedHeight →
    Option LedgerError × σ × CountedHeight
  | (s, last) =>
    match ledger.height now s with
    | (.error e, s) => (some e, s, last)
    | (.ok height, s) => (none, s, some height)

/-- The new blocks times a fixed number, both steps kept within 64 bits. -/
def consumedByProgress (perBlock : UInt64) (ledger : Ledger σ) (now : Instant) :
    σ × CountedHeight → Answer Nat × σ × CountedHeight
  | (s, last) =>
    match ledger.height now s with
    | (.error e, s) => (.error e, s, last)
    | (.ok height, s) =>
      let fresh := match last with
        | some l => height.toNat - l.toNat
        | none => 0
      (.ok (min (fresh * perBlock.toNat) maxCount), s, some height)

/-- The transactions of the new blocks; a failed read leaves the counted height where it was. -/
def consumedByContent (ledger : Ledger σ) (now : Instant) :
    σ × CountedHeight → Answer Nat × σ × CountedHeight
  | (s, last) =>
    match ledger.height now s with
    | (.error e, s) => (.error e, s, last)
    | (.ok height, s) =>
      match last with
      | none => (.ok 0, s, some height)
      | some l =>
        match readTransactions ledger now (height.toNat - l.toNat) (l + 1) 0 s with
        | (.error e, s) => (.error e, s, last)
        | (.ok sum, s) => (.ok sum.toNat, s, some height)

/-- The estimator that an estimate names. -/
def estimator (estimate : RefillEstimate) (ledger : Ledger σ) : Estimator σ CountedHeight where
  prime := prime ledger
  consumed := match estimate with
    | blockProgress perBlock => consumedByProgress perBlock ledger
    | blockContent => consumedByContent ledger
  primeTime now := fun (s, _) => ledger.readTime now s
  consumedTime now := fun (s, _) => ledger.readTime now s

end RefillEstimate

end Throughput
