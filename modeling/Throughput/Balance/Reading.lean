import Throughput.Balance.Check
import Throughput.Error
import Throughput.Ledger.Basic

/-!
# Reading balances

Before a run every balance must be read; after it those that can be read are taken.
-/

namespace Throughput

/-- Reads the balances in order and stops at the first that fails. -/
def readBalances (ledger : Ledger σ) (now : Instant) :
    List Address → σ → Except SetupError (List Snapshot) × σ
  | [], s => (.ok [], s)
  | account :: rest, s =>
    match ledger.balance now account s with
    | (.error cause, s) => (.error (.balanceSnapshot account cause), s)
    | (.ok amount, s) =>
      let (others, s) := readBalances ledger now rest s
      (others.map (⟨account, amount⟩ :: ·), s)

/-- Reads all balances and leaves out those that fail. -/
def readAvailableBalances (ledger : Ledger σ) (now : Instant) :
    List Address → σ → List Snapshot × σ
  | [], s => ([], s)
  | account :: rest, s =>
    let (answer, s) := ledger.balance now account s
    let (others, s) := readAvailableBalances ledger now rest s
    match answer with
    | .ok amount => (⟨account, amount⟩ :: others, s)
    | .error _ => (others, s)

end Throughput
