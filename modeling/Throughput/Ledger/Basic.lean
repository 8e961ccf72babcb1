import Throughput.Ledger.Error

/-!
# Ledgers

A ledger is a state with six operations. A submission and a receipt query are calls: they start at one
instant and answer at a later one, or never, and other calls may start or answer in between. The other
four are reads, which answer with what the ledger is at an instant. Those that a refill is estimated by
may be waited for; elsewhere nothing else happens during a read, and its answer is taken at once.
-/

namespace Throughput

/-- A transfer handed to a ledger. -/
structure Request where
  sender : Address
  recipient : Address
  value : Amount
  gasLimit : UInt64
  nonce : UInt64
  gasPrice : Option (BitVec 128)
deriving DecidableEq, Repr

/-- The figures of one block. -/
structure Block where
  number : UInt64
  timestamp : UInt64
  transactions : UInt64
  gasUsed : UInt64
  gasLimit : UInt64
deriving DecidableEq, Repr

/-- Gas used over the gas limit, when there is a limit. -/
def Block.gasUtilization (b : Block) : Option Float :=
  if 0 < b.gasLimit then some (b.gasUsed.toFloat / b.gasLimit.toFloat) else none

/-- Where a submission was included and whether it succeeded. -/
structure Receipt where
  block : UInt64
  succeeded : Bool
deriving DecidableEq, Repr

/-- The answer of a ledger. -/
abbrev Answer (α : Type) := Except LedgerError α

/-- A call under way: how long it takes, if it ever answers, and what it does to the ledger at the
instant it answers. -/
structure Call (σ α : Type) where
  latency : Option Duration
  answer : Instant → σ → Answer α × σ

/-- The operations of a ledger with states of type `σ`, each at an instant. -/
structure Ledger (σ : Type) where
  submit : Instant → Request → σ → Call σ Handle × σ
  sequenceNumber : Instant → Address → σ → Answer UInt64 × σ
  balance : Instant → Address → σ → Answer Amount × σ
  height : Instant → σ → Answer UInt64 × σ
  block : Instant → UInt64 → σ → Answer (Option Block) × σ
  receipt : Instant → Handle → σ → Call σ (Option Receipt) × σ
  /-- How long the reads of an estimate are waited for. -/
  readTime : Instant → σ → Duration := fun _ _ => 0

/-- A call that does nothing to the ledger when it answers. -/
def Call.pure (latency : Duration) (result : Answer α) : Call σ α :=
  ⟨some latency, fun _ s => (result, s)⟩

/-- The same call inside a larger state. -/
def Call.inFirst (call : Call σ α) : Call (σ × τ) α :=
  ⟨call.latency, fun now (s, t) => let (result, s) := call.answer now s; (result, (s, t))⟩

/-- How often each operation has been started. -/
structure CallCounts where
  submit : Nat := 0
  sequenceNumber : Nat := 0
  balance : Nat := 0
  height : Nat := 0
  block : Nat := 0
  receipt : Nat := 0
deriving DecidableEq, Repr, Inhabited

namespace Ledger

/-- The same ledger, which also counts the calls started on it. -/
def counted (ledger : Ledger σ) : Ledger (σ × CallCounts) where
  submit now request := fun (s, n) =>
    let (call, s) := ledger.submit now request s
    (call.inFirst, (s, { n with submit := n.submit + 1 }))
  sequenceNumber now account := fun (s, n) =>
    let (result, s) := ledger.sequenceNumber now account s
    (result, (s, { n with sequenceNumber := n.sequenceNumber + 1 }))
  balance now account := fun (s, n) =>
    let (result, s) := ledger.balance now account s
    (result, (s, { n with balance := n.balance + 1 }))
  height now := fun (s, n) =>
    let (result, s) := ledger.height now s
    (result, (s, { n with height := n.height + 1 }))
  block now height := fun (s, n) =>
    let (result, s) := ledger.block now height s
    (result, (s, { n with block := n.block + 1 }))
  receipt now handle := fun (s, n) =>
    let (call, s) := ledger.receipt now handle s
    (call.inFirst, (s, { n with receipt := n.receipt + 1 }))
  readTime now := fun (s, _) => ledger.readTime now s

end Ledger

end Throughput
