import Throughput.Word

/-!
# Send strategies

How requests are spread over time, and what each request transfers.
-/

namespace Throughput

/-- How the requests that left the backlog are estimated. -/
inductive RefillEstimate where
  /-- A fixed number per new block. -/
  | blockProgress (perBlock : UInt64)
  /-- The transactions of the new blocks. -/
  | blockContent
deriving DecidableEq, Repr

/-- Fill the backlog first, then replace at intervals what has left it. -/
structure Saturation where
  initialFill : Nat := 8000
  fillChunk : Nat := 100
  refillInterval : Duration := seconds 1
  refillCap : Nat := 4000
  estimate : RefillEstimate := .blockProgress 1000
deriving DecidableEq, Repr

/-- The ways to send. -/
inductive Strategy where
  /-- All requests at once. -/
  | burst
  /-- Groups of one size, with an optional pause between them. -/
  | steadyBatch (size : Nat) (pause : Option Duration)
  /-- A backlog that is kept full. -/
  | saturation (config : Saturation)
deriving DecidableEq, Repr

/-- The name of a strategy in reports. -/
def Strategy.name : Strategy → String
  | .burst => "burst"
  | .steadyBatch _ _ => "steady_batch"
  | .saturation _ => "saturation"

/-- Whom a sender sends to. -/
inductive RecipientPolicy where
  | nextSender
  | self
  | fixed (recipient : Address)
deriving DecidableEq, Repr

/-- What all requests of a run have in common. -/
structure Template where
  value : Amount := 1000000000000000
  gasLimit : UInt64 := 21000
  gasPrice : Option (BitVec 128) := none
  recipients : RecipientPolicy := .nextSender
deriving DecidableEq, Repr

end Throughput
