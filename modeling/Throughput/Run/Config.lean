import Throughput.Balance.Check
import Throughput.Error
import Throughput.Poll.Phase
import Throughput.Send.Strategy

/-!
# The configuration of a run
-/

namespace Throughput

/-- Everything a run needs to know besides its ledger. -/
structure RunConfig where
  senders : List Address := []
  strategy : Strategy := .steadyBatch 5 (some (milliseconds 200))
  target : Nat := 100
  duration : Option Duration := none
  template : Template := {}
  submitTimeout : Duration := seconds 10
  sendTimeout : Option Duration := none
  poll : PollConfig := {}
  checks : List Check := []
  gasPerTransaction : UInt64 := 21000
  gasLimitPerBlock : Option UInt64 := none
  maxBlocksAnalyzed : UInt64 := 100
  failureSampleCap : Nat := 5

namespace RunConfig

/-- What is wrong with the strategy. -/
def strategyFault? (c : RunConfig) : Option String :=
  match c.strategy with
  | .burst => none
  | .steadyBatch size _ => if size = 0 then some "batch size must be positive" else none
  | .saturation s =>
    if c.duration.isNone then some "saturation strategy requires a duration"
    else if s.fillChunk = 0 then some "fill chunk must be positive"
    else if s.refillInterval = 0 then some "refill interval must be positive"
    else none

/-- What is wrong with a check. -/
def checkFault? (check : Check) : Option String :=
  match check.expectation with
  | .positive _ => none
  | .ratio _ _ target tolerance =>
    if !(0 < target && target.isFinite) then some "ratio target must be positive"
    else if !(0 ≤ tolerance && tolerance.isFinite) then
      some "ratio tolerance must not be negative"
    else none

/-- What is wrong with the remaining settings. -/
def settingFault? (c : RunConfig) : Option String :=
  if c.submitTimeout = 0 then some "submit timeout must be positive"
  else if c.poll.interval = 0 then some "poll interval must be positive"
  else if !(0 < c.poll.completionThreshold && c.poll.completionThreshold ≤ 1) then
    some "completion threshold must be in (0, 1]"
  else if c.poll.sampleCap = 0 then some "sample cap must be positive"
  else if c.maxBlocksAnalyzed = 0 then some "at least one block must be analysed"
  else if c.gasPerTransaction = 0 then some "gas per transaction must be positive"
  else none

/-- The first thing that is wrong with a configuration. -/
def fault? (c : RunConfig) : Option String :=
  if c.senders.isEmpty then some "at least one sender is required"
  else (c.strategyFault?.or c.settingFault?).or (c.checks.findSome? checkFault?)

/-- Accepts a configuration that can be run. -/
def validate (c : RunConfig) : Except SetupError Unit :=
  match c.fault? with
  | some reason => .error (.invalidConfig reason)
  | none => .ok ()

end RunConfig

end Throughput
