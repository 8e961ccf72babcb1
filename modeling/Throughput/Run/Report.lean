import Throughput.Figure.Metrics
import Throughput.Run.Config
import Throughput.Send.Summary

/-!
# The report of a run
-/

namespace Throughput

/-- The stretch of the chain that a run covers. -/
structure RunWindow where
  startHeight : UInt64
  endHeight : Option UInt64
deriving DecidableEq, Repr

/-- The blocks produced in a window, if its end is known; none if the height went back. -/
def RunWindow.blocksProduced (w : RunWindow) : Option UInt64 :=
  w.endHeight.map fun last => if w.startHeight ≤ last then last - w.startHeight else 0

/-- Everything a run found out. -/
structure RunReport where
  config : RunConfig
  window : RunWindow
  submissions : OutcomeCounts
  send : SendSummary
  inclusion : PollReport
  metrics : Metrics
  blocks : List Block
  failureSamples : List String
  sequences : List Span
  checks : List CheckResult
  balancesBefore : List Snapshot
  balancesAfter : List Snapshot

namespace RunReport

/-- The accepted submissions. -/
def sent (r : RunReport) : Nat := r.submissions.accepted

/-- The estimated number of included submissions. -/
def included (r : RunReport) : Nat := r.inclusion.estimate.included

/-- Did all checks pass? -/
def checksPassed (r : RunReport) : Bool := r.checks.all (·.passed)

end RunReport

end Throughput
