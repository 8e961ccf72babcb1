import Throughput.Figure.BlockTime
import Throughput.Json.Printer
import Throughput.Run.Report

/-!
# Reports as JSON

Each part of a report is an object whose members stand in a fixed order. Moments of the wall clock
are texts that the caller supplies.
-/

namespace Throughput

/-- An address as a string. -/
def Address.json (a : Address) : Json := .string a.lower

/-- A 64-bit number as a value. -/
def Json.word (n : UInt64) : Json := .nat n.toNat

/-- An undefined figure is null. -/
def Measurement.json (m : Measurement) : Json := .ofOption .number m.value?

/-- A duration in seconds. -/
def secondsJson (d : Duration) : Json := .number (inSeconds d)

/-- The figures of a block. -/
def Block.json (b : Block) : Json :=
  .object [("number", .word b.number), ("timestamp", .word b.timestamp),
    ("transaction_count", .word b.transactions), ("gas_used", .word b.gasUsed),
    ("gas_limit", .word b.gasLimit)]

/-- A balance with the moment it was read. -/
def Snapshot.json (stamp : String) (s : Snapshot) : Json :=
  .object [("account", s.account.json), ("amount", .string (quantityText s.amount.toNat)),
    ("taken_at", .string stamp)]

/-- A check, with the members of its kind. -/
def Check.json (check : Check) : Json :=
  match check.expectation with
  | .positive account =>
    .object [("label", .string check.label), ("kind", .string "positive"),
      ("account", account.json)]
  | .ratio numerator denominator target tolerance =>
    .object [("label", .string check.label), ("kind", .string "ratio"),
      ("numerator", numerator.json), ("denominator", denominator.json),
      ("target", .number target), ("tolerance", .number tolerance)]

/-- The verdict on a check. -/
def CheckResult.json (r : CheckResult) : Json :=
  .object [("label", .string r.label), ("passed", .bool r.passed),
    ("observed", .ofOption .number r.observed), ("detail", .string r.detail)]

/-- The numbers a sender was given. -/
def Span.json (s : Span) : Json :=
  .object [("sender", s.sender.json), ("start", .word s.start), ("issued", .word s.issued)]

/-- The tallies of the outcomes. -/
def OutcomeCounts.json (c : OutcomeCounts) : Json :=
  .object [("total", .nat c.total), ("accepted", .nat c.accepted), ("rejected", .nat c.rejected),
    ("timed_out", .nat c.timedOut), ("transport", .nat c.transport),
    ("malformed", .nat c.malformed)]

/-- What a send phase did. -/
def SendSummary.json (s : SendSummary) : Json :=
  .object [("strategy", .string s.strategy), ("dispatched", .nat s.dispatched),
    ("accepted", .nat s.accepted), ("failed", .nat s.failed), ("groups", .nat s.groups),
    ("duration_secs", secondsJson s.duration), ("stopped_early", .bool s.stoppedEarly)]

/-- An estimate. -/
def Estimate.json (e : Estimate) : Json :=
  .object [("tracked", .nat e.tracked), ("included", .nat e.included), ("lower", .nat e.lower),
    ("upper", .nat e.upper), ("exact", .bool e.exact), ("sample_size", .nat e.sampleSize)]

/-- What a poll found. -/
def PollReport.json (r : PollReport) : Json :=
  .object [("status", .string r.status.name), ("estimate", r.estimate.json),
    ("verified", .nat r.verified), ("unresolved", .nat r.unresolved),
    ("reverted", .nat r.reverted), ("query_errors", .nat r.queryErrors),
    ("rounds", .nat r.rounds.length), ("heights_observed", .nat r.heights.length),
    ("duration_secs", secondsJson r.elapsed)]

/-- Latency figures. -/
def LatencyStats.json (s : LatencyStats) : Json :=
  .object [("samples", .nat s.samples), ("mean_secs", s.mean.json), ("min_secs", s.min.json),
    ("p50_secs", s.p50.json), ("p99_secs", s.p99.json), ("max_secs", s.max.json)]

/-- Block intervals. -/
def Cadence.json (c : Cadence) : Json :=
  .object [("mean_secs", .number c.mean), ("min_secs", .number c.min), ("max_secs", .number c.max),
    ("intervals", .nat c.intervals)]

/-- The rate of a block. -/
def BlockRate.json (r : BlockRate) : Json :=
  .object [("number", .word r.number), ("transactions", .word r.transactions),
    ("interval_secs", .word r.interval), ("tps", r.rate.json)]

/-- The figures of a run. -/
def Metrics.json (m : Metrics) : Json :=
  .object [("send_rate", m.sendRate.json),
    ("send_rate_authoritative", .bool m.sendRateIsAuthoritative),
    ("inclusion_rate", m.inclusionRate.json), ("success_rate", m.successRate.json),
    ("submit_latency", m.submitLatency.json), ("inclusion_latency", m.inclusionLatency.json),
    ("block_cadence", .ofOption Cadence.json m.blockCadence),
    ("max_tx_per_block", .ofOption .word m.maxTransactions),
    ("theoretical_capacity", m.theoreticalCapacity.json), ("utilization", m.utilization.json),
    ("blocks_produced", .ofOption .word m.blocksProduced),
    ("blocks_analyzed", .nat m.blocksAnalyzed), ("tx_per_block", m.transactionsPerBlock.json),
    ("gas_utilization", m.gasUtilization.json), ("peak_block_tps", m.peakRate.json),
    ("block_rates", .list BlockRate.json m.blockRates)]

/-- The settings that a report repeats. -/
def RunConfig.json (c : RunConfig) : Json :=
  let batchSize := match c.strategy with
    | .steadyBatch size _ => some size
    | _ => none
  .object [("strategy", .string c.strategy.name), ("batch_size", .ofOption .nat batchSize),
    ("target_count", .nat c.target), ("duration_secs", .ofOption secondsJson c.duration),
    ("senders", .nat c.senders.length), ("poll_interval_secs", secondsJson c.poll.interval),
    ("inclusion_timeout_secs", secondsJson c.poll.timeout),
    ("completion_threshold", .number c.poll.completionThreshold),
    ("sampling_threshold", .nat c.poll.samplingThreshold), ("sample_cap", .nat c.poll.sampleCap),
    ("gas_per_tx", .word c.gasPerTransaction),
    ("gas_limit_per_block", .ofOption .word c.gasLimitPerBlock),
    ("invariants", .list Check.json c.checks)]

/-- The window of a run and the moments it began and ended. -/
def RunWindow.json (stamp : String) (w : RunWindow) : Json :=
  .object [("started_at", .string stamp), ("finished_at", .string stamp),
    ("start_height", .word w.startHeight), ("end_height", .ofOption .word w.endHeight)]

/-- The whole report. -/
def RunReport.json (stamp : String) (r : RunReport) : Json :=
  .object [("config", r.config.json), ("window", r.window.json stamp),
    ("submissions", r.submissions.json), ("send", r.send.json), ("inclusion", r.inclusion.json),
    ("metrics", r.metrics.json), ("blocks", .list Block.json r.blocks),
    ("failure_samples", .list .string r.failureSamples), ("sequences", .list Span.json r.sequences),
    ("invariants", .list CheckResult.json r.checks),
    ("balances", .object [("before", .list (Snapshot.json stamp) r.balancesBefore),
      ("after", .list (Snapshot.json stamp) r.balancesAfter)])]

end Throughput
