import Throughput.Run.Benchmark
import Throughput.Send.Bounds

/-!
# A benchmark within its bounds

A run asks a clock for the end of its limits, its pauses and its poll, and a list for room for its
failure reasons. Where one of them cannot do it the run is stopped and has no report.
-/

namespace Throughput.RunConfig

variable {σ : Type}

/-- How long inclusion is awaited beside a send phase. -/
def timeoutBeside (c : RunConfig) : Duration := c.poll.timeout + c.duration.getD 0

/-- Sends first and then polls what was accepted. -/
def sendThenPollInBounds (c : RunConfig) (ledger : Ledger σ) (g : Generator) (b : Bench σ) :
    Except RunError (SendSummary × PollReport) × Bench σ :=
  match g.sendInBounds ledger c.strategy c.target c.duration b with
  | (.error e, b) => (.error e, b.close)
  | (.ok send, b) =>
    let b := b.close
    let watch := Watch.fixed ledger (c.poll.chance.arrange b.tracker.handles).toArray
    match Poll.startInBounds c.poll watch b.now b.shutdown b.ledger with
    | .error e => (.error e, b)
    | .ok (inclusion, poll) =>
      (.ok (send, inclusion),
        { b with now := poll.now, shutdown := poll.shutdown, ledger := poll.world })

/-- Polls while sending. The sum of both times is asked for first, and the end of the poll when sending
has begun. -/
def sendWhilePollingInBounds (c : RunConfig) (ledger : Ledger σ) (g : Generator) (s : Saturation)
    (b : Bench σ) : Except RunError (SendSummary × PollReport) × Bench σ :=
  if Duration.longest < c.timeoutBeside then (.error (.overflow .duration), b)
  else if g.deadlineOverruns b.now c.duration then (.error (.overflow .instant), b)
  else
    match g.job ledger (s.estimate.estimator ledger) c.strategy c.target c.duration b.now with
    | .error e => (.error (.setup e), b.close)
    | .ok job =>
      let config := { c.poll with timeout := c.timeoutBeside }
      let watch := Watch.sending job c.poll.chance
      let phase := watch.advance b.now (Job.start b none)
      match Poll.startInBounds config watch b.now b.shutdown phase with
      | .error e => (.error e, Job.bench phase)
      | .ok (inclusion, poll) =>
        let phase := job.run poll.world
        let after := { (Job.bench phase) with now := max poll.now phase.now }.close
        if phase.stage = .zeroInterval then (.error .zeroInterval, after)
        else (.ok (job.summary b phase, inclusion), after)

/-- Sends the load and awaits its inclusion. -/
def loadInBounds (c : RunConfig) (ledger : Ledger σ) (g : Generator) (b : Bench σ) :
    Except RunError (SendSummary × PollReport) × Bench σ :=
  match c.strategy with
  | .saturation s => c.sendWhilePollingInBounds ledger g s b
  | _ => c.sendThenPollInBounds ledger g b

/-- Goes on with a run that has been prepared. -/
def proceedInBounds (c : RunConfig) (ledger : Ledger σ) (f : Footing) (now : Instant)
    (shutdown : Shutdown) (s : σ) : Except RunError RunReport × Instant × σ :=
  match Tracker.makeRoom c.failureSampleCap with
  | .error e => (.error e, now, s)
  | .ok tracker =>
    let bench : Bench σ := { now, shutdown, ledger := s, tracker, sequences := f.sequences }
    match c.loadInBounds ledger f.generator bench with
    | (.error e, b) => (.error e, b.now, b.ledger)
    | (.ok (send, inclusion), b) =>
      let (report, b) := c.conclude ledger f send inclusion b
      (.ok report, b.now, b.ledger)

/-- Runs a benchmark from an instant on. Says also when it ended. -/
def runInBounds (c : RunConfig) (ledger : Ledger σ) (now : Instant) (shutdown : Shutdown) (s : σ) :
    Except RunError RunReport × Instant × σ :=
  match c.prepare ledger now s with
  | (.error e, s) => (.error (.setup e), now, s)
  | (.ok f, s) => c.proceedInBounds ledger f now shutdown s

end Throughput.RunConfig
