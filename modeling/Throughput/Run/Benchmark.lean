import Std.Data.HashMap
import Throughput.Balance.Reading
import Throughput.Run.Report

/-!
# Running a benchmark

The ledger is read first, then the load is sent and its inclusion awaited, and last the chain and the
balances are read again. A saturated ledger is polled while it is being filled; otherwise polling
starts when sending has ended.
-/

namespace Throughput

/-- What a run stands on when it starts to send. -/
structure Footing where
  startHeight : UInt64
  sequences : Sequences
  balances : List Snapshot
  generator : Generator

namespace RunConfig

/-- Reads height, sequence numbers and balances, in this order, and stops at the first that fails. -/
def prepare (c : RunConfig) (ledger : Ledger σ) (now : Instant) (s : σ) :
    Except SetupError Footing × σ :=
  match c.validate with
  | .error e => (.error e, s)
  | .ok () =>
    match ledger.height now s with
    | (.error cause, s) => (.error (.unreachable cause), s)
    | (.ok startHeight, s) =>
      match Sequences.seed ledger now c.senders s with
      | (.error e, s) => (.error e, s)
      | (.ok sequences, s) =>
        match readBalances ledger now (checkedAccounts c.checks) s with
        | (.error e, s) => (.error e, s)
        | (.ok balances, s) =>
          (Generator.ofSequences sequences c.template c.submitTimeout c.sendTimeout
            |>.map fun generator => { startHeight, sequences, balances, generator }, s)

end RunConfig

/-- Watches a fixed set of handles on a ledger. -/
def Watch.fixed (ledger : Ledger σ) (handles : Array Handle) : Watch σ where
  advance _ s := s
  handles _ _ := handles
  isSealed _ _ := true
  receipt := ledger.receipt

/-- Watches the accepted submissions of a send phase that goes on at the same time. -/
def Watch.sending (job : Job σ ε) (chance : Chance := {}) : Watch (Phase σ ε) where
  advance limit p := job.runUntil limit p
  handles _ p := (chance.arrange p.tracker.handles).toArray
  isSealed _ p := p.stage == .finished
  receipt now handle p :=
    let (call, ledger) := job.ledger.receipt now handle p.ledger
    ({ latency := call.latency
       answer := fun now p =>
        let (answer, ledger) := call.answer now p.ledger
        (answer, { p with ledger }) },
      { p with ledger })

/-- Seals the record of a bench. -/
def Bench.close (b : Bench σ) : Bench σ := { b with tracker := b.tracker.close }

namespace RunConfig

/-- Sends first and then polls what was accepted. -/
def sendThenPoll (c : RunConfig) (ledger : Ledger σ) (g : Generator) (b : Bench σ) :
    Except RunError (SendSummary × PollReport) × Bench σ :=
  match g.send ledger c.strategy c.target c.duration b with
  | (.error e, b) => (.error e, b.close)
  | (.ok send, b) =>
    let b := b.close
    let watch := Watch.fixed ledger (c.poll.chance.arrange b.tracker.handles).toArray
    let (inclusion, poll) := Poll.run c.poll watch b.now b.shutdown b.ledger
    (.ok (send, inclusion),
      { b with now := poll.now, shutdown := poll.shutdown, ledger := poll.world })

/-- Polls while sending; the time to poll is longer by the duration of sending. -/
def sendWhilePolling (c : RunConfig) (ledger : Ledger σ) (g : Generator) (s : Saturation)
    (b : Bench σ) : Except RunError (SendSummary × PollReport) × Bench σ :=
  match g.job ledger (s.estimate.estimator ledger) c.strategy c.target c.duration b.now with
  | .error e => (.error (.setup e), b.close)
  | .ok job =>
    let config := { c.poll with timeout := c.poll.timeout + c.duration.getD 0 }
    let watch := Watch.sending job c.poll.chance
    let phase := watch.advance b.now (Job.start b none)
    let (inclusion, poll) := Poll.run config watch b.now b.shutdown phase
    let phase := job.run poll.world
    let after := { (Job.bench phase) with now := max poll.now phase.now }.close
    if phase.stage = .zeroInterval then (.error .zeroInterval, after)
    else (.ok (job.summary b phase, inclusion), after)

/-- Sends the load and awaits its inclusion. -/
def load (c : RunConfig) (ledger : Ledger σ) (g : Generator) (b : Bench σ) :
    Except RunError (SendSummary × PollReport) × Bench σ :=
  match c.strategy with
  | .saturation s => c.sendWhilePolling ledger g s b
  | _ => c.sendThenPoll ledger g b

/-- The first height that is analysed, for a window that has grown: the one after its start, or as
many blocks before its end as may be analysed. -/
def firstAnalyzed (c : RunConfig) (start last : UInt64) : UInt64 :=
  let newest := (if c.maxBlocksAnalyzed ≤ last then last - c.maxBlocksAnalyzed else 0) + 1
  max (start + 1) newest

end RunConfig

/-- Reads blocks at increasing heights; what cannot be read is left out. -/
def readBlocks (ledger : Ledger σ) (now : Instant) : Nat → UInt64 → σ → List (UInt64 × Block) × σ
  | 0, _, s => ([], s)
  | count + 1, height, s =>
    let (answer, s) := ledger.block now height s
    let (others, s) := readBlocks ledger now count (height + 1) s
    match answer with
    | .ok (some b) => ((height, b) :: others, s)
    | _ => (others, s)

/-- The baseline block, if it was read, and the blocks after it. -/
def splitBaseline (first : UInt64) (blocks : List (UInt64 × Block)) : Option Block × List Block :=
  let (before, after) := blocks.partition fun (height, _) => height + 1 == first
  (before.getLast?.map Prod.snd, after.map Prod.snd)

namespace RunConfig

/-- The blocks of a window and the block before them. -/
def analyzedBlocks (c : RunConfig) (ledger : Ledger σ) (now : Instant) (w : RunWindow) (s : σ) :
    (Option Block × List Block) × σ :=
  match w.endHeight with
  | none => ((none, []), s)
  | some last =>
    if last ≤ w.startHeight then ((none, []), s)
    else
      let first := c.firstAnalyzed w.startHeight last
      let (blocks, s) := readBlocks ledger now (last.toNat + 2 - first.toNat) (first - 1) s
      (splitBaseline first blocks, s)

end RunConfig

/-- The time from each submission that was seen included to its observation. -/
def inclusionLatencies (outcomes : List Outcome) (records : List PollRecord) : List Duration :=
  let submitted := outcomes.foldl (fun (m : Std.HashMap Handle Instant) o =>
    match o.handle with
    | some handle => m.insert handle o.submittedAt
    | none => m) ∅
  records.filterMap fun r =>
    r.inclusion.bind fun i => submitted[r.handle]?.map fun submittedAt => i.observedAt - submittedAt

namespace RunConfig

/-- Reads the chain and the balances after the load and puts the report together. -/
def conclude (c : RunConfig) (ledger : Ledger σ) (f : Footing) (send : SendSummary)
    (inclusion : PollReport) (b : Bench σ) : RunReport × Bench σ :=
  let (answer, s) := ledger.height b.now b.ledger
  let window : RunWindow := ⟨f.startHeight, answer.toOption⟩
  let ((baseline, blocks), s) := c.analyzedBlocks ledger b.now window s
  let (after, s) := readAvailableBalances ledger b.now (checkedAccounts c.checks) s
  let outcomes := b.tracker.outcomes.toList
  let metrics := Observations.metrics {
    accepted := send.accepted
    sendDuration := send.duration
    included := inclusion.estimate.included
    inclusionDuration := inclusion.elapsed
    blocksProduced := window.blocksProduced
    blocks
    baseline
    gasPerTransaction := c.gasPerTransaction
    gasLimitPerBlock := c.gasLimitPerBlock
    submitLatencies := outcomes.map (·.latency)
    inclusionLatencies := inclusionLatencies outcomes inclusion.records }
  ({ config := c
     window
     submissions := b.tracker.counts
     send
     inclusion
     metrics
     blocks
     failureSamples := b.tracker.samples.toList
     sequences := b.sequences.spans
     checks := verify c.checks f.balances after
     balancesBefore := f.balances
     balancesAfter := after }, { b with ledger := s })

/-- Runs a benchmark from an instant on. Says also when it ended. -/
def run (c : RunConfig) (ledger : Ledger σ) (now : Instant) (shutdown : Shutdown) (s : σ) :
    Except RunError RunReport × Instant × σ :=
  match c.prepare ledger now s with
  | (.error e, s) => (.error (.setup e), now, s)
  | (.ok f, s) =>
    let bench : Bench σ :=
      { now, shutdown, ledger := s, tracker := .withCap c.failureSampleCap,
        sequences := f.sequences }
    match c.load ledger f.generator bench with
    | (.error e, b) => (.error e, b.now, b.ledger)
    | (.ok (send, inclusion), b) =>
      let (report, b) := c.conclude ledger f send inclusion b
      (.ok report, b.now, b.ledger)

end RunConfig

end Throughput
