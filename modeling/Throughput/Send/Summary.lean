import Throughput.Send.Phase

/-!
# Running a send phase

A strategy is run to its end and summed up by what it added to the record.
-/

namespace Throughput

/-- A ledger under test, the record of what was sent to it, and the counters of the senders. -/
structure Bench (σ : Type) where
  now : Instant
  shutdown : Shutdown
  ledger : σ
  tracker : Tracker
  sequences : Sequences

/-- What a send phase did. -/
structure SendSummary where
  strategy : String
  dispatched : Nat
  accepted : Nat
  failed : Nat
  groups : Nat
  started : Instant
  finished : Instant
  stoppedEarly : Bool
deriving DecidableEq, Repr

/-- How long a send phase took. -/
def SendSummary.duration (s : SendSummary) : Duration := s.finished - s.started

/-- The job of a strategy that starts at an instant, if the strategy can be run at all. -/
def Generator.job (g : Generator) (ledger : Ledger σ) (estimator : Estimator σ ε)
    (strategy : Strategy) (target : Nat) (duration : Option Duration) (now : Instant) :
    Except SetupError (Job σ ε) :=
  let deadline := g.deadline now duration
  let job : Job σ ε := { generator := g, ledger, estimator, strategy, target, deadline }
  match strategy with
  | .burst => .ok job
  | .steadyBatch size _ =>
    if size = 0 then .error (.invalidConfig "batch size must be positive") else .ok job
  | .saturation _ =>
    if deadline.isNone then .error (.invalidConfig "saturation strategy requires a duration")
    else .ok job

namespace Job

/-- A send phase before its first step. -/
def start (b : Bench σ) (memory : ε) : Phase σ ε := { b with estimator := memory }

/-- The bench after a phase. -/
def bench (p : Phase σ ε) : Bench σ :=
  { now := p.now, shutdown := p.shutdown, ledger := p.ledger, tracker := p.tracker,
    sequences := p.sequences }

/-- Sums up a phase that began with the given bench. -/
def summary (j : Job σ ε) (before : Bench σ) (p : Phase σ ε) : SendSummary :=
  { strategy := j.strategy.name
    dispatched := p.dispatched
    accepted := p.tracker.counts.accepted - before.tracker.counts.accepted
    failed := p.tracker.counts.failed - before.tracker.counts.failed
    groups := p.groups
    started := before.now
    finished := p.now
    stoppedEarly := p.stoppedEarly }

end Job

namespace Generator

/-- Runs a strategy with an estimator to its end. -/
def sendWith (g : Generator) (ledger : Ledger σ) (estimator : Estimator σ ε) (strategy : Strategy)
    (target : Nat) (duration : Option Duration) (b : Bench σ) (memory : ε) :
    Except RunError SendSummary × Bench σ × ε :=
  match g.job ledger estimator strategy target duration b.now with
  | .error e => (.error (.setup e), b, memory)
  | .ok job =>
    let p := job.run (Job.start b memory)
    (if p.stage = .zeroInterval then .error .zeroInterval else .ok (job.summary b p),
      Job.bench p, p.estimator)

/-- The estimator that a strategy refills by. -/
def estimatorOf (strategy : Strategy) (ledger : Ledger σ) : Estimator σ CountedHeight :=
  match strategy with
  | .saturation c => c.estimate.estimator ledger
  | _ => ({} : Saturation).estimate.estimator ledger

/-- Runs a strategy to its end. -/
def send (g : Generator) (ledger : Ledger σ) (strategy : Strategy) (target : Nat)
    (duration : Option Duration) (b : Bench σ) : Except RunError SendSummary × Bench σ :=
  let (result, b, _) :=
    g.sendWith ledger (estimatorOf strategy ledger) strategy target duration b none
  (result, b)

end Generator

end Throughput
