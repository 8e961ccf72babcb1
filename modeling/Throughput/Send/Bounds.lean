import Throughput.Send.Summary

/-!
# A send phase within the bounds of its clock

The clock of a phase must be able to tell when sending has to stop and when a pause would end, even
one that is cut short. Where it cannot, the phase is stopped.
-/

namespace Throughput

namespace Job

variable {σ ε : Type}

/-- Would the pause that follows now end beyond what the clock can tell? -/
def pauseOverruns (j : Job σ ε) (p : Phase σ ε) : Bool :=
  match p.stage, j.strategy with
  | .group, .steadyBatch _ (some pause) =>
    p.isIdle && p.dispatched < j.target && Instant.latest < p.now + pause
  | _, _ => false

/-- Lets events happen up to a pause that overruns, at most the given number. -/
def advanceInBounds (j : Job σ ε) : Nat → Phase σ ε → Phase σ ε
  | 0, p => p
  | steps + 1, p =>
    if j.pauseOverruns p then p
    else
      match j.next? p with
      | some (_, event) => j.advanceInBounds steps (j.step event p)
      | none => p

/-- Lets everything happen up to the end of the phase or to a pause that overruns. -/
def runInBounds (j : Job σ ε) (p : Phase σ ε) : Phase σ ε := j.advanceInBounds (j.stepsLeft p) p

end Job

namespace Generator

variable {σ ε : Type}

/-- Is there an instant at which sending must stop that the clock cannot tell? -/
def deadlineOverruns (g : Generator) (now : Instant) (duration : Option Duration) : Bool :=
  (g.deadline now duration).any (Instant.latest < ·)

/-- Runs a strategy with an estimator to its end, or until the clock is overrun. -/
def sendWithInBounds (g : Generator) (ledger : Ledger σ) (estimator : Estimator σ ε)
    (strategy : Strategy) (target : Nat) (duration : Option Duration) (b : Bench σ) (memory : ε) :
    Except RunError SendSummary × Bench σ × ε :=
  if g.deadlineOverruns b.now duration then (.error (.overflow .instant), b, memory)
  else
    match g.job ledger estimator strategy target duration b.now with
    | .error e => (.error (.setup e), b, memory)
    | .ok job =>
      let p := job.runInBounds (Job.start b memory)
      (if job.pauseOverruns p then .error (.overflow .instant)
        else if p.stage = .zeroInterval then .error .zeroInterval
        else .ok (job.summary b p),
        Job.bench p, p.estimator)

/-- Runs a strategy to its end, or until the clock is overrun. -/
def sendInBounds (g : Generator) (ledger : Ledger σ) (strategy : Strategy) (target : Nat)
    (duration : Option Duration) (b : Bench σ) : Except RunError SendSummary × Bench σ :=
  let (result, b, _) :=
    g.sendWithInBounds ledger (estimatorOf strategy ledger) strategy target duration b none
  (result, b)

end Generator

end Throughput
