import Throughput.Send.Backlog
import Throughput.Send.Flight
import Throughput.Send.Generator
import Throughput.Shutdown
import Throughput.Ticker

/-!
# The send phase

A send phase goes from event to event: a submission settles, queued submissions start, or a wait of
the phase itself is over. Between two events nothing happens, so others can act in between.
-/

namespace Throughput

/-- What a send phase waits for. -/
inductive Stage where
  /-- The first step is to be taken. -/
  | starting
  /-- The submissions of a group are awaited before the next step is taken. -/
  | group
  /-- The next group waits for an instant. -/
  | pausing (wake : Instant)
  /-- The estimator is being primed. -/
  | priming (due : Instant)
  /-- The next refill is due at an instant; submissions settle meanwhile. -/
  | refilling (tick : Instant)
  /-- The estimator is being asked for a refill, and the tick after it is known. -/
  | estimating (due next : Instant)
  /-- Nothing more is sent; the submissions under way are awaited. -/
  | draining
  | finished
  /-- Refills were to be made at an interval of zero, which no clock can do. -/
  | zeroInterval
deriving DecidableEq, Repr

/-- A send phase between two events. -/
structure Phase (σ ε : Type) where
  now : Instant
  shutdown : Shutdown
  ledger : σ
  tracker : Tracker
  sequences : Sequences
  estimator : ε
  stage : Stage := .starting
  /-- Submissions under way. -/
  flights : Flights σ := []
  /-- Requests of a refill that start once everything else of the present instant has happened. -/
  queued : List Request := []
  dispatched : Nat := 0
  groups : Nat := 0
  stoppedEarly : Bool := false

/-- What a send phase is to do. -/
structure Job (σ ε : Type) where
  generator : Generator
  ledger : Ledger σ
  estimator : Estimator σ ε
  strategy : Strategy
  target : Nat
  deadline : Option Instant

namespace Phase

/-- Ends the phase. -/
def finish (p : Phase σ ε) : Phase σ ε := { p with stage := .finished }

/-- Ends the phase before its target. -/
def stopEarly (p : Phase σ ε) : Phase σ ε := { p with stage := .finished, stoppedEarly := true }

/-- Is no submission under way or about to start? -/
def isIdle (p : Phase σ ε) : Bool := p.flights.isEmpty && p.queued.isEmpty

end Phase

/-- What can happen to a send phase. -/
inductive Event where
  /-- The first of the submissions under way settles. -/
  | settle
  /-- The queued requests start. -/
  | start
  /-- A wait is over. -/
  | wake
deriving DecidableEq, Repr

namespace Job

/-- Has the deadline passed at an instant? -/
def isOver (j : Job σ ε) (now : Instant) : Bool :=
  match j.deadline with
  | some deadline => deadline ≤ now
  | none => false

/-- Must sending stop? -/
def shouldStop (j : Job σ ε) (p : Phase σ ε) : Bool := p.shutdown.seenAt p.now || j.isOver p.now

/-- An instant, or the deadline if that comes first. -/
def upToDeadline (j : Job σ ε) (instant : Instant) : Instant :=
  match j.deadline with
  | some deadline => min instant deadline
  | none => instant

/-- Starts the submissions of a list at the present instant. -/
def launch (j : Job σ ε) (requests : List Request) (p : Phase σ ε) : Phase σ ε :=
  let l := Launch.all j.ledger j.generator.submitTimeout p.now requests p.ledger p.tracker
  { p with
    ledger := l.ledger, tracker := l.tracker, flights := Flights.add p.flights l.started.reverse }

/-- Sends a group and awaits it. -/
def sendGroup (j : Job σ ε) (requests : List Request) (sequences : Sequences) (p : Phase σ ε) :
    Phase σ ε :=
  j.launch requests
    { p with
      sequences, stage := .group
      dispatched := p.dispatched + requests.length, groups := p.groups + 1 }

/-- Sends the next group of at most the given size, or stops. -/
def sendNext (j : Job σ ε) (size : Nat) (p : Phase σ ε) : Phase σ ε :=
  if j.shouldStop p then p.stopEarly
  else
    let (requests, sequences) := j.generator.build p.dispatched size p.sequences
    j.sendGroup requests sequences p

/-- Starts to prime the estimator. -/
def primeEstimator (j : Job σ ε) (p : Phase σ ε) : Phase σ ε :=
  { p with stage := .priming (p.now + j.estimator.primeTime p.now (p.ledger, p.estimator)) }

/-- Sends the next group, or goes on to what follows the last one. -/
def proceed (j : Job σ ε) (p : Phase σ ε) : Phase σ ε :=
  match j.strategy with
  | .burst =>
    if j.target ≤ p.dispatched then p.finish
    else
      let (requests, sequences) := j.generator.buildAll j.target p.sequences
      j.sendGroup requests sequences p
  | .steadyBatch size _ =>
    if j.target ≤ p.dispatched then p.finish else j.sendNext (min size (j.target - p.dispatched)) p
  | .saturation c =>
    let fill := min c.initialFill j.target
    if fill ≤ p.dispatched then j.primeEstimator p
    else j.sendNext (min (max c.fillChunk 1) (fill - p.dispatched)) p

/-- What follows a group: a pause if the strategy has one and requests are left. A pause ends no later
than the deadline. -/
def afterGroup (j : Job σ ε) (p : Phase σ ε) : Phase σ ε :=
  match j.strategy with
  | .steadyBatch _ (some pause) =>
    if j.target ≤ p.dispatched then j.proceed p
    else { p with stage := .pausing (j.upToDeadline (p.now + pause)) }
  | _ => j.proceed p

/-- Waits for a refill, unless the target is reached. -/
def awaitRefill (j : Job σ ε) (tick : Instant) (p : Phase σ ε) : Phase σ ε :=
  { p with stage := if j.target ≤ p.dispatched then .draining else .refilling tick }

/-- Primes the estimator and waits for the first refill. -/
def startRefills (j : Job σ ε) (c : Saturation) (p : Phase σ ε) : Phase σ ε :=
  let (_, ledger, estimator) := j.estimator.prime p.now (p.ledger, p.estimator)
  let p := { p with ledger, estimator }
  if c.refillInterval = 0 then { p with stage := .zeroInterval }
  else j.awaitRefill (p.now + c.refillInterval) p

/-- The end of a wait for a refill: nothing more is sent, or the estimator is asked. The signal is
looked at first and the deadline next. -/
def afterTick (j : Job σ ε) (c : Saturation) (tick : Instant) (p : Phase σ ε) : Phase σ ε :=
  if p.shutdown.isRaised then { p with stage := .draining, stoppedEarly := true }
  else if j.isOver p.now then { p with stage := .draining }
  else
    let due := p.now + j.estimator.consumedTime p.now (p.ledger, p.estimator)
    { p with stage := .estimating due (nextTick c.refillInterval tick p.now) }

/-- How many requests replace what has left the backlog, within the cap and the target. A failed
estimate counts as nothing. -/
def refillSize (j : Job σ ε) (c : Saturation) (answer : Answer Nat) (dispatched : Nat) : Nat :=
  let consumed := match answer with
    | .ok n => n
    | .error _ => 0
  min (min consumed c.refillCap) (j.target - dispatched)

/-- Takes the estimate and queues what has left the backlog. -/
def refill (j : Job σ ε) (c : Saturation) (next : Instant) (p : Phase σ ε) : Phase σ ε :=
  let (answer, ledger, estimator) := j.estimator.consumed p.now (p.ledger, p.estimator)
  let size := j.refillSize c answer p.dispatched
  let (requests, sequences) := j.generator.build p.dispatched size p.sequences
  j.awaitRefill next
    { p with
      ledger, estimator, sequences, queued := p.queued ++ requests
      dispatched := p.dispatched + size, groups := p.groups + (if 0 < size then 1 else 0) }

/-- When the wait of a phase is over, and the signal then. -/
def waitEnd (j : Job σ ε) (p : Phase σ ε) : Instant × Shutdown :=
  match p.stage with
  | .pausing wake => p.shutdown.wait p.now wake
  | .refilling tick => p.shutdown.wait p.now (j.upToDeadline tick)
  | .priming due | .estimating due _ => (max p.now due, p.shutdown)
  | _ => (p.now, p.shutdown)

/-- A phase at the end of its wait. -/
def wakeUp (j : Job σ ε) (p : Phase σ ε) : Phase σ ε :=
  { p with now := (j.waitEnd p).1, shutdown := (j.waitEnd p).2 }

/-- What the phase itself does once its wait is over. -/
def goOn (j : Job σ ε) (p : Phase σ ε) : Phase σ ε :=
  match p.stage, j.strategy with
  | .starting, _ | .pausing _, _ => j.proceed p
  | .group, _ => j.afterGroup p
  | .priming _, .saturation c => j.startRefills c p
  | .refilling tick, .saturation c => j.afterTick c tick p
  | .estimating _ next, .saturation c => j.refill c next p
  | .draining, _ => p.finish
  | _, _ => p

/-- Settles the first of the submissions under way. -/
def settleFirst (j : Job σ ε) (p : Phase σ ε) : Phase σ ε :=
  match p.flights with
  | [] => p
  | f :: rest =>
    let (outcome, ledger) := f.settle j.generator.submitTimeout p.ledger
    { p with
      now := f.settlesAt, ledger, tracker := p.tracker.record outcome, flights := rest }

/-- Lets an event happen. -/
def step (j : Job σ ε) (event : Event) (p : Phase σ ε) : Phase σ ε :=
  match event with
  | .settle => j.settleFirst p
  | .start => j.launch p.queued { p with queued := [] }
  | .wake => j.goOn (j.wakeUp p)

/-- When the wait of the phase itself is over, if it does not wait for submissions. -/
def wakesAt (j : Job σ ε) (p : Phase σ ε) : Option Instant :=
  match p.stage with
  | .finished | .zeroInterval => none
  | .group | .draining => if p.isIdle then some p.now else none
  | _ => some (j.waitEnd p).1

/-- The next event of a phase and its instant; none when the phase has ended. Of two at one instant a
wake comes first; queued requests start last, but before the phase acts again. -/
def next? (j : Job σ ε) (p : Phase σ ε) : Option (Instant × Event) :=
  match p.flights, p.queued with
  | [], [] => (j.wakesAt p).map (·, .wake)
  | f :: _, [] =>
    match j.wakesAt p with
    | some wake => if wake ≤ f.settlesAt then some (wake, .wake) else some (f.settlesAt, .settle)
    | none => some (f.settlesAt, .settle)
  | [], _ :: _ => some (p.now, .start)
  | f :: _, _ :: _ =>
    if f.settlesAt ≤ p.now then some (f.settlesAt, .settle) else some (p.now, .start)

/-- Does an event belong to the phase itself? The submissions of a refill run beside it. -/
def isOwn (p : Phase σ ε) : Event → Bool
  | .settle => p.stage == .group
  | .start => false
  | .wake => true

/-- Lets events happen while they are allowed, at most the given number. -/
def advance (j : Job σ ε) (allowed : Instant → Bool → Bool) : Nat → Phase σ ε → Phase σ ε
  | 0, p => p
  | steps + 1, p =>
    match j.next? p with
    | some (instant, event) =>
      if allowed instant (isOwn p event) then j.advance allowed steps (j.step event p) else p
    | none => p

/-- How many ticks of a schedule are due before the deadline. -/
def ticksFrom (j : Job σ ε) (tick : Instant) : Nat :=
  match j.strategy, j.deadline with
  | .saturation c, some deadline => (deadline - tick + (c.refillInterval - 1)) / c.refillInterval
  | _, _ => 0

/-- How many waits of the phase itself can still follow, apart from those for requests to be sent: two
for each tick, and those on the way to the end. -/
def waitsLeft (j : Job σ ε) (p : Phase σ ε) : Nat :=
  match p.stage with
  | .starting | .group => 2 * j.ticksFrom p.now + 5
  | .pausing _ => 2 * j.ticksFrom p.now + 4
  | .priming _ => 2 * j.ticksFrom p.now + 3
  | .refilling tick => 2 * j.ticksFrom tick + 2
  | .estimating _ next => 2 * j.ticksFrom next + 3
  | .draining => 1
  | .finished | .zeroInterval => 0

/-- At least the number of events that can follow. A request has a pause or a wait for its refill, a
start and a settling. -/
def stepsLeft (j : Job σ ε) (p : Phase σ ε) : Nat :=
  4 * (j.target - p.dispatched) + 2 * p.queued.length + p.flights.length + j.waitsLeft p

/-- Lets everything happen up to the end of the phase. -/
def run (j : Job σ ε) (p : Phase σ ε) : Phase σ ε := j.advance (fun _ _ => true) (j.stepsLeft p) p

/-- Lets everything happen before an instant, and of that instant what the phase itself does. -/
def runUntil (j : Job σ ε) (limit : Instant) (p : Phase σ ε) : Phase σ ε :=
  j.advance (fun instant own => instant < limit || (own && instant == limit)) (j.stepsLeft p) p

end Job

end Throughput
