import Std.Data.HashMap
import Throughput.Error
import Throughput.Poll.Estimate
import Throughput.Poll.Round
import Throughput.Random.Sample
import Throughput.Shutdown
import Throughput.Ticker

/-!
# The inclusion phase

Rounds of receipt queries at regular intervals, until everything tracked is included, a sampled
estimate is high enough, the time is over, or the run is shut down. What a round has seen included
stays included.
-/

namespace Throughput

/-- What no setting of a poll decides: the words that it draws with if it has no seed, the way it draws,
and the order in which a map hands out its handles. -/
structure Chance where
  words : WordStream := .ofSeed 0
  /-- Another way to draw than that of `Sample.indices`. -/
  sampler : Option Sampler := none
  arrange : List Handle → List Handle := id
  perm : ∀ handles, (arrange handles).Perm handles := by exact fun handles => List.Perm.refl handles

/-- How to poll. -/
structure PollConfig where
  interval : Duration := seconds 2
  timeout : Duration := seconds 120
  completionThreshold : Float := 0.95
  samplingThreshold : Nat := 10000
  sampleCap : Nat := 1000
  maxQueries : Nat := 64
  seed : Option UInt64 := none
  chance : Chance := {}

namespace PollConfig

/-- The words that a poll draws with. -/
def words (config : PollConfig) : WordStream :=
  match config.seed with
  | some seed => .ofSeed seed
  | none => config.chance.words

/-- Draws a sample of the given sizes. -/
def draw (config : PollConfig) (length amount : Nat) : StateM WordStream (Array Nat) :=
  match config.chance.sampler with
  | some sampler => sampler.draw length amount
  | none => Sample.indices length amount

end PollConfig

/-- How a poll ended. -/
inductive PollStatus where
  | complete
  | thresholdReached
  | timedOut
  | cancelled
deriving DecidableEq, Repr

/-- The name of a status in reports. -/
def PollStatus.name : PollStatus → String
  | .complete => "complete"
  | .thresholdReached => "threshold_reached"
  | .timedOut => "timed_out"
  | .cancelled => "cancelled"

/-- Where a handle was first seen included, and the end of the round that saw it. -/
structure Inclusion where
  block : UInt64
  succeeded : Bool
  observedAt : Instant
deriving DecidableEq, Repr

/-- The final word on a handle; without an inclusion it is unresolved. -/
structure PollRecord where
  handle : Handle
  inclusion : Option Inclusion
  observedAt : Instant
deriving DecidableEq, Repr

/-- One completed round. -/
structure RoundSummary where
  elapsed : Duration
  tracked : Nat
  queried : Nat
  included : Nat
  errors : Nat
deriving DecidableEq, Repr

/-- What the completed rounds have seen. -/
structure Sightings where
  included : Std.HashMap Handle Inclusion := ∅
  errors : Nat := 0

namespace Sightings

/-- Takes in one answer; the first inclusion of a handle stays. Counts new inclusions and errors. -/
def take (observedAt : Instant) (acc : Sightings × Nat × Nat)
    (answer : Handle × Answer (Option Receipt)) : Sightings × Nat × Nat :=
  let (s, hits, errors) := acc
  match answer.2 with
  | .ok none => acc
  | .ok (some receipt) =>
    if s.included.contains answer.1 then acc
    else
      let inclusion : Inclusion := ⟨receipt.block, receipt.succeeded, observedAt⟩
      ({ s with included := s.included.insert answer.1 inclusion }, hits + 1, errors)
  | .error _ => ({ s with errors := s.errors + 1 }, hits, errors + 1)

/-- Takes in the answers of a round: what was seen, the new inclusions, and the errors. -/
def takeAll (s : Sightings) (observedAt : Instant)
    (answers : List (Handle × Answer (Option Receipt))) : Sightings × Nat × Nat :=
  answers.foldl (take observedAt) (s, 0, 0)

/-- Has a handle been seen included? -/
def has (s : Sightings) (handle : Handle) : Bool := s.included.contains handle

end Sightings

/-- A poll between two rounds. -/
structure Poll (ω : Type) where
  now : Instant
  shutdown : Shutdown
  world : ω
  tick : Instant
  words : WordStream
  sightings : Sightings := {}
  estimate : Estimate := {}
  /-- The completed rounds, the last first. -/
  rounds : List RoundSummary := []

/-- The result of a poll. -/
structure PollReport where
  status : PollStatus
  estimate : Estimate
  records : List PollRecord
  queryErrors : Nat
  rounds : List RoundSummary
  started : Instant
  elapsed : Duration

namespace PollReport

/-- The inclusions among the records. -/
def inclusions (r : PollReport) : List Inclusion := r.records.filterMap (·.inclusion)

/-- How many records are included. -/
def verified (r : PollReport) : Nat := r.inclusions.length

/-- How many records are not included. -/
def unresolved (r : PollReport) : Nat := r.records.length - r.verified

/-- How many included submissions failed on the ledger. -/
def reverted (r : PollReport) : Nat := (r.inclusions.filter (!·.succeeded)).length

/-- The blocks of the included submissions, ascending, each once. -/
def heights (r : PollReport) : List UInt64 :=
  ((r.inclusions.map (·.block)).mergeSort (· ≤ ·)).eraseReps

end PollReport

namespace Poll

/-- What a round looks at, and how many of it are known to be included already: all handles, or the
rest of a sample. -/
inductive Scope where
  | all
  | sample (size known : Nat)

/-- Chooses the handles of a round. Up to the threshold all are asked for, included or not; above it
a sample is drawn and only those of it are asked for that were not seen included. -/
def choose (config : PollConfig) (handles : Array Handle) (p : Poll ω) :
    Scope × List Handle × WordStream :=
  if handles.size ≤ config.samplingThreshold then (.all, handles.toList, p.words)
  else
    let size := min config.sampleCap handles.size
    let (indices, words) := (config.draw handles.size size).run p.words
    let sample := indices.toList.filterMap fun i => handles[i]?
    let (known, pending) := sample.partition p.sightings.has
    (.sample size known.length, pending, words)

/-- The estimate after a round. -/
def estimateOf (handles : Array Handle) (sightings : Sightings) (hits : Nat) : Scope → Estimate
  | .all => .counted handles.size (handles.toList.countP sightings.has)
  | .sample size known => .sampled handles.size size (known + hits) sightings.included.size

/-- Does a round over a sealed set end the poll? -/
def verdict? (config : PollConfig) (sightings : Sightings) (e : Estimate) : Option PollStatus :=
  if sightings.included.size = e.tracked then some .complete
  else if !e.exact && (e.fraction.any fun f => config.completionThreshold ≤ f) then
    some .thresholdReached
  else none

/-- Makes one round at the present instant. Says how the poll ends, if it ends with this round. -/
def round (config : PollConfig) (watch : Watch ω) (started deadline : Instant) (p : Poll ω) :
    Option PollStatus × Poll ω :=
  let isSealed := watch.isSealed p.now p.world
  let handles := watch.handles p.now p.world
  let (scope, asked, words) := p.choose config handles
  let (answers, now, world) := Round.run watch config.maxQueries deadline p.now asked p.world
  let p := { p with now, world, words }
  match answers with
  | none => (some .timedOut, p)
  | some answers =>
    let (sightings, hits, errors) := p.sightings.takeAll now answers
    let estimate := estimateOf handles sightings hits scope
    let summary : RoundSummary :=
      { elapsed := now - started, tracked := estimate.tracked, queried := asked.length,
        included := estimate.included, errors }
    (if isSealed then verdict? config sightings estimate else none,
      { p with sightings, estimate, rounds := summary :: p.rounds })

/-- Waits for the next tick. The signal is looked at first and the deadline next; either ends the
poll. -/
def await (watch : Watch ω) (interval deadline : Instant) (p : Poll ω) :
    Option PollStatus × Poll ω :=
  let (now, shutdown) := p.shutdown.wait p.now (min p.tick deadline)
  let p := { p with now, shutdown, world := watch.advance now p.world }
  if shutdown.isRaised then (some .cancelled, p)
  else if deadline ≤ now then (some .timedOut, p)
  else (none, { p with tick := nextTick interval p.tick now })

/-- Makes rounds until one of them or a wait ends the poll. Ticks are an interval apart and before the
deadline, which bounds their number. -/
def roundsUntilDone (config : PollConfig) (watch : Watch ω) (started deadline : Instant) :
    Nat → Poll ω → PollStatus × Poll ω
  | 0, p => (.timedOut, p)
  | left + 1, p =>
    match p.await watch config.interval deadline with
    | (some status, p) => (status, p)
    | (none, p) =>
      match p.round config watch started deadline with
      | (some status, p) => (status, p)
      | (none, p) => roundsUntilDone config watch started deadline left p

/-- Takes the sighting of each handle in turn; a handle that comes again is unresolved. -/
def records (handles : List Handle) (sightings : Sightings) (now : Instant) : List PollRecord :=
  let (records, _) := handles.foldl
    (fun ((records, included) : List PollRecord × Std.HashMap Handle Inclusion) handle =>
      match included[handle]? with
      | some inclusion =>
        (⟨handle, some inclusion, inclusion.observedAt⟩ :: records, included.erase handle)
      | none => (⟨handle, none, now⟩ :: records, included))
    ([], sightings.included)
  records.reverse

/-- Polls from an instant on, at an interval that is not zero. -/
def run (config : PollConfig) (watch : Watch ω) (now : Instant) (shutdown : Shutdown) (world : ω) :
    PollReport × Poll ω :=
  let deadline := now + config.timeout
  let start : Poll ω :=
    { now, shutdown, world, tick := now, words := config.words }
  let (status, p) :=
    roundsUntilDone config watch now deadline (config.timeout / config.interval + 2) start
  ({ status
     estimate := p.estimate
     records := records (watch.handles p.now p.world).toList p.sightings p.now
     queryErrors := p.sightings.errors
     rounds := p.rounds.reverse
     started := now
     elapsed := p.now - now }, p)

/-- Polls from an instant on, if the interval of the configuration is not zero. -/
def start (config : PollConfig) (watch : Watch ω) (now : Instant) (shutdown : Shutdown) (world : ω) :
    Except RunError (PollReport × Poll ω) :=
  if config.interval = 0 then .error .zeroInterval
  else .ok (run config watch now shutdown world)

/-- The same on a clock that must be able to tell the end of the time to poll. -/
def startInBounds (config : PollConfig) (watch : Watch ω) (now : Instant) (shutdown : Shutdown)
    (world : ω) : Except RunError (PollReport × Poll ω) :=
  if now + config.timeout ≤ Instant.latest then start config watch now shutdown world
  else .error (.overflow .instant)

end Poll

end Throughput
