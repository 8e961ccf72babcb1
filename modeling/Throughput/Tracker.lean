import Std.Data.ExtTreeSet
import Throughput.Error
import Throughput.Ledger.Basic

/-!
# Recorded outcomes

A tracker keeps every outcome in the order of recording, together with tallies, the set of accepted
handles and the first few reasons for failure.
-/

namespace Throughput

/-- How a submission ended: with a handle if it was accepted, with a failure if not. -/
structure Outcome where
  request : Request
  handle : Option Handle
  failure : Option Failure
  submittedAt : Instant
  latency : Duration
deriving DecidableEq, Repr

/-- The tallies of the classes of outcomes. -/
structure OutcomeCounts where
  accepted : Nat := 0
  rejected : Nat := 0
  timedOut : Nat := 0
  transport : Nat := 0
  malformed : Nat := 0
deriving DecidableEq, Repr

namespace OutcomeCounts

/-- The outcomes that are not accepted. -/
def failed (c : OutcomeCounts) : Nat := c.rejected + c.timedOut + c.transport + c.malformed

/-- All outcomes. -/
def total (c : OutcomeCounts) : Nat := c.accepted + c.failed

/-- One more failure of a kind. -/
def addFailure (c : OutcomeCounts) : FailureKind → OutcomeCounts
  | .rejected => { c with rejected := c.rejected + 1 }
  | .timedOut => { c with timedOut := c.timedOut + 1 }
  | .transport => { c with transport := c.transport + 1 }
  | .malformed => { c with malformed := c.malformed + 1 }

end OutcomeCounts

/-- The record of a send phase. -/
structure Tracker where
  outcomes : Array Outcome := #[]
  accepted : Std.ExtTreeSet Handle compare := ∅
  counts : OutcomeCounts := {}
  samples : Array String := #[]
  sampleCap : Nat := 5
  isSealed : Bool := false

namespace Tracker

/-- A tracker that keeps at most the given number of failure reasons. -/
def withCap (cap : Nat) : Tracker := { sampleCap := cap }

/-- The same with room for all of them from the beginning. A reason is a text of three words. -/
def makeRoom (cap : Nat) : Except RunError Tracker :=
  if cap ≤ roomFor 24 then .ok (withCap cap) else .error (.overflow .capacity)

/-- Records an outcome. A handle makes it accepted; with neither handle nor failure it counts as
malformed and gives no reason. -/
def record (t : Tracker) (o : Outcome) : Tracker :=
  let t := { t with outcomes := t.outcomes.push o }
  match o.handle, o.failure with
  | some h, _ =>
    { t with
      accepted := t.accepted.insert h
      counts := { t.counts with accepted := t.counts.accepted + 1 } }
  | none, some f =>
    { t with
      counts := t.counts.addFailure f.kind
      samples := if t.samples.size < t.sampleCap then t.samples.push f.reason else t.samples }
  | none, none => { t with counts := t.counts.addFailure .malformed }

/-- Declares that nothing more will be recorded. -/
def close (t : Tracker) : Tracker := { t with isSealed := true }

/-- The accepted handles, each once, in ascending order. -/
def handles (t : Tracker) : List Handle := t.accepted.toList

/-- The outcomes of one sender in the order of recording. -/
def outcomesOf (t : Tracker) (sender : Address) : List Outcome :=
  t.outcomes.toList.filter (·.request.sender == sender)

end Tracker

end Throughput
