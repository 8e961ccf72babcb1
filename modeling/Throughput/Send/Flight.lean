import Throughput.Ledger.Basic
import Throughput.Tracker

/-!
# Submissions under way

A submission settles when the ledger answers or when the time allowed for it is over, whichever is
first; an answer at the very end of that time still counts.
-/

namespace Throughput

/-- A submission that has started. Without an answer it will have timed out when it settles. -/
structure Flight (σ : Type) where
  request : Request
  startedAt : Instant
  settlesAt : Instant
  answer : Option (Instant → σ → Answer Handle × σ)

/-- Starts a submission. -/
def Flight.start (ledger : Ledger σ) (timeout : Duration) (now : Instant) (request : Request)
    (s : σ) : Flight σ × σ :=
  let (call, s) := ledger.submit now request s
  let expired : Flight σ := ⟨request, now, now + timeout, none⟩
  match call.latency with
  | some latency =>
    (if latency ≤ timeout then ⟨request, now, now + latency, some call.answer⟩ else expired, s)
  | none => (expired, s)

/-- The outcome of a submission at the instant it settles. -/
def Flight.settle (timeout : Duration) (f : Flight σ) (s : σ) : Outcome × σ :=
  let outcome (handle : Option Handle) (failure : Option Failure) : Outcome :=
    ⟨f.request, handle, failure, f.startedAt, f.settlesAt - f.startedAt⟩
  match f.answer with
  | none => (outcome none (some (.ofError (.timeout timeout))), s)
  | some answer =>
    match answer f.settlesAt s with
    | (.ok handle, s) => (outcome (some handle) none, s)
    | (.error e, s) => (outcome none (some (.ofError e)), s)

/-- Submissions in the order in which they settle; of two at one instant the earlier started first. -/
abbrev Flights (σ : Type) := List (Flight σ)

/-- Does the first settle no later than the second? -/
def Flight.notAfter (f g : Flight σ) : Bool := f.settlesAt ≤ g.settlesAt

/-- Puts newly started submissions among those under way. -/
def Flights.add (flights : Flights σ) (started : List (Flight σ)) : Flights σ :=
  flights.merge (started.mergeSort Flight.notAfter) Flight.notAfter

/-- The ledger and the record while submissions are being started. -/
structure Launch (σ : Type) where
  ledger : σ
  tracker : Tracker
  /-- The submissions that did not settle at once, the last started first. -/
  started : List (Flight σ) := []

/-- Starts one submission, and records it if it settles at once. -/
def Launch.add (ledger : Ledger σ) (timeout : Duration) (now : Instant) (l : Launch σ)
    (request : Request) : Launch σ :=
  let (f, s) := Flight.start ledger timeout now request l.ledger
  if f.settlesAt ≤ now then
    let (outcome, s) := f.settle timeout s
    { l with ledger := s, tracker := l.tracker.record outcome }
  else { l with ledger := s, started := f :: l.started }

/-- Starts submissions in order at one instant. -/
def Launch.all (ledger : Ledger σ) (timeout : Duration) (now : Instant) (requests : List Request)
    (s : σ) (tracker : Tracker) : Launch σ :=
  requests.foldl (Launch.add ledger timeout now) { ledger := s, tracker }

end Throughput
