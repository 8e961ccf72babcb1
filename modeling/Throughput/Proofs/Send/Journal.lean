import Throughput.Send.Summary

/-!
# Journals of submissions

A journal writes down every submission in the order of the calls: when it was made, how long the
ledger takes to answer it, and the answer once it has been taken. It is kept beside the state of a
ledger, which does not see it.
-/

namespace Throughput

/-- One submission. -/
structure Entry where
  request : Request
  startedAt : Instant
  /-- How long the ledger takes to answer, if it ever does. -/
  latency : Option Duration
  /-- When an answer was taken, and which. -/
  answer : Option (Instant × Answer Handle) := none

/-- The submissions of a phase in the order of the calls. -/
abbrev Journal := List Entry

namespace Entry

/-- Does the ledger answer within the time that is allowed? An answer at its very end counts. -/
def InTime (timeout : Duration) (e : Entry) : Prop := ∃ latency ≤ timeout, e.latency = some latency

/-- How long a submission is under way. -/
def duration (timeout : Duration) (e : Entry) : Duration :=
  match e.latency with
  | some latency => min latency timeout
  | none => timeout

theorem duration_le (timeout : Duration) (e : Entry) : e.duration timeout ≤ timeout := by
  unfold duration
  split
  · exact Nat.min_le_right ..
  · exact Nat.le_refl _

/-- The outcome of a submission that is no longer under way. Without an answer it has timed out. -/
def outcome (timeout : Duration) (e : Entry) : Outcome :=
  let outcome (handle : Option Handle) (failure : Option Failure) : Outcome :=
    ⟨e.request, handle, failure, e.startedAt, e.duration timeout⟩
  match e.answer with
  | some (_, .ok handle) => outcome (some handle) none
  | some (_, .error error) => outcome none (some (.ofError error))
  | none => outcome none (some (.ofError (.timeout timeout)))

/-- Was the answer taken when it came, if it came in time, and none otherwise? -/
def IsSettled (timeout : Duration) (e : Entry) : Prop :=
  (∀ latency ≤ timeout, e.latency = some latency →
    ∃ answer, e.answer = some (e.startedAt + latency, answer)) ∧
  (¬ e.InTime timeout → e.answer = none)

/-- The entry with an answer. -/
def answered (now : Instant) (answer : Answer Handle) (e : Entry) : Entry :=
  { e with answer := some (now, answer) }

end Entry

/-- What was submitted, and when. -/
def Journal.calls (journal : Journal) : List (Request × Instant) :=
  journal.map fun e => (e.request, e.startedAt)

/-- A call whose answer is written into the journal at a place. -/
def Call.journaled (call : Call σ Handle) (place : Nat) : Call (σ × Journal) Handle :=
  ⟨call.latency, fun now (s, journal) =>
    let (answer, s) := call.answer now s
    (answer, (s, journal.modify place (Entry.answered now answer)))⟩

theorem Call.journaled_answer (call : Call σ Handle) (place : Nat) (now : Instant) (s : σ)
    (journal : Journal) :
    (call.journaled place).answer now (s, journal) =
      ((call.answer now s).1,
        ((call.answer now s).2, journal.modify place (Entry.answered now (call.answer now s).1))) :=
  rfl

/-- The same ledger with a journal of its submissions. -/
def Ledger.journaled (ledger : Ledger σ) : Ledger (σ × Journal) where
  submit now request := fun (s, journal) =>
    let (call, s) := ledger.submit now request s
    (call.journaled journal.length,
      (s, journal ++ [{ request, startedAt := now, latency := call.latency }]))
  sequenceNumber now account := fun (s, journal) =>
    let (result, s) := ledger.sequenceNumber now account s
    (result, (s, journal))
  balance now account := fun (s, journal) =>
    let (result, s) := ledger.balance now account s
    (result, (s, journal))
  height now := fun (s, journal) =>
    let (result, s) := ledger.height now s
    (result, (s, journal))
  block now height := fun (s, journal) =>
    let (result, s) := ledger.block now height s
    (result, (s, journal))
  receipt now handle := fun (s, journal) =>
    let (call, s) := ledger.receipt now handle s
    (call.inFirst, (s, journal))
  readTime now := fun (s, _) => ledger.readTime now s

/-- The same estimator beside a journal. -/
def Estimator.journaled (estimator : Estimator σ ε) : Estimator (σ × Journal) ε where
  prime now := fun ((s, journal), memory) =>
    let (error, s, memory) := estimator.prime now (s, memory)
    (error, (s, journal), memory)
  consumed now := fun ((s, journal), memory) =>
    let (answer, s, memory) := estimator.consumed now (s, memory)
    (answer, (s, journal), memory)
  primeTime now := fun ((s, _), memory) => estimator.primeTime now (s, memory)
  consumedTime now := fun ((s, _), memory) => estimator.consumedTime now (s, memory)

/-- The same bench with a journal. -/
def Bench.withJournal (b : Bench σ) (journal : Journal) : Bench (σ × Journal) :=
  { b with ledger := (b.ledger, journal) }

/-- The same bench with an empty journal. -/
def Bench.journaled (b : Bench σ) : Bench (σ × Journal) := b.withJournal []

end Throughput
