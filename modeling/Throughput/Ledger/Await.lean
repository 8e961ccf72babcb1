import Throughput.Ledger.Basic

/-!
# Awaiting submissions

Submissions that are started together and awaited without a time limit.
-/

namespace Throughput

/-- Submissions being awaited: answers by the place of their request, and calls under way. -/
structure Awaiting (σ : Type) where
  ledger : σ
  answers : Array (Option (Answer Handle))
  calls : List (Duration × Nat × Call σ Handle) := []

namespace Awaiting

/-- Starts the submission at a place; one that takes no time is answered at once. -/
def start (ledger : Ledger σ) (now : Instant) (a : Awaiting σ) (entry : Request × Nat) :
    Awaiting σ :=
  let (request, place) := entry
  let (call, s) := ledger.submit now request a.ledger
  match call.latency with
  | none => { a with ledger := s }
  | some latency =>
    if latency = 0 then
      let (answer, s) := call.answer now s
      { a with ledger := s, answers := a.answers.setIfInBounds place (some answer) }
    else { a with ledger := s, calls := (latency, place, call) :: a.calls }

/-- Takes the answer of a call under way. -/
def take (now : Instant) (a : Awaiting σ) (entry : Duration × Nat × Call σ Handle) : Awaiting σ :=
  let (latency, place, call) := entry
  let (answer, s) := call.answer (now + latency) a.ledger
  { a with ledger := s, answers := a.answers.setIfInBounds place (some answer) }

end Awaiting

/-- Starts submissions in order at one instant and awaits them all. Says also when the last answer
came; a submission that is never answered has none. -/
def Ledger.submitAll (ledger : Ledger σ) (now : Instant) (requests : List Request) (s : σ) :
    List (Option (Answer Handle)) × Instant × σ :=
  let started := requests.zipIdx.foldl (Awaiting.start ledger now)
    { ledger := s, answers := Array.replicate requests.length none }
  let calls := started.calls.reverse.mergeSort fun a b => a.1 ≤ b.1
  let done := calls.foldl (Awaiting.take now) started
  (done.answers.toList, now + (calls.getLast?.map (·.1)).getD 0, done.ledger)

end Throughput
