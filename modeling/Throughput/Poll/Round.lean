import Throughput.Ledger.Basic

/-!
# One round of receipt queries

A round asks for the receipts of a list of handles with a bounded number of queries in progress. It
ends when the last answer is in, or is cut off at the deadline.
-/

namespace Throughput

/-- What a poll watches: a growing set of handles and a ledger, both in a state of type `ω` that may
change by itself as time goes by. -/
structure Watch (ω : Type) where
  /-- Lets everything happen that is due before an instant. -/
  advance : Instant → ω → ω
  handles : Instant → ω → Array Handle
  isSealed : Instant → ω → Bool
  receipt : Instant → Handle → ω → Call ω (Option Receipt) × ω

/-- A query in progress and the instant of its answer. -/
structure Query (ω : Type) where
  handle : Handle
  answersAt : Instant
  answer : Instant → ω → Answer (Option Receipt) × ω

/-- Queries in the order of their answers; of two at one instant the earlier started first. -/
abbrev Queries (ω : Type) := List (Query ω)

/-- Is the first answered no later than the second? -/
def Query.notAfter (p q : Query ω) : Bool := p.answersAt ≤ q.answersAt

/-- Puts newly started queries among those in progress. -/
def Queries.add (queries : Queries ω) (started : List (Query ω)) : Queries ω :=
  queries.merge (started.mergeSort Query.notAfter) Query.notAfter

/-- A round under way. -/
structure Round (ω : Type) where
  now : Instant
  world : ω
  /-- How many more queries may be in progress. -/
  free : Nat
  /-- Handles not yet asked for. -/
  waiting : List Handle
  /-- Queries in progress that will be answered. -/
  queries : Queries ω := []
  /-- The answers, the last first. -/
  answers : List (Handle × Answer (Option Receipt)) := []

namespace Round

/-- Starts queries in order while slots are free; a query that takes no time is answered at once and
frees its slot. The queries that stay in progress are collected, the last first. -/
def fillSlots (watch : Watch ω) : List Handle → List (Query ω) → Round ω → Round ω
  | [], started, r => { r with waiting := [], queries := Queries.add r.queries started.reverse }
  | handle :: rest, started, r =>
    if r.free = 0 then
      { r with waiting := handle :: rest, queries := Queries.add r.queries started.reverse }
    else
      let (call, world) := watch.receipt r.now handle r.world
      match call.latency with
      | none => fillSlots watch rest started { r with world, free := r.free - 1 }
      | some latency =>
        if latency = 0 then
          let (answer, world) := call.answer r.now world
          fillSlots watch rest started { r with world, answers := (handle, answer) :: r.answers }
        else
          fillSlots watch rest (⟨handle, r.now + latency, call.answer⟩ :: started)
            { r with world, free := r.free - 1 }

/-- Takes the answers that are due. -/
def takeAnswers : Queries ω → Round ω → Round ω
  | [], r => { r with queries := [] }
  | q :: rest, r =>
    if q.answersAt ≤ r.now then
      let (answer, world) := q.answer r.now r.world
      takeAnswers rest
        { r with world, free := r.free + 1, answers := (q.handle, answer) :: r.answers }
    else { r with queries := q :: rest }

/-- Is nothing in progress or waiting? -/
def isComplete (limit : Nat) (r : Round ω) : Bool := r.free == limit && r.waiting.isEmpty

/-- Goes from answer to answer until the next would come after the deadline or never. Each step takes
at least one answer, so as many steps as handles are enough. -/
def goOn (watch : Watch ω) (deadline : Instant) : Nat → Round ω → Round ω
  | 0, r => r
  | steps + 1, r =>
    match r.queries with
    | [] => r
    | q :: _ =>
      if deadline < q.answersAt then r
      else
        let r := { r with now := q.answersAt, world := watch.advance q.answersAt r.world }
        let r := takeAnswers r.queries r
        goOn watch deadline steps (fillSlots watch r.waiting [] r)

/-- Asks for all handles from an instant on. The answers come in the order in which they arrive, or
not at all if the deadline cuts the round off. -/
def run (watch : Watch ω) (limit : Nat) (deadline now : Instant) (handles : List Handle)
    (world : ω) : Option (List (Handle × Answer (Option Receipt))) × Instant × ω :=
  let limit := max limit 1
  let start : Round ω := { now, world, free := limit, waiting := handles }
  let r := goOn watch deadline handles.length (fillSlots watch handles [] start)
  if r.isComplete limit then (some r.answers.reverse, r.now, r.world)
  else
    let now := max r.now deadline
    (none, now, watch.advance now r.world)

end Round

end Throughput
