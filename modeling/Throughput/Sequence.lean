import Std.Data.ExtTreeMap
import Throughput.Error
import Throughput.Ledger.Basic

/-!
# Sequence numbers

Every sender has a counter. Numbers are handed out singly or in blocks, in order and without gaps.
-/

namespace Throughput

/-- Where a counter started and which number it hands out next. -/
structure Counter where
  start : UInt64
  next : UInt64
deriving DecidableEq, Repr

/-- How many numbers a counter has handed out. -/
def Counter.issued (c : Counter) : UInt64 := c.next - c.start

/-- The counters of all seeded senders. -/
abbrev Sequences := Std.ExtTreeMap Address Counter compare

/-- The numbers a sender has been given: `issued` of them from `start` on. -/
structure Span where
  sender : Address
  start : UInt64
  issued : UInt64
deriving DecidableEq, Repr

namespace Sequences

/-- Counters at given starts; of two starts for one sender the later counts. -/
def ofStarts (starts : List (Address × UInt64)) : Sequences :=
  starts.foldl (fun m (sender, start) => m.insert sender ⟨start, start⟩) ∅

/-- Reads the starts off a ledger in order and stops at the first read that fails. -/
def readStarts (ledger : Ledger σ) (now : Instant) :
    List Address → σ → Except SetupError (List (Address × UInt64)) × σ
  | [], s => (.ok [], s)
  | sender :: rest, s =>
    match ledger.sequenceNumber now sender s with
    | (.error cause, s) => (.error (.sequenceSeed sender cause), s)
    | (.ok start, s) =>
      let (others, s) := readStarts ledger now rest s
      (others.map ((sender, start) :: ·), s)

/-- Counters that start where the ledger stands. -/
def seed (ledger : Ledger σ) (now : Instant) (senders : List Address) (s : σ) :
    Except SetupError Sequences × σ :=
  let (starts, s) := readStarts ledger now senders s
  (starts.map ofStarts, s)

/-- Hands out a block of numbers: the first, and the one after the last. -/
def reserve (m : Sequences) (sender : Address) (count : UInt64) :
    Option (UInt64 × UInt64) × Sequences :=
  match m[sender]? with
  | none => (none, m)
  | some c => (some (c.next, c.next + count), m.insert sender { c with next := c.next + count })

/-- Hands out one number. -/
def next (m : Sequences) (sender : Address) : Option UInt64 × Sequences :=
  let (block, m) := m.reserve sender 1
  (block.map Prod.fst, m)

/-- Where a sender started. -/
def start? (m : Sequences) (sender : Address) : Option UInt64 := m[sender]?.map Counter.start

/-- How many numbers a sender has been given. -/
def issued? (m : Sequences) (sender : Address) : Option UInt64 := m[sender]?.map Counter.issued

/-- The seeded senders in ascending order. -/
def senders (m : Sequences) : List Address := m.keys

/-- The spans of all senders in ascending order. -/
def spans (m : Sequences) : List Span := m.toList.map fun (sender, c) => ⟨sender, c.start, c.issued⟩

end Sequences

end Throughput
