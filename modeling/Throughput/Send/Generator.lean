import Throughput.Sequence
import Throughput.Send.Strategy

/-!
# Building requests

Requests go round the senders in ascending order. Each takes the next number of its sender, so the
`j`-th request of a run is the `j / n`-th of the sender at place `j % n` among `n` senders.
-/

namespace Throughput

/-- Senders in ascending order, and what their requests have in common. -/
structure Generator where
  senders : Array Address
  nonempty : 0 < senders.size
  template : Template
  submitTimeout : Duration := seconds 10
  sendTimeout : Option Duration := none

namespace Generator

/-- A generator over all seeded senders. -/
def ofSequences (sequences : Sequences) (template : Template) (submitTimeout : Duration)
    (sendTimeout : Option Duration) : Except SetupError Generator :=
  let senders := sequences.senders.toArray
  if nonempty : 0 < senders.size then
    .ok { senders, nonempty, template, submitTimeout, sendTimeout }
  else .error (.invalidConfig "no senders were seeded")

/-- The sender at a place; places go round. -/
def senderAt (g : Generator) (place : Nat) : Address :=
  have := Nat.mod_lt place g.nonempty
  g.senders[place % g.senders.size]

/-- Whom the sender at a place sends to. -/
def recipientAt (g : Generator) (place : Nat) : Address :=
  match g.template.recipients with
  | .nextSender => g.senderAt (place + 1)
  | .self => g.senderAt place
  | .fixed recipient => recipient

/-- The request of the sender at a place with a given number. -/
def request (g : Generator) (place : Nat) (nonce : UInt64) : Request :=
  { sender := g.senderAt place
    recipient := g.recipientAt place
    value := g.template.value
    gasLimit := g.template.gasLimit
    nonce
    gasPrice := g.template.gasPrice }

/-- Builds the request of a position with a number drawn for it. -/
def buildNext (g : Generator) (built : List Request × Sequences) (position : Nat) :
    List Request × Sequences :=
  let (nonce, sequences) := built.2.next (g.senderAt position)
  (g.request position (nonce.getD 0) :: built.1, sequences)

/-- Builds `count` requests from a position on, each with a number drawn for it. -/
def build (g : Generator) (position count : Nat) (sequences : Sequences) : List Request × Sequences :=
  let (built, sequences) := (List.range' position count).foldl g.buildNext ([], sequences)
  (built.reverse, sequences)

/-- How many of `target` requests fall to the sender at a place. -/
def share (g : Generator) (target place : Nat) : Nat :=
  target / g.senders.size + (if place < target % g.senders.size then 1 else 0)

/-- Reserves the share of the sender at a place; the first numbers are collected. -/
def reserveShare (g : Generator) (target : Nat) (reserved : Array UInt64 × Sequences)
    (place : Nat) : Array UInt64 × Sequences :=
  let (block, sequences) :=
    reserved.2.reserve (g.senderAt place) (g.share target place).toUInt64
  (reserved.1.push ((block.map Prod.fst).getD 0), sequences)

/-- Reserves the shares of all senders; the first numbers come in the order of the senders. -/
def reserveShares (g : Generator) (target : Nat) (sequences : Sequences) :
    Array UInt64 × Sequences :=
  (List.range g.senders.size).foldl (g.reserveShare target) (#[], sequences)

/-- Builds all requests of a run at once from reserved blocks of numbers. -/
def buildAll (g : Generator) (target : Nat) (sequences : Sequences) : List Request × Sequences :=
  let (firsts, sequences) := g.reserveShares target sequences
  let requests := (List.range target).map fun position =>
    let first := (firsts[position % g.senders.size]?).getD 0
    g.request position (first + (position / g.senders.size).toUInt64)
  (requests, sequences)

/-- The instant at which a run that starts now must stop sending: the earlier of its duration and
the send timeout. -/
def deadline (g : Generator) (now : Instant) (duration : Option Duration) : Option Instant :=
  match duration, g.sendTimeout with
  | some d, some t => some (now + min d t)
  | some d, none => some (now + d)
  | none, some t => some (now + t)
  | none, none => none

end Generator

end Throughput
