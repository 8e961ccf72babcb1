import Std.Data.HashSet
import Std.Data.TreeMap
import Throughput.Ledger.Basic

/-!
# A scripted ledger

A ledger that answers from a script, for rehearsals. Answers are taken from lists whose last entry
repeats, from tables, or from rules over the clock.
-/

namespace Throughput.Scripted

/-- A height that grows with the clock. -/
structure HeightClock where
  start : UInt64
  interval : Duration

/-- Blocks that are computed from their height. -/
structure BlockRule where
  timestampBase : UInt64 := 0
  timestampStep : UInt64 := 1
  transactions : UInt64 := 0
  gasUsed : UInt64 := 0
  gasLimit : UInt64 := 30000000

/-- One entry for submissions: how long the call takes and what it answers. -/
structure SubmitEntry where
  latency : Duration := 0
  error : Option LedgerError := none
  handle : Option Handle := none
deriving Inhabited

/-- What a rule answers to a receipt query: nothing, an error, or a block that may depend on the
low word of the handle. -/
inductive ReceiptReply where
  | absent
  | failed (e : LedgerError)
  | inBlock (block : UInt64) (succeeded : Bool)
  | inBlockOf (modulus : UInt64) (succeeded : Bool)

/-- A rule for receipts: which handles it is for, and from which instant. -/
structure ReceiptRule where
  handles : Option (Std.HashSet Handle) := none
  modulus : Option UInt64 := none
  low : UInt64 := 0
  high : UInt64 := 18446744073709551615
  since : Instant := 0
  reply : ReceiptReply

/-- The whole script. -/
structure Script where
  heights : Array (Answer UInt64) := #[]
  heightClock : Option HeightClock := none
  sequenceNumbers : Std.TreeMap Address (Answer UInt64) compare := ∅
  balances : Std.TreeMap Address (Array (Answer Amount)) compare := ∅
  blocks : Std.TreeMap UInt64 (Answer Block) compare := ∅
  blockRule : Option BlockRule := none
  submissions : Array SubmitEntry := #[]
  receipts : List ReceiptRule := []
  receiptLatency : Duration := 0

/-- How far the script has been read. -/
structure State where
  submissions : Nat := 0
  heights : Nat := 0
  balances : Std.TreeMap Address Nat compare := ∅

/-- The entry of a list at an index; past the end it is the last one. -/
def entryAt? (entries : Array α) (i : Nat) : Option α := entries[min i (entries.size - 1)]?

/-- The low 64 bits of a handle. -/
def lowWord (h : Handle) : UInt64 := h.toNat.toUInt64

/-- The handle that a submission gets unless the script names one. -/
def defaultHandle (request : Request) : Handle :=
  BitVec.ofNat 256 (request.sender.toNat * Nat.pow 2 96 + request.nonce.toNat)

/-- The block computed for a height. -/
def BlockRule.block (r : BlockRule) (height : UInt64) : Block :=
  ⟨height, r.timestampBase + height * r.timestampStep, r.transactions, r.gasUsed, r.gasLimit⟩

/-- Is the rule for this handle at this instant? -/
def ReceiptRule.applies (r : ReceiptRule) (now : Instant) (h : Handle) : Bool :=
  let listed := match r.handles with
    | some handles => handles.contains h
    | none => true
  let inClass := match r.modulus with
    | some m => r.low ≤ lowWord h % m && lowWord h % m < r.high
    | none => true
  listed && inClass && r.since ≤ now

/-- The answer of a rule. -/
def ReceiptReply.answer (reply : ReceiptReply) (h : Handle) : Answer (Option Receipt) :=
  match reply with
  | .absent => .ok none
  | .failed e => .error e
  | .inBlock block succeeded => .ok (some ⟨block, succeeded⟩)
  | .inBlockOf m succeeded => .ok (some ⟨1 + lowWord h % m, succeeded⟩)

/-- The last rule that applies decides. -/
def Script.receipt (script : Script) (now : Instant) (h : Handle) : Answer (Option Receipt) :=
  match script.receipts.reverse.find? (·.applies now h) with
  | some r => r.reply.answer h
  | none => .ok none

/-- The entry for a submission, given how many were made before; the list starts over at its end. -/
def Script.submission (script : Script) (i : Nat) : SubmitEntry :=
  (script.submissions[i % script.submissions.size]?).getD {}

/-- The height answered at an instant. -/
def Script.height (script : Script) (i : Nat) (now : Instant) : Answer UInt64 :=
  match script.heightClock with
  | some clock => .ok (clock.start + (now / clock.interval).toUInt64)
  | none => (entryAt? script.heights i).getD (.ok 0)

/-- The block answered for a height. -/
def Script.block (script : Script) (height : UInt64) : Answer (Option Block) :=
  match script.blocks[height]? with
  | some entry => entry.map some
  | none => .ok (script.blockRule.map (·.block height))

end Throughput.Scripted

namespace Throughput

open Scripted in
/-- The ledger that a script describes. -/
def Ledger.scripted (script : Script) : Ledger Scripted.State where
  submit _ request s :=
    let entry := script.submission s.submissions
    let result := match entry.error with
      | some e => .error e
      | none => .ok (entry.handle.getD (defaultHandle request))
    (.pure entry.latency result, { s with submissions := s.submissions + 1 })
  sequenceNumber _ account s := (script.sequenceNumbers.getD account (.ok 0), s)
  balance _ account s :=
    let i := s.balances.getD account 0
    let entry := entryAt? (script.balances.getD account #[]) i
    (entry.getD (.ok 0), { s with balances := s.balances.insert account (i + 1) })
  height now s := (script.height s.heights now, { s with heights := s.heights + 1 })
  block _ height s := (script.block height, s)
  receipt _ handle s :=
    (⟨some script.receiptLatency, fun now s => (script.receipt now handle, s)⟩, s)

end Throughput
