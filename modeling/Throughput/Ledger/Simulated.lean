import Std.Data.ExtTreeMap
import Throughput.Ledger.Basic

/-!
# A simulated ledger

A chain with one block per interval, a pool of queued transfers in nonce order, and a fee that is
shared out with every transfer. Blocks are produced when somebody looks: each call first brings the
chain up to the instant of the call.
-/

namespace Throughput.Simulated

/-- The gas of a plain transfer. -/
def transferGas : Nat := 21000

/-- A share of the fee is given in parts of ten thousand. -/
def shareUnit : Nat := 10000

/-- How the chain behaves. -/
structure Config where
  blockInterval : Duration := seconds 1
  blockGasLimit : UInt64 := 150000000
  poolCapacity : Nat := 100000
  submitLatency : Duration := 0
  rejectEvery : Option UInt64 := none
  gasPrice : BitVec 128 := 2000000000
  feeSplit : List (Address × UInt32) := []
  producer : Address := 0xfefefefefefefefefefefefefefefefefefefefe
  genesisTimestamp : UInt64 := 1700000000

/-- The nonce and the money of an account. -/
structure Account where
  nonce : UInt64 := 0
  balance : Amount := 0
deriving DecidableEq, Repr, Inhabited

/-- A transfer that waits in the pool under its sender and nonce. -/
structure Transfer where
  handle : Handle
  recipient : Address
  value : Amount
deriving DecidableEq, Repr

abbrev Accounts := Std.ExtTreeMap Address Account compare

/-- The waiting transfers of one sender by nonce. -/
abbrev Queue := Std.ExtTreeMap UInt64 Transfer compare

abbrev Pool := Std.ExtTreeMap Address Queue compare

abbrev Receipts := Std.ExtTreeMap Handle Receipt compare

/-- An account that was never touched has nonce and balance zero. -/
def Accounts.find (accounts : Accounts) (a : Address) : Account := accounts.getD a {}

/-- Adds to a balance. -/
def Accounts.credit (accounts : Accounts) (a : Address) (amount : Amount) : Accounts :=
  let account := accounts.find a
  accounts.insert a { account with balance := account.balance + amount }

/-- The chain and its pool. -/
structure Chain where
  accounts : Accounts := ∅
  pool : Pool := ∅
  pooled : Nat := 0
  blocks : Array Block
  receipts : Receipts := ∅

/-- The fee of one transfer. -/
def Config.fee (c : Config) : Amount := BitVec.ofNat 256 (transferGas * c.gasPrice.toNat)

/-- A share of the fee, rounded down. -/
def Config.share (c : Config) (parts : UInt32) : Amount :=
  c.fee * BitVec.ofNat 256 parts.toNat / BitVec.ofNat 256 shareUnit

/-- The difference, or zero where it would be negative. -/
def subtractOrZero (x y : Amount) : Amount := if y ≤ x then x - y else 0

/-- Pays every share to its account and what is left to the producer. -/
def Config.payFee (c : Config) (accounts : Accounts) : Accounts :=
  let shares := c.feeSplit.map fun (a, parts) => (a, c.share parts)
  let paid := shares.foldl (fun sum (_, share) => sum + share) 0
  let shared := shares.foldl (fun (m : Accounts) (a, share) => m.credit a share) accounts
  shared.credit c.producer (subtractOrZero c.fee paid)

/-- Takes value and fee from the sender and credits the recipient, or takes only the fee, as far as
the balance goes, when it does not cover both. Says also whether the transfer succeeded. -/
def Config.execute (c : Config) (sender : Address) (t : Transfer) (accounts : Accounts) :
    Bool × Accounts :=
  let account := accounts.find sender
  let nonce := account.nonce + 1
  let cost := t.value + c.fee
  if cost ≤ account.balance then
    let debited : Accounts := accounts.insert sender ⟨nonce, account.balance - cost⟩
    (true, c.payFee (debited.credit t.recipient t.value))
  else
    let debited : Accounts := accounts.insert sender ⟨nonce, subtractOrZero account.balance c.fee⟩
    (false, c.payFee debited)

/-- A block being filled: the chain so far and the number of transfers in the block. -/
structure Draft where
  accounts : Accounts
  pool : Pool
  pooled : Nat
  receipts : Receipts
  included : Nat

/-- Does no further transfer fit under the gas limit? -/
def Draft.isFull (c : Config) (d : Draft) : Bool :=
  c.blockGasLimit.toNat < transferGas * d.included + transferGas

/-- The transfer of a sender that is queued at the account nonce. -/
def Draft.executable? (d : Draft) (sender : Address) : Option Transfer := do
  let queue ← d.pool[sender]?
  queue[(d.accounts.find sender).nonce]?

/-- Moves the transfer at the account nonce of a sender from the pool into the block. -/
def Draft.add (c : Config) (number : UInt64) (sender : Address) (t : Transfer) (d : Draft) : Draft :=
  let nonce := (d.accounts.find sender).nonce
  let (succeeded, accounts) := c.execute sender t d.accounts
  { accounts
    pool := d.pool.modify sender (·.erase nonce)
    pooled := d.pooled - 1
    receipts := d.receipts.insert t.handle ⟨number, succeeded⟩
    included := d.included + 1 }

/-- Includes the next transfer of a sender, if there is one and it fits. -/
def Draft.takeNext (c : Config) (number : UInt64) (d : Draft) (sender : Address) : Draft :=
  if d.isFull c then d
  else match d.executable? sender with
    | none => d
    | some t => d.add c number sender t

/-- Passes over the senders, one transfer each per pass, until a pass adds nothing or the block is
full. Every pass but the last takes a transfer from the pool, which bounds their number. -/
def Draft.fill (c : Config) (number : UInt64) (senders : List Address) : Nat → Draft → Draft
  | 0, d => d
  | passes + 1, d =>
    let next := senders.foldl (Draft.takeNext c number) d
    if next.included = d.included ∨ next.isFull c then next
    else Draft.fill c number senders passes next

/-- The time written into a block: whole milliseconds of the interval count. -/
def Config.timestamp (c : Config) (number : UInt64) : UInt64 :=
  c.genesisTimestamp + number * (c.blockInterval / 1_000_000).toUInt64 / 1000

/-- The chain with one more block. -/
def Chain.produce (c : Config) (chain : Chain) : Chain :=
  let number := chain.blocks.size.toUInt64
  let draft : Draft := ⟨chain.accounts, chain.pool, chain.pooled, chain.receipts, 0⟩
  let filled := draft.fill c number chain.pool.keys (chain.pooled + 1)
  { accounts := filled.accounts
    pool := filled.pool.filter fun _ queue => !queue.isEmpty
    pooled := filled.pooled
    receipts := filled.receipts
    blocks := chain.blocks.push
      { number, timestamp := c.timestamp number, transactions := filled.included.toUInt64,
        gasUsed := (transferGas * filled.included).toUInt64, gasLimit := c.blockGasLimit } }

/-- The chain with the given number of further blocks. -/
def Chain.extend (c : Config) : Nat → Chain → Chain
  | 0, chain => chain
  | n + 1, chain => extend c n (chain.produce c)

/-- The height that is due at an instant. -/
def Config.dueHeight (c : Config) (now : Instant) : Nat := now / max c.blockInterval 1

/-- Produces every block that is due. -/
def Chain.catchUp (c : Config) (now : Instant) (chain : Chain) : Chain :=
  chain.extend c (c.dueHeight now + 1 - chain.blocks.size)

/-- The handle of a submission. -/
def handleOf (sender : Address) (nonce : UInt64) : Handle :=
  keccak256 (sender.bytes ++ bytesOfNat 8 nonce.toNat)

/-- The chain with the transfer of a request in its pool. -/
def Chain.queue (request : Request) (chain : Chain) : Chain :=
  let transfer : Transfer :=
    ⟨handleOf request.sender request.nonce, request.recipient, request.value⟩
  let queue := (chain.pool.getD request.sender ∅).insert request.nonce transfer
  { chain with pool := chain.pool.insert request.sender queue, pooled := chain.pooled + 1 }

/-- Puts a transfer into the pool, unless its nonce is used or queued already or the pool is full. -/
def Chain.judge (c : Config) (request : Request) (chain : Chain) : Answer Handle × Chain :=
  let queue := chain.pool.getD request.sender ∅
  if request.nonce < (chain.accounts.find request.sender).nonce then
    (.error (.rejected "nonce too low"), chain)
  else if queue.contains request.nonce then (.error (.rejected "already known"), chain)
  else if c.poolCapacity ≤ chain.pooled then (.error (.rejected "txpool is full"), chain)
  else (.ok (handleOf request.sender request.nonce), chain.queue request)

/-- The chain together with the counts of submit calls started, in progress and in progress at most. -/
structure State where
  chain : Chain
  submitted : UInt64 := 0
  inFlight : Nat := 0
  peakInFlight : Nat := 0

/-- The chain at genesis with the given accounts; of two entries for one address the later counts. -/
def State.genesis (c : Config) (accounts : List (Address × Account)) : State :=
  { chain := {
      accounts := accounts.foldl (fun m (a, account) => m.insert a account) ∅
      blocks := #[⟨0, c.genesisTimestamp, 0, 0, c.blockGasLimit⟩] } }

/-- Is a submission refused because of the number of calls made so far? -/
def Config.refuses (c : Config) (submitted : UInt64) : Bool :=
  match c.rejectEvery with
  | some n => 0 < n && submitted % n == 0
  | none => false

/-- The verdict on a submission at the instant its latency is over. -/
def State.receive (c : Config) (now : Instant) (request : Request) (s : State) :
    Answer Handle × State :=
  let s := { s with inFlight := s.inFlight - 1 }
  if c.refuses s.submitted then (.error (.rejected "simulated rejection"), s)
  else if request.gasLimit.toNat < transferGas then
    (.error (.rejected "intrinsic gas too low"), s)
  else
    let (verdict, chain) := (s.chain.catchUp c now).judge c request
    (verdict, { s with chain })

/-- Brings the chain up to an instant and reads something off it. -/
def State.view (c : Config) (now : Instant) (read : Chain → α) (s : State) : α × State :=
  let chain := s.chain.catchUp c now
  (read chain, { s with chain })

/-- The number of queued transfers. -/
def State.pending (c : Config) (now : Instant) (s : State) : Nat × State :=
  s.view c now Chain.pooled

/-- The number of included transfers. -/
def State.included (c : Config) (now : Instant) (s : State) : Nat × State :=
  s.view c now fun chain => chain.receipts.size

end Throughput.Simulated

namespace Throughput

open Simulated in
/-- The simulated ledger. A call that its caller gives up stays counted as in progress. -/
def Ledger.simulated (c : Simulated.Config) : Ledger Simulated.State where
  submit _ request s :=
    let inFlight := s.inFlight + 1
    (⟨some c.submitLatency, fun now s => s.receive c now request⟩,
      { s with submitted := s.submitted + 1, inFlight,
               peakInFlight := max s.peakInFlight inFlight })
  sequenceNumber now account s := s.view c now fun chain => .ok (chain.accounts.find account).nonce
  balance now account s := s.view c now fun chain => .ok (chain.accounts.find account).balance
  height now s := s.view c now fun chain => .ok (chain.blocks.size - 1).toUInt64
  block now height s := s.view c now fun chain => .ok chain.blocks[height.toNat]?
  receipt _ handle s :=
    (⟨some 0, fun now s => s.view c now fun chain => .ok chain.receipts[handle]?⟩, s)

end Throughput
