import Throughput.Ledger.Scripted
import Throughput.Ledger.Simulated
import Throughput.Scenario.Value

/-!
# The ledger of a scenario

A scenario names a simulated chain with its accounts, or a script.
-/

namespace Throughput.Scenario

/-- How a simulated chain behaves; an interval in nanoseconds overrides one in milliseconds. -/
def simulatedConfigOf (j : Json) : Reading Simulated.Config := do
  let d : Simulated.Config := {}
  let interval ← j.getD msOf d.blockInterval "block_interval_ms"
  pure {
    blockInterval := ← j.getD natOf interval "block_interval_ns"
    blockGasLimit := ← j.getD wordOf d.blockGasLimit "block_gas_limit"
    poolCapacity := ← j.getD natOf d.poolCapacity "pool_capacity"
    submitLatency := ← j.getD msOf d.submitLatency "submit_latency_ms"
    rejectEvery := ← j.get? wordOf "reject_every"
    gasPrice := ← j.getD priceOf d.gasPrice "gas_price"
    feeSplit := ← listOf (pairOf addressOf fun p => do pure (← natOf p).toUInt32)
      (j.field "fee_split")
    producer := ← j.getD addressOf d.producer "producer"
    genesisTimestamp := ← j.getD wordOf d.genesisTimestamp "genesis_timestamp" }

/-- An account with its nonce and balance. -/
def accountOf (j : Json) : Reading (Address × Simulated.Account) := do
  match ← itemsOf j with
  | [a, nonce, balance] => pure (← addressOf a, ⟨← wordOf nonce, ← amountOf balance⟩)
  | _ => throw ⟨"account"⟩

/-- What a rule answers. -/
def receiptReplyOf (j : Json) : Reading Scripted.ReceiptReply := do
  if j.isNull then pure .absent
  else
    let err := j.field "err"
    if !err.isNull then pure (.failed (← errorOf err))
    else
      let ok ← j.getD boolOf true "ok"
      match ← j.get? wordOf "block_mod" with
      | some m => pure (.inBlockOf m ok)
      | none => pure (.inBlock (← j.getD wordOf 1 "block") ok)

/-- A set of handles. -/
def handleSetOf (j : Json) : Reading (Std.HashSet Handle) := do
  pure (Std.HashSet.ofList (← listOf handleOf j))

/-- A rule for receipts. -/
def receiptRuleOf (j : Json) : Reading Scripted.ReceiptRule := do
  pure {
    handles := ← j.get? handleSetOf "handles"
    modulus := ← j.get? wordOf "mod"
    low := ← j.getD wordOf 0 "lo"
    high := ← j.getD wordOf 18446744073709551615 "hi"
    since := ← j.getD msOf 0 "from_ms"
    reply := ← receiptReplyOf (j.field "resp") }

/-- An entry for submissions. -/
def submitEntryOf (j : Json) : Reading Scripted.SubmitEntry := do
  pure {
    latency := ← j.getD msOf 0 "latency_ms"
    error := ← j.get? errorOf "err"
    handle := ← j.get? handleOf "handle" }

/-- How blocks are computed from their height. -/
def blockRuleOf (j : Json) : Reading Scripted.BlockRule := do
  let d : Scripted.BlockRule := {}
  pure {
    timestampBase := ← j.getD wordOf d.timestampBase "timestamp_base"
    timestampStep := ← j.getD wordOf d.timestampStep "timestamp_step"
    transactions := ← j.getD wordOf d.transactions "transaction_count"
    gasUsed := ← j.getD wordOf d.gasUsed "gas_used"
    gasLimit := ← j.getD wordOf d.gasLimit "gas_limit" }

/-- A height that grows with the clock. -/
def heightClockOf (j : Json) : Reading Scripted.HeightClock := do
  pure {
    start := ← j.getD wordOf 0 "start"
    interval := ← j.getD msOf (milliseconds 1000) "interval_ms" }

/-- A table whose keys are the names of an object. -/
def tableOf (key : String → Reading α) (f : Json → Reading β) (j : Json) :
    Reading (List (α × β)) := do
  (← membersOf j).mapM fun (name, v) => do pure (← key name, ← f v)

/-- A script. -/
def scriptOf (j : Json) : Reading Scripted.Script := do
  let address (name : String) := addressOf (.string name)
  let height (name : String) := do pure (← decimalOf (.string name)).toUInt64
  pure {
    heights := (← j.getList (answerOf wordOf) "heights").toArray
    heightClock := ← j.get? heightClockOf "height_clock"
    sequenceNumbers :=
      .ofList (← tableOf address (answerOf wordOf) (j.field "sequence")) compare
    balances := .ofList (← tableOf address
      (fun b => do pure (← listOf (answerOf amountOf) b).toArray) (j.field "balances")) compare
    blocks := .ofList (← tableOf height (answerOf blockOf) (j.field "blocks")) compare
    blockRule := ← j.get? blockRuleOf "block_default"
    submissions := (← j.getList submitEntryOf "submit").toArray
    receipts := ← j.getList receiptRuleOf "receipts"
    receiptLatency := ← j.getD msOf 0 "receipt_latency_ms" }

/-- The ledger that a scenario plays on. -/
inductive Scene where
  | simulated (config : Simulated.Config) (accounts : List (Address × Simulated.Account))
  | scripted (script : Scripted.Script)

namespace Scene

/-- The states of the ledger. -/
abbrev State : Scene → Type
  | .simulated .. => Simulated.State
  | .scripted _ => Scripted.State

/-- The ledger, with its calls counted. -/
def ledger : (scene : Scene) → Ledger (scene.State × CallCounts)
  | .simulated config _ => (Ledger.simulated config).counted
  | .scripted script => (Ledger.scripted script).counted

/-- The state at the start. -/
def initial : (scene : Scene) → scene.State × CallCounts
  | .simulated config accounts => (.genesis config accounts, {})
  | .scripted _ => ({}, {})

end Scene

/-- A ledger of either kind; without a kind it is simulated. -/
def sceneOf (j : Json) : Reading Scene := do
  match ← j.getD textOf "simulated" "kind" with
  | "scripted" => pure (.scripted (← scriptOf j))
  | _ =>
    pure (.simulated (← simulatedConfigOf (j.field "config"))
      (← j.getList accountOf "accounts"))

end Throughput.Scenario
