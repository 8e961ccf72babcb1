import Throughput.Run.Config
import Throughput.Scenario.Value

/-!
# The run of a scenario

Durations are given in milliseconds. What is left out has the default of a run.
-/

namespace Throughput.Scenario

/-- A check, with a tolerance of its own if one is given. -/
def checkOf (j : Json) : Reading Check := do
  let label ← j.getD textOf "" "label"
  let check ← match ← textOf (j.field "kind") with
    | "positive" => pure (Check.positive label (← addressOf (j.field "account")))
    | "ratio" =>
      pure (Check.ratio label (← addressOf (j.field "numerator"))
        (← addressOf (j.field "denominator")) (← floatOf (j.field "target")))
    | _ => throw ⟨"known check"⟩
  match ← j.get? floatOf "tolerance" with
  | some tolerance => pure (check.withTolerance tolerance)
  | none => pure check

/-- How the backlog is estimated. -/
def estimateOf (j : Json) : Reading RefillEstimate := do
  match ← j.getD textOf "" "kind" with
  | "block_content" => pure .blockContent
  | "block_progress" =>
    pure (.blockProgress (← j.getD wordOf 1000 "assumed_per_block"))
  | _ => pure ({} : Saturation).estimate

/-- How the load is sent. -/
def strategyOf (j : Json) : Reading Strategy := do
  match ← textOf (j.field "kind") with
  | "burst" => pure .burst
  | "steady_batch" =>
    pure (.steadyBatch (← j.getD natOf 5 "batch_size")
      (← j.get? msOf "pause_ms"))
  | "saturation" =>
    let d : Saturation := {}
    pure (.saturation {
      initialFill := ← j.getD natOf d.initialFill "initial_fill"
      fillChunk := ← j.getD natOf d.fillChunk "fill_chunk"
      refillInterval := ← j.getD msOf d.refillInterval "refill_interval_ms"
      refillCap := ← j.getD natOf d.refillCap "refill_cap"
      estimate := ← estimateOf (j.field "estimate") })
  | _ => throw ⟨"known strategy"⟩

/-- Who receives the transfers. -/
def policyOf (j : Json) : Reading RecipientPolicy := do
  match ← textOf j with
  | "next_sender" => pure .nextSender
  | "self" => pure .self
  | _ => pure (.fixed (← addressOf j))

/-- What the transfers have in common. -/
def templateOf (j : Json) : Reading Template := do
  let d : Template := {}
  pure {
    value := ← j.getD amountOf d.value "value"
    gasLimit := ← j.getD wordOf d.gasLimit "gas_limit"
    gasPrice := ← j.get? priceOf "gas_price"
    recipients := ← j.getD policyOf d.recipients "recipients" }

/-- How inclusion is polled. -/
def pollConfigOf (j : Json) : Reading PollConfig := do
  let d : PollConfig := {}
  pure {
    interval := ← j.getD msOf d.interval "poll_interval_ms"
    timeout := ← j.getD msOf d.timeout "timeout_ms"
    completionThreshold :=
      ← j.getD floatOf d.completionThreshold "completion_threshold"
    samplingThreshold := ← j.getD natOf d.samplingThreshold "sampling_threshold"
    sampleCap := ← j.getD natOf d.sampleCap "sample_cap"
    maxQueries := ← j.getD natOf d.maxQueries "max_concurrent_queries"
    seed := ← j.get? wordOf "seed" }

/-- The configuration of a run. -/
def runConfigOf (j : Json) : Reading RunConfig := do
  let d : RunConfig := {}
  pure {
    senders := ← j.getList addressOf "senders"
    strategy := ← j.getD strategyOf d.strategy "strategy"
    target := ← j.getD natOf d.target "target_count"
    duration := ← j.get? msOf "duration_ms"
    template := ← templateOf (j.field "transfer")
    submitTimeout := ← j.getD msOf d.submitTimeout "submit_timeout_ms"
    sendTimeout := ← j.get? msOf "send_timeout_ms"
    poll := ← pollConfigOf (j.field "poller")
    checks := ← j.getList checkOf "invariants"
    gasPerTransaction := ← j.getD wordOf d.gasPerTransaction "gas_per_tx"
    gasLimitPerBlock := ← j.get? wordOf "gas_limit_per_block"
    maxBlocksAnalyzed := ← j.getD wordOf d.maxBlocksAnalyzed "max_blocks_analyzed"
    failureSampleCap := ← j.getD natOf d.failureSampleCap "failure_sample_cap" }

end Throughput.Scenario
