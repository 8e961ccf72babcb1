import Throughput.CommandLine.Grammar
import Throughput.CommandLine.SocketAddress
import Throughput.CommandLine.Target
import Throughput.Ledger.Simulated
import Throughput.Number.Whole
import Throughput.Run.Config

/-!
# Settings and their options

Every command has a record of settings, whose defaults hold for the options that are not given, and a
list of options.
-/

namespace Throughput.CommandLine

/-! ## Values -/

/-- A value that passes or is refused with a reason. -/
def accept (message : ε → String) (result : Except ε α) : Except ValueFault α :=
  result.mapError fun e => .rejected (message e)

/-- A count below `2 ^ 64`. -/
def readWord (text : String) : Except ValueFault UInt64 := do
  let n ← accept CountFault.message (readCount UInt64.size text)
  pure n.toUInt64

/-- A count below `2 ^ 64` as a natural number. -/
def readSize (text : String) : Except ValueFault Nat :=
  accept CountFault.message (readCount UInt64.size text)

/-- A duration in milliseconds. -/
def readMilliseconds (text : String) : Except ValueFault Duration :=
  (readSize text).map milliseconds

/-- A duration in seconds. -/
def readSeconds (text : String) : Except ValueFault Duration := (readSize text).map seconds

/-- A price in the smallest unit. -/
def readPrice (text : String) : Except ValueFault (BitVec 128) :=
  (accept CountFault.message (readCount (Nat.pow 2 128) text)).map (BitVec.ofNat 128)

/-- A decimal number. -/
def readNumber (text : String) : Except ValueFault Float :=
  accept Decimal.ReadError.message (Decimal.read text)

/-- The name of a file, which is not empty. -/
def readPath (text : String) : Except ValueFault String :=
  if text.isEmpty then .error .notListed else .ok text

/-- One of several words. -/
def readChoice (choices : List (String × α)) (text : String) : Except ValueFault α :=
  match choices.find? (·.1 == text) with
  | some (_, value) => .ok value
  | none => .error .notListed

/-- An address to listen on. -/
def readSocketAddress (text : String) : Except ValueFault SocketAddress :=
  match SocketAddress.read? text with
  | some address => .ok address
  | none => .error (.rejected "invalid socket address syntax")

/-! ## Options -/

/-- An option whose value is read and put into the settings. -/
def Flag.setting (name : String) (read : String → Except ValueFault α) (put : α → σ → σ)
    (environment : Option String := none) : Flag σ :=
  { name, environment, action := .value false fun text s => (read text).map (put · s) }

/-- An option that may be given any number of times. -/
def Flag.repeated (name : String) (read : String → Except ValueFault α) (put : α → σ → σ) : Flag σ :=
  { name, action := .value true fun text s => (read text).map (put · s) }

/-- An option without a value. -/
def Flag.switch (name : String) (put : σ → σ) : Flag σ := { name, action := .switch put }

/-- The option that asks for help. -/
def Flag.help : Flag σ := { name := "help", letter := some 'h', action := .help }

/-- The option that asks for the version. -/
def Flag.version : Flag σ := { name := "version", letter := some 'V', action := .version }

/-- An option on one half of a pair of settings. -/
def Flag.onFirst (flag : Flag σ) : Flag (σ × τ) :=
  { flag with action := match flag.action with
    | .value repeats store => .value repeats fun text (s, t) => (store text s).map (·, t)
    | .switch store => .switch fun (s, t) => (store s, t)
    | .help => .help
    | .version => .version }

/-- An option on the other half of a pair of settings. -/
def Flag.onSecond (flag : Flag τ) : Flag (σ × τ) :=
  { flag with action := match flag.action with
    | .value repeats store => .value repeats fun text (s, t) => (store text t).map (s, ·)
    | .switch store => .switch fun (s, t) => (s, store t)
    | .help => .help
    | .version => .version }

/-! ## Settings of every command -/

/-- The form of the lines of a log. -/
inductive LogFormat where
  | text
  | json
deriving DecidableEq, Repr

/-- Settings that may stand before and after the name of a command. -/
structure Globals where
  logLevel : String := "info"
  logFormat : LogFormat := .text
  metricsAddress : Option SocketAddress := none
deriving DecidableEq, Repr

/-- The options of every command. -/
def globalFlags : List (Flag Globals) :=
  [.setting "log-level" .ok (fun v s => { s with logLevel := v }) (some "TPS_BENCH_LOG_LEVEL"),
   .setting "log-format" (readChoice [("text", .text), ("json", .json)])
    (fun v s => { s with logFormat := v }) (some "TPS_BENCH_LOG_FORMAT"),
   .setting "metrics-addr" readSocketAddress (fun v s => { s with metricsAddress := some v })
    (some "TPS_BENCH_METRICS_ADDR")]

/-! ## Settings of a run -/

/-- The strategies by name. -/
inductive StrategyKind where
  | burst
  | steadyBatch
  | saturation
deriving DecidableEq, Repr

/-- The estimates by name. -/
inductive EstimateKind where
  | blockProgress
  | blockContent
deriving DecidableEq, Repr

/-- The settings of a run. -/
structure RunSettings where
  rpcUrl : String := "http://localhost:8545"
  wallets : Option String := none
  simulate : Bool := false
  simulatedSenders : Nat := 10
  simulatedInterval : Duration := milliseconds 1000
  strategy : StrategyKind := .steadyBatch
  target : Nat := 100
  batchSize : Nat := 5
  batchPause : Duration := milliseconds 200
  duration : Option Duration := none
  saturation : Saturation := {}
  estimate : EstimateKind := .blockProgress
  perBlock : UInt64 := 1000
  template : Template := {}
  gasPerTransaction : UInt64 := 21000
  submitTimeout : Duration := seconds 10
  sendTimeout : Option Duration := none
  poll : PollConfig := {}
  gaining : List Address := []
  ratios : List RatioTarget := []
  tolerance : Float := 0.1
  gasLimitPerBlock : Option UInt64 := none
  maxBlocks : UInt64 := 100
  output : Option String := none

namespace RunSettings

/-- The options on the ledger. -/
def ledgerFlags : List (Flag RunSettings) :=
  [.setting "rpc-url" .ok (fun v s => { s with rpcUrl := v }) (some "TPS_BENCH_RPC_URL"),
   .setting "wallets" readPath (fun v s => { s with wallets := some v }) (some "TPS_BENCH_WALLETS"),
   .switch "simulate" (fun s => { s with simulate := true }),
   .setting "simulated-senders" readSize (fun v s => { s with simulatedSenders := v }),
   .setting "simulated-block-ms" readMilliseconds (fun v s => { s with simulatedInterval := v })]

/-- The options on the load. -/
def loadFlags : List (Flag RunSettings) :=
  [.setting "strategy" (readChoice [("burst", .burst), ("steady-batch", .steadyBatch),
      ("saturation", .saturation)]) (fun v s => { s with strategy := v }),
   .setting "target-count" readSize (fun v s => { s with target := v }),
   .setting "batch-size" readSize (fun v s => { s with batchSize := v }),
   .setting "batch-pause-ms" readMilliseconds (fun v s => { s with batchPause := v }),
   .setting "duration-secs" readSeconds (fun v s => { s with duration := some v }),
   .setting "initial-fill" readSize
    (fun v s => { s with saturation := { s.saturation with initialFill := v } }),
   .setting "fill-chunk" readSize
    (fun v s => { s with saturation := { s.saturation with fillChunk := v } }),
   .setting "refill-interval-ms" readMilliseconds
    (fun v s => { s with saturation := { s.saturation with refillInterval := v } }),
   .setting "refill-cap" readSize
    (fun v s => { s with saturation := { s.saturation with refillCap := v } }),
   .setting "refill-estimate" (readChoice [("block-progress", .blockProgress),
      ("block-content", .blockContent)]) (fun v s => { s with estimate := v }),
   .setting "assumed-per-block" readWord (fun v s => { s with perBlock := v })]

/-- The options on each transfer. -/
def transferFlags : List (Flag RunSettings) :=
  [.setting "value-wei" (fun text => accept AmountFault.message (Amount.read text))
    (fun v s => { s with template := { s.template with value := v } }),
   .setting "gas-limit" readWord
    (fun v s => { s with template := { s.template with gasLimit := v } })
    (some "TPS_BENCH_GAS_LIMIT"),
   .setting "gas-per-tx" readWord (fun v s => { s with gasPerTransaction := v })
    (some "TPS_BENCH_GAS_PER_TX"),
   .setting "gas-price" readPrice
    (fun v s => { s with template := { s.template with gasPrice := some v } }),
   .setting "recipient" (fun text => accept RecipientFault.message (RecipientPolicy.read text))
    (fun v s => { s with template := { s.template with recipients := v } }),
   .setting "submit-timeout-secs" readSeconds (fun v s => { s with submitTimeout := v }),
   .setting "send-timeout-secs" readSeconds (fun v s => { s with sendTimeout := some v })]

/-- The options on polling. -/
def pollFlags : List (Flag RunSettings) :=
  [.setting "poll-interval-ms" readMilliseconds
    (fun v s => { s with poll := { s.poll with interval := v } }),
   .setting "inclusion-timeout-secs" readSeconds
    (fun v s => { s with poll := { s.poll with timeout := v } }),
   .setting "completion-threshold" readNumber
    (fun v s => { s with poll := { s.poll with completionThreshold := v } }),
   .setting "sampling-threshold" readSize
    (fun v s => { s with poll := { s.poll with samplingThreshold := v } }),
   .setting "sample-cap" readSize
    (fun v s => { s with poll := { s.poll with sampleCap := v } }),
   .setting "seed" readWord (fun v s => { s with poll := { s.poll with seed := some v } })]

/-- The options on the report. -/
def reportFlags : List (Flag RunSettings) :=
  [.repeated "expect-positive" (fun text => accept Address.ReadError.message (Address.read text))
    (fun v s => { s with gaining := s.gaining ++ [v] }),
   .repeated "expect-ratio" (fun text => accept RatioFault.message (RatioTarget.read text))
    (fun v s => { s with ratios := s.ratios ++ [v] }),
   .setting "ratio-tolerance" readNumber (fun v s => { s with tolerance := v }),
   .setting "gas-limit-per-block" readWord (fun v s => { s with gasLimitPerBlock := some v }),
   .setting "max-blocks" readWord (fun v s => { s with maxBlocks := v }),
   .setting "output" readPath (fun v s => { s with output := some v })]

/-- All options of a run. -/
def flags : List (Flag RunSettings) :=
  ledgerFlags ++ loadFlags ++ transferFlags ++ pollFlags ++ reportFlags

/-- Keys are needed unless the ledger is simulated. -/
def check (s : RunSettings) : Except UsageError Unit :=
  if s.wallets.isNone && !s.simulate then .error (.optionMissing "wallets") else .ok ()

/-- The strategy with its parameters; a pause of zero is none. -/
def chosenStrategy (s : RunSettings) : Strategy :=
  match s.strategy with
  | .burst => .burst
  | .steadyBatch => .steadyBatch s.batchSize (if 0 < s.batchPause then some s.batchPause else none)
  | .saturation => .saturation { s.saturation with
      estimate := match s.estimate with
        | .blockProgress => .blockProgress s.perBlock
        | .blockContent => .blockContent }

/-- The checks on gains, then the checks on ratios. -/
def checks (s : RunSettings) : List Check :=
  s.gaining.map (fun a => .positive (a.checksummed ++ " receives fees") a) ++
    s.ratios.map fun r =>
      (Check.ratio r.label r.numerator r.denominator r.target).withTolerance s.tolerance

/-- The configuration of the run; whoever carries it out adds the senders. -/
def config (s : RunSettings) : RunConfig where
  strategy := s.chosenStrategy
  target := s.target
  duration := s.duration
  template := s.template
  submitTimeout := s.submitTimeout
  sendTimeout := s.sendTimeout
  poll := s.poll
  checks := s.checks
  gasPerTransaction := s.gasPerTransaction
  gasLimitPerBlock := s.gasLimitPerBlock
  maxBlocksAnalyzed := s.maxBlocks

/-- The simulated chain; its blocks are at least a millisecond apart. -/
def simulatedConfig (s : RunSettings) : Simulated.Config where
  blockInterval := max s.simulatedInterval (milliseconds 1)

end RunSettings

/-! ## Settings of the block time -/

/-- The settings of an analysis of recent blocks. -/
structure BlockTimeSettings where
  rpcUrl : String := "http://localhost:8545"
  blocks : UInt64 := 100
  targetSeconds : UInt64 := 1
  gasPerTransaction : UInt64 := 21000
deriving DecidableEq, Repr

/-- The options of an analysis of recent blocks. -/
def BlockTimeSettings.flags : List (Flag BlockTimeSettings) :=
  [.setting "rpc-url" .ok (fun v s => { s with rpcUrl := v }) (some "TPS_BENCH_RPC_URL"),
   .setting "blocks" readWord (fun v s => { s with blocks := v }),
   .setting "target-secs" readWord (fun v s => { s with targetSeconds := v }),
   .setting "gas-per-tx" readWord (fun v s => { s with gasPerTransaction := v })
    (some "TPS_BENCH_GAS_PER_TX")]

end Throughput.CommandLine
