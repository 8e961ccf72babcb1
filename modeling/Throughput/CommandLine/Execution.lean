import Throughput.CommandLine.Invocation
import Throughput.Figure.BlockTime
import Throughput.Key.File
import Throughput.Node.Client
import Throughput.Run.Bounds

/-!
# Carrying out commands

A run on the simulated chain pays its senders first and plays in the time of the chain. A command on a
node first reads the locator of the node and then asks it.
-/

namespace Throughput.CommandLine

/-- What every sender of a simulated run owns at the start. -/
def funding : Amount := 1000000000000000000000

/-- The first answer of a node behind a locator decides whether there is a client. -/
def connectTo (endpoint : Url → Endpoint σ) (rpcUrl : String) (keys : List SigningKey) (s : σ) :
    Except SetupError (Client × Endpoint σ) × σ :=
  match Client.readUrl rpcUrl with
  | .error e => (.error e, s)
  | .ok url =>
    let node := match Client.urlFault? url with
      | some fault => .unreachable fault
      | none => endpoint url
    let (client, s) := Client.connect node keys s
    (client.map (·, node), s)

namespace RunSettings

/-- Runs on the simulated chain with keys drawn from a seed. -/
def runSimulated (s : RunSettings) (seed : UInt64) : Except RunError RunReport :=
  let senders := (SigningKey.generate seed s.simulatedSenders).map (·.address)
  let c := s.simulatedConfig
  let accounts := senders.map fun a => (a, { balance := funding : Simulated.Account })
  let config := { s.config with senders }
  (config.runInBounds (.simulated c) 0 .never (.genesis c accounts)).1

/-- Runs on a node with keys from a file. -/
def runOnNode (s : RunSettings) (endpoint : Url → Endpoint σ) (keys : List SigningKey) (state : σ) :
    Except RunError RunReport × σ :=
  match connectTo endpoint s.rpcUrl keys state with
  | (.error e, state) => (.error (.setup e), state)
  | (.ok (client, node), state) =>
    let config := { s.config with senders := client.senders }
    let (report, _, state) := config.runInBounds (client.ledger node) 0 .never state
    (report, state)

end RunSettings

/-- Analyses the recent blocks of a node. -/
def BlockTimeSettings.analyze (s : BlockTimeSettings) (endpoint : Url → Endpoint σ) (state : σ) :
    Except SetupError BlockTimeReport × σ :=
  match connectTo endpoint s.rpcUrl [] state with
  | (.error e, state) => (.error e, state)
  | (.ok (client, node), state) =>
    BlockTimeReport.read (client.ledger node) 0 s.blocks s.gasPerTransaction
      (seconds s.targetSeconds.toNat) state

/-- The wording of a usage error. -/
def UsageError.message : UsageError → String
  | .helpRequested | .nothingGiven =>
    "usage: run [OPTIONS] | block-time [OPTIONS]"
  | .versionRequested => "0.1.0"
  | .commandMissing => "a command is required: run or block-time"
  | .commandUnknown => "there is no such command"
  | .argumentUnknown => "there is no such argument"
  | .repeated option => "--" ++ option ++ " is given more than once"
  | .valueMissing option => "--" ++ option ++ " needs a value"
  | .valueNotListed option => "--" ++ option ++ " does not take this value"
  | .valueRejected option reason => "invalid value for --" ++ option ++ ": " ++ reason
  | .valueUnexpected option => "--" ++ option ++ " takes no value"
  | .optionMissing option => "--" ++ option ++ " is required"

end Throughput.CommandLine
