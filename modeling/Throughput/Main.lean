import Throughput.CommandLine.Execution
import Throughput.Run.ReportJson

/-!
# The command line program

Reads the words of the command line and the environment, carries the command out, and writes its
report. A run exits with one if it fails or if one of its checks does. No node can be reached from
here, so that a command on a node fails at its first request.
-/

open Throughput Throughput.CommandLine

namespace Throughput.Program

/-- The variables of the environment that options look at. -/
def variableNames : List String :=
  (globalFlags.filterMap (·.environment)) ++ (RunSettings.flags.filterMap (·.environment))

/-- Every node is out of reach. -/
def noNode (url : Url) : Endpoint Unit := .unreachable (.unsent url.text)

/-- Writes an error and gives its exit code. -/
def refuse (code : UInt32) (message : String) : IO UInt32 := do
  IO.eprintln message
  pure code

/-- Writes a report where it is wanted and says whether its checks passed. -/
def conclude (output : Option String) (result : Except RunError RunReport) : IO UInt32 := do
  match result with
  | .error e => refuse 1 e.message
  | .ok report =>
    let text := (report.json "").pretty 0 ++ "\n"
    match output with
    | some path => IO.FS.writeFile path text
    | none => IO.print text
    if report.checksPassed then pure 0 else refuse 1 "invariant checks failed"

/-- The keys in a file. -/
def readKeys (path : String) : IO (Except KeyFileError (List SigningKey)) := do
  let content ← try
      let bytes ← IO.FS.readBinFile path
      pure (some bytes)
    catch _ => pure none
  pure (KeyFile.load content)

/-- Carries a run out. -/
def run (s : RunSettings) : IO UInt32 := do
  if s.simulate then
    let drawn ← IO.rand 0 (Nat.pow 2 62)
    conclude s.output (s.runSimulated (s.poll.seed.getD drawn.toUInt64))
  else
    match ← readKeys (s.wallets.getD "") with
    | .error e => refuse 1 e.message
    | .ok keys => conclude s.output (s.runOnNode noNode keys ()).1

/-- Carries an analysis of blocks out. -/
def blockTime (s : BlockTimeSettings) : IO UInt32 := do
  match (s.analyze noNode ()).1 with
  | .error e => refuse 1 e.message
  | .ok report => do
    IO.println (toString report.blocksAnalyzed ++ " blocks analyzed")
    pure 0

end Throughput.Program

open Throughput.Program in
/-- The program. -/
def main (words : List String) : IO UInt32 := do
  let found ← variableNames.filterMapM fun name => do
    let value ← IO.getEnv name
    pure (value.map (name, ·))
  match Invocation.read (fun name => (found.find? (·.1 == name)).map (·.2)) words with
  | .error .helpRequested => IO.println UsageError.helpRequested.message; pure 0
  | .error .versionRequested => IO.println UsageError.versionRequested.message; pure 0
  | .error e => refuse 2 e.message
  | .ok ⟨_, .run s⟩ => run s
  | .ok ⟨_, .blockTime s⟩ => blockTime s
