import Throughput.CommandLine.Settings

/-!
# Invocations

A command line names one command. Options of every command may stand before its name or after it; the
one after the name counts, and either counts more than the environment.
-/

namespace Throughput.CommandLine

/-- What is to be done. -/
inductive Command where
  | run (settings : RunSettings)
  | blockTime (settings : BlockTimeSettings)

/-- A command line that was understood. -/
structure Invocation where
  globals : Globals
  command : Command

/-- What stands in front of the name of a command. -/
def outerGrammar : Grammar Globals where
  flags := globalFlags ++ [.help, .version]
  commands := ["run", "block-time", "help"]

/-- What stands after the name of a command with options of its own. -/
def innerGrammar (flags : List (Flag σ)) : Grammar (Globals × σ) where
  flags := flags.map .onSecond ++ globalFlags.map .onFirst ++ [.help]

/-- The settings that were given on the line, and all settings with the environment added. -/
structure Gathered (σ : Type) where
  given : List String
  settings : σ
  isEmpty : Bool

/-- Reads what is left at the end of a line and looks into the environment. -/
def Grammar.finish (g : Grammar σ) (environment : String → Option String) (p : Progress σ) :
    Except UsageError (Gathered σ) := do
  let p ← p.settle
  let all ← complete environment p g.flags
  pure ⟨p.given, all.settings, all.given.isEmpty⟩

/-- Settings after the name of a command where they are given there, and in front of it otherwise. -/
def Globals.merge (outer inner : Globals) (given : List String) : Globals where
  logLevel := if given.contains "log-level" then inner.logLevel else outer.logLevel
  logFormat := if given.contains "log-format" then inner.logFormat else outer.logFormat
  metricsAddress :=
    if given.contains "metrics-addr" then inner.metricsAddress else outer.metricsAddress

/-- Help is given on a command that exists. -/
def helpOn : List String → UsageError
  | [] => .helpRequested
  | [command] => if outerGrammar.commands.contains command then .helpRequested else .commandUnknown
  | _ => .commandUnknown

namespace Invocation

/-- Reads the words after the name of a command, and then what was left open in front of it. -/
def readCommand (environment : String → Option String) (outer : Progress Globals)
    (flags : List (Flag σ)) (start : σ) (check : σ → Except UsageError Unit)
    (command : σ → Command) (words : List String) : Except UsageError Invocation := do
  let g := innerGrammar flags
  let (p, _) ← g.scan { settings := ({}, start) } words
  let inner ← g.finish environment p
  check inner.settings.2
  let outer ← outerGrammar.finish environment outer
  pure ⟨outer.settings.merge inner.settings.1 inner.given, command inner.settings.2⟩

/-- Reads a command line without the name of the program. -/
def read (environment : String → Option String) (words : List String) :
    Except UsageError Invocation := do
  let (p, command) ← outerGrammar.scan { settings := {} } words
  match command with
  | none =>
    let outer ← outerGrammar.finish environment p
    throw (if outer.isEmpty then .nothingGiven else .commandMissing)
  | some ("run", rest) =>
    readCommand environment p RunSettings.flags {} RunSettings.check .run rest
  | some ("block-time", rest) =>
    readCommand environment p BlockTimeSettings.flags {} (fun _ => .ok ()) .blockTime rest
  | some (_, rest) => throw (helpOn rest)

end Invocation

end Throughput.CommandLine
