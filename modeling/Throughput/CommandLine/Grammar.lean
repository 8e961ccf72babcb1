/-!
# Reading command lines

A command line is read into settings with the options of a grammar. A word with two dashes is an
option; its value stands in the same word after an equals sign, or in the next word. A value in the
next word is only looked at when the following option, or the end of the line, is reached. Options
that are not given may take their value from the environment.
-/

namespace Throughput.CommandLine

/-- What a value can be refused for. -/
inductive ValueFault where
  /-- The value is empty or not one of those listed. -/
  | notListed
  | rejected (reason : String)
deriving DecidableEq, Repr

/-- Why a command line is not carried out. -/
inductive UsageError where
  | helpRequested
  | versionRequested
  /-- Nothing at all was given. -/
  | nothingGiven
  | commandMissing
  | commandUnknown
  | argumentUnknown
  | repeated (option : String)
  | valueMissing (option : String)
  | valueNotListed (option : String)
  | valueRejected (option reason : String)
  | valueUnexpected (option : String)
  | optionMissing (option : String)
deriving DecidableEq, Repr

/-- The error that a refused value of an option gives. -/
def ValueFault.error (option : String) : ValueFault → UsageError
  | .notListed => .valueNotListed option
  | .rejected reason => .valueRejected option reason

/-- What an option does to settings of type `σ`. -/
inductive Action (σ : Type) where
  /-- Takes a value, once or any number of times. -/
  | value (repeats : Bool) (store : String → σ → Except ValueFault σ)
  | switch (store : σ → σ)
  | help
  | version

/-- An option. -/
structure Flag (σ : Type) where
  name : String
  letter : Option Char := none
  environment : Option String := none
  action : Action σ

/-- The options of a command and the commands below it. -/
structure Grammar (σ : Type) where
  flags : List (Flag σ)
  commands : List String := []

/-- An option whose value stands, or is to stand, in the next word. -/
structure Pending (σ : Type) where
  flag : Flag σ
  value : Option String := none

/-- What has been read of a command line. -/
structure Progress (σ : Type) where
  settings : σ
  given : List String := []
  pending : Option (Pending σ) := none

namespace Progress

/-- Stores the value of an option. -/
def store (flag : Flag σ) (value : String) (p : Progress σ) : Except UsageError (Progress σ) :=
  match flag.action with
  | .value repeats read =>
    if !repeats && p.given.contains flag.name then .error (.repeated flag.name)
    else match read value p.settings with
      | .ok settings => .ok { p with settings, given := flag.name :: p.given }
      | .error fault => .error (fault.error flag.name)
  | _ => .error (.valueUnexpected flag.name)

/-- Takes up the option whose value stands in the next word. -/
def settle (p : Progress σ) : Except UsageError (Progress σ) :=
  match p.pending with
  | none => .ok p
  | some ⟨flag, none⟩ => .error (.valueMissing flag.name)
  | some ⟨flag, some value⟩ => { p with pending := none }.store flag value

/-- Carries out an option that has no value in the same word. -/
def take (flag : Flag σ) (p : Progress σ) : Except UsageError (Progress σ) := do
  let p ← p.settle
  match flag.action with
  | .value _ _ => pure { p with pending := some { flag } }
  | .switch set =>
    if p.given.contains flag.name then throw (.repeated flag.name)
    else pure { p with settings := set p.settings, given := flag.name :: p.given }
  | .help => throw .helpRequested
  | .version => throw .versionRequested

/-- Carries out an option with a value in the same word. -/
def takeWith (flag : Flag σ) (value : String) (p : Progress σ) :
    Except UsageError (Progress σ) :=
  match flag.action with
  | .value _ _ => do (← p.settle).store flag value
  | _ => .error (.valueUnexpected flag.name)

/-- Does the last option still wait for its value? -/
def isWaiting (p : Progress σ) : Bool :=
  match p.pending with
  | some ⟨_, none⟩ => true
  | _ => false

end Progress

/-- The forms of a word. -/
inductive Word where
  | separator
  | long (name : String) (value : Option String)
  | short (letter : Char)
  | plain (text : String)
deriving DecidableEq, Repr

/-- The form of a word; a dash alone is plain. -/
def Word.ofText (text : String) : Word :=
  match text.toList with
  | ['-', '-'] => .separator
  | '-' :: '-' :: rest =>
    let name := String.ofList (rest.takeWhile (· != '='))
    match rest.dropWhile (· != '=') with
    | [] => .long name none
    | _ :: value => .long name (some (String.ofList value))
  | '-' :: letter :: _ => .short letter
  | _ => .plain text

namespace Grammar

/-- The error for a word that stands where no word may stand. -/
def strayWord (g : Grammar σ) : UsageError :=
  if g.commands.isEmpty then .argumentUnknown else .commandUnknown

/-- After a separator no word is an option or a command. -/
def closing (g : Grammar σ) (p : Progress σ) : List String → Except UsageError (Progress σ)
  | [] => .ok p
  | word :: _ => .error (if g.commands.contains word then .argumentUnknown else g.strayWord)

/-- Reads words up to a command, which is returned with the words after it. -/
def scan (g : Grammar σ) (p : Progress σ) :
    List String → Except UsageError (Progress σ × Option (String × List String))
  | [] => .ok (p, none)
  | word :: rest =>
    if !p.isWaiting && g.commands.contains word then .ok (p, some (word, rest))
    else match Word.ofText word with
      | .separator => (g.closing p rest).map (·, none)
      | .long name value =>
        match g.flags.find? (·.name == name) with
        | none => .error .argumentUnknown
        | some flag => do
          let p ← match value with
            | none => p.take flag
            | some value => p.takeWith flag value
          scan g p rest
      | .short letter =>
        match g.flags.find? (·.letter == some letter) with
        | none => .error .argumentUnknown
        | some flag => do
          let p ← p.take flag
          scan g p rest
      | .plain text =>
        match p.pending with
        | some ⟨flag, none⟩ => scan g { p with pending := some ⟨flag, some text⟩ } rest
        | _ => .error g.strayWord

/-- Gives the options that have not been given their values from the environment. -/
def complete (environment : String → Option String) (p : Progress σ) :
    List (Flag σ) → Except UsageError (Progress σ)
  | [] => .ok p
  | flag :: rest => do
    let p ← match flag.environment.bind environment with
      | some value => if p.given.contains flag.name then pure p else p.store flag value
      | none => pure p
    complete environment p rest

end Grammar

end Throughput.CommandLine
