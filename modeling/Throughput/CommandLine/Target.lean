import Throughput.Number.Decimal
import Throughput.Send.Strategy
import Throughput.Text.Blank

/-!
# Recipients and ratios on the command line

A recipient is a policy by name or an address. A ratio is written `NUM/DEN=TARGET`, with two addresses
and a positive number; blanks around the three parts do not count.
-/

namespace Throughput

/-- A text that names no recipient. -/
structure RecipientFault where
  text : String
  cause : Address.ReadError
deriving DecidableEq, Repr

/-- The wording of a fault in a recipient. -/
def RecipientFault.message (f : RecipientFault) : String :=
  "invalid recipient " ++ f.text ++ ": " ++ f.cause.message

/-- Reads a recipient. -/
def RecipientPolicy.read (text : String) : Except RecipientFault RecipientPolicy :=
  if text = "next-sender" then .ok .nextSender
  else if text = "self" then .ok .self
  else match Address.read text with
    | .ok recipient => .ok (.fixed recipient)
    | .error cause => .error ⟨text, cause⟩

/-- The ratio that the gains of two accounts are expected to have. -/
structure RatioTarget where
  numerator : Address
  denominator : Address
  target : Float

/-- Why a text is no ratio. -/
inductive RatioFault where
  | shape (text : String)
  | badTarget (text : String) (cause : Decimal.ReadError)
  | notPositive (target : Float)
  | badAccount (text : String) (cause : Address.ReadError)

/-- The wording of a fault in a ratio. -/
def RatioFault.message : RatioFault → String
  | .shape text => "expected NUM/DEN=TARGET, got " ++ text
  | .badTarget text cause => "invalid target " ++ text ++ ": " ++ cause.message
  | .notPositive target => "ratio target must be positive, got " ++ Decimal.plain target
  | .badAccount text cause => "invalid address " ++ text ++ ": " ++ cause.message

/-- What stands before and after the first occurrence of a character. -/
def splitFirst? (c : Char) : List Char → Option (List Char × List Char)
  | [] => none
  | d :: rest => if c = d then some ([], rest) else (splitFirst? c rest).map fun (a, b) => (d :: a, b)

namespace RatioTarget

/-- Splits `NUM/DEN=TARGET` into its parts: first at the first equals sign, then at the first slash
before it. -/
def split? (text : List Char) : Option (List Char × List Char × List Char) := do
  let (accounts, target) ← splitFirst? '=' text
  let (numerator, denominator) ← splitFirst? '/' accounts
  some (numerator, denominator, target)

/-- A text without the blanks around it. -/
def trimmed (text : List Char) : String := String.ofList (trimBlanks text)

/-- Reads one of the two accounts. -/
def readAccount (text : List Char) : Except RatioFault Address :=
  (Address.read (trimmed text)).mapError (.badAccount (String.ofList text))

/-- Reads a target, which must be positive and finite. -/
def readTarget (text : List Char) : Except RatioFault Float :=
  match Decimal.read (trimmed text) with
  | .error cause => .error (.badTarget (String.ofList text) cause)
  | .ok target => if 0 < target && target.isFinite then .ok target else .error (.notPositive target)

/-- Reads a ratio. The target is looked at before the accounts. -/
def read (text : String) : Except RatioFault RatioTarget :=
  match split? text.toList with
  | none => .error (.shape text)
  | some (numerator, denominator, target) => do
    let target ← readTarget target
    let numerator ← readAccount numerator
    let denominator ← readAccount denominator
    pure { numerator, denominator, target }

/-- The label of a check on the ratio. -/
def label (r : RatioTarget) : String :=
  r.numerator.checksummed ++ "/" ++ r.denominator.checksummed ++ " = " ++ Decimal.plain r.target

end RatioTarget

end Throughput
