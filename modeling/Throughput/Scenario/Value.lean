import Throughput.Json.Basic
import Throughput.Ledger.Basic
import Throughput.Number.Decimal

/-!
# Values of a scenario

A scenario describes a ledger and a load in JSON, for rehearsals. What is null or left out has a
default. This module reads the values that all parts of a scenario share.
-/

namespace Throughput

/-- What a scenario should have held where it held something else. -/
structure Mismatch where
  expected : String

/-- A value read from a scenario. -/
abbrev Reading := Except Mismatch

namespace Json

/-- Is it null? -/
def isNull : Json → Bool
  | .null => true
  | _ => false

/-- The value of the first member of a name; null if there is none. -/
def field (j : Json) (name : String) : Json :=
  match j with
  | .object members => ((members.find? (·.1 == name)).map (·.2)).getD .null
  | _ => .null

/-- A member that may be left out. -/
def get? (j : Json) (read : Json → Reading α) (name : String) : Reading (Option α) :=
  let value := j.field name
  if value.isNull then pure none else some <$> read value

/-- A member with a default. -/
def getD (j : Json) (read : Json → Reading α) (default : α) (name : String) : Reading α :=
  let value := j.field name
  if value.isNull then pure default else read value

end Json

namespace Scenario

/-- A count. -/
def natOf : Json → Reading Nat
  | .integer n => if n < 0 then throw ⟨"negative number"⟩ else pure n.toNat
  | _ => throw ⟨"number"⟩

/-- A 64-bit word. -/
def wordOf (j : Json) : Reading UInt64 := do pure (← natOf j).toUInt64

/-- A text. -/
def textOf : Json → Reading String
  | .string s => pure s
  | _ => throw ⟨"string"⟩

/-- A truth value. -/
def boolOf : Json → Reading Bool
  | .bool b => pure b
  | _ => throw ⟨"boolean"⟩

/-- The items of a list; null is the empty list. -/
def itemsOf : Json → Reading (List Json)
  | .array items => pure items
  | .null => pure []
  | _ => throw ⟨"array"⟩

/-- The members of an object; null has none. -/
def membersOf : Json → Reading (List (String × Json))
  | .object members => pure members
  | .null => pure []
  | _ => throw ⟨"object"⟩

/-- A number written as decimal digits in a text. -/
def decimalOf (j : Json) : Reading Nat := do
  match (← textOf j).toNat? with
  | some n => pure n
  | none => throw ⟨"decimal"⟩

/-- An amount as decimal digits. -/
def amountOf (j : Json) : Reading Amount := do pure (BitVec.ofNat 256 (← decimalOf j))

/-- A gas price as decimal digits. -/
def priceOf (j : Json) : Reading (BitVec 128) := do pure (BitVec.ofNat 128 (← decimalOf j))

/-- A number written as text. -/
def floatOf (j : Json) : Reading Float := do
  match Decimal.read (← textOf j) with
  | .ok x => pure x
  | .error e => throw ⟨e.message⟩

/-- An address. -/
def addressOf (j : Json) : Reading Address := do
  match Address.read (← textOf j) with
  | .ok a => pure a
  | .error e => throw ⟨e.message⟩

/-- A handle as marked digits. -/
def handleOf (j : Json) : Reading Handle := do
  match Hex.toNat? ((← textOf j).toList.drop 2) with
  | some n => pure (BitVec.ofNat 256 n)
  | none => throw ⟨"handle"⟩

/-- A duration in milliseconds. -/
def msOf (j : Json) : Reading Duration := do pure (milliseconds (← natOf j))

/-- A list of two values. -/
def pairOf (f : Json → Reading α) (g : Json → Reading β) (j : Json) : Reading (α × β) := do
  match ← itemsOf j with
  | [a, b] => pure (← f a, ← g b)
  | _ => throw ⟨"pair"⟩

/-- A list of values. -/
def listOf (f : Json → Reading α) (j : Json) : Reading (List α) := do (← itemsOf j).mapM f

/-- A ledger error with its kind. -/
def errorOf (j : Json) : Reading LedgerError := do
  let message ← j.getD textOf "" "message"
  match ← textOf (j.field "kind") with
  | "rejected" => pure (.rejected message)
  | "transport" => pure (.transport message)
  | "malformed" => pure (.malformed message)
  | "timeout" =>
    let secs ← j.getD natOf 0 "secs"
    let nanos ← j.getD natOf 0 "nanos"
    pure (.timeout (seconds secs + nanos))
  | "unknown_sender" => pure (.unknownSender (← addressOf (j.field "account")))
  | _ => throw ⟨"known error kind"⟩

/-- An answer: an error under `err`, or a value. -/
def answerOf (f : Json → Reading α) (j : Json) : Reading (Answer α) := do
  let err := j.field "err"
  if err.isNull then .ok <$> f j else .error <$> errorOf err

/-- A transfer; without a recipient it goes back to its sender. -/
def requestOf (j : Json) : Reading Request := do
  let sender ← addressOf (j.field "sender")
  pure {
    sender
    recipient := ← j.getD addressOf sender "recipient"
    value := ← j.getD amountOf 0 "value"
    gasLimit := ← j.getD wordOf 21000 "gas_limit"
    nonce := ← j.getD wordOf 0 "nonce"
    gasPrice := ← j.get? priceOf "gas_price" }

/-- The figures of a block. -/
def blockOf (j : Json) : Reading Block := do
  pure {
    number := ← j.getD wordOf 0 "number"
    timestamp := ← j.getD wordOf 0 "timestamp"
    transactions := ← j.getD wordOf 0 "transaction_count"
    gasUsed := ← j.getD wordOf 0 "gas_used"
    gasLimit := ← j.getD wordOf 0 "gas_limit" }

end Scenario

/-- A member that is a list; null is the empty list. -/
def Json.getList (j : Json) (read : Json → Reading α) (name : String) : Reading (List α) :=
  Scenario.listOf read (j.field name)

end Throughput
