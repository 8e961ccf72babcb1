import Throughput.Number.Decimal
import Throughput.Word

/-!
# Reading whole numbers

A count has decimal digits and an upper bound. An amount may also have digits of another base, after
a mark, and underscores between them. Faults are looked for from left to right.
-/

namespace Throughput

/-- Why a text is no count. -/
inductive CountFault where
  | empty
  | badDigit
  | tooLarge
deriving DecidableEq, Repr

/-- The wording of a fault in a count. -/
def CountFault.message : CountFault → String
  | .empty => "cannot parse integer from empty string"
  | .badDigit => "invalid digit found in string"
  | .tooLarge => "number too large to fit in target type"

/-- Reads digits on top of a value until one is none or the bound is reached. -/
def readCountDigits (bound value : Nat) : List Char → Except CountFault Nat
  | [] => .ok value
  | c :: rest =>
    if c.isDigit then
      let next := 10 * value + (c.toNat - '0'.toNat)
      if next < bound then readCountDigits bound next rest else .error .tooLarge
    else .error .badDigit

/-- Reads a count below a bound; a plus sign may stand in front of its digits. -/
def readCount (bound : Nat) (text : String) : Except CountFault Nat :=
  match text.toList with
  | [] => .error .empty
  | ['+'] => .error .badDigit
  | '+' :: digits => readCountDigits bound 0 digits
  | digits => readCountDigits bound 0 digits

/-- Why a text is no amount. -/
inductive AmountFault where
  | badDigit (c : Char)
  | tooLarge
deriving DecidableEq, Repr

/-- The wording of a fault in an amount. -/
def AmountFault.message : AmountFault → String
  | .badDigit c => "invalid digit: " ++ String.singleton c
  | .tooLarge => "the value is too large to fit the target type"

namespace Amount

/-- The base named by a mark. -/
def base? (c : Char) : Option Nat :=
  if c = 'x' ∨ c = 'X' then some 16
  else if c = 'o' ∨ c = 'O' then some 8
  else if c = 'b' ∨ c = 'B' then some 2
  else none

/-- Splits a mark off. -/
def splitBase : List Char → Nat × List Char
  | '0' :: c :: rest =>
    match base? c with
    | some base => (base, rest)
    | none => (10, '0' :: c :: rest)
  | digits => (10, digits)

/-- Reads digits of a base on top of a value and passes over underscores. -/
def readDigits (base value : Nat) : List Char → Except AmountFault Nat
  | [] => .ok value
  | c :: rest =>
    if c = '_' then readDigits base value rest
    else match Hex.value? c with
      | none => .error (.badDigit c)
      | some d =>
        if base ≤ d then .error (.badDigit c)
        else
          let next := base * value + d
          if next < Nat.pow 2 256 then readDigits base next rest else .error .tooLarge

/-- Reads an amount; no digits at all are zero. -/
def read (text : String) : Except AmountFault Amount :=
  let (base, digits) := splitBase text.toList
  (readDigits base 0 digits).map (BitVec.ofNat 256)

end Amount

end Throughput
