import Throughput.Text.Hex

/-!
# Internet addresses

An address of version 4 has four parts below 256, one of version 6 has eight groups below 65536, of
which one run of zeros may be left out.
-/

namespace Throughput.IpAddress

/-- The rest of a text after an expected character. -/
def expect? (c : Char) : List Char → Option (List Char)
  | [] => none
  | d :: rest => if c = d then some rest else none

/-- Reads the digits of a number below a bound in front of a text. -/
def readNumber? (base bound : Nat) (text : List Char) : Option (Nat × List Char) :=
  let isDigit (c : Char) : Bool := (Hex.value? c).any (· < base)
  let digits := text.takeWhile isDigit
  let value := digits.foldl (fun n c => base * n + (Hex.value? c).getD 0) 0
  if !digits.isEmpty && value < bound then some (value, text.dropWhile isDigit) else none

/-- Reads a part of an address of version 4: one to three digits without a leading zero. -/
def readOctet? (text : List Char) : Option (Nat × List Char) := do
  let (value, rest) ← readNumber? 10 256 text
  let length := text.length - rest.length
  if 3 < length ∨ (1 < length ∧ text.head? = some '0') then none else some (value, rest)

/-- Reads the four parts of an address of version 4. -/
def readOctets? (text : List Char) : Option (List Nat × List Char) := do
  let (a, text) ← readOctet? text
  let (b, text) ← readOctet? (← expect? '.' text)
  let (c, text) ← readOctet? (← expect? '.' text)
  let (d, text) ← readOctet? (← expect? '.' text)
  some ([a, b, c, d], text)

/-- Reads a group of an address of version 6: one to four digits. -/
def readGroup? (text : List Char) : Option (Nat × List Char) := do
  let (value, rest) ← readNumber? 16 65536 text
  if 4 < text.length - rest.length then none else some (value, rest)

/-- Reads up to `limit` groups with colons between them. Two groups may be written as an address of
version 4, after which no group follows; says also whether they were. -/
def readGroups (isFirst : Bool) : Nat → List Char → (List Nat × Bool) × List Char
  | 0, text => (([], false), text)
  | limit + 1, text =>
    match if isFirst then some text else expect? ':' text with
    | none => (([], false), text)
    | some start =>
      match if 0 < limit then readOctets? start else none with
      | some ([a, b, c, d], rest) => (([256 * a + b, 256 * c + d], true), rest)
      | _ =>
        match readGroup? start with
        | none => (([], false), text)
        | some (group, rest) =>
          let ((groups, isDotted), rest) := readGroups false limit rest
          ((group :: groups, isDotted), rest)

/-- Reads the eight groups of an address of version 6; two colons stand for one zero group or more. -/
def readV6? (text : List Char) : Option (List Nat × List Char) := do
  let ((head, isDotted), rest) := readGroups true 8 text
  if head.length = 8 then some (head, rest)
  else if isDotted then none
  else
    let rest ← expect? ':' (← expect? ':' rest)
    let ((tail, _), rest) := readGroups true (7 - head.length) rest
    some (head ++ List.replicate (8 - head.length - tail.length) 0 ++ tail, rest)

/-- Start and length of the first longest run of zeros. -/
def longestZeros (groups : List Nat) : Nat × Nat :=
  let run (i : Nat) : Nat := ((groups.drop i).takeWhile (· == 0)).length
  (List.range groups.length).foldl (fun best i => if best.2 < run i then (i, run i) else best) (0, 0)

/-- The parts of an address of version 4 with points between them. -/
def octetsText (octets : List Nat) : String :=
  String.intercalate "." (octets.map toString)

/-- Groups with colons between them. -/
def groupsText (groups : List Nat) : String :=
  String.intercalate ":" (groups.map fun g => String.ofList (Hex.minimal g))

/-- Groups with two colons for the first longest run of two zeros or more. -/
def v6Text (groups : List Nat) : String :=
  let (start, length) := longestZeros groups
  if 1 < length then
    groupsText (groups.take start) ++ "::" ++ groupsText (groups.drop (start + length))
  else groupsText groups

end Throughput.IpAddress
