import Throughput.Json.Basic
import Throughput.Number.Decimal
import Throughput.Text.Clip

/-!
# Reading JSON

The text is cut into tokens, and the tokens drive a stack of open arrays and objects. A text is
refused either because it breaks the grammar or because it ends too early; of several faults the
first one counts.
-/

namespace Throughput.Json

/-- Why a text is no JSON. -/
inductive Fault where
  /-- The grammar is broken. -/
  | malformed
  /-- The text ends too early. -/
  | incomplete
deriving DecidableEq, Repr

/-- A token. What cannot be read to its end is kept with its fault, since it only counts where a value
or, for a string, a name is expected. -/
inductive Token where
  | openArray
  | closeArray
  | openObject
  | closeObject
  | comma
  | colon
  | string (text : String)
  | scalar (value : Json)
  | broken (isString : Bool) (fault : Fault)

/-- The four kinds of white space. -/
def isSpace (c : Char) : Bool := c == ' ' || c == '\n' || c == '\t' || c == '\r'

/-- The value of four digits. -/
def hexFour? (a b c d : Char) : Option Nat := Hex.toNat? [a, b, c, d]

/-- What is wrong with a code unit whose digits are not there: too few bytes are left, or enough. -/
def unitFault (rest : List Char) : Fault :=
  if utf8Bytes (rest.take 4) < 4 then .incomplete else .malformed

/-- The character of an escape of one letter. -/
def escaped? (c : Char) : Option Char :=
  if c = '"' then some '"'
  else if c = '\\' then some '\\'
  else if c = '/' then some '/'
  else if c = 'b' then some (Char.ofNat 8)
  else if c = 'f' then some (Char.ofNat 12)
  else if c = 'n' then some '\n'
  else if c = 'r' then some '\r'
  else if c = 't' then some '\t'
  else none

/-- Is the number a leading surrogate? -/
def isLeading (n : Nat) : Bool := 0xd800 ≤ n && n < 0xdc00

/-- Is the number a trailing surrogate? -/
def isTrailing (n : Nat) : Bool := 0xdc00 ≤ n && n < 0xe000

/-- What is wrong with the text after a leading surrogate that no trailing one follows. -/
def pairFault : List Char → Fault
  | [] => .incomplete
  | '\\' :: [] => .incomplete
  | '\\' :: 'u' :: rest => unitFault rest
  | _ => .malformed

/-- Reads a string after its opening quote. -/
def readString (read : List Char) : List Char → Except Fault (String × List Char)
  | [] => .error .incomplete
  | '"' :: rest => .ok (String.ofList read.reverse, rest)
  | '\\' :: 'u' :: a :: b :: c :: d :: '\\' :: 'u' :: e :: f :: g :: h :: rest =>
    match hexFour? a b c d with
    | none => .error (unitFault [a, b, c, d])
    | some n =>
      if isTrailing n then .error .malformed
      else if isLeading n then
        match hexFour? e f g h with
        | some m =>
          if isTrailing m then
            readString (Char.ofNat (0x10000 + (n - 0xd800) * 0x400 + (m - 0xdc00)) :: read) rest
          else .error .malformed
        | none => .error (unitFault [e, f, g, h])
      else readString (Char.ofNat n :: read) ('\\' :: 'u' :: e :: f :: g :: h :: rest)
  | '\\' :: 'u' :: a :: b :: c :: d :: rest =>
    match hexFour? a b c d with
    | none => .error (unitFault [a, b, c, d])
    | some n =>
      if isTrailing n then .error .malformed
      else if isLeading n then .error (pairFault rest)
      else readString (Char.ofNat n :: read) rest
  | '\\' :: 'u' :: rest => .error (unitFault rest)
  | '\\' :: c :: rest =>
    match escaped? c with
    | some e => readString (e :: read) rest
    | none => .error .malformed
  | '\\' :: [] => .error .incomplete
  | c :: rest => if c.toNat < 0x20 then .error .malformed else readString (c :: read) rest
termination_by text => text.length

/-- Digits that must be there. -/
def readDigits (text : List Char) : Except Fault (List Char × List Char) :=
  match text.takeWhile Char.isDigit, text.dropWhile Char.isDigit with
  | [], [] => .error .incomplete
  | [], _ :: _ => .error .malformed
  | digits, rest => .ok (digits, rest)

/-- The digits before the point: zero alone, or digits that do not start with it. -/
def readWhole (text : List Char) : Except Fault (List Char × List Char) := do
  let (digits, rest) ← readDigits text
  match digits with
  | '0' :: _ :: _ => throw .malformed
  | _ => pure (digits, rest)

/-- The digits after a point, if there is one. -/
def readFraction : List Char → Except Fault (List Char × List Char)
  | '.' :: rest => readDigits rest
  | rest => .ok ([], rest)

/-- The exponent, if there is one. -/
def readPower : List Char → Except Fault (Option Int × List Char)
  | [] => .ok (none, [])
  | c :: rest =>
    if c = 'e' ∨ c = 'E' then do
      let (negative, rest) := Decimal.takeSign rest
      let (digits, rest) ← readDigits rest
      let value : Int := Decimal.digitsValue digits
      pure (some (if negative then -value else value), rest)
    else .ok (none, c :: rest)

/-- Reads a number. An integer that fits into 64 bits, signed or not, stays exact; any other number is
rounded to a finite binary64 number. -/
def readNumber (text : List Char) : Except Fault (Json × List Char) := do
  let (negative, rest) := match text with
    | '-' :: rest => (true, rest)
    | _ => (false, text)
  let (whole, rest) ← readWhole rest
  let (fraction, rest) ← readFraction rest
  let (power, rest) ← readPower rest
  let magnitude := Decimal.digitsValue whole
  let isInteger := fraction.isEmpty && power.isNone
  if isInteger && !negative && magnitude < UInt64.size then pure (.integer magnitude, rest)
  else if isInteger && negative && 0 < magnitude && magnitude ≤ Nat.pow 2 63 then
    pure (.integer (-magnitude), rest)
  else
    let value := Decimal.nearest (Decimal.digitsValue (whole ++ fraction))
      (power.getD 0 - fraction.length)
    if value.isFinite then pure (.number (if negative then -value else value), rest)
    else throw .malformed

/-- Reads the letters of a word that stands for a value. -/
def readWord (value : Json) : List Char → List Char → Except Fault (Json × List Char)
  | [], rest => .ok (value, rest)
  | _ :: _, [] => .error .incomplete
  | w :: word, c :: rest => if c = w then readWord value word rest else .error .malformed

/-- The token at the start of a text, and the rest. -/
def nextToken (c : Char) (rest : List Char) : Token × List Char :=
  let scalar (result : Except Fault (Json × List Char)) : Token × List Char :=
    match result with
    | .ok (value, rest) => (.scalar value, rest)
    | .error fault => (.broken false fault, [])
  if c = '[' then (.openArray, rest)
  else if c = ']' then (.closeArray, rest)
  else if c.toNat = 0x7b then (.openObject, rest)
  else if c.toNat = 0x7d then (.closeObject, rest)
  else if c = ',' then (.comma, rest)
  else if c = ':' then (.colon, rest)
  else if c = '"' then
    match readString [] rest with
    | .ok (text, rest) => (.string text, rest)
    | .error fault => (.broken true fault, [])
  else if c = 't' then scalar (readWord (.bool true) "rue".toList rest)
  else if c = 'f' then scalar (readWord (.bool false) "alse".toList rest)
  else if c = 'n' then scalar (readWord .null "ull".toList rest)
  else if c = '-' ∨ c.isDigit then scalar (readNumber (c :: rest))
  else (.broken false .malformed, [])

/-- Cuts a text into tokens. A token has at least one character, so as many steps as characters are
enough. -/
def tokens : Nat → List Char → List Token
  | 0, _ => []
  | _, [] => []
  | steps + 1, c :: rest =>
    if isSpace c then tokens steps rest
    else
      let (token, rest) := nextToken c rest
      token :: tokens steps rest

/-- An array or object that is still open; what it holds so far comes in reverse. An object also holds
the name of the member being read. -/
inductive Frame where
  | array (items : List Json)
  | object (members : List (String × Json)) (name : String)

/-- What may come next. -/
inductive Expect where
  | value
  | itemOrEnd
  | name
  | nameOrEnd
  | colon
  | separator
  | nothing

/-- A reader between two tokens. -/
structure State where
  frames : List Frame := []
  expect : Expect := .value
  result : Json := .null

/-- How many arrays and objects may be open at once. -/
def maxDepth : Nat := 127

/-- Puts a complete value where it belongs. -/
def State.complete (value : Json) (s : State) : State :=
  match s.frames with
  | [] => { s with expect := .nothing, result := value }
  | .array items :: outer => { s with frames := .array (value :: items) :: outer, expect := .separator }
  | .object members name :: outer =>
    { s with frames := .object ((name, value) :: members) name :: outer, expect := .separator }

/-- Opens an array or object. -/
def State.enter (frame : Frame) (expect : Expect) (s : State) : Except Fault State :=
  if s.frames.length < maxDepth then .ok { s with frames := frame :: s.frames, expect }
  else .error .malformed

/-- Closes the innermost array or object. -/
def State.close (isArray : Bool) (s : State) : Except Fault State :=
  match s.frames, isArray with
  | .array items :: outer, true => .ok ({ s with frames := outer }.complete (.array items.reverse))
  | .object members _ :: outer, false =>
    .ok ({ s with frames := outer }.complete (.object members.reverse))
  | _, _ => .error .malformed

/-- Takes the start of a value. -/
def State.takeValue (token : Token) (s : State) : Except Fault State :=
  match token with
  | .openArray => s.enter (.array []) .itemOrEnd
  | .openObject => s.enter (.object [] "") .nameOrEnd
  | .string text => .ok (s.complete (.string text))
  | .scalar value => .ok (s.complete value)
  | .broken _ fault => .error fault
  | _ => .error .malformed

/-- Takes the name of a member. -/
def State.takeName (token : Token) (s : State) : Except Fault State :=
  match token, s.frames with
  | .string text, .object members _ :: outer =>
    .ok { s with frames := .object members text :: outer, expect := .colon }
  | .broken true fault, _ => .error fault
  | _, _ => .error .malformed

/-- Takes what stands after a value inside an array or object. -/
def State.takeSeparator (token : Token) (s : State) : Except Fault State :=
  match token, s.frames with
  | .comma, .array _ :: _ => .ok { s with expect := .value }
  | .comma, .object _ _ :: _ => .ok { s with expect := .name }
  | .closeArray, _ => s.close true
  | .closeObject, _ => s.close false
  | _, _ => .error .malformed

/-- Takes one token. -/
def State.take (s : State) (token : Token) : Except Fault State :=
  match s.expect with
  | .value => s.takeValue token
  | .itemOrEnd => match token with
    | .closeArray => s.close true
    | _ => s.takeValue token
  | .name => s.takeName token
  | .nameOrEnd => match token with
    | .closeObject => s.close false
    | _ => s.takeName token
  | .colon => match token with
    | .colon => .ok { s with expect := .value }
    | _ => .error .malformed
  | .separator => s.takeSeparator token
  | .nothing => .error .malformed

/-- Takes tokens up to the end of the first value; the tokens after it are left. -/
def readValue : List Token → State → Except Fault (Json × List Token)
  | [], s =>
    match s.expect with
    | .nothing => .ok (s.result, [])
    | _ => .error .incomplete
  | token :: rest, s =>
    match s.expect with
    | .nothing => .ok (s.result, token :: rest)
    | _ => do readValue rest (← s.take token)

/-- Reads the first value of a text. Says also whether nothing follows it. -/
def readFirst (text : String) : Except Fault (Json × Bool) := do
  let chars := text.toList
  let (value, rest) ← readValue (tokens chars.length chars) {}
  pure (value, rest.isEmpty)

/-- Reads a text that holds one value. -/
def read (text : String) : Except Fault Json := do
  let (value, isAll) ← readFirst text
  if isAll then pure value else throw .malformed

end Throughput.Json
