import Throughput.Number.Binary64

/-!
# Decimal text of binary64 numbers

Three written forms share one digit generator. The plain form never has an exponent, the JSON form
has one outside `1e-5 ≤ x < 1e16`, and the fixed form has a given number of places. The reader
takes the usual literals and rounds to the nearest number.
-/

namespace Throughput.Decimal

/-- Which of two equally near decimals of the same length is written. -/
inductive Tie where
  | up
  | even
deriving DecidableEq, Repr

/-- `digits * 10 ^ exponent`, with the first digit not zero unless the value is. -/
structure Scaled where
  digits : Nat
  exponent : Int
deriving DecidableEq, Repr

/-- Multiplies a fraction by a power of ten. -/
def timesPowerOfTen (num den : Nat) (k : Int) : Nat × Nat :=
  if 0 ≤ k then (num * Nat.pow 10 k.toNat, den) else (num, den * Nat.pow 10 (-k).toNat)

/-- The largest `p ≤ guess + fuel` with `10 ^ p ≤ num / den`, when `10 ^ guess` is not above it. -/
def leadingPlace (num den : Nat) (guess : Int) : Nat → Int
  | 0 => guess
  | fuel + 1 =>
    let (n, d) := timesPowerOfTen num den (-(guess + 1))
    if d ≤ n then leadingPlace num den (guess + 1) fuel else guess

/-- The reals that read back as one number: a fraction, its two half gaps over the same denominator,
and whether the ends belong to it. -/
structure Interval where
  num : Nat
  den : Nat
  below : Nat
  above : Nat
  closed : Bool

/-- The interval around `mantissa * 2 ^ exponent`; below a power of two the gap is half as wide. -/
def Interval.around (mantissa : Nat) (exponent : Int) : Interval :=
  let (unit, den) := Binary64.magnitude 1 (exponent - 2)
  let narrow := mantissa = Nat.pow 2 52 ∧ -1074 < exponent
  { num := 4 * mantissa * unit, den, below := if narrow then unit else 2 * unit,
    above := 2 * unit, closed := mantissa % 2 = 0 }

/-- Does a point of the grid of step `10 ^ k` read back as the number? -/
def Interval.contains (i : Interval) (k : Int) (point : Nat) : Bool :=
  let (p, one) := timesPowerOfTen point 1 k
  let lower := (i.num - i.below) * one
  let upper := (i.num + i.above) * one
  let here := p * i.den
  if i.closed then lower ≤ here ∧ here ≤ upper else lower < here ∧ here < upper

/-- The nearest point of the grid of step `10 ^ k` that reads back as the number, if one does. -/
def Interval.nearestOn? (i : Interval) (tie : Tie) (k : Int) : Option Nat :=
  let (n, d) := timesPowerOfTen i.num i.den (-k)
  let low := n / d
  let twice := 2 * (n % d)
  match i.contains k low, i.contains k (low + 1) with
  | false, false => none
  | true, false => some low
  | false, true => some (low + 1)
  | true, true =>
    if twice < d then some low
    else if d < twice then some (low + 1)
    else match tie with
      | .up => some (low + 1)
      | .even => some (low + low % 2)

/-- Tries grids of one digit more each time; seventeen digits always suffice. -/
def Interval.shortest (i : Interval) (tie : Tie) (place : Int) : Nat → Scaled
  | 0 => ⟨(i.num / i.den), 0⟩
  | fuel + 1 =>
    let k := place - (17 - (fuel + 1 : Nat))
    match i.nearestOn? tie k with
    | some digits => ⟨digits, k⟩
    | none => i.shortest tie place fuel

/-- Drops the zeros at the end of the digits. -/
def Scaled.trim (s : Scaled) : Nat → Scaled
  | 0 => s
  | fuel + 1 =>
    if s.digits % 10 = 0 ∧ s.digits ≠ 0 then
      Scaled.trim ⟨s.digits / 10, s.exponent + 1⟩ fuel
    else s

/-- The fewest digits that read back as `mantissa * 2 ^ exponent`, and of those the nearest. -/
def shortest (tie : Tie) (mantissa : Nat) (exponent : Int) : Scaled :=
  if mantissa = 0 then ⟨0, 0⟩
  else
    let (num, den) := Binary64.magnitude mantissa exponent
    let binary : Int := mantissa.log2 + exponent
    let guess := binary * 30103 / 100000 - 2
    let place := leadingPlace num den guess 5
    ((Interval.around mantissa exponent).shortest tie place 17).trim 20

/-- Digits with the point put in, without an exponent; `whole` is written after an integer. -/
def Scaled.positional (s : Scaled) (whole : String) : String :=
  let digits := toString s.digits
  if 0 ≤ s.exponent then digits ++ String.ofList (List.replicate s.exponent.toNat '0') ++ whole
  else
    let places := (-s.exponent).toNat
    let padded := List.replicate (places + 1 - digits.length) '0' ++ digits.toList
    let split := padded.length - places
    String.ofList (padded.take split) ++ "." ++ String.ofList (padded.drop split)

/-- One digit before the point and an exponent without padding. -/
def Scaled.scientific (s : Scaled) : String :=
  match (toString s.digits).toList with
  | [] => ""
  | first :: rest =>
    let point := s.exponent + rest.length
    let fraction := if rest.isEmpty then "" else "." ++ String.ofList rest
    String.singleton first ++ fraction ++ "e" ++ toString point

private def signed (negative : Bool) (text : String) : String :=
  if negative then "-" ++ text else text

/-- The plain form: shortest digits, never an exponent, integers without a point. -/
def plain (x : Float) : String :=
  match Binary64.ofFloat x with
  | .notANumber => "NaN"
  | .infinite negative => signed negative "inf"
  | .finite negative m e => signed negative ((shortest .up m e).positional "")

/-- The JSON form of a finite number: `.0` after integers, an exponent for the very large and small. -/
def json? (x : Float) : Option String :=
  match Binary64.ofFloat x with
  | .finite negative m e =>
    let s := shortest .even m e
    let point : Int := (toString s.digits).length + s.exponent
    let positional := m = 0 ∨ (-5 < point ∧ point ≤ 16)
    some (signed negative (if positional then s.positional ".0" else s.scientific))
  | _ => none

/-- The exact value to the given number of places, a half going to the even neighbour. -/
def fixed (places : Nat) (x : Float) : String :=
  match Binary64.ofFloat x with
  | .notANumber => "NaN"
  | .infinite negative => signed negative "inf"
  | .finite negative m e =>
    let (num, den) := Binary64.magnitude m e
    let units := Binary64.divHalfEven (num * Nat.pow 10 places) den
    signed negative (Scaled.positional ⟨units, -(places : Int)⟩ "")

/-! ## Reading -/

/-- Why a text is no number. -/
inductive ReadError where
  | empty
  | invalid
deriving DecidableEq, Repr

/-- The wording of a reading error. -/
def ReadError.message : ReadError → String
  | .empty => "cannot parse float from empty string"
  | .invalid => "invalid float literal"

/-- The value of a run of decimal digits. -/
def digitsValue (digits : List Char) : Nat :=
  digits.foldl (fun n c => 10 * n + (c.toNat - '0'.toNat)) 0

/-- An optional sign, and whether it was a minus. -/
def takeSign : List Char → Bool × List Char
  | '-' :: rest => (true, rest)
  | '+' :: rest => (false, rest)
  | rest => (false, rest)

/-- The decimal exponent after the digits: none written is zero. -/
def readExponent? : List Char → Option Int
  | [] => some 0
  | c :: rest =>
    if c = 'e' ∨ c = 'E' then
      let (negative, digits) := takeSign rest
      if digits.isEmpty ∨ !digits.all Char.isDigit then none
      else
        let value : Int := digitsValue digits
        some (if negative then -value else value)
    else none

/-- The number `digits * 10 ^ exponent` rounded to nearest. Far outside the range the power of ten is
not computed: the result is infinity or zero by the place of the first digit. -/
def nearest (digits : Nat) (exponent : Int) : Float :=
  let place : Int := (toString digits).length + exponent
  if digits = 0 ∨ place < -400 then 0
  else if 400 < place then 1 / 0
  else if 0 ≤ exponent then Float.ofScientific digits false exponent.toNat
  else Float.ofScientific digits true (-exponent).toNat

/-- Digits with at most one point among them and then an optional exponent. -/
def readUnsigned? (text : List Char) : Option Float :=
  let whole := text.takeWhile Char.isDigit
  let afterWhole := text.dropWhile Char.isDigit
  let (fraction, rest) := match afterWhole with
    | '.' :: r => (r.takeWhile Char.isDigit, r.dropWhile Char.isDigit)
    | r => ([], r)
  if whole.isEmpty ∧ fraction.isEmpty then none
  else (readExponent? rest).map fun e =>
    nearest (digitsValue (whole ++ fraction)) (e - fraction.length)

/-- Reads a decimal literal, `inf`, `infinity` or `nan` in any case, each with an optional sign. -/
def read (text : String) : Except ReadError Float :=
  if text.isEmpty then .error .empty
  else
    let (negative, body) := takeSign text.toList
    let word := String.ofList (body.map Char.toLower)
    let value? :=
      if word = "inf" ∨ word = "infinity" then some (1 / 0 : Float)
      else if word = "nan" then some (0 / 0 : Float)
      else readUnsigned? body
    match value? with
    | some value => .ok (if negative then -value else value)
    | none => .error .invalid

end Throughput.Decimal
