import Throughput.Hash.Keccak
import Throughput.Text.Hex
import Throughput.Text.Quoted

/-!
# Addresses, handles and amounts

The words of a ledger have a fixed width and their arithmetic wraps. An address is written in lower
case between programs and with a checksum in its letters where people read it.
-/

namespace Throughput

/-- An account, twenty bytes wide. -/
abbrev Address := BitVec 160

/-- The name of a submission, a digest of thirty-two bytes. -/
abbrev Handle := BitVec 256

/-- An amount of money in the smallest unit. -/
abbrev Amount := BitVec 256

/-- Addresses are ordered as numbers. -/
instance Address.instTransOrd : Std.TransOrd Address := inferInstanceAs (Std.TransOrd (BitVec 160))

/-- Handles are ordered as numbers. -/
instance Handle.instTransOrd : Std.TransOrd Handle := inferInstanceAs (Std.TransOrd (BitVec 256))

/-- A moment of a clock, in nanoseconds since it started. -/
abbrev Instant := Nat

/-- A length of time in nanoseconds. -/
abbrev Duration := Nat

/-- Nanoseconds of a number of milliseconds. -/
def milliseconds (n : Nat) : Duration := n * 1_000_000

/-- Nanoseconds of a number of seconds. -/
def seconds (n : Nat) : Duration := n * 1_000_000_000

/-- The last `count` bytes of a number, the highest first. -/
def bytesOfNat (count n : Nat) : List UInt8 :=
  (List.range count).reverse.map fun i => (n / Nat.pow 256 i).toUInt8

/-- The number that bytes stand for, the highest first. -/
def natOfBytes (bytes : List UInt8) : Nat := bytes.foldl (fun n b => 256 * n + b.toNat) 0

/-- Keccak-256 as a word. -/
def keccak256 (message : List UInt8) : Handle :=
  BitVec.ofNat 256 (natOfBytes (Keccak.digest message))

namespace Address

/-- The bytes of an address, the highest first. -/
def bytes (a : Address) : List UInt8 := bytesOfNat 20 a.toNat

/-- The forty digits of an address in lower case. -/
def digits (a : Address) : List Char := Hex.fixed 40 a.toNat

/-- The form in lower case. -/
def lower (a : Address) : String := String.ofList ('0' :: 'x' :: digits a)

/-- The checksummed form: a letter is a capital where the same digit of the digest of the lower-case
digits is eight or more. -/
def checksummed (a : Address) : String :=
  let plain := digits a
  let marks := Hex.fixed 64 (keccak256 (plain.map fun c => c.toNat.toUInt8)).toNat
  let mark (c m : Char) := if (Hex.value? m).getD 0 < 8 then c else c.toUpper
  String.ofList ('0' :: 'x' :: List.zipWith mark plain marks)

/-- Why a text is no address. -/
inductive ReadError where
  | oddLength
  | wrongLength
  | badDigit (byte position : Nat)
deriving DecidableEq, Repr

/-- The wording of a reading error. -/
def ReadError.message : ReadError → String
  | .oddLength => "odd number of digits"
  | .wrongLength => "invalid string length"
  | .badDigit byte position =>
    "invalid character " ++ quotedLatin byte ++ " at position " ++ toString position

/-- The part after a leading `0x` or `0X`. -/
def withoutMark : List UInt8 → List UInt8
  | 48 :: x :: rest => if x = 120 ∨ x = 88 then rest else 48 :: x :: rest
  | bytes => bytes

/-- Reads digits until one is none, counting their positions. -/
def readDigits (position value : Nat) : List UInt8 → Except ReadError Nat
  | [] => .ok value
  | b :: rest =>
    match Hex.value? (Char.ofNat b.toNat) with
    | some d => readDigits (position + 1) (16 * value + d) rest
    | none => .error (.badDigit b.toNat position)

/-- Reads forty digits of either case after an optional mark; the checksum is not looked at. -/
def read (text : String) : Except ReadError Address :=
  let all := text.toUTF8.toList
  let digits := withoutMark all
  if all.length % 2 = 1 then .error .oddLength
  else if digits.length ≠ 40 then .error .wrongLength
  else (readDigits 0 0 digits).map (BitVec.ofNat 160)

end Address

/-- A word of 256 bits as its sixty-four digits. -/
def wordText (w : BitVec 256) : String := String.ofList ('0' :: 'x' :: Hex.fixed 64 w.toNat)

/-- A number as digits without leading zeros. -/
def quantityText (n : Nat) : String := String.ofList ('0' :: 'x' :: Hex.minimal n)

end Throughput
