import Throughput.Key.Curve
import Throughput.Random.Words
import Throughput.Word

/-!
# Signing keys

A key is a number below the order of the curve and not zero. Its account is named by the digest of its
public point.
-/

namespace Throughput

/-- A secret key. -/
structure SigningKey where
  value : Nat
  value_pos : 0 < value
  value_lt : value < Curve.order
deriving DecidableEq

namespace SigningKey

/-- The key with a value, if the value is in range. -/
def ofNat? (n : Nat) : Option SigningKey :=
  if h : 0 < n ∧ n < Curve.order then some ⟨n, h.1, h.2⟩ else none

/-- The value as thirty-two bytes. -/
def bytes (k : SigningKey) : List UInt8 := bytesOfNat 32 k.value

/-- The account of a key. -/
def address (k : SigningKey) : Address :=
  let (x, y) := (Curve.Point.generator.times k.value 256).coordinates
  (keccak256 (bytesOfNat 32 x ++ bytesOfNat 32 y)).setWidth 160

/-- Reads sixty-four digits of either case after an optional mark. -/
def read? (text : List Char) : Option SigningKey := do
  let digits := match text with
    | '0' :: 'x' :: rest => rest
    | '0' :: 'X' :: rest => rest
    | _ => text
  if digits.length = 64 then ofNat? (← Hex.toNat? digits) else none

/-- Draws a key: the low bytes of thirty-two words. -/
def draw : StateM WordStream (Option SigningKey) := do
  let words ← (List.range 32).mapM fun _ => WordStream.draw
  pure (ofNat? (natOfBytes (words.map (·.toUInt8))))

/-- Draws a number of keys and passes over values out of range, of which there may be as many as there
are attempts to spare. -/
def generateFrom : Nat → Nat → StateM WordStream (List SigningKey)
  | 0, _ => pure []
  | _, 0 => pure []
  | attempts + 1, count + 1 => do
    match ← draw with
    | some key => do
      let others ← generateFrom attempts count
      pure (key :: others)
    | none => generateFrom attempts (count + 1)

/-- The keys of a seed. A value is out of range once in `2 ^ 127` draws. -/
def generate (seed : UInt64) (count : Nat) : List SigningKey :=
  (generateFrom (2 * count + 64) count (.ofSeed seed)).1

end SigningKey

end Throughput
