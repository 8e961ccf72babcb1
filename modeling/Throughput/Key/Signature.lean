import Throughput.Hash.Sha256
import Throughput.Key.Basic

/-!
# Signatures

A digest is signed with a nonce that is drawn from key and digest alone, so that signing is
repeatable. Of the two signatures with a nonce the one with the lower second number is taken.
-/

namespace Throughput

/-- A signature: two numbers, and whether the second coordinate of the nonce point is odd. -/
structure Signature where
  isOdd : Bool
  r : Nat
  s : Nat
deriving DecidableEq, Repr

/-- The state that nonces are drawn from. -/
structure NonceSource where
  key : List UInt8
  value : List UInt8

namespace NonceSource

/-- Stirs data into the state behind a separating byte. -/
def stir (source : NonceSource) (separator : UInt8) (data : List UInt8) : NonceSource :=
  let key := Sha256.keyed source.key (source.value ++ separator :: data)
  ⟨key, Sha256.keyed key source.value⟩

/-- The source for a secret and a digest, both of thirty-two bytes. -/
def start (secret digest : List UInt8) : NonceSource :=
  let source : NonceSource := ⟨List.replicate 32 0, List.replicate 32 1⟩
  (source.stir 0 (secret ++ digest)).stir 1 (secret ++ digest)

/-- Draws until a number is in range. A number is out of range once in `2 ^ 127` draws. -/
def next? (source : NonceSource) : Nat → Option SigningKey
  | 0 => none
  | attempts + 1 =>
    let value := Sha256.keyed source.key source.value
    match SigningKey.ofNat? (natOfBytes value) with
    | some nonce => some nonce
    | none => (stir ⟨source.key, value⟩ 0 []).next? attempts

end NonceSource

namespace SigningKey

/-- The signature of a digest with a nonce, unless one of its numbers is zero. -/
def signWith? (k : SigningKey) (digest : Nat) (nonce : SigningKey) : Option Signature :=
  let (x, y) := (Curve.Point.generator.times nonce.value 256).coordinates
  let r := x % Curve.order
  let s := Curve.inverse Curve.order nonce.value * (digest + r * k.value) % Curve.order
  if r = 0 ∨ s = 0 then none
  else if Curve.order / 2 < s then some ⟨y % 2 = 0, r, Curve.order - s⟩
  else some ⟨y % 2 = 1, r, s⟩

/-- Signs a digest. -/
def sign? (k : SigningKey) (digest : Handle) : Option Signature :=
  let reduced := digest.toNat % Curve.order
  let nonce := (NonceSource.start k.bytes (bytesOfNat 32 reduced)).next? 64
  nonce.bind (k.signWith? reduced)

end SigningKey

end Throughput
