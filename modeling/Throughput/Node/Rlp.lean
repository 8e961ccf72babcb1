import Throughput.Word

/-!
# Recursive length encoding

An item is a string of bytes or a list of items. Each is written behind its length; a single byte below
128 stands for itself.
-/

namespace Throughput

/-- An item. -/
inductive Rlp where
  | bytes (content : List UInt8)
  | list (items : List Rlp)

namespace Rlp

/-- The fewest bytes of a number, the highest first; zero has none. -/
def minimalBytes (n : Nat) : List UInt8 := bytesOfNat ((n.log2 + 8) / 8) n |>.dropWhile (· == 0)

/-- A number as an item. -/
def nat (n : Nat) : Rlp := .bytes (minimalBytes n)

/-- The bytes in front of a content of some length. -/
def header (offset length : Nat) : List UInt8 :=
  if length < 56 then [(offset + length).toUInt8]
  else
    let size := minimalBytes length
    (offset + 55 + size.length).toUInt8 :: size

/-- The written form of a string of bytes. -/
def encodeBytes (content : List UInt8) : List UInt8 :=
  match content with
  | [b] => if b < 0x80 then [b] else header 0x80 1 ++ [b]
  | _ => header 0x80 content.length ++ content

mutual

/-- The written form of an item. -/
def encode : Rlp → List UInt8
  | .bytes content => encodeBytes content
  | .list items =>
    let content := encodeAll items
    header 0xc0 content.length ++ content

/-- The written forms of items, one after the other. -/
def encodeAll : List Rlp → List UInt8
  | [] => []
  | item :: rest => encode item ++ encodeAll rest

end

end Rlp

end Throughput
