import Throughput.Text.Hex

/-!
# A byte shown as a quoted character

A byte that an address text should not hold is shown as the character of that code point between
apostrophes, escaped where it would not be visible.
-/

namespace Throughput

private def apostrophe : Char := Char.ofNat 39

/-- Code points below 256 that leave a visible mark or are the plain space. -/
def isVisibleLatin (n : Nat) : Bool :=
  (0x20 ≤ n && n < 0x7f) || (0xa1 ≤ n && n ≤ 0xff && n != 0xad)

/-- The escaped form of one code point below 256. -/
def escapedLatin (n : Nat) : String :=
  if n = 0 then "\\0"
  else if n = 9 then "\\t"
  else if n = 10 then "\\n"
  else if n = 13 then "\\r"
  else if n = 39 then "\\" ++ String.singleton apostrophe
  else if n = 92 then "\\\\"
  else if isVisibleLatin n then String.singleton (Char.ofNat n)
  else "\\u\x7b" ++ String.ofList (Hex.minimal n) ++ "\x7d"

/-- The quoted form of one code point below 256. -/
def quotedLatin (n : Nat) : String :=
  String.singleton apostrophe ++ escapedLatin n ++ String.singleton apostrophe

end Throughput
