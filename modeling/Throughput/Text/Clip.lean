/-!
# Cutting text to a number of bytes

A text is cut between characters, never inside one.
-/

namespace Throughput

/-- The UTF-8 bytes of a list of characters. -/
def utf8Bytes (text : List Char) : Nat := text.foldr (·.utf8Size + ·) 0

/-- The longest start of a text whose UTF-8 form has at most `limit` bytes. -/
def clip : Nat → List Char → List Char
  | _, [] => []
  | limit, c :: rest =>
    if c.utf8Size ≤ limit then c :: clip (limit - c.utf8Size) rest else []

end Throughput
