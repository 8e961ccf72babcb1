import Throughput.Text.IpAddress

/-!
# Socket addresses

An address of version 4 or 6 with a port. Reading accepts the usual written forms and writing gives
the shortest one.
-/

namespace Throughput

/-- An address that can be listened on. -/
inductive SocketAddress where
  | v4 (octets : List Nat) (port : Nat)
  | v6 (groups : List Nat) (scope : Nat) (port : Nat)
deriving DecidableEq, Repr

namespace SocketAddress

open IpAddress

/-- Reads a port after its colon, up to the end of the text. -/
def readPort? (text : List Char) : Option Nat := do
  let (port, rest) ← readNumber? 10 65536 (← expect? ':' text)
  if rest.isEmpty then some port else none

/-- Reads an optional scope. -/
def readScope (text : List Char) : Nat × List Char :=
  match expect? '%' text with
  | none => (0, text)
  | some rest => (readNumber? 10 UInt32.size rest).getD (0, text)

/-- Reads `a.b.c.d:port` or `[groups%scope]:port`. -/
def read? (text : String) : Option SocketAddress :=
  match readOctets? text.toList with
  | some (octets, rest) => (readPort? rest).map (.v4 octets)
  | none => do
    let (groups, rest) ← readV6? (← expect? '[' text.toList)
    let (scope, rest) := readScope rest
    (readPort? (← expect? ']' rest)).map (.v6 groups scope)

/-- The shortest form of an address of version 6. An embedded address of version 4 is written as
such. -/
def groupedText (groups : List Nat) : String :=
  match groups with
  | [0, 0, 0, 0, 0, 65535, high, low] =>
    "::ffff:" ++ octetsText [high / 256, high % 256, low / 256, low % 256]
  | _ => v6Text groups

/-- The written form. -/
def text : SocketAddress → String
  | .v4 octets port => octetsText octets ++ ":" ++ toString port
  | .v6 groups scope port =>
    let scopeText := if scope = 0 then "" else "%" ++ toString scope
    "[" ++ groupedText groups ++ scopeText ++ "]:" ++ toString port

end SocketAddress

end Throughput
