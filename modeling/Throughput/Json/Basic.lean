import Throughput.Text.Hex

/-!
# JSON values

Members of an object keep their order, and a name may come twice. Integers are exact.
-/

namespace Throughput

/-- A JSON value. -/
inductive Json where
  | null
  | bool (value : Bool)
  | integer (value : Int)
  | number (value : Float)
  | string (text : String)
  | array (items : List Json)
  | object (members : List (String × Json))
deriving Inhabited

namespace Json

/-- A natural number as a value. -/
def nat (n : Nat) : Json := .integer n

/-- A value that may be missing. -/
def ofOption (f : α → Json) : Option α → Json
  | some a => f a
  | none => .null

/-- A list of values. -/
def list (f : α → Json) (items : List α) : Json := .array (items.map f)

/-- The values of all members with a name. -/
def membersNamed (members : List (String × Json)) (name : String) : List Json :=
  members.filterMap fun (n, v) => if n == name then some v else none

end Json

end Throughput
