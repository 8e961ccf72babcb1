import Throughput.Json.Printer
import Throughput.Number.Whole

/-!
# Endpoints of nodes

A node answers named methods with values. What it answers instead of a value is a fault.
-/

namespace Throughput

/-- Why a method has no value. -/
inductive RpcFault where
  | failed (code : Int) (message : String)
  | status (code : Nat) (body : String)
  | unsent (url : String)
  | unsupported (url : String)
  | unexpected (value : Json)

/-- The wording of a fault. -/
def RpcFault.message : RpcFault → String
  | .failed code message =>
    "server returned an error response: error code " ++ toString code ++ ": " ++ message
  | .status code body =>
    "HTTP error " ++ toString code ++ " with " ++
      if body.isEmpty then "empty body" else "body: " ++ body
  | .unsent url => "error sending request for url (" ++ url ++ ")"
  | .unsupported url => "builder error for url (" ++ url ++ ")"
  | .unexpected value => "deserialization error: unexpected value\n" ++ value.compact

/-- A value or a fault. -/
abbrev RpcAnswer := Except RpcFault

/-- A node with states of type `σ`. A method without parameters is called with none. -/
structure Endpoint (σ : Type) where
  call : String → Option (List Json) → σ → RpcAnswer Json × σ

namespace Rpc

/-- A number below a bound, as an integer or as the text of one. -/
def quantity (bound : Nat) (value : Json) : RpcAnswer Nat :=
  let number := match value with
    | .integer n => if n < 0 then none else some n.toNat
    | .string text => (Amount.read text).toOption.map (·.toNat)
    | _ => none
  match number with
  | some n => if n < bound then .ok n else .error (.unexpected value)
  | none => .error (.unexpected value)

/-- A number of 64 bits. -/
def word (value : Json) : RpcAnswer UInt64 := (quantity UInt64.size value).map Nat.toUInt64

/-- A digest of thirty-two bytes. -/
def digest (value : Json) : RpcAnswer Handle :=
  match value with
  | .string text =>
    match text.toList with
    | '0' :: 'x' :: digits =>
      match Hex.toNat? digits with
      | some n => if digits.length = 64 then .ok (BitVec.ofNat 256 n) else .error (.unexpected value)
      | none => .error (.unexpected value)
    | _ => .error (.unexpected value)
  | _ => .error (.unexpected value)

/-- The first member of a name. -/
def member (value : Json) (name : String) : RpcAnswer Json :=
  match value with
  | .object members =>
    match Json.membersNamed members name with
    | found :: _ => .ok found
    | [] => .error (.unexpected value)
  | _ => .error (.unexpected value)

/-- A value that may be null. -/
def optional (read : Json → RpcAnswer α) (value : Json) : RpcAnswer (Option α) :=
  match value with
  | .null => .ok none
  | _ => (read value).map some

end Rpc

namespace Endpoint

/-- Calls a method and reads its value. -/
def ask (e : Endpoint σ) (method : String) (parameters : Option (List Json))
    (read : Json → RpcAnswer α) (s : σ) : RpcAnswer α × σ :=
  let (answer, s) := e.call method parameters s
  (answer.bind read, s)

/-- A node that no request reaches. -/
def unreachable (fault : RpcFault) : Endpoint σ where
  call _ _ s := (.error fault, s)

end Endpoint

end Throughput
