import Throughput.Ledger.Scripted
import Throughput.Node.Endpoint
import Throughput.Run.Benchmark
import Throughput.Run.Delivery
import Throughput.Scenario.Value

/-!
# Parts of a rehearsal

A watch, an estimator, a writer and a node that behave as a list says.
-/

namespace Throughput

/-- A set of handles that grows with the clock, on a ledger; without an instant it is never sealed. -/
def Watch.growing (ledger : Ledger σ) (batches : List (Instant × Array Handle))
    (sealAt : Option Instant) : Watch σ where
  advance _ s := s
  handles now _ :=
    batches.foldl (fun all (since, batch) => if since ≤ now then all ++ batch else all) #[]
  isSealed now _ := sealAt.any (· ≤ now)
  receipt := ledger.receipt

/-- An estimator that answers from a list; the last answer repeats. -/
def Estimator.listed (σ : Type) (primeError : Option LedgerError)
    (consumed : Array (Answer Nat)) : Estimator σ Nat where
  prime _ := fun (s, i) => (primeError, s, i)
  consumed _ := fun (s, i) => ((Scripted.entryAt? consumed i).getD (.ok 0), s, i + 1)

/-- A writer of text that fails to write or to flush for a reason. -/
def Writer.failing (writes flushes : Option String) : Writer String where
  write text written := match writes with
    | some reason => .error reason
    | none => .ok (written ++ text)
  flush written := match flushes with
    | some reason => .error reason
    | none => .ok written

namespace Endpoint

/-- The methods that were called with their parameters, the last first. -/
abbrev Requests := List (String × Json)

/-- The answer that one entry of a list describes. -/
def reply (entry : Json) : RpcAnswer Json :=
  let error := entry.field "error"
  match error.field "code", error.field "message", entry.field "status", entry.field "body" with
  | .integer code, .string message, _, _ => .error (.failed code message)
  | _, _, .integer code, .string body => .error (.status code.toNat body)
  | _, _, .integer code, _ => .error (.status code.toNat "")
  | _, _, _, _ => .ok (entry.field "result")

/-- A node that answers each method from its list; the last answer repeats. -/
def scripted (answers : Json) : Endpoint Requests where
  call method parameters log :=
    let entries := match answers.field method with
      | .array entries => entries.toArray
      | _ => #[]
    let answer := (Scripted.entryAt? entries (log.countP (·.1 == method))).map reply
    (answer.getD (.error (.failed (-32601) "method not found")),
      (method, .ofOption .array parameters) :: log)

end Endpoint

end Throughput
