import Throughput.Text.Clip
import Throughput.Text.Span
import Throughput.Word

/-!
# Errors of a ledger and failures of a submission

A ledger call fails for one of five causes. What a failed submission keeps is its kind and a reason
of at most 120 bytes.
-/

namespace Throughput

/-- Why a ledger call failed. -/
inductive LedgerError where
  | rejected (reason : String)
  | transport (reason : String)
  | timeout (limit : Duration)
  | malformed (reason : String)
  | unknownSender (account : Address)
deriving DecidableEq, Repr, Inhabited

/-- The kinds of failure that are counted apart. -/
inductive FailureKind where
  | rejected
  | timedOut
  | transport
  | malformed
deriving DecidableEq, Repr

namespace LedgerError

/-- The wording of an error. -/
def message : LedgerError → String
  | .rejected reason => "rejected by ledger: " ++ reason
  | .transport reason => "transport error: " ++ reason
  | .timeout limit => "timed out after " ++ spanText limit
  | .malformed reason => "malformed request: " ++ reason
  | .unknownSender account => "no signer available for sender " ++ account.checksummed

/-- A sender without a signer counts as a malformed request. -/
def failureKind : LedgerError → FailureKind
  | .rejected _ => .rejected
  | .transport _ => .transport
  | .timeout _ => .timedOut
  | .malformed _ | .unknownSender _ => .malformed

end LedgerError

/-- What is kept of a failed submission. -/
structure Failure where
  kind : FailureKind
  reason : String
deriving DecidableEq, Repr

namespace Failure

/-- The most bytes a reason keeps. -/
def reasonLimit : Nat := 120

/-- A failure whose reason is cut between characters to fit the limit. -/
def of (kind : FailureKind) (reason : String) : Failure :=
  ⟨kind, String.ofList (clip reasonLimit reason.toList)⟩

/-- The failure that a ledger error is recorded as. -/
def ofError (e : LedgerError) : Failure := of e.failureKind e.message

end Failure

end Throughput
