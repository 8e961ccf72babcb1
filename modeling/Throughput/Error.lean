import Throughput.Bounds
import Throughput.Ledger.Error

/-!
# Errors of a run

A run fails before it sends anything, or when its report cannot be delivered. It is stopped where it asks
for what no clock and no list can do.
-/

namespace Throughput

/-- Why a run could not start. -/
inductive SetupError where
  | unreachable (cause : LedgerError)
  | sequenceSeed (account : Address) (cause : LedgerError)
  | balanceSnapshot (account : Address) (cause : LedgerError)
  | invalidConfig (reason : String)
deriving DecidableEq, Repr

namespace SetupError

/-- The ledger error behind a setup error. -/
def cause? : SetupError → Option LedgerError
  | .unreachable cause | .sequenceSeed _ cause | .balanceSnapshot _ cause => some cause
  | .invalidConfig _ => none

/-- The wording of a setup error. -/
def message : SetupError → String
  | .unreachable cause => "ledger unreachable: " ++ cause.message
  | .sequenceSeed account cause =>
    "failed to read starting sequence number of " ++ account.checksummed ++ ": " ++ cause.message
  | .balanceSnapshot account cause =>
    "failed to snapshot balance of " ++ account.checksummed ++ ": " ++ cause.message
  | .invalidConfig reason => "invalid configuration: " ++ reason

end SetupError

/-- Why a report could not be delivered. -/
inductive SinkError where
  /-- The text of the report could not be written. -/
  | encoding (reason : String)
  /-- What follows the text could not be written. -/
  | writing (reason : String)
deriving DecidableEq, Repr

/-- The wording of a delivery error. -/
def SinkError.message : SinkError → String
  | .encoding reason => "failed to encode report: " ++ reason
  | .writing reason => "failed to write report: " ++ reason

/-- Why a run has no report, or none that was delivered. -/
inductive RunError where
  | setup (error : SetupError)
  | sink (error : SinkError)
  /-- A clock was to tick at an interval of zero. -/
  | zeroInterval
  /-- A moment, a length of time or a list was beyond its bounds. -/
  | overflow (what : Overflow)
deriving DecidableEq, Repr

/-- The wording of a run error. -/
def RunError.message : RunError → String
  | .setup error => error.message
  | .sink error => error.message
  | .zeroInterval => "`period` must be non-zero."
  | .overflow what => what.message

end Throughput
