import Throughput.Number.Decimal
import Throughput.Word

/-!
# Checks on balances

A check compares the balances of one or two accounts before and after a run. Amounts are unsigned
words; a change is read both as a signed difference and as a gain.
-/

namespace Throughput

/-- A balance read at some moment. -/
structure Snapshot where
  account : Address
  amount : Amount
deriving DecidableEq, Repr

/-- What a check demands. -/
inductive Expectation where
  /-- The account has gained. -/
  | positive (account : Address)
  /-- The gains of two accounts stand in a ratio near a target. -/
  | ratio (numerator denominator : Address) (target tolerance : Float)

/-- A named demand. -/
structure Check where
  label : String
  expectation : Expectation

namespace Check

/-- The relative tolerance of a ratio unless another is given. -/
def defaultTolerance : Float := 0.10

/-- A check that an account gains. -/
def positive (label : String) (account : Address) : Check := ⟨label, .positive account⟩

/-- A check on the ratio of two gains. -/
def ratio (label : String) (numerator denominator : Address) (target : Float) : Check :=
  ⟨label, .ratio numerator denominator target defaultTolerance⟩

/-- The check with another tolerance, where it has one. -/
def withTolerance (check : Check) (tolerance : Float) : Check :=
  match check.expectation with
  | .positive _ => check
  | .ratio numerator denominator target _ =>
    { check with expectation := .ratio numerator denominator target tolerance }

/-- The accounts whose balances the check reads. -/
def accounts (check : Check) : List Address :=
  match check.expectation with
  | .positive account => [account]
  | .ratio numerator denominator _ _ => [numerator, denominator]

end Check

/-- The balance of one account before and after. -/
structure BalanceDelta where
  before : Amount
  after : Amount
deriving DecidableEq, Repr

namespace BalanceDelta

/-- The change as a signed word. -/
def signed (d : BalanceDelta) : Int := (d.after - d.before).toInt

/-- The change, if the balance grew. -/
def gain (d : BalanceDelta) : Option Amount :=
  if d.before < d.after then some (d.after - d.before) else none

end BalanceDelta

/-- The verdict on a check. -/
structure CheckResult where
  label : String
  passed : Bool
  observed : Option Float
  detail : String

/-- The last snapshot of an account counts. -/
def balanceOf? (snapshots : List Snapshot) (account : Address) : Option Amount :=
  (snapshots.reverse.find? (·.account == account)).map (·.amount)

/-- The change of an account, or which of its balances is missing. -/
def delta (before after : List Snapshot) (account : Address) : Except String BalanceDelta :=
  match balanceOf? before account, balanceOf? after account with
  | none, _ => .error ("no starting balance for " ++ account.checksummed)
  | some _, none => .error ("no final balance for " ++ account.checksummed)
  | some b, some a => .ok ⟨b, a⟩

/-- A signed change as a number, if its magnitude fits into 128 bits. -/
def observedChange (change : Int) : Option Float :=
  if change.natAbs < Nat.pow 2 128 then
    let size := Float.ofNat change.natAbs
    some (if change < 0 then -size else size)
  else none

/-- The places kept of a ratio. -/
def ratioScale : Nat := 1_000_000

/-- The quotient of two gains in millionths, rounded down, if neither step overflows. -/
def scaledRatio (numerator denominator : Amount) : Option Nat :=
  let scaled := numerator.toNat * ratioScale
  let quotient := scaled / denominator.toNat
  if scaled < Nat.pow 2 256 ∧ quotient < Nat.pow 2 128 then some quotient else none

/-- The verdict on two gains: the ratio must lie strictly inside the band around the target. -/
def judgeRatio (label : String) (target tolerance : Float) (numerator denominator : Amount) :
    CheckResult :=
  match scaledRatio numerator denominator with
  | none => ⟨label, false, none, "delta ratio out of range"⟩
  | some scaled =>
    let ratio := Float.ofNat scaled / Float.ofNat ratioScale
    let lower := target * (1 - tolerance)
    let upper := target * (1 + tolerance)
    let detail := "ratio " ++ Decimal.fixed 4 ratio ++ ", expected " ++ Decimal.plain target ++
      " in (" ++ Decimal.fixed 4 lower ++ ", " ++ Decimal.fixed 4 upper ++ ")"
    ⟨label, lower < ratio && ratio < upper, some ratio, detail⟩

/-- The verdict on a check, given the snapshots before and after. -/
def Check.evaluate (check : Check) (before after : List Snapshot) : CheckResult :=
  let missing (reason : String) : CheckResult := ⟨check.label, false, none, reason⟩
  match check.expectation with
  | .positive account =>
    match delta before after account with
    | .error reason => missing reason
    | .ok d =>
      ⟨check.label, d.gain.isSome, observedChange d.signed, "delta " ++ toString d.signed⟩
  | .ratio numerator denominator target tolerance =>
    match delta before after numerator, delta before after denominator with
    | .error reason, _ => missing reason
    | .ok _, .error reason => missing reason
    | .ok n, .ok d =>
      match n.gain, d.gain with
      | _, none => missing ("denominator delta " ++ toString d.signed ++ " is not positive")
      | none, some _ =>
        ⟨check.label, false, some 0,
          "numerator delta " ++ toString n.signed ++ " is not positive"⟩
      | some n, some d => judgeRatio check.label target tolerance n d

/-- The accounts of several checks, each once, in the order they are first named. -/
def checkedAccounts (checks : List Check) : List Address :=
  (checks.flatMap Check.accounts).foldl
    (fun seen a => if seen.contains a then seen else seen ++ [a]) []

/-- The verdicts in the order of the checks. -/
def verify (checks : List Check) (before after : List Snapshot) : List CheckResult :=
  checks.map fun check => check.evaluate before after

end Throughput
