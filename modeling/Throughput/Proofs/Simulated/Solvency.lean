import Throughput.Proofs.Simulated.Value

/-!
# Who can pay for a transfer

The cost of a transfer is a sum of two words, and the sum wraps. A transfer that succeeds was covered
as long as its cost fits into a word; one whose cost does not fit succeeds with less than it costs, and
its recipient is credited with money that its sender did not have.
-/

namespace Throughput.Simulated

namespace Config

/-- What a transfer costs its sender, as a number. -/
def cost (c : Config) (t : Transfer) : Nat := t.value.toNat + c.fee.toNat

variable {c : Config} {sender : Address} {t : Transfer} {accounts : Accounts}

theorem toNat_add_fee (c : Config) (t : Transfer) :
    (t.value + c.fee).toNat = c.cost t % 2 ^ 256 :=
  BitVec.toNat_add ..

/-- What has to be covered is what is left of the cost in a word. -/
theorem covers_iff :
    c.covers sender t accounts ↔ c.cost t % 2 ^ 256 ≤ (accounts.find sender).balance.toNat := by
  unfold covers
  rw [decide_eq_true_iff, BitVec.le_def, toNat_add_fee]

/-- What a transfer takes from its sender: the cost as a word, or the fee as far as the balance goes. -/
def paid (c : Config) (sender : Address) (t : Transfer) (accounts : Accounts) : Nat :=
  if c.covers sender t accounts then c.cost t % 2 ^ 256
  else min c.fee.toNat (accounts.find sender).balance.toNat

/-- The balance of a sender is lowered by what is taken and never below zero. -/
theorem balance_debit_add_paid :
    ((c.debit sender t accounts).find sender).balance.toNat + c.paid sender t accounts =
      (accounts.find sender).balance.toNat := by
  unfold debit paid
  dsimp only
  rw [Accounts.find_insert, if_pos rfl]
  split
  · rename_i hcovers
    have hle := covers_iff.mp hcovers
    rw [← toNat_add_fee] at hle ⊢
    have hbalance := BitVec.toNat_sub_of_le (BitVec.le_def.mpr hle)
    dsimp only
    omega
  · have hbalance := toNat_subtractOrZero (accounts.find sender).balance c.fee
    dsimp only
    omega

theorem paid_of_fits (hcovers : c.covers sender t accounts) (hfits : c.cost t < 2 ^ 256) :
    c.paid sender t accounts = c.cost t := by
  unfold paid
  rw [if_pos hcovers, Nat.mod_eq_of_lt hfits]

/-- A cost that does not fit comes round once. -/
theorem paid_of_wraps (hcovers : c.covers sender t accounts) (hwraps : 2 ^ 256 ≤ c.cost t) :
    c.paid sender t accounts + 2 ^ 256 = c.cost t := by
  have hvalue := t.value.isLt
  have hfee := c.fee.isLt
  have htwice : c.cost t < 2 ^ 256 + 2 ^ 256 := Nat.add_lt_add hvalue hfee
  unfold paid
  rw [if_pos hcovers, Nat.mod_eq_sub_mod hwraps, Nat.mod_eq_of_lt (by omega),
    Nat.sub_add_cancel hwraps]

/-- The moments of a log are its transfers in their order. -/
theorem map_fst_moments (c : Config) (log : List Executed) (start : Accounts) :
    (c.moments log start).map Prod.fst = log := by
  induction log generalizing start with
  | nil => rfl
  | cons x log ih => exact congrArg (x :: ·) (ih _)

end Config

/-- Whatever clients do, an executed transfer succeeds just if its sender has what a word keeps of value
and fee together. Where their sum fits into a word, a sender whose transfer succeeds had value and fee,
and they have been taken from it; so its recipient is credited with money that the sender had. Where the
sum does not fit, the sender had less, and what comes round was left to it. What is taken from a sender
never exceeds its balance. -/
theorem play_solvent (c : Config) (accounts : List (Address × Account)) (script : Script) :
    let start := (State.genesis c accounts).chain.accounts
    let h := play c script (.genesis c accounts)
    let moments := c.moments h.executed start
    moments.map Prod.fst = h.executed ∧ h.state.chain.accounts = c.replay h.executed start ∧
    ∀ x found, (x, found) ∈ moments →
      let balance := (found.find x.sender).balance.toNat
      let cost := x.transfer.value.toNat + c.fee.toNat
      let left := ((c.debit x.sender x.transfer found).find x.sender).balance.toNat
      (x.succeeded ↔ cost % 2 ^ 256 ≤ balance) ∧
      (x.succeeded → cost < 2 ^ 256 →
        cost ≤ balance ∧ x.transfer.value.toNat ≤ balance ∧ left + cost = balance) ∧
      (x.succeeded → 2 ^ 256 ≤ cost → balance < cost ∧ left + cost = balance + 2 ^ 256) ∧
      left ≤ balance := by
  intro start h moments
  obtain ⟨haccounts, hrecords⟩ := play_follows c script (.genesis c accounts)
  refine ⟨c.map_fst_moments _ _, haccounts, fun x found hx => ?_⟩
  intro balance cost left
  have hsucceeded : x.succeeded = c.covers x.sender x.transfer found := by
    rw [hrecords (x, found) hx, Config.execute_eq]
  have hleft : left + c.paid x.sender x.transfer found = balance := Config.balance_debit_add_paid
  have hword : balance < 2 ^ 256 := (found.find x.sender).balance.isLt
  have hvalue : x.transfer.value.toNat ≤ cost := Nat.le_add_right ..
  rw [hsucceeded]
  refine ⟨Config.covers_iff, fun hcovers hfits => ?_, fun hcovers hwraps => ?_, by omega⟩
  · have hpaid : c.paid x.sender x.transfer found = cost := Config.paid_of_fits hcovers hfits
    omega
  · have hpaid : c.paid x.sender x.transfer found + 2 ^ 256 = cost :=
      Config.paid_of_wraps hcovers hwraps
    omega

/-- One unit of gas costs one unit of money. -/
def Config.ofUnit : Config := { gasPrice := 1 }

/-- An account without money sends all the money that a word holds less a fee. -/
def Script.overdrawn : Script :=
  [(0, .settle ⟨1, 2, BitVec.ofNat 256 (2 ^ 256 - 21000), 21000, 0, none⟩), (seconds 1, .ask .included)]

/-- The transfer succeeds, and the recipient has the money. -/
theorem play_solvent_overdrawn :
    let start := (State.genesis .ofUnit []).chain.accounts
    let h := play .ofUnit .overdrawn (.genesis .ofUnit [])
    h.executed.map (·.succeeded) = [true] ∧ (start.find 1).balance = 0 ∧
      (h.state.chain.accounts.find 2).balance.toNat = 2 ^ 256 - 21000 ∧
      ∀ x ∈ h.executed, ∃ found, (x, found) ∈ Config.ofUnit.moments h.executed start ∧
        (found.find x.sender).balance.toNat < x.transfer.value.toNat + Config.ofUnit.fee.toNat := by
  intro start h
  have hsucceeded : h.executed.map (·.succeeded) = [true] := by decide +kernel
  have hwraps : ∀ x ∈ h.executed,
      x.succeeded ∧ 2 ^ 256 ≤ x.transfer.value.toNat + Config.ofUnit.fee.toNat := by decide +kernel
  have hbalance : (h.state.chain.accounts.find 2).balance.toNat = 2 ^ 256 - 21000 := by
    decide +kernel
  obtain ⟨hlog, -, hmoments⟩ := play_solvent .ofUnit [] .overdrawn
  refine ⟨hsucceeded, by decide +kernel, hbalance, fun x hx => ?_⟩
  have hfound : x ∈ (Config.ofUnit.moments h.executed start).map Prod.fst := by rwa [hlog]
  obtain ⟨⟨y, found⟩, hmem, rfl⟩ := List.mem_map.mp hfound
  exact ⟨found, hmem, ((hmoments y found hmem).2.2.1 (hwraps y hx).1 (hwraps y hx).2).1⟩

end Throughput.Simulated
