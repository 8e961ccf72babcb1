import Mathlib.Algebra.BigOperators.Group.List.Basic
import Throughput.Proofs.Simulated.Pool

/-!
# Debits, credits and the fee

Accounts are written one at a time, so the money in all of them changes by what is written. The
shares of a fee and what is left to the producer make up the fee.
-/

namespace Throughput.Simulated

theorem toNat_subtractOrZero (x y : Amount) : (subtractOrZero x y).toNat = x.toNat - y.toNat := by
  unfold subtractOrZero
  split
  · rename_i hle
    exact BitVec.toNat_sub_of_le hle
  · rename_i hlt
    have hlt : x.toNat < y.toNat := by simpa [BitVec.le_def] using hlt
    have hnone : x.toNat - y.toNat = 0 := by omega
    exact hnone.symm

namespace Accounts

/-- The money in all accounts. -/
def total (accounts : Accounts) : Nat := (accounts.toList.map (·.2.balance.toNat)).sum

/-- The accounts when credits are made one after the other. -/
def creditAll (accounts : Accounts) (credits : List (Address × Amount)) : Accounts :=
  credits.foldl (fun m (a, amount) => m.credit a amount) accounts

/-- Does no balance outgrow its word when credits are made one after the other? -/
def Holds : List (Address × Amount) → Accounts → Prop
  | [], _ => True
  | (a, amount) :: rest, accounts =>
    (accounts.find a).balance.toNat + amount.toNat < 2 ^ 256 ∧ Holds rest (accounts.credit a amount)

instance : (credits : List (Address × Amount)) → (accounts : Accounts) →
    Decidable (Holds credits accounts)
  | [], _ => .isTrue trivial
  | (a, amount) :: rest, accounts =>
    have := instDecidableHolds rest (accounts.credit a amount)
    inferInstanceAs (Decidable (_ ∧ _))

theorem nodup_toList (accounts : Accounts) : accounts.toList.Nodup := by
  have hdistinct : accounts.toList.Pairwise fun x y => x.1 ≠ y.1 :=
    Std.ExtTreeMap.distinct_keys_toList.imp (by simp)
  exact hdistinct.imp fun hne he => hne (congrArg Prod.fst he)

/-- What an account holds and what all others hold is all there is. -/
theorem total_eq_erase (accounts : Accounts) (a : Address) :
    accounts.total = (accounts.find a).balance.toNat + total (accounts.erase a) := by
  unfold total find
  rw [Std.ExtTreeMap.getD_eq_getD_getElem?]
  cases ha : accounts[a]? with
  | none =>
    -- an account that was never touched holds nothing
    have hgone : accounts.erase a = accounts :=
      Std.ExtTreeMap.ext_getElem? fun b => by
        rw [Std.ExtTreeMap.getElem?_erase]
        split
        · rename_i hb
          rw [← Std.LawfulEqCmp.eq_of_compare hb, ha]
        · rfl
    simp [hgone]
  | some account =>
    have hperm : accounts.toList.Perm ((a, account) :: (accounts.erase a).toList) := by
      have hfree : (a, account) ∉ (accounts.erase a).toList := by
        simp [Std.ExtTreeMap.mem_toList_iff_getElem?_eq_some]
      rw [List.perm_ext_iff_of_nodup accounts.nodup_toList
        (List.nodup_cons.mpr ⟨hfree, nodup_toList _⟩)]
      rintro ⟨b, other⟩
      rw [List.mem_cons, Std.ExtTreeMap.mem_toList_iff_getElem?_eq_some,
        Std.ExtTreeMap.mem_toList_iff_getElem?_eq_some, Std.ExtTreeMap.getElem?_erase, Prod.mk.injEq]
      by_cases hb : a = b
      · subst b
        simp [ha, eq_comm]
      · have hne : b ≠ a := Ne.symm hb
        simp [hb, hne]
    rw [(hperm.map _).sum_eq]
    rfl

/-- Writing one account changes the total by the change of that account. -/
theorem total_insert (accounts : Accounts) (a : Address) (account : Account) :
    total (accounts.insert a account) + (accounts.find a).balance.toNat =
      accounts.total + account.balance.toNat := by
  have hsame : (accounts.insert a account).erase a = accounts.erase a :=
    Std.ExtTreeMap.ext_getElem? fun b => by
      simp only [Std.ExtTreeMap.getElem?_erase, Std.ExtTreeMap.getElem?_insert]
      split <;> rfl
  have hnew := total_eq_erase (accounts.insert a account) a
  have hold := accounts.total_eq_erase a
  rw [find_insert, if_pos rfl, hsame] at hnew
  omega

variable {accounts : Accounts}

theorem total_credit {a : Address} {amount : Amount}
    (h : (accounts.find a).balance.toNat + amount.toNat < 2 ^ 256) :
    (accounts.credit a amount).total = accounts.total + amount.toNat := by
  have hinsert := accounts.total_insert a
    ⟨(accounts.find a).nonce, (accounts.find a).balance + amount⟩
  have hsum : ((accounts.find a).balance + amount).toNat =
      (accounts.find a).balance.toNat + amount.toNat := by
    rw [BitVec.toNat_add]
    exact Nat.mod_eq_of_lt h
  dsimp only at hinsert
  rw [hsum] at hinsert
  unfold credit
  dsimp only
  omega

theorem total_creditAll {credits : List (Address × Amount)} (h : accounts.Holds credits) :
    (accounts.creditAll credits).total = accounts.total + (credits.map (·.2.toNat)).sum := by
  induction credits generalizing accounts with
  | nil => rfl
  | cons credit rest ih =>
    obtain ⟨a, amount⟩ := credit
    obtain ⟨hroom, hrest⟩ := h
    have hfirst := total_credit hroom
    have hall := ih hrest
    change ((accounts.credit a amount).creditAll rest).total = _
    rw [hall, hfirst, List.map_cons, List.sum_cons, Nat.add_assoc]

end Accounts

namespace Config

variable (c : Config)

/-- What the fee split credits, and to whom. -/
def shares : List (Address × Amount) := c.feeSplit.map fun (a, parts) => (a, c.share parts)

/-- What a fee credits: the shares, and what is left to the producer. -/
def feeCredits : List (Address × Amount) :=
  let paid := c.shares.foldl (fun sum (_, share) => sum + share) 0
  c.shares ++ [(c.producer, subtractOrZero c.fee paid)]

theorem payFee_eq (accounts : Accounts) : c.payFee accounts = accounts.creditAll c.feeCredits := by
  unfold Accounts.creditAll feeCredits
  rw [List.foldl_append]
  rfl

theorem toNat_fee : c.fee.toNat = transferGas * c.gasPrice.toNat := by
  have hprice := c.gasPrice.isLt
  unfold fee transferGas
  rw [BitVec.toNat_ofNat]
  omega

/-- A share is exact up to rounding: neither factor is large enough for the product to wrap. -/
theorem toNat_share (parts : UInt32) :
    (c.share parts).toNat = c.fee.toNat * parts.toNat / shareUnit := by
  have hprice := c.gasPrice.isLt
  have hparts := parts.toNat_lt
  have hfee : c.fee.toNat < 2 ^ 143 := by
    rw [toNat_fee, transferGas]
    omega
  have hproduct : c.fee.toNat * parts.toNat < 2 ^ 143 * 2 ^ 32 :=
    Nat.mul_lt_mul'' hfee hparts
  have hwide : 2 ^ 143 * 2 ^ 32 < 2 ^ 256 := by decide
  have hword : parts.toNat % 2 ^ 256 = parts.toNat := by omega
  unfold share
  rw [BitVec.toNat_udiv, BitVec.toNat_mul, BitVec.toNat_ofNat, BitVec.toNat_ofNat, hword,
    Nat.mod_eq_of_lt (by omega)]
  rfl

/-- Rounding down, the shares are no more than their parts of the fee. -/
theorem sum_shares_le :
    shareUnit * (c.shares.map (·.2.toNat)).sum ≤
      c.fee.toNat * (c.feeSplit.map (·.2.toNat)).sum := by
  unfold shares
  induction c.feeSplit with
  | nil => exact Nat.zero_le _
  | cons entry rest ih =>
    have hround := Nat.mul_div_le (c.fee.toNat * entry.2.toNat) shareUnit
    simp only [List.map_cons, List.sum_cons, Nat.mul_add, toNat_share] at ih ⊢
    omega

/-- The sum that the split is paid in does not wrap as long as the exact one does not. -/
theorem toNat_paid (shares : List (Address × Amount)) (start : Amount)
    (h : start.toNat + (shares.map (·.2.toNat)).sum < 2 ^ 256) :
    (shares.foldl (fun sum (_, share) => sum + share) start).toNat =
      start.toNat + (shares.map (·.2.toNat)).sum := by
  induction shares generalizing start with
  | nil => rfl
  | cons share rest ih =>
    rw [List.map_cons, List.sum_cons] at h ⊢
    have hsum : (start + share.2).toNat = start.toNat + share.2.toNat := by
      rw [BitVec.toNat_add]
      apply Nat.mod_eq_of_lt
      omega
    rw [List.foldl_cons, ih (start + share.2) (by omega), hsum]
    omega

variable {c}

/-- A split into no more than the whole pays out the fee, no more and no less. -/
theorem sum_feeCredits (hsplit : (c.feeSplit.map (·.2.toNat)).sum ≤ shareUnit) :
    (c.feeCredits.map (·.2.toNat)).sum = c.fee.toNat := by
  have hshares : (c.shares.map (·.2.toNat)).sum ≤ c.fee.toNat := by
    have hparts := Nat.mul_le_mul_left c.fee.toNat hsplit
    have hrounded := Nat.le_trans c.sum_shares_le hparts
    rw [Nat.mul_comm c.fee.toNat] at hrounded
    exact Nat.le_of_mul_le_mul_left hrounded (by decide)
  have hfee := c.fee.isLt
  have hzero : (0 : Amount).toNat = 0 := rfl
  have hpaid := toNat_paid c.shares 0 (by omega)
  unfold feeCredits
  rw [List.map_append, List.sum_append, List.map_singleton, List.sum_singleton,
    toNat_subtractOrZero, hpaid]
  omega

end Config

end Throughput.Simulated
