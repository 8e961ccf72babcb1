import Throughput.Proofs.Simulated.Value

/-!
# What a share of the fee amounts to

An account that is neither the producer nor a party to any transfer has its balance changed by its
shares of the fees alone. Each executed transfer pays them once, reverted or not, and they are rounded
for each transfer.
-/

namespace Throughput.Simulated

/-- What credits give to an account. -/
def received (credits : List (Address × Amount)) (a : Address) : Nat :=
  ((credits.filter (·.1 == a)).map (·.2.toNat)).sum

theorem received_append (credits more : List (Address × Amount)) (a : Address) :
    received (credits ++ more) a = received credits a + received more a := by
  unfold received
  rw [List.filter_append, List.map_append, List.sum_append]

theorem received_singleton {a b : Address} (h : b ≠ a) (amount : Amount) :
    received [(b, amount)] a = 0 := by
  unfold received
  rw [List.filter_cons_of_neg (by simpa using h)]
  rfl

/-- Credits raise a balance by what they give to its account, up to the width of a word. -/
theorem Accounts.balance_creditAll (accounts : Accounts) (credits : List (Address × Amount))
    (a : Address) :
    ((accounts.creditAll credits).find a).balance =
      (accounts.find a).balance + BitVec.ofNat 256 (received credits a) := by
  induction credits generalizing accounts with
  | nil => exact (BitVec.add_zero _).symm
  | cons credit rest ih =>
    obtain ⟨b, amount⟩ := credit
    have hfirst : ((accounts.credit b amount).find a).balance =
        (accounts.find a).balance + BitVec.ofNat 256 (received [(b, amount)] a) := by
      unfold credit
      rw [find_insert]
      by_cases hb : b = a
      · simp [received, hb]
      · rw [received_singleton hb, if_neg hb]
        exact (BitVec.add_zero _).symm
    change (((accounts.credit b amount).creditAll rest).find a).balance = _
    rw [ih, hfirst, BitVec.add_assoc, ← BitVec.ofNat_add, ← received_append]
    rfl

namespace Config

variable (c : Config) {a : Address} {log : List Executed}

/-- What the fee split gives to an account with each transfer. -/
def shareOf (a : Address) : Nat :=
  ((c.feeSplit.filter (·.1 == a)).map fun entry => c.fee.toNat * entry.2.toNat / shareUnit).sum

/-- Is an account neither the producer nor a party to any of the executed transfers? -/
structure IsBystander (a : Address) (log : List Executed) : Prop where
  producer : c.producer ≠ a
  sender : ∀ x ∈ log, x.sender ≠ a
  recipient : ∀ x ∈ log, x.transfer.recipient ≠ a

theorem received_feeCredits (h : c.producer ≠ a) : received c.feeCredits a = c.shareOf a := by
  unfold feeCredits
  rw [received_append, received_singleton h, Nat.add_zero]
  unfold received shares shareOf
  rw [List.filter_map, List.map_map]
  exact congrArg List.sum (List.map_congr_left fun entry _ => c.toNat_share entry.2)

/-- A transfer gives its shares to a bystander, whether it succeeds or not. -/
theorem balance_execute {sender : Address} {t : Transfer} (accounts : Accounts)
    (hproducer : c.producer ≠ a) (hsender : sender ≠ a) (hrecipient : t.recipient ≠ a) :
    ((c.execute sender t accounts).2.find a).balance =
      (accounts.find a).balance + BitVec.ofNat 256 (c.shareOf a) := by
  -- The debit is the sender's alone; what success adds is the credit of the recipient.
  have hdebit : (c.debit sender t accounts).find a = accounts.find a := by
    unfold debit
    dsimp only
    rw [Accounts.find_insert, if_neg hsender]
  have hcredits : received (c.credits sender t accounts) a = c.shareOf a := by
    unfold credits
    split
    · rw [← List.singleton_append, received_append, received_singleton hrecipient, Nat.zero_add,
        c.received_feeCredits hproducer]
    · exact c.received_feeCredits hproducer
  rw [execute_eq]
  dsimp only
  rw [Accounts.balance_creditAll, hdebit, hcredits]

/-- A log of transfers gives a bystander its shares once for each of them. -/
theorem balance_replay (accounts : Accounts) (h : c.IsBystander a log) :
    ((c.replay log accounts).find a).balance =
      (accounts.find a).balance + BitVec.ofNat 256 (log.length * c.shareOf a) := by
  induction log generalizing accounts with
  | nil =>
    rw [List.length_nil, Nat.zero_mul]
    exact (BitVec.add_zero _).symm
  | cons x log ih =>
    have hrest : c.IsBystander a log := ⟨h.producer, fun y hy => h.sender y (List.mem_cons_of_mem _ hy),
      fun y hy => h.recipient y (List.mem_cons_of_mem _ hy)⟩
    have hfirst := c.balance_execute accounts h.producer (h.sender x List.mem_cons_self)
      (h.recipient x List.mem_cons_self)
    change ((c.replay log (c.execute x.sender x.transfer accounts).2).find a).balance = _
    rw [ih _ hrest, hfirst, BitVec.add_assoc, ← BitVec.ofNat_add, List.length_cons, Nat.succ_mul,
      Nat.add_comm (c.shareOf a)]

end Config

variable {c : Config} {a : Address} {script : Script} {s : State}

/-- Whatever clients do, a bystander gains its shares once for each executed transfer. -/
theorem balance_play (h : c.IsBystander a (play c script s).executed) :
    ((play c script s).state.chain.accounts.find a).balance =
      (s.chain.accounts.find a).balance +
        BitVec.ofNat 256 ((play c script s).executed.length * c.shareOf a) := by
  have haccounts : (play c script s).state.chain.accounts =
      c.replay (play c script s).executed s.chain.accounts := (play_follows c script s).1
  rw [haccounts, c.balance_replay _ h]

/-- The same as numbers, where the balance does not outgrow its word. -/
theorem toNat_balance_play (h : c.IsBystander a (play c script s).executed)
    (hfit : (s.chain.accounts.find a).balance.toNat +
      (play c script s).executed.length * c.shareOf a < 2 ^ 256) :
    ((play c script s).state.chain.accounts.find a).balance.toNat =
      (s.chain.accounts.find a).balance.toNat +
        (play c script s).executed.length * c.shareOf a := by
  rw [balance_play h, BitVec.toNat_add, BitVec.toNat_ofNat, Nat.add_mod_mod, Nat.mod_eq_of_lt hfit]

end Throughput.Simulated
