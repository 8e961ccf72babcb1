import Throughput.Proofs.Simulated.Books
import Throughput.Proofs.Simulated.Credit

/-!
# The money in a simulated ledger

A transfer moves money and makes none, with one exception: the whole fee of a reverted transfer is
paid out, however little of it the sender could pay.
-/

namespace Throughput.Simulated

namespace Config

variable (c : Config) (sender : Address) (t : Transfer) (accounts : Accounts)

/-- Does the sender have what a transfer and its fee cost? -/
def covers : Bool := t.value + c.fee ≤ (accounts.find sender).balance

/-- What a transfer takes from its sender. -/
def debit : Accounts :=
  let account := accounts.find sender
  accounts.insert sender
    ⟨account.nonce + 1,
      if c.covers sender t accounts then account.balance - (t.value + c.fee)
      else subtractOrZero account.balance c.fee⟩

/-- What a transfer credits, and to whom. -/
def credits : List (Address × Amount) :=
  if c.covers sender t accounts then (t.recipient, t.value) :: c.feeCredits else c.feeCredits

theorem execute_eq :
    c.execute sender t accounts =
      (c.covers sender t accounts,
        (c.debit sender t accounts).creditAll (c.credits sender t accounts)) := by
  unfold execute debit credits covers
  by_cases h : t.value + c.fee ≤ (accounts.find sender).balance
  · simp only [h, if_true, decide_true, payFee_eq, Accounts.creditAll, List.foldl_cons]
  · simp only [h, if_false, decide_false, payFee_eq, Bool.false_eq_true]

/-- Do all sums of a transfer fit into words: its cost, and every balance that it credits? -/
structure SumsFit : Prop where
  cost : t.value.toNat + c.fee.toNat < 2 ^ 256
  credited : (c.debit sender t accounts).Holds (c.credits sender t accounts)

instance : Decidable (c.SumsFit sender t accounts) :=
  decidable_of_iff (t.value.toNat + c.fee.toNat < 2 ^ 256 ∧
      (c.debit sender t accounts).Holds (c.credits sender t accounts))
    ⟨fun h => ⟨h.1, h.2⟩, fun h => ⟨h.cost, h.credited⟩⟩

/-- What is missing to the fee of a sender. -/
def missing : Nat := c.fee.toNat - min c.fee.toNat (accounts.find sender).balance.toNat

variable {c sender t accounts}

theorem total_debit (hfit : c.SumsFit sender t accounts) :
    (c.debit sender t accounts).total +
        (if c.covers sender t accounts then t.value.toNat + c.fee.toNat
          else min c.fee.toNat (accounts.find sender).balance.toNat) =
      accounts.total := by
  have hcost : (t.value + c.fee).toNat = t.value.toNat + c.fee.toNat := by
    rw [BitVec.toNat_add]
    exact Nat.mod_eq_of_lt hfit.cost
  unfold debit
  dsimp only
  split
  · rename_i hcovers
    have hle : t.value + c.fee ≤ (accounts.find sender).balance := by simpa [covers] using hcovers
    have hbalance := BitVec.toNat_sub_of_le hle
    have henough : (t.value + c.fee).toNat ≤ (accounts.find sender).balance.toNat := hle
    have hinsert := accounts.total_insert sender
      ⟨(accounts.find sender).nonce + 1, (accounts.find sender).balance - (t.value + c.fee)⟩
    dsimp only at hinsert
    omega
  · have hbalance := toNat_subtractOrZero (accounts.find sender).balance c.fee
    have hinsert := accounts.total_insert sender
      ⟨(accounts.find sender).nonce + 1, subtractOrZero (accounts.find sender).balance c.fee⟩
    dsimp only at hinsert
    omega

/-- What one transfer does to the total. -/
theorem total_execute (hsplit : (c.feeSplit.map (·.2.toNat)).sum ≤ shareUnit)
    (hfit : c.SumsFit sender t accounts) :
    (c.execute sender t accounts).2.total =
      accounts.total +
        if (c.execute sender t accounts).1 then 0 else c.missing sender accounts := by
  have hdebit := total_debit hfit
  have hcredit := Accounts.total_creditAll hfit.credited
  have hfee := sum_feeCredits hsplit
  rw [execute_eq]
  dsimp only
  rw [hcredit]
  unfold credits missing
  cases hcovers : c.covers sender t accounts
  · simp only [hcovers, Bool.false_eq_true, if_false] at hdebit ⊢
    omega
  · simp only [hcovers, if_true, List.map_cons, List.sum_cons] at hdebit ⊢
    omega

variable (c)

/-- The accounts when transfers have been executed one after the other. -/
def replay (log : List Executed) (accounts : Accounts) : Accounts :=
  log.foldl (fun m x => (c.execute x.sender x.transfer m).2) accounts

/-- Executed transfers with the accounts that each of them found. -/
def moments : List Executed → Accounts → List (Executed × Accounts)
  | [], _ => []
  | x :: log, accounts =>
    (x, accounts) :: moments log (c.execute x.sender x.transfer accounts).2

/-- What reverted transfers pay out and nobody has paid in. -/
def created (moments : List (Executed × Accounts)) : Nat :=
  ((moments.filter fun (x, _) => !x.succeeded).map fun (x, accounts) =>
    c.missing x.sender accounts).sum

theorem created_cons (x : Executed) (accounts : Accounts) (rest : List (Executed × Accounts)) :
    c.created ((x, accounts) :: rest) =
      (if x.succeeded then 0 else c.missing x.sender accounts) + c.created rest := by
  unfold created
  cases hs : x.succeeded
  · simp [hs]
  · simp [hs]

/-- Nothing is paid out of nothing where every sender has the fee. -/
theorem created_eq_zero {moments : List (Executed × Accounts)}
    (h : ∀ p ∈ moments, c.fee ≤ (p.2.find p.1.sender).balance) : c.created moments = 0 := by
  induction moments with
  | nil => rfl
  | cons p rest ih =>
    have hfee : c.fee.toNat ≤ (p.2.find p.1.sender).balance.toNat := h p (List.mem_cons_self ..)
    have hmissing : c.missing p.1.sender p.2 = 0 := by
      unfold missing
      omega
    have hrest := ih fun q hq => h q (List.mem_cons_of_mem _ hq)
    rw [created_cons, hmissing, hrest, ite_self]

theorem replay_append (log more : List Executed) (accounts : Accounts) :
    c.replay (log ++ more) accounts = c.replay more (c.replay log accounts) :=
  List.foldl_append

theorem moments_append (log more : List Executed) (accounts : Accounts) :
    c.moments (log ++ more) accounts =
      c.moments log accounts ++ c.moments more (c.replay log accounts) := by
  induction log generalizing accounts with
  | nil => rfl
  | cons x log ih => exact congrArg _ (ih _)

/-- Is a log what has been executed from the given accounts on, with the outcomes it had? -/
def Records (log : List Executed) (start : Accounts) : Prop :=
  ∀ p ∈ c.moments log start, p.1.succeeded = (c.execute p.1.sender p.1.transfer p.2).1

variable {c}

/-- What a log of transfers does to the total. -/
theorem total_replay (hsplit : (c.feeSplit.map (·.2.toNat)).sum ≤ shareUnit)
    {log : List Executed} {start : Accounts} (hrecords : c.Records log start)
    (hfit : ∀ p ∈ c.moments log start, c.SumsFit p.1.sender p.1.transfer p.2) :
    (c.replay log start).total = start.total + c.created (c.moments log start) := by
  induction log generalizing start with
  | nil => rfl
  | cons x log ih =>
    have hrest := ih (fun p hp => hrecords p (List.mem_cons_of_mem _ hp))
      (fun p hp => hfit p (List.mem_cons_of_mem _ hp))
    have hfirst := total_execute hsplit (hfit (x, start) (List.mem_cons_self ..))
    have houtcome := hrecords (x, start) (List.mem_cons_self ..)
    dsimp only at hfirst houtcome
    rw [← houtcome] at hfirst
    change (c.replay log (c.execute x.sender x.transfer start).2).total = _
    rw [hrest, hfirst, moments, created_cons, Nat.add_assoc]

end Config

variable {c : Config} {log : List Executed} {start : Accounts}

/-- Are the accounts of a draft those that its log leads to? -/
def Draft.Follows (c : Config) (start : Accounts) (log : List Executed) (d : Draft) : Prop :=
  d.accounts = c.replay log start ∧ c.Records log start

theorem Draft.follows_add (c : Config) (start : Accounts) (block : Nat) :
    Draft.KeptByAdd c block (Draft.Follows c start) := by
  rintro log d a t - - ⟨haccounts, hrecords⟩
  constructor
  · rw [Config.replay_append, ← haccounts]
    rfl
  · intro p hp
    rw [Config.moments_append, ← haccounts] at hp
    rcases List.mem_append.mp hp with hp | hp
    · exact hrecords p hp
    · rw [List.mem_singleton.mp hp]
      rfl

/-- The accounts after a block are those that its transfers lead to. -/
theorem Chain.follows_produce (c : Config) (chain : Chain) :
    Draft.Follows c chain.accounts (chain.executedNext c) (chain.produce c).draft := by
  have hstart : Draft.Follows c chain.accounts [] chain.draft := ⟨rfl, nofun⟩
  have hadd := Draft.follows_add c chain.accounts
  have hkept := Chain.produce_keeps hadd (fun _ _ h => h) hstart
  simpa using hkept

/-- The accounts at every time are those that all executed transfers lead to. -/
theorem play_follows (c : Config) (script : Script) (s : State) :
    Draft.Follows c s.chain.accounts (play c script s).executed
      (play c script s).state.chain.draft := by
  refine play_keeps_draft (I := fun _ => Draft.Follows c s.chain.accounts) ?_ ?_ ?_ ?_ script
  · exact fun _ => Draft.follows_add c s.chain.accounts
  · exact fun _ _ _ h => h
  · exact fun _ _ _ _ _ h => h
  · exact ⟨rfl, nofun⟩

/-- What all blocks together do to the total. -/
theorem total_play (hsplit : (c.feeSplit.map (·.2.toNat)).sum ≤ shareUnit) (script : Script)
    (s : State)
    (hfit : ∀ p ∈ c.moments (play c script s).executed s.chain.accounts,
      c.SumsFit p.1.sender p.1.transfer p.2) :
    (play c script s).state.chain.accounts.total =
      s.chain.accounts.total + c.created (c.moments (play c script s).executed s.chain.accounts) := by
  obtain ⟨haccounts, hrecords⟩ := play_follows c script s
  have htotal := Config.total_replay hsplit hrecords hfit
  rw [← haccounts] at htotal
  exact htotal

/-- Any block of any history is the next one after some acts of the clients and some further blocks.
It changes the money in all accounts by what its reverted transfers pay out beyond what their senders
had; a block whose senders have their fees changes nothing. -/
theorem total_produce (c : Config) (accounts : List (Address × Account)) (script : Script) (n : Nat)
    (hsplit : (c.feeSplit.map (·.2.toNat)).sum ≤ shareUnit)
    (hfit : let chain := (play c script (.genesis c accounts)).state.chain.extend c n
      ∀ p ∈ c.moments (chain.executedNext c) chain.accounts,
        c.SumsFit p.1.sender p.1.transfer p.2) :
    let chain := (play c script (.genesis c accounts)).state.chain.extend c n
    let moments := c.moments (chain.executedNext c) chain.accounts
    (chain.produce c).accounts = c.replay (chain.executedNext c) chain.accounts ∧
    (∀ p ∈ moments, p.1.succeeded = (c.execute p.1.sender p.1.transfer p.2).1) ∧
    (chain.produce c).accounts.total = chain.accounts.total +
      ((moments.filter (!·.1.succeeded)).map fun p =>
        c.fee.toNat - min c.fee.toNat (p.2.find p.1.sender).balance.toNat).sum ∧
    ((∀ p ∈ moments, c.fee ≤ (p.2.find p.1.sender).balance) →
      (chain.produce c).accounts.total = chain.accounts.total) := by
  intro chain moments
  obtain ⟨haccounts, hrecords⟩ := Chain.follows_produce c chain
  change (chain.produce c).accounts = _ at haccounts
  have htotal := Config.total_replay hsplit hrecords hfit
  rw [← haccounts] at htotal
  refine ⟨haccounts, hrecords, htotal, fun hpaid => ?_⟩
  have hnone : c.created moments = 0 := c.created_eq_zero hpaid
  rw [htotal, hnone, Nat.add_zero]

/-- A third of the fee goes twice to one account and a quarter to the producer. -/
def Config.ofThirds : Config :=
  { gasPrice := 1, producer := 3, feeSplit := [(1, 3333), (1, 3333), (3, 2500)] }

/-- An account pays itself and then the producer; another has ten units for a fee of 21000. -/
def Script.aliased : Script :=
  let transfer (sender recipient : Address) (nonce : UInt64) : Request :=
    ⟨sender, recipient, 5, 21000, nonce, none⟩
  [(0, .settle (transfer 1 1 0)), (0, .settle (transfer 1 3 1)), (0, .settle (transfer 2 1 0))]

/-- The block of these three transfers pays out 20990 units that nobody has paid in. -/
theorem total_produce_aliased :
    let chain :=
      (play .ofThirds .aliased (.genesis .ofThirds [(1, ⟨0, 90000⟩), (2, ⟨0, 10⟩)])).state.chain
    (Config.ofThirds.feeSplit.map (·.2.toNat)).sum ≤ shareUnit ∧
      (∀ p ∈ Config.ofThirds.moments (chain.executedNext .ofThirds) chain.accounts,
        Config.ofThirds.SumsFit p.1.sender p.1.transfer p.2) ∧
      (chain.executedNext .ofThirds).map (·.succeeded) = [true, false, true] ∧
      (chain.produce .ofThirds).accounts.total = chain.accounts.total + 20990 := by
  intro chain
  have hsplit : (Config.ofThirds.feeSplit.map (·.2.toNat)).sum ≤ shareUnit := by decide
  have hfit : ∀ p ∈ Config.ofThirds.moments (chain.executedNext .ofThirds) chain.accounts,
      Config.ofThirds.SumsFit p.1.sender p.1.transfer p.2 := by decide +kernel
  have houtcomes : (chain.executedNext .ofThirds).map (·.succeeded) = [true, false, true] := by
    decide +kernel
  have hmissing : ((Config.ofThirds.moments (chain.executedNext .ofThirds) chain.accounts).filter
      (!·.1.succeeded)).map (fun p => Config.ofThirds.fee.toNat -
        min Config.ofThirds.fee.toNat (p.2.find p.1.sender).balance.toNat) = [20990] := by
    decide +kernel
  obtain ⟨-, -, htotal, -⟩ := total_produce .ofThirds _ .aliased 0 hsplit hfit
  refine ⟨hsplit, hfit, houtcomes, htotal.trans ?_⟩
  exact congrArg (chain.accounts.total + ·) (congrArg List.sum hmissing)

end Throughput.Simulated
