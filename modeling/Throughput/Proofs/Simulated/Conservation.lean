import Throughput.Proofs.Simulated.Blocks
import Throughput.Proofs.Simulated.Receipts

/-!
# Nothing is lost and nothing is changed afterwards

Whatever clients do, the submissions that a ledger has accepted are those in its pool and those with
receipts, and what has been included stays as it is.
-/

namespace Throughput.Simulated

variable {c : Config} {accounts : List (Address × Account)} {script later : Script}

/-- A refused submission leaves the chain as the blocks that are due would have left it. -/
theorem State.chain_of_refused {now : Instant} {request : Request} {s : State} {error : LedgerError}
    (h : (s.receive c now request).1 = .error error) :
    ((s.receive c now request).2.chain = s.chain ∨
      (s.receive c now request).2.chain = s.chain.catchUp c now) ∧
    ∀ reading, now ≤ reading →
      (s.receive c now request).2.chain.catchUp c reading = s.chain.catchUp c reading := by
  have hchain : (s.receive c now request).2.chain = s.chain ∨
      (s.receive c now request).2.chain = s.chain.catchUp c now := by
    rcases s.receive_cases c now request with ⟨_, -, hchain⟩ | ⟨-, hok, -⟩
    · exact hchain
    · rw [hok] at h
      nomatch h
  refine ⟨hchain, fun reading hle => ?_⟩
  rcases hchain with hsame | hcaught
  · rw [hsame]
  · rw [hcaught, Chain.catchUp_catchUp c hle]

/-- At every time the counter of the pool is the number of queued transfers and within the capacity,
and blocks lower it by what they execute. No queued nonce lies below that of the account. The accepted
submissions are those in the pool and those with receipts, each in one of the two. The blocks count as
many transactions as there are receipts. A refused submission changes nothing. -/
theorem play_conserves (c : Config) (accounts : List (Address × Account)) (script : Script)
    (hapart : HandlesApart script.requests)
    (hfit : NoncesFit (.genesis c accounts) (play c script (.genesis c accounts)).executed) :
    let h := play c script (.genesis c accounts)
    let chain := h.state.chain
    chain.pooled = (chain.pool.toList.map (·.2.size)).sum ∧ chain.pooled ≤ c.poolCapacity ∧
    (∀ n, (chain.extend c n).pooled + (chain.executed c n).length = chain.pooled) ∧
    (∀ a nonce, (chain.pool.find? a nonce).isSome → (chain.accounts.find a).nonce ≤ nonce) ∧
    h.accepted.length = chain.pooled + chain.receipts.size ∧
    (∀ x ∈ h.accepted, Xor (∃ a nonce t, chain.pool.find? a nonce = some t ∧ t.handle = x.2)
      (x.2 ∈ chain.receipts)) ∧
    (chain.blocks.toList.map (·.transactions.toNat)).sum = chain.receipts.size ∧
    ∀ now request error, (h.state.receive c now request).1 = .error error →
      ((h.state.receive c now request).2.chain = chain ∨
        (h.state.receive c now request).2.chain = chain.catchUp c now) ∧
      ∀ reading, now ≤ reading →
        (h.state.receive c now request).2.chain.catchUp c reading = chain.catchUp c reading := by
  have hsound := play_sound (c := c) (sound_genesis c accounts) script
  have hpooled := hsound.pooled
  have hsize := size_receipts hfit hapart
  have hlength := (places_accepted c accounts script).length_eq
  rw [List.length_map, List.length_append, List.length_map, ← hsize] at hlength
  refine ⟨hpooled.trans (Pool.length_places _), play_capacity script (Nat.zero_le _),
    Chain.pooled_extend hsound, hsound.floor, ?_, fun x hx => queued_or_included hfit hapart hx,
    ?_, fun now request error => State.chain_of_refused⟩
  · exact hlength.trans (congrArg (· + _) hpooled.symm)
  · rw [hsize]
    exact (play_tallied c accounts script).total

/-- Three transfers of one sender for a pool of two. There is a gap before the second, which is filled
when the first has been executed. -/
def Script.gapped : Script :=
  let transfer (nonce : UInt64) : Request := ⟨1, 2, 5, 21000, nonce, none⟩
  [(0, .settle (transfer 0)), (0, .settle (transfer 2)), (0, .settle (transfer 3)),
    (seconds 1, .ask .height), (seconds 1, .settle (transfer 1))]

/-- A ledger with room for two transfers. -/
def Config.ofTwo : Config := { poolCapacity := 2 }

/-- Its genesis with one account. -/
def State.ofOne : State := .genesis .ofTwo [(1, ⟨0, 1000⟩)]

theorem nonce_ofOne (a : Address) : (State.ofOne.chain.accounts.find a).nonce = 0 := by
  simp only [State.ofOne, State.genesis, List.foldl_cons, List.foldl_nil, Accounts.find_insert]
  split <;> simp [Accounts.find]

/-- The third transfer finds the pool full; the other three are accepted, and one has a receipt. -/
theorem play_conserves_gapped :
    let h := play .ofTwo .gapped .ofOne
    HandlesApart Script.gapped.requests ∧ NoncesFit .ofOne h.executed ∧ h.accepted.length = 3 ∧
      h.state.chain.pooled = 2 ∧ h.state.chain.receipts.size = 1 ∧
      (h.state.chain.blocks.toList.map (·.transactions.toNat)).sum = 1 := by
  have hapart : HandlesApart Script.gapped.requests := by decide +kernel
  have hfit : NoncesFit .ofOne (play .ofTwo .gapped .ofOne).executed :=
    ⟨fun a => by rw [nonce_ofOne]; decide, by decide +kernel⟩
  obtain ⟨-, -, -, -, haccepted, -, htotal, -⟩ :=
    play_conserves .ofTwo [(1, ⟨0, 1000⟩)] .gapped hapart hfit
  have hthree : (play .ofTwo .gapped .ofOne).accepted.length = 3 := by decide +kernel
  have htwo : (play .ofTwo .gapped .ofOne).state.chain.pooled = 2 := by decide +kernel
  have hone : (play .ofTwo .gapped .ofOne).state.chain.receipts.size = 1 := by
    change (play .ofTwo .gapped .ofOne).accepted.length =
      (play .ofTwo .gapped .ofOne).state.chain.pooled + _ at haccepted
    rw [hthree, htwo] at haccepted
    exact (Nat.add_left_cancel haccepted).symm
  exact ⟨hapart, hfit, hthree, htwo, hone, htotal.trans hone⟩

/-- At every time the executed transfers of a sender are those from its first nonce up to the nonce of
its account, each once and in blocks that follow their nonces. The receipts are those of the executed
transfers, with the numbers of blocks that count them; they are never changed or lost later, and only
handles of accepted submissions have any. -/
theorem play_executes_in_order (c : Config) (accounts : List (Address × Account))
    (script later : Script) (hapart : HandlesApart (script ++ later).requests)
    (hfit : NoncesFit (.genesis c accounts) (play c (script ++ later) (.genesis c accounts)).executed) :
    let s := State.genesis c accounts
    let h := play c script s
    let chain := h.state.chain
    (∀ a, let first := (s.chain.accounts.find a).nonce.toNat
      let next := (chain.accounts.find a).nonce.toNat
      first ≤ next ∧
        (executedBy a h.executed).map (·.nonce.toNat) = List.range' first (next - first) ∧
        (executedBy a h.executed).Pairwise (·.block ≤ ·.block)) ∧
    (∀ (handle : Handle) (r : Receipt), chain.receipts[handle]? = some r ↔
      ∃ x ∈ h.executed, handleOf x.sender x.nonce = handle ∧ x.receipt = r) ∧
    (∀ x ∈ h.executed, ∃ hb : x.block < chain.blocks.size,
      chain.blocks[x.block].number = x.receipt.block ∧
      chain.blocks[x.block].transactions.toNat = h.executed.countP (·.block == x.block)) ∧
    (chain.blocks.size ≤ 2 ^ 64 → ∀ x ∈ h.executed, x.receipt.block.toNat = x.block) ∧
    (∀ (handle : Handle) (r : Receipt), chain.receipts[handle]? = some r →
      (play c (script ++ later) s).state.chain.receipts[handle]? = some r) ∧
    ∀ handle ∈ chain.receipts, handle ∈ h.accepted.map (·.2) := by
  have hearlier := prefix_executed c script later (.genesis c accounts)
  have hfit' : NoncesFit (.genesis c accounts) (play c script (.genesis c accounts)).executed :=
    ⟨hfit.1, fun x hx => hfit.2 x (hearlier.subset hx)⟩
  have hapart' : HandlesApart script.requests := by
    intro r hr r' hr'
    unfold Script.requests at hapart
    rw [List.filterMap_append] at hapart
    exact hapart r (List.mem_append_left _ hr) r' (List.mem_append_left _ hr')
  have htallied := play_tallied c accounts script
  refine ⟨?_, getElem?_receipts hfit' hapart', ?_, ?_, ?_, fun _ => accepted_of_receipt⟩
  · intro a
    obtain ⟨hnext, hnonces⟩ := toNat_nonces hfit' a
    refine ⟨by omega, ?_, htallied.ordered.filter _⟩
    rw [hnonces]
    congr 1
    omega
  · intro x hx
    have hb := htallied.block_lt x hx
    exact ⟨hb, htallied.number _ hb, htallied.counted _ hb⟩
  · intro hsize x hx
    have hb := htallied.block_lt x hx
    exact UInt64.toNat_ofNat_of_lt (Nat.lt_of_lt_of_le hb hsize)
  · intro handle r hr
    obtain ⟨x, hx, hhandle, hreceipt⟩ := (getElem?_receipts hfit' hapart' handle r).mp hr
    exact (getElem?_receipts hfit hapart handle r).mpr
      ⟨x, hearlier.subset hx, hhandle, hreceipt⟩

/-- One block later the gap has been filled and the receipt of the first transfer is still there. -/
theorem play_executes_in_order_gapped :
    let later : Script := [(seconds 2, .ask .included)]
    let h := play .ofTwo .gapped .ofOne
    HandlesApart (Script.gapped ++ later).requests ∧
      NoncesFit .ofOne (play .ofTwo (.gapped ++ later) .ofOne).executed ∧
      (executedBy 1 h.executed).map (·.nonce.toNat) = [0] ∧
      h.state.chain.receipts[handleOf 1 0]? = some ⟨1, false⟩ ∧
      (play .ofTwo (.gapped ++ later) .ofOne).state.chain.receipts[handleOf 1 0]? =
        some ⟨1, false⟩ := by
  intro later h
  have hapart : HandlesApart (Script.gapped ++ later).requests := by decide +kernel
  have hfit : NoncesFit .ofOne (play .ofTwo (.gapped ++ later) .ofOne).executed :=
    ⟨fun a => by rw [nonce_ofOne]; decide, by decide +kernel⟩
  obtain ⟨hsenders, -, -, -, hkept, -⟩ :=
    play_executes_in_order .ofTwo [(1, ⟨0, 1000⟩)] .gapped later hapart hfit
  have hreceipt : h.state.chain.receipts[handleOf 1 0]? = some ⟨1, false⟩ := by decide +kernel
  have hnext : (h.state.chain.accounts.find 1).nonce = 1 := by decide +kernel
  have hnonces : (executedBy 1 h.executed).map (·.nonce.toNat) =
      List.range' (State.ofOne.chain.accounts.find 1).nonce.toNat
        ((h.state.chain.accounts.find 1).nonce.toNat -
          (State.ofOne.chain.accounts.find 1).nonce.toNat) := (hsenders 1).2.1
  rw [hnext, nonce_ofOne] at hnonces
  exact ⟨hapart, hfit, hnonces, hreceipt, hkept _ _ hreceipt⟩

end Throughput.Simulated
