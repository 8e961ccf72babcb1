import Throughput.Proofs.Balance.Checks
import Throughput.Proofs.Ledger.Keeps
import Throughput.Proofs.Simulated.Punctual

/-!
# A run reads a simulated ledger

All that a run does to a simulated ledger clients can do too. Reads at one instant bring the ledger up
to it and then find it as it is.
-/

namespace Throughput.Simulated

variable {c : Config} {now : Instant} {s base : State}

/-- A state that clients have brought about is brought further by a further act. -/
theorem reached_act (h : ∃ script, s = (play c script base).state) (now : Instant) (e : Act) :
    ∃ script, (e.perform c now s).2 = (play c script base).state := by
  obtain ⟨script, rfl⟩ := h
  refine ⟨script ++ [(now, e)], ?_⟩
  rw [play_append]
  rfl

/-- Each operation of a simulated ledger is an act of a client. -/
theorem simulated_keeps (c : Config) (base : State) :
    (Ledger.simulated c).Keeps fun _ s => ∃ script, s = (play c script base).state :=
  ⟨fun _ => ⟨fun h now a => reached_act h now (.ask (.sequenceNumber a)),
      fun h now a => reached_act h now (.ask (.balance a)),
      fun h now => reached_act h now (.ask .height),
      fun h now height => reached_act h now (.ask (.block height)),
      fun h _ _ => h,
      fun h _ handle _ now => reached_act h now (.ask (.receipt handle))⟩,
    fun h now request => reached_act h now (.start request),
    fun h _ request _ now => reached_act h now (.settle request)⟩

/-- The balances of accounts as a chain has them. -/
def Chain.snapshots (chain : Chain) (addresses : List Address) : List Snapshot :=
  addresses.map fun a => ⟨a, (chain.accounts.find a).balance⟩

theorem delta_snapshots {addresses : List Address} {a : Address} (h : a ∈ addresses)
    (opening closing : Chain) :
    delta (opening.snapshots addresses) (closing.snapshots addresses) a =
      .ok ⟨(opening.accounts.find a).balance, (closing.accounts.find a).balance⟩ := by
  unfold delta Chain.snapshots
  rw [balanceOf?_map h, balanceOf?_map h]

section Reads

variable (hup : s.caughtUp c now = s)

include hup

theorem view_caughtUp {α : Type} (read : Chain → α) : s.view c now read = (read s.chain, s) := by
  have hchain : s.chain.catchUp c now = s.chain := congrArg State.chain hup
  unfold State.view
  rw [hchain]

theorem balance_caughtUp (a : Address) :
    (Ledger.simulated c).balance now a s = (.ok (s.chain.accounts.find a).balance, s) :=
  view_caughtUp hup fun chain => (.ok (chain.accounts.find a).balance : Answer Amount)

/-- A ledger that is up to date is read as it is. -/
theorem readStarts_caughtUp (addresses : List Address) :
    Sequences.readStarts (.simulated c) now addresses s =
      (.ok (addresses.map fun a => (a, (s.chain.accounts.find a).nonce)), s) := by
  induction addresses with
  | nil => rfl
  | cons a rest ih =>
    have hfirst : (Ledger.simulated c).sequenceNumber now a s =
        (.ok (s.chain.accounts.find a).nonce, s) :=
      view_caughtUp hup fun chain => (.ok (chain.accounts.find a).nonce : Answer UInt64)
    unfold Sequences.readStarts
    rw [hfirst]
    dsimp only
    rw [ih]
    rfl

theorem readBalances_caughtUp (addresses : List Address) :
    readBalances (.simulated c) now addresses s = (.ok (s.chain.snapshots addresses), s) := by
  induction addresses with
  | nil => rfl
  | cons a rest ih =>
    unfold readBalances
    rw [balance_caughtUp hup]
    dsimp only
    rw [ih]
    rfl

theorem readAvailableBalances_caughtUp (addresses : List Address) :
    readAvailableBalances (.simulated c) now addresses s = (s.chain.snapshots addresses, s) := by
  induction addresses with
  | nil => rfl
  | cons a rest ih =>
    unfold readAvailableBalances
    rw [balance_caughtUp hup]
    dsimp only
    rw [ih]
    rfl

theorem readBlocks_caughtUp (count : Nat) (height : UInt64) :
    (readBlocks (.simulated c) now count height s).2 = s := by
  induction count generalizing height with
  | zero => rfl
  | succ count ih =>
    have hfirst : (Ledger.simulated c).block now height s =
        (.ok s.chain.blocks[height.toNat]?, s) :=
      view_caughtUp hup fun chain => (.ok chain.blocks[height.toNat]? : Answer (Option Block))
    unfold readBlocks
    rw [hfirst]
    dsimp only
    split <;> exact ih _

theorem analyzedBlocks_caughtUp (cfg : RunConfig) (w : RunWindow) :
    (cfg.analyzedBlocks (.simulated c) now w s).2 = s := by
  unfold RunConfig.analyzedBlocks
  split
  · rfl
  · split
    · rfl
    · exact readBlocks_caughtUp hup _ _

end Reads

end Throughput.Simulated
