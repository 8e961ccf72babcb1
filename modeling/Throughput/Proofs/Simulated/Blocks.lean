import Mathlib.Data.List.Pairwise
import Throughput.Proofs.Simulated.Books

/-!
# What the blocks count

The blocks of a chain execute one after the other, and each of them counts what it has executed.
-/

namespace Throughput.Simulated

/-- Do the blocks of a chain count what has been executed, each what it has executed itself? -/
structure Tallied (log : List Executed) (chain : Chain) : Prop where
  block_lt : ∀ x ∈ log, x.block < chain.blocks.size
  ordered : log.Pairwise (·.block ≤ ·.block)
  counted : ∀ (i : Nat) (h : i < chain.blocks.size),
    chain.blocks[i].transactions.toNat = log.countP (·.block == i)
  number : ∀ (i : Nat) (h : i < chain.blocks.size), chain.blocks[i].number = i.toUInt64
  total : (chain.blocks.toList.map (·.transactions.toNat)).sum = log.length

namespace Tallied

variable {c : Config} {log : List Executed} {chain : Chain}

/-- The gas limit of a block is a word, so its count does not wrap. -/
theorem transactions_produce (c : Config) (chain : Chain) :
    (chain.filled c).included.toUInt64.toNat = (chain.executedNext c).length := by
  obtain ⟨hcount, hgas⟩ := Chain.included_filled c chain
  have hlimit := c.blockGasLimit.toNat_lt
  have hsmall : (chain.executedNext c).length < 2 ^ 64 := by
    unfold transferGas at hgas
    omega
  rw [hcount]
  exact UInt64.toNat_ofNat_of_lt hsmall

theorem produce (h : Tallied log chain) :
    Tallied (log ++ chain.executedNext c) (chain.produce c) := by
  have hplace : ∀ x ∈ chain.executedNext c, x.block = chain.blocks.size :=
    fun _ => Chain.block_of_executedNext
  refine ⟨?_, ?_, ?_, ?_, ?_⟩
  · intro x hx
    rw [Chain.blocks_produce, Array.size_push]
    rcases List.mem_append.mp hx with hx | hx
    · exact Nat.lt_succ_of_lt (h.block_lt x hx)
    · rw [hplace x hx]
      exact Nat.lt_succ_self _
  · refine List.pairwise_append.mpr ⟨h.ordered, ?_, ?_⟩
    · apply List.pairwise_of_forall_mem_list
      intro x hx y hy
      have hsame := (hplace x hx).trans (hplace y hy).symm
      exact Nat.le_of_eq hsame
    · intro x hx y hy
      rw [hplace y hy]
      exact Nat.le_of_lt (h.block_lt x hx)
  · intro i hi
    simp only [Chain.blocks_produce, Array.size_push, Array.getElem_push, List.countP_append] at hi ⊢
    split
    · rename_i hold
      have hnone : (chain.executedNext c).countP (·.block == i) = 0 := by
        rw [List.countP_eq_zero]
        intro x hx
        have hb := hplace x hx
        simp only [beq_iff_eq]
        omega
      rw [hnone, h.counted i hold, Nat.add_zero]
    · have hi : i = chain.blocks.size := by omega
      have hnone : log.countP (·.block == i) = 0 := by
        rw [List.countP_eq_zero]
        intro x hx
        have hlt := h.block_lt x hx
        simp only [beq_iff_eq]
        omega
      have hall : (chain.executedNext c).countP (·.block == i) = (chain.executedNext c).length := by
        rw [List.countP_eq_length]
        intro x hx
        simp [hplace x hx, hi]
      rw [hnone, hall, Nat.zero_add]
      exact transactions_produce c chain
  · intro i hi
    simp only [Chain.blocks_produce, Array.size_push, Array.getElem_push] at hi ⊢
    split
    · rename_i hold
      exact h.number i hold
    · have hi : i = chain.blocks.size := by omega
      rw [hi]
  · rw [Chain.blocks_produce, Array.toList_push, List.map_append, List.sum_append, h.total,
      List.length_append]
    have hnew := transactions_produce c chain
    simpa using hnew

end Tallied

/-- From genesis on the blocks count what they execute. -/
theorem play_tallied (c : Config) (accounts : List (Address × Account)) (script : Script) :
    Tallied (play c script (.genesis c accounts)).executed
      (play c script (.genesis c accounts)).state.chain := by
  refine play_keeps (I := fun _ log chain => Tallied log chain) ?_ ?_ ?_ script
  · exact fun _ _ _ h => h.produce
  · exact fun _ _ _ _ _ h => ⟨h.block_lt, h.ordered, h.counted, h.number, h.total⟩
  · have hfirst : ∀ i, i < (State.genesis c accounts).chain.blocks.size → i = 0 := by
      simp [State.genesis]
    refine ⟨by simp, .nil, ?_, ?_, rfl⟩
    · intro i hi
      obtain rfl := hfirst i hi
      rfl
    · intro i hi
      obtain rfl := hfirst i hi
      rfl

/-- A chain that has been brought up to an instant has every block that is due then. -/
theorem Chain.dueHeight_lt_size_catchUp (c : Config) (now : Instant) (chain : Chain) :
    c.dueHeight now < (chain.catchUp c now).blocks.size := by
  rw [catchUp, size_blocks_extend]
  omega

/-- A chain that has been brought up to an earlier instant is brought up to a later one as if it had
not been. -/
theorem Chain.catchUp_catchUp (c : Config) {now later : Instant} (h : now ≤ later) (chain : Chain) :
    (chain.catchUp c now).catchUp c later = chain.catchUp c later := by
  have hdue : c.dueHeight now ≤ c.dueHeight later := Nat.div_le_div_right h
  have hblocks : c.dueHeight later + 1 - chain.blocks.size =
      (c.dueHeight now + 1 - chain.blocks.size) +
        (c.dueHeight later + 1 - (chain.catchUp c now).blocks.size) := by
    rw [catchUp, size_blocks_extend]
    omega
  unfold catchUp at hblocks ⊢
  rw [← extend_add, ← hblocks]

end Throughput.Simulated
