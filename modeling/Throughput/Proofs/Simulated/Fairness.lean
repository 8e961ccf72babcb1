import Throughput.Proofs.Simulated.Filling
import Throughput.Proofs.Simulated.Nonces
import Throughput.Proofs.Simulated.Value

/-!
# Fairness inside a block

A sender whose next transfer is still queued when a block is finished has had a transfer in every pass
that was not cut short. So nobody has been given more than one transfer beyond what it was given, and
only those before it in the order of addresses have been given that one.
-/

namespace Throughput.Simulated

theorem executedBy_append (a : Address) (log more : List Executed) :
    executedBy a (log ++ more) = executedBy a log ++ executedBy a more :=
  List.filter_append ..

namespace Draft

variable {c : Config} {block : Nat} {d start : Draft} {a b : Address} {t : Transfer}

theorem executable?_add_of_ne (number : UInt64) (h : a ≠ b) :
    (d.add c number a t).executable? b = d.executable? b := by
  change (d.add c number a t).pool.find? b _ = d.pool.find? b _
  rw [nonce_add, if_neg h]
  exact (Pool.find?_erase ..).trans (if_neg fun hplace => h hplace.1)

/-- While a block is filled, a sender that has a transfer to execute had one before. -/
theorem executable?_kept (c : Config) (block : Nat) (start : Draft) (b : Address) :
    KeptByAdd c block fun _ d => (d.executable? b).isSome → (start.executable? b).isSome := by
  intro _ d a t _ ht h hsome
  by_cases hab : a = b
  · subst hab
    exact h (Option.isSome_of_eq_some ht)
  · rw [executable?_add_of_ne block.toUInt64 hab] at hsome
    exact h hsome

section Pass

variable (c block)

theorem executedInPass_append (before after : List Address) (d : Draft) :
    d.executedInPass c block (before ++ after) =
      d.executedInPass c block before ++
        (before.foldl (takeNext c block.toUInt64) d).executedInPass c block after := by
  induction before generalizing d with
  | nil => rfl
  | cons a before ih =>
    rw [List.cons_append, executedInPass, ih, executedInPass, List.foldl_cons, List.append_assoc]

theorem executedInPass_of_full (h : d.isFull c) (senders : List Address) :
    d.executedInPass c block senders = [] := by
  induction senders with
  | nil => rfl
  | cons a rest ih =>
    have hsame : d.takeNext c block.toUInt64 a = d := if_pos h
    rw [executedInPass, hsame, ih, next?, if_pos h]
    rfl

variable {c block}

theorem executedBy_turn (h : a ≠ b) : executedBy b (d.next? c block a).toList = [] := by
  unfold next?
  split
  · rfl
  · cases d.executable? a with
    | none => rfl
    | some t => simp [executedBy, execution, h]

theorem executedBy_pass_of_not_mem {senders : List Address} (h : a ∉ senders) (d : Draft) :
    executedBy a (d.executedInPass c block senders) = [] := by
  induction senders generalizing d with
  | nil => rfl
  | cons b rest ih =>
    rw [List.mem_cons, not_or] at h
    rw [executedInPass, executedBy_append, executedBy_turn (Ne.symm h.1), ih h.2]
    rfl

/-- A pass takes at most one transfer of each sender. -/
theorem length_executedBy_pass_le {senders : List Address} (hnodup : senders.Nodup) (a : Address)
    (d : Draft) : (executedBy a (d.executedInPass c block senders)).length ≤ 1 := by
  induction senders generalizing d with
  | nil => exact Nat.zero_le 1
  | cons b rest ih =>
    obtain ⟨hb, hrest⟩ := List.nodup_cons.mp hnodup
    rw [executedInPass, executedBy_append, List.length_append]
    by_cases hab : b = a
    · subst hab
      have hturn : (executedBy b (d.next? c block b).toList).length ≤ 1 :=
        Nat.le_trans (List.length_filter_le ..) Option.length_toList_le
      rw [executedBy_pass_of_not_mem hb, List.length_nil]
      exact hturn
    · rw [executedBy_turn hab, List.length_nil, Nat.zero_add]
      exact ih hrest _

/-- A sender with a transfer left after a pass was given its turn, unless the block was full by
then. -/
theorem executedBy_pass_of_left {before after : List Address}
    (hleft : (((before ++ b :: after).foldl (takeNext c block.toUInt64) d).executable? b).isSome)
    (hroom : (before.foldl (takeNext c block.toUInt64) d).isFull c = false) :
    1 ≤ (executedBy b (d.executedInPass c block (before ++ b :: after))).length := by
  let turn := before.foldl (takeNext c block.toUInt64) d
  rw [List.foldl_append] at hleft
  have hsome : (turn.executable? b).isSome :=
    pass_keeps_draft (executable?_kept c block turn b) (b :: after) id hleft
  obtain ⟨t, ht⟩ := Option.isSome_iff_exists.mp hsome
  have hnext : turn.next? c block b = some (turn.execution c block b t) := by
    unfold next?
    rw [hroom, ht]
    rfl
  have hturn : executedBy b (some (turn.execution c block b t)).toList =
      [turn.execution c block b t] := by simp [executedBy, execution]
  rw [executedInPass_append, executedInPass, hnext, executedBy_append, executedBy_append, hturn,
    List.length_append, List.length_append, List.length_singleton]
  omega

/-- A sender with a transfer left after a pass has no fewer in it than a sender behind it. -/
theorem executedBy_pass_le {before after : List Address} (hnodup : (before ++ b :: after).Nodup)
    (hleft : (((before ++ b :: after).foldl (takeNext c block.toUInt64) d).executable? b).isSome)
    (ha : a ∉ before) :
    (executedBy a (d.executedInPass c block (before ++ b :: after))).length ≤
      (executedBy b (d.executedInPass c block (before ++ b :: after))).length := by
  cases hroom : (before.foldl (takeNext c block.toUInt64) d).isFull c with
  | true =>
    rw [executedInPass_append, executedInPass_of_full c block hroom, List.append_nil,
      executedBy_pass_of_not_mem ha]
    exact Nat.zero_le _
  | false =>
    exact Nat.le_trans (length_executedBy_pass_le hnodup a d) (executedBy_pass_of_left hleft hroom)

end Pass

/-- The passes of a block give a sender with a transfer left at most one transfer less than any other
sender, and no fewer than a sender behind it. -/
theorem executedBy_passes_le {senders : List Address} (hsorted : senders.Pairwise (· < ·))
    (hb : b ∈ senders) (passes : Nat)
    (hleft : ((d.fill c block.toUInt64 senders passes).executable? b).isSome) :
    (executedBy a (d.executedInPasses c block senders passes)).length ≤
        (executedBy b (d.executedInPasses c block senders passes)).length + 1 ∧
      (b < a → (executedBy a (d.executedInPasses c block senders passes)).length ≤
        (executedBy b (d.executedInPasses c block senders passes)).length) := by
  have hnodup : senders.Nodup := hsorted.imp fun hlt => BitVec.ne_of_lt hlt
  obtain ⟨before, after, rfl⟩ := List.append_of_mem hb
  induction passes generalizing d with
  | zero => exact ⟨Nat.zero_le _, fun _ => Nat.le_refl _⟩
  | succ passes ih =>
    let next := (before ++ b :: after).foldl (takeNext c block.toUInt64) d
    have hmost : (executedBy a (d.executedInPass c block (before ++ b :: after))).length ≤ 1 :=
      length_executedBy_pass_le hnodup a d
    unfold fill at hleft
    unfold executedInPasses
    dsimp only at hleft ⊢
    by_cases hstop : next.included = d.included ∨ next.isFull c
    · rw [if_pos hstop] at hleft ⊢
      rw [List.append_nil]
      refine ⟨Nat.le_trans hmost (Nat.le_add_left ..), fun hba => ?_⟩
      apply executedBy_pass_le hnodup hleft
      -- what comes before a sender has a lower address
      intro ha
      exact absurd hba (BitVec.lt_asymm ((List.pairwise_append.mp hsorted).2.2 a ha b List.mem_cons_self))
    · rw [if_neg hstop] at hleft ⊢
      have hnext : (next.executable? b).isSome :=
        fill_keeps_draft (executable?_kept c block next b) _ passes id hleft
      have hroom : (before.foldl (takeNext c block.toUInt64) d).isFull c = false := by
        by_contra hfull
        have hend : next.isFull c := by
          change ((before ++ b :: after).foldl (takeNext c block.toUInt64) d).isFull c
          rw [List.foldl_append, pass_of_full (by simpa using hfull)]
          simpa using hfull
        exact hstop (.inr hend)
      obtain ⟨hle, hbefore⟩ := ih hleft
      have hturn := executedBy_pass_of_left hnext hroom
      rw [executedBy_append, executedBy_append, List.length_append, List.length_append]
      exact ⟨by omega, fun hba => by have := hbefore hba; omega⟩

end Draft

/-- Each executed transfer raises the nonce of its sender. -/
theorem Config.nonce_replay (c : Config) (log : List Executed) (accounts : Accounts) (a : Address) :
    ((c.replay log accounts).find a).nonce =
      (accounts.find a).nonce + (executedBy a log).length.toUInt64 := by
  induction log generalizing accounts with
  | nil => exact (UInt64.add_zero _).symm
  | cons x log ih =>
    change ((c.replay log (c.execute x.sender x.transfer accounts).2).find a).nonce = _
    rw [ih, nonce_execute]
    by_cases hx : x.sender = a
    · have hlength : (executedBy a (x :: log)).length = 1 + (executedBy a log).length := by
        simp [executedBy, hx, Nat.add_comm]
      rw [if_pos hx, hlength, UInt64.add_assoc]
      exact congrArg _ (UInt64.ofNat_add ..).symm
    · have hsame : executedBy a (x :: log) = executedBy a log := by simp [executedBy, hx]
      rw [if_neg hx, hsame]

/-- A block raises the nonce of each account by the number of its transfers in the block. If the next
transfer of a sender is still queued when the block is finished, then nobody has been given more than
one transfer more than this sender, and nobody whose address comes later has been given more at all. -/
theorem produce_fair (c : Config) (chain : Chain) (a b : Address)
    (hleft : ((chain.produce c).pool.find? b ((chain.produce c).accounts.find b).nonce).isSome) :
    let log := chain.executedNext c
    (∀ sender, ((chain.produce c).accounts.find sender).nonce =
      (chain.accounts.find sender).nonce + (executedBy sender log).length.toUInt64) ∧
    (executedBy a log).length ≤ (executedBy b log).length + 1 ∧
    (b < a → (executedBy a log).length ≤ (executedBy b log).length) := by
  have hleft : ((chain.filled c).executable? b).isSome :=
    (congrArg Option.isSome (Pool.find?_filter ..)).symm.trans hleft
  have hstart : (chain.draft.executable? b).isSome :=
    Draft.fill_keeps_draft (Draft.executable?_kept c chain.blocks.size chain.draft b) _ _ id hleft
  obtain ⟨t, ht⟩ := Option.isSome_iff_exists.mp hstart
  have hb : b ∈ chain.pool.keys := Std.ExtTreeMap.mem_keys.mpr (Draft.mem_pool_of_executable? ht)
  have hordered : chain.pool.keys.Pairwise fun x y => compare x y = .lt :=
    Std.ExtTreeMap.ordered_keys
  have hsorted : chain.pool.keys.Pairwise (· < ·) :=
    hordered.imp fun hlt => compareOfLessAndEq_eq_lt.mp hlt
  refine ⟨fun sender => ?_, Draft.executedBy_passes_le hsorted hb _ hleft⟩
  have haccounts : (chain.produce c).accounts = c.replay (chain.executedNext c) chain.accounts :=
    (Chain.follows_produce c chain).1
  rw [haccounts, c.nonce_replay]

/-- The block that the gas limit cuts after three of four transfers has two of the first sender and one
of the second, whose next transfer is still queued. -/
theorem produce_fair_cut :
    let c : Config := { blockGasLimit := 63500 }
    let chain := (play c .doubled (.genesis c [(1, ⟨0, 1000⟩)])).state.chain
    ((chain.produce c).pool.find? 2 ((chain.produce c).accounts.find 2).nonce).isSome ∧
      (executedBy 1 (chain.executedNext c)).length = 2 ∧
      (executedBy 1 (chain.executedNext c)).length ≤ (executedBy 2 (chain.executedNext c)).length + 1 := by
  intro c chain
  have hleft : ((chain.produce c).pool.find? 2 ((chain.produce c).accounts.find 2).nonce).isSome := by
    decide +kernel
  have htwo : (executedBy 1 (chain.executedNext c)).length = 2 := by decide +kernel
  exact ⟨hleft, htwo, (produce_fair c chain 1 2 hleft).2.1⟩

end Throughput.Simulated
