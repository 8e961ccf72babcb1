import Mathlib.Algebra.BigOperators.Group.List.Basic
import Throughput.Proofs.Simulated.Blocks

/-!
# How full a block becomes

A block takes one transfer of each sender per pass until a pass adds nothing or the gas limit is
reached. In the end it holds as many transfers as the limit allows, or every one that could be
executed.
-/

namespace Throughput.Simulated

theorem takeWhile_congr {α : Type} {p q : α → Bool} {xs : List α} (h : ∀ x ∈ xs, p x = q x) :
    xs.takeWhile p = xs.takeWhile q := by
  induction xs with
  | nil => rfl
  | cons x xs ih =>
    rw [List.takeWhile_cons, List.takeWhile_cons, h x List.mem_cons_self,
      ih fun y hy => h y (List.mem_cons_of_mem x hy)]

namespace Queue

/-- How many nonces are queued without a gap from a nonce on. -/
def run (queue : Queue) (nonce : UInt64) : Nat :=
  ((List.range queue.size).takeWhile fun i => queue.contains (nonce + i.toUInt64)).length

variable {queue : Queue} {nonce : UInt64}

/-- A queue has no more entries than there are nonces. -/
theorem size_le (queue : Queue) : queue.size ≤ 2 ^ 64 := by
  have hnodup : (queue.keys.map UInt64.toNat).Nodup :=
    Std.ExtTreeMap.nodup_keys.map fun _ _ => UInt64.toNat_inj.mp
  have hwords : queue.keys.map UInt64.toNat ⊆ List.range (2 ^ 64) := by
    intro n hn
    obtain ⟨word, -, rfl⟩ := List.mem_map.mp hn
    exact List.mem_range.mpr word.toNat_lt
  have hlength := (List.subperm_of_subset hnodup hwords).length_le
  rwa [List.length_map, Std.ExtTreeMap.length_keys, List.length_range] at hlength

theorem run_of_not_contains (h : queue.contains nonce = false) : queue.run nonce = 0 := by
  unfold run
  cases queue.size with
  | zero => rfl
  | succ n =>
    have hfirst : queue.contains (nonce + (0 : Nat).toUInt64) = false := by
      change queue.contains (nonce + 0) = false
      rw [UInt64.add_zero, h]
    rw [List.range_succ_eq_map, List.takeWhile_cons, hfirst]
    rfl

/-- Without its first nonce a run is shorter by one. -/
theorem run_of_contains (h : queue.contains nonce) :
    queue.run nonce = run (queue.erase nonce) (nonce + 1) + 1 := by
  have hsize : queue.size = (queue.erase nonce).size + 1 := by
    have hpos : 0 < queue.keys.length :=
      List.length_pos_of_mem (Std.ExtTreeMap.mem_keys.mpr (Std.ExtTreeMap.mem_iff_contains.mpr h))
    rw [Std.ExtTreeMap.length_keys] at hpos
    rw [Std.ExtTreeMap.size_erase, if_pos h]
    omega
  have hbound := queue.size_le
  unfold run
  rw [hsize, List.range_succ_eq_map, List.takeWhile_cons_of_pos (by simpa using h),
    List.length_cons, List.takeWhile_map, List.length_map]
  congr 2
  apply takeWhile_congr
  intro i hi
  have hi : i < (queue.erase nonce).size := List.mem_range.mp hi
  have hsucc : nonce + (i + 1).toUInt64 = nonce + 1 + i.toUInt64 := by
    rw [UInt64.add_assoc, UInt64.add_comm 1]
    exact congrArg _ (UInt64.ofNat_add ..)
  -- there are too few entries for the nonces to come round to the first one
  have hne : nonce ≠ nonce + 1 + i.toUInt64 := by
    intro he
    rw [← hsucc] at he
    have hword : ((i + 1).toUInt64).toNat = i + 1 :=
      UInt64.toNat_ofNat_of_lt (Nat.lt_of_lt_of_le (by omega) hbound)
    have hnat := congrArg UInt64.toNat he
    rw [UInt64.toNat_add, hword] at hnat
    have hnonce := nonce.toNat_lt
    omega
  change queue.contains (nonce + (i + 1).toUInt64) = (queue.erase nonce).contains _
  rw [hsucc, Std.ExtTreeMap.contains_erase]
  simp [hne]

end Queue

namespace Draft

variable {c : Config} {block : Nat} {number : UInt64} {senders : List Address} {d : Draft}
  {a b : Address} {t : Transfer}

theorem mem_pool_of_executable? (h : d.executable? a = some t) : a ∈ d.pool := by
  rw [Std.ExtTreeMap.mem_iff_isSome_getElem?]
  cases hqueue : d.pool[a]? with
  | none => simp [executable?, hqueue] at h
  | some queue => rfl

section Runs

/-- How many transfers of a sender could be executed one after the other. -/
def run (d : Draft) (a : Address) : Nat :=
  Queue.run (d.pool.getD a ∅) (d.accounts.find a).nonce

theorem contains_getD_nonce :
    (d.pool.getD a ∅).contains (d.accounts.find a).nonce = (d.executable? a).isSome :=
  Pool.contains_getD ..

theorem run_eq_zero (h : d.executable? a = none) : d.run a = 0 :=
  Queue.run_of_not_contains (by rw [contains_getD_nonce, h]; rfl)

/-- An executed transfer shortens the run of its sender by one. -/
theorem run_add (c : Config) (number : UInt64) (h : d.executable? a = some t) :
    d.run a = (d.add c number a t).run a + 1 := by
  have hcontains : (d.pool.getD a ∅).contains (d.accounts.find a).nonce := by
    rw [contains_getD_nonce, h]
    rfl
  have hqueue : (d.add c number a t).pool.getD a ∅ =
      (d.pool.getD a ∅).erase (d.accounts.find a).nonce := by
    change (d.pool.modify a (·.erase (d.accounts.find a).nonce)).getD a ∅ = _
    rw [Std.ExtTreeMap.getD_modify_self, Std.ExtTreeMap.getD_eq_getD_getElem?]
    cases d.pool[a]? with
    | none => simp
    | some queue => rfl
  unfold run
  rw [Queue.run_of_contains hcontains, hqueue, nonce_add, if_pos rfl]

/-- It leaves the runs of the others. -/
theorem run_add_of_ne (h : a ≠ b) : (d.add c number a t).run b = d.run b := by
  have hqueue : (d.add c number a t).pool.getD b ∅ = d.pool.getD b ∅ := by
    change (d.pool.modify a (·.erase (d.accounts.find a).nonce)).getD b ∅ = _
    rw [Std.ExtTreeMap.getD_modify, if_neg (by simpa using h)]
  unfold run
  rw [hqueue, nonce_add, if_neg h]

theorem sum_run_add (c : Config) (number : UInt64) (hnodup : senders.Nodup) (ha : a ∈ senders)
    (h : d.executable? a = some t) :
    (senders.map d.run).sum = (senders.map (d.add c number a t).run).sum + 1 := by
  have hothers : (senders.erase a).map (d.add c number a t).run = (senders.erase a).map d.run := by
    apply List.map_congr_left
    intro b hb
    have hne : b ≠ a := ((List.Nodup.mem_erase_iff hnodup).mp hb).1
    exact run_add_of_ne hne.symm
  rw [← List.sum_map_erase d.run ha, ← List.sum_map_erase (d.add c number a t).run ha, hothers,
    run_add c number h]
  omega

end Runs

section Kept

variable {I : Draft → Prop} (hadd : KeptByAdd c block fun _ d => I d)

include hadd

theorem pass_keeps_draft (senders : List Address) (h : I d) :
    I (senders.foldl (takeNext c block.toUInt64) d) :=
  @pass_keeps c block (fun _ d => I d) [] d hadd senders h

theorem fill_keeps_draft (senders : List Address) (passes : Nat) (h : I d) :
    I (d.fill c block.toUInt64 senders passes) :=
  @fill_keeps c block (fun _ d => I d) [] d hadd senders passes h

end Kept

section Passes

/-- A full block takes nothing more. -/
theorem pass_of_full (h : d.isFull c) (senders : List Address) :
    senders.foldl (takeNext c number) d = d := by
  induction senders with
  | nil => rfl
  | cons a rest ih =>
    have hfirst : d.takeNext c number a = d := if_pos h
    rw [List.foldl_cons, hfirst, ih]

theorem takeNext_of_none (h : d.executable? a = none) : d.takeNext c number a = d := by
  unfold takeNext
  rw [h, ite_self]

theorem takeNext_of_some (hroom : d.isFull c = false) (h : d.executable? a = some t) :
    d.takeNext c number a = d.add c number a t := by
  unfold takeNext
  rw [h, hroom]
  rfl

theorem included_le_pass (c : Config) (block : Nat) (senders : List Address) (d : Draft) :
    d.included ≤ (senders.foldl (takeNext c block.toUInt64) d).included := by
  have hadd : KeptByAdd c block fun _ d' => d.included ≤ d'.included :=
    fun _ _ _ _ _ _ h => Nat.le_succ_of_le h
  exact pass_keeps_draft hadd senders (Nat.le_refl _)

/-- A pass that adds nothing finds the block full or no sender with a transfer at its nonce. -/
theorem pass_eq_self (h : (senders.foldl (takeNext c block.toUInt64) d).included = d.included) :
    senders.foldl (takeNext c block.toUInt64) d = d ∧
      (d.isFull c ∨ ∀ a ∈ senders, d.executable? a = none) := by
  by_cases hfull : d.isFull c
  · exact ⟨pass_of_full hfull senders, .inl hfull⟩
  · induction senders with
    | nil => exact ⟨rfl, .inr nofun⟩
    | cons a rest ih =>
      rw [List.foldl_cons] at h ⊢
      cases hnext : d.executable? a with
      | none =>
        rw [takeNext_of_none hnext] at h ⊢
        obtain ⟨hrest, hidle⟩ := ih h
        refine ⟨hrest, .inr ?_⟩
        simpa [hnext] using hidle.resolve_left hfull
      | some t =>
        rw [takeNext_of_some (by simpa using hfull) hnext] at h
        have hmore := included_le_pass c block rest (d.add c block.toUInt64 a t)
        change d.included + 1 ≤ _ at hmore
        omega

/-- The passes as they are made, counted: one after the other, until one adds nothing or the block is
full. -/
inductive Fills (c : Config) (number : UInt64) (senders : List Address) : Nat → Draft → Draft → Prop
  | last {d next : Draft} (hpass : senders.foldl (takeNext c number) d = next)
      (hstop : next.included = d.included ∨ next.isFull c) : Fills c number senders 1 d next
  | more {d next filled : Draft} {n : Nat} (hpass : senders.foldl (takeNext c number) d = next)
      (hmore : ¬ (next.included = d.included ∨ next.isFull c))
      (hrest : Fills c number senders n next filled) : Fills c number senders (n + 1) d filled

/-- What is in the block and what is queued are as many together as before. -/
theorem included_add_places (c : Config) (block total : Nat) :
    KeptByAdd c block fun _ d => d.included + d.pool.places.length = total := by
  intro _ d a t _ ht h
  have hplaces := places_add c block.toUInt64 ht
  change d.included + 1 + _ = total
  omega

/-- Every pass but the last takes a transfer from the pool, so the passes come to an end. -/
theorem fills_fill (passes : Nat) (h : d.pool.places.length < passes) :
    ∃ n ≤ passes, Fills c block.toUInt64 senders n d (d.fill c block.toUInt64 senders passes) := by
  induction passes generalizing d with
  | zero => exact absurd h (Nat.not_lt_zero _)
  | succ passes ih =>
    unfold fill
    dsimp only
    by_cases hstop : (senders.foldl (takeNext c block.toUInt64) d).included = d.included ∨
        (senders.foldl (takeNext c block.toUInt64) d).isFull c
    · rw [if_pos hstop]
      exact ⟨1, Nat.le_add_left .., .last rfl hstop⟩
    · rw [if_neg hstop]
      have hsum := pass_keeps_draft (included_add_places c block _) senders (d := d) rfl
      have hgrown := included_le_pass c block senders d
      have hne : (senders.foldl (takeNext c block.toUInt64) d).included ≠ d.included :=
        fun he => hstop (.inl he)
      obtain ⟨n, hn, hrest⟩ := ih (d := senders.foldl (takeNext c block.toUInt64) d) (by omega)
      exact ⟨n + 1, Nat.succ_le_succ hn, .more rfl hstop hrest⟩

/-- When the passes have ended, the block is full or nobody's next transfer is queued. -/
theorem Fills.full_or_idle {n : Nat} {filled : Draft}
    (h : Fills c block.toUInt64 senders n d filled) :
    filled.isFull c ∨ ∀ a ∈ senders, filled.executable? a = none := by
  induction h with
  | last hpass hstop =>
    subst hpass
    rcases hstop with hidle | hfull
    · obtain ⟨hsame, hend⟩ := pass_eq_self hidle
      rwa [hsame]
    · exact .inl hfull
  | more _ _ _ ih => exact ih

end Passes

end Draft

namespace Chain

variable {c : Config} {chain : Chain}

theorem sound_produce (h : chain.draft.Sound) : (chain.produce c).draft.Sound := by
  have hadd : Draft.KeptByAdd c chain.blocks.size fun _ d => d.Sound :=
    fun _ _ _ _ _ ht h => h.add ht chain.blocks.size.toUInt64
  rw [draft_produce]
  exact (Draft.fill_keeps_draft hadd _ _ h).closed

theorem sound_extend (h : chain.draft.Sound) (n : Nat) : (chain.extend c n).draft.Sound := by
  induction n generalizing chain with
  | zero => exact h
  | succ n ih => exact ih (sound_produce h)

/-- Filling a block leaves each sender its queue, empty or not. What the block executes and what could
be executed after it is what could be executed before. -/
theorem runs_filled (c : Config) (chain : Chain) :
    (∀ a, a ∈ (chain.filled c).pool ↔ a ∈ chain.pool) ∧
      (chain.executedNext c).length + (chain.pool.keys.map (chain.filled c).run).sum =
        (chain.pool.keys.map chain.draft.run).sum := by
  let P : List Executed → Draft → Prop := fun log d =>
    (∀ a, a ∈ d.pool ↔ a ∈ chain.pool) ∧
      log.length + (chain.pool.keys.map d.run).sum = (chain.pool.keys.map chain.draft.run).sum
  have hadd : Draft.KeptByAdd c chain.blocks.size P := by
    rintro log d a t - ht ⟨hkeys, hsum⟩
    have ha : a ∈ chain.pool.keys :=
      Std.ExtTreeMap.mem_keys.mpr ((hkeys a).mp (Draft.mem_pool_of_executable? ht))
    have hruns := Draft.sum_run_add c chain.blocks.size.toUInt64 Std.ExtTreeMap.nodup_keys ha ht
    refine ⟨fun b => Std.ExtTreeMap.mem_modify.trans (hkeys b), ?_⟩
    rw [List.length_append, List.length_singleton]
    omega
  have hstart : P [] chain.draft := ⟨fun _ => Iff.rfl, Nat.zero_add _⟩
  exact Draft.fill_keeps hadd chain.pool.keys (chain.pooled + 1) hstart

/-- The passes over a pool whose counter is right come to an end, the first or the one after as many
as there are transfers in the pool. -/
theorem fills_filled (h : chain.draft.Sound) :
    ∃ passes ≤ chain.pooled + 1, Draft.Fills c chain.blocks.size.toUInt64 chain.pool.keys passes
      chain.draft (chain.filled c) := by
  apply Draft.fills_fill
  rw [show chain.pooled = chain.draft.pool.places.length from h.pooled]
  exact Nat.lt_succ_self _

/-- A block ends full or with nothing more to execute. -/
theorem full_or_idle (h : chain.draft.Sound) :
    (chain.filled c).isFull c ∨ ∀ a, (chain.filled c).executable? a = none := by
  obtain ⟨passes, -, hfills⟩ := fills_filled (c := c) h
  refine hfills.full_or_idle.imp_right fun hidle a => ?_
  by_contra hsome
  obtain ⟨t, ht⟩ := Option.ne_none_iff_exists'.mp hsome
  have ha := (runs_filled c chain).1 a |>.mp (Draft.mem_pool_of_executable? ht)
  exact hsome (hidle a (Std.ExtTreeMap.mem_keys.mpr ha))

theorem length_executedNext_le (h : chain.draft.Sound) :
    (chain.executedNext c).length ≤ chain.pooled := by
  have hcount := pooled_extend (c := c) h 1
  rw [executed, executed, List.append_nil] at hcount
  omega

/-- A block executes what the gas limit allows or all that can be executed. -/
theorem length_executedNext (h : chain.draft.Sound) :
    (chain.executedNext c).length =
      min (c.blockGasLimit.toNat / transferGas) (chain.pool.keys.map chain.draft.run).sum := by
  obtain ⟨hincluded, hgas⟩ := included_filled c chain
  have hruns := (runs_filled c chain).2
  have hlimit : (chain.executedNext c).length ≤ c.blockGasLimit.toNat / transferGas := by
    rw [Nat.le_div_iff_mul_le (by decide), Nat.mul_comm]
    exact hgas
  rcases full_or_idle (c := c) h with hfull | hidle
  · have hfull : c.blockGasLimit.toNat < ((chain.executedNext c).length + 1) * transferGas := by
      simpa [Draft.isFull, hincluded, Nat.mul_comm, Nat.mul_add] using hfull
    have hmost := Nat.lt_succ_iff.mp ((Nat.div_lt_iff_lt_mul (by decide)).mpr hfull)
    omega
  · have hnone : (chain.pool.keys.map (chain.filled c).run).sum = 0 := by
      apply List.sum_eq_zero
      intro run hrun
      obtain ⟨a, -, rfl⟩ := List.mem_map.mp hrun
      exact Draft.run_eq_zero (hidle a)
    omega

end Chain

/-- As long as the sums of gas fit into a word, comparing words tells whether a block is full. -/
theorem Draft.isFull_iff {d : Draft} (h : transferGas * d.included + transferGas < 2 ^ 64) :
    d.isFull c ↔ c.blockGasLimit < (transferGas * d.included).toUInt64 + transferGas.toUInt64 := by
  have hused : (transferGas * d.included).toUInt64.toNat = transferGas * d.included :=
    UInt64.toNat_ofNat_of_lt (Nat.lt_of_le_of_lt (Nat.le_add_right ..) h)
  have htransfer : transferGas.toUInt64.toNat = transferGas := rfl
  rw [UInt64.lt_iff_toNat_lt, UInt64.toNat_add, hused, htransfer, Nat.mod_eq_of_lt h]
  exact decide_eq_true_iff

/-- Any block of any history is the next one after some acts of the clients and some further blocks. Of
the transfers that could be executed one after the other, sender by sender, it includes all or as many
as its gas limit allows, and its figures say so. It is full in the end, or nobody's next transfer is
queued. Its passes come to an end. The sums of gas that are compared with the limit fit into a word, so
that words may be compared, but for a limit within one transfer of the greatest word and a pool of more
transfers than it allows. -/
theorem produce_fills (c : Config) (accounts : List (Address × Account)) (script : Script) (n : Nat) :
    let chain := (play c script (.genesis c accounts)).state.chain.extend c n
    let count := min (c.blockGasLimit.toNat / transferGas) (chain.pool.keys.map chain.draft.run).sum
    (chain.executedNext c).length = count ∧
    (∃ block, (chain.produce c).blocks = chain.blocks.push block ∧
      block.transactions.toNat = count ∧ block.gasUsed.toNat = transferGas * count ∧
      block.gasUsed ≤ c.blockGasLimit) ∧
    (c.blockGasLimit.toNat < transferGas * count + transferGas ∨
      ∀ a, (chain.produce c).pool.find? a ((chain.produce c).accounts.find a).nonce = none) ∧
    (∃ passes ≤ chain.pooled + 1, Draft.Fills c chain.blocks.size.toUInt64 chain.pool.keys passes
      chain.draft (chain.filled c)) ∧
    (c.blockGasLimit.toNat + transferGas < 2 ^ 64 ∨ transferGas * chain.pooled + transferGas < 2 ^ 64 →
      transferGas * count + transferGas < 2 ^ 64 ∧ ∀ d : Draft, d.included ≤ count →
        (d.isFull c ↔
          c.blockGasLimit < (transferGas * d.included).toUInt64 + transferGas.toUInt64)) := by
  intro chain count
  have hchain : chain.draft.Sound :=
    Chain.sound_extend (play_sound (sound_genesis c accounts) script) n
  have hlength : (chain.executedNext c).length = count := Chain.length_executedNext hchain
  obtain ⟨hincluded, hgas⟩ := Chain.included_filled c chain
  rw [hlength] at hincluded hgas
  have hlimit := c.blockGasLimit.toNat_lt
  have hused : (transferGas * (chain.filled c).included).toUInt64.toNat = transferGas * count := by
    rw [hincluded]
    exact UInt64.toNat_ofNat_of_lt (Nat.lt_of_le_of_lt hgas hlimit)
  refine ⟨hlength, ⟨_, Chain.blocks_produce c chain, ?_, hused, ?_⟩, ?_, Chain.fills_filled hchain,
    fun hroom => ?_⟩
  · rw [Tallied.transactions_produce, hlength]
  · rw [UInt64.le_iff_toNat_le, hused]
    exact hgas
  · refine (Chain.full_or_idle (c := c) hchain).imp (fun hfull => ?_) fun hidle a => ?_
    · simpa [Draft.isFull, hincluded] using hfull
    · exact (Pool.find?_filter ..).trans (hidle a)
  · have hpooled := Chain.length_executedNext_le (c := c) hchain
    rw [hlength] at hpooled
    have hsum : transferGas * count + transferGas < 2 ^ 64 := by
      unfold transferGas at hgas hroom ⊢
      omega
    refine ⟨hsum, fun d hd => Draft.isFull_iff (Nat.lt_of_le_of_lt ?_ hsum)⟩
    exact Nat.add_le_add_right (Nat.mul_le_mul_left _ hd) _

/-- Two senders have two transfers each that could be executed, and one of them a third behind a gap. -/
def Script.doubled : Script :=
  let transfer (sender : Address) (nonce : UInt64) : Request := ⟨sender, 3, 5, 21000, nonce, none⟩
  [(0, .settle (transfer 1 0)), (0, .settle (transfer 1 1)), (0, .settle (transfer 1 3)),
    (0, .settle (transfer 2 1)), (0, .settle (transfer 2 0))]

/-- The gas limit cuts the second pass over these senders after the first of them. -/
theorem produce_fills_cut :
    let c : Config := { blockGasLimit := 63500 }
    let chain := (play c .doubled (.genesis c [(1, ⟨0, 1000⟩)])).state.chain
    chain.pool.keys.map chain.draft.run = [2, 2] ∧ (chain.executedNext c).length = 3 := by
  intro c chain
  have hruns : chain.pool.keys.map chain.draft.run = [2, 2] := by decide +kernel
  obtain ⟨hlength, -⟩ := produce_fills c [(1, ⟨0, 1000⟩)] .doubled 0
  have hthree : min (c.blockGasLimit.toNat / transferGas) [2, 2].sum = 3 := by decide
  rw [Chain.extend, hruns] at hlength
  exact ⟨hruns, hlength.trans hthree⟩

end Throughput.Simulated
