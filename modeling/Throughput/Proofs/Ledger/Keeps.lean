import Throughput.Run.Benchmark

/-!
# What a ledger keeps

A property of the states of a ledger that every read keeps is kept by everything that only reads. An
invariant that also knows which submissions have been accepted is kept by a whole ledger if the answer
to a submission adds to them what it accepts.
-/

namespace Throughput

variable {σ ε : Type}

/-- What the answer to a submission accepts. -/
def grants (request : Request) : Answer Handle → List (Request × Handle)
  | .ok handle => [(request, handle)]
  | .error _ => []

/-- Is a property of states kept by every read? -/
structure Ledger.ReadsKeep (ledger : Ledger σ) (J : σ → Prop) : Prop where
  sequenceNumber : ∀ {s}, J s → ∀ now account, J (ledger.sequenceNumber now account s).2
  balance : ∀ {s}, J s → ∀ now account, J (ledger.balance now account s).2
  height : ∀ {s}, J s → ∀ now, J (ledger.height now s).2
  block : ∀ {s}, J s → ∀ now height, J (ledger.block now height s).2
  receipt : ∀ {s}, J s → ∀ now handle, J (ledger.receipt now handle s).2
  /-- The answer to a query for a receipt, whenever that was made. -/
  receiptAnswer : ∀ {s}, J s → ∀ asked handle before now,
    J ((ledger.receipt asked handle before).1.answer now s).2

/-- Is an invariant kept that knows the accepted submissions? -/
structure Ledger.Keeps (ledger : Ledger σ) (I : List (Request × Handle) → σ → Prop) : Prop where
  reads : ∀ accepted, ledger.ReadsKeep (I accepted)
  submit : ∀ {accepted s}, I accepted s → ∀ now request, I accepted (ledger.submit now request s).2
  /-- The answer to a submission, whenever that was made. -/
  submitAnswer : ∀ {accepted s}, I accepted s → ∀ called request before now,
    I (accepted ++ grants request ((ledger.submit called request before).1.answer now s).1)
      ((ledger.submit called request before).1.answer now s).2

/-- Is a property of states kept by an estimator? -/
structure Estimator.Keeps (estimator : Estimator σ ε) (J : σ → Prop) : Prop where
  prime : ∀ {s}, J s → ∀ now memory, J (estimator.prime now (s, memory)).2.1
  consumed : ∀ {s}, J s → ∀ now memory, J (estimator.consumed now (s, memory)).2.1

namespace Ledger.ReadsKeep

variable {ledger : Ledger σ} {J : σ → Prop} {s : σ}

theorem readTransactions (h : ledger.ReadsKeep J) (now : Instant) (count : Nat)
    (height sum : UInt64) (hs : J s) : J (readTransactions ledger now count height sum s).2 := by
  induction count generalizing height sum s with
  | zero => exact hs
  | succ count ih =>
    have hblock := h.block hs now height
    unfold Throughput.readTransactions
    split
    · rename_i heq
      rwa [heq] at hblock
    · rename_i heq
      rw [heq] at hblock
      exact ih _ _ hblock
    · rename_i heq
      rw [heq] at hblock
      exact ih _ _ hblock

theorem prime (h : ledger.ReadsKeep J) (now : Instant) (last : CountedHeight) (hs : J s) :
    J (RefillEstimate.prime ledger now (s, last)).2.1 := by
  have hheight := h.height hs now
  unfold RefillEstimate.prime
  dsimp only
  split <;> rename_i heq <;> rwa [heq] at hheight

theorem consumedByProgress (h : ledger.ReadsKeep J) (perBlock : UInt64) (now : Instant)
    (last : CountedHeight) (hs : J s) :
    J (RefillEstimate.consumedByProgress perBlock ledger now (s, last)).2.1 := by
  have hheight := h.height hs now
  unfold RefillEstimate.consumedByProgress
  dsimp only
  split <;> rename_i heq <;> rwa [heq] at hheight

theorem consumedByContent (h : ledger.ReadsKeep J) (now : Instant) (last : CountedHeight)
    (hs : J s) : J (RefillEstimate.consumedByContent ledger now (s, last)).2.1 := by
  have hheight := h.height hs now
  unfold RefillEstimate.consumedByContent
  dsimp only
  split
  · rename_i heq
    rwa [heq] at hheight
  · rename_i height s' heq
    rw [heq] at hheight
    cases last with
    | none => exact hheight
    | some l =>
      have hread := h.readTransactions now (height.toNat - l.toNat) (l + 1) 0 hheight
      dsimp only
      split <;> rename_i hsum <;> rwa [hsum] at hread

/-- The estimators of refills only read. -/
theorem estimator (h : ledger.ReadsKeep J) (estimate : RefillEstimate) :
    (estimate.estimator ledger).Keeps J := by
  refine ⟨fun hs now memory => h.prime now memory hs, fun hs now memory => ?_⟩
  cases estimate with
  | blockProgress perBlock => exact h.consumedByProgress perBlock now memory hs
  | blockContent => exact h.consumedByContent now memory hs

theorem readBalances (h : ledger.ReadsKeep J) (now : Instant) (addresses : List Address)
    (hs : J s) : J (readBalances ledger now addresses s).2 := by
  induction addresses generalizing s with
  | nil => exact hs
  | cons account rest ih =>
    have hbalance := h.balance hs now account
    unfold Throughput.readBalances
    split
    · rename_i heq
      rwa [heq] at hbalance
    · rename_i heq
      rw [heq] at hbalance
      exact ih hbalance

theorem readAvailableBalances (h : ledger.ReadsKeep J) (now : Instant) (addresses : List Address)
    (hs : J s) : J (readAvailableBalances ledger now addresses s).2 := by
  induction addresses generalizing s with
  | nil => exact hs
  | cons account rest ih =>
    have hrest := ih (h.balance hs now account)
    unfold Throughput.readAvailableBalances
    dsimp only
    split <;> exact hrest

theorem readBlocks (h : ledger.ReadsKeep J) (now : Instant) (count : Nat) (height : UInt64)
    (hs : J s) : J (readBlocks ledger now count height s).2 := by
  induction count generalizing height s with
  | zero => exact hs
  | succ count ih =>
    have hrest := ih (height + 1) (h.block hs now height)
    unfold Throughput.readBlocks
    dsimp only
    split <;> exact hrest

theorem analyzedBlocks (h : ledger.ReadsKeep J) (c : RunConfig) (now : Instant) (w : RunWindow)
    (hs : J s) : J (c.analyzedBlocks ledger now w s).2 := by
  unfold RunConfig.analyzedBlocks
  split
  · exact hs
  · split
    · exact hs
    · exact h.readBlocks now _ _ hs

/-- What follows the load of a run only reads. -/
theorem conclude (h : ledger.ReadsKeep J) (c : RunConfig) (f : Footing) (send : SendSummary)
    (inclusion : PollReport) (b : Bench σ) (hs : J b.ledger) :
    J (c.conclude ledger f send inclusion b).2.ledger := by
  have hheight := h.height hs b.now
  have hblocks := h.analyzedBlocks c b.now
    ⟨f.startHeight, (ledger.height b.now b.ledger).1.toOption⟩ hheight
  exact h.readAvailableBalances b.now (checkedAccounts c.checks) hblocks

/-- Sequence numbers that every read answers in the same way are read as they are. -/
theorem readStarts {first : Address → UInt64} (h : ledger.ReadsKeep J) (now : Instant)
    (addresses : List Address)
    (hfirst : ∀ a ∈ addresses, ∀ {s}, J s → (ledger.sequenceNumber now a s).1 = .ok (first a))
    (hs : J s) :
    (Sequences.readStarts ledger now addresses s).1 = .ok (addresses.map fun a => (a, first a)) ∧
      J (Sequences.readStarts ledger now addresses s).2 := by
  induction addresses generalizing s with
  | nil => exact ⟨rfl, hs⟩
  | cons a rest ih =>
    have hnumber := hfirst a List.mem_cons_self hs
    obtain ⟨hothers, hafter⟩ := ih (fun b hb => hfirst b (List.mem_cons_of_mem _ hb))
      (h.sequenceNumber hs now a)
    unfold Sequences.readStarts
    split
    · rename_i heq
      rw [heq] at hnumber
      nomatch hnumber
    · rename_i start s' heq
      rw [heq] at hnumber hothers hafter
      dsimp only at hothers hafter ⊢
      refine ⟨?_, hafter⟩
      rw [hothers, Except.ok.inj hnumber]
      rfl

end Ledger.ReadsKeep

end Throughput
