import Throughput.Proofs.Simulated.Pool

/-!
# The executed transfers

What a block executes is written down in order, beside the chain. A property of the chain and of what
has been executed is kept by whole blocks if it is kept when one transfer is moved from the pool into
a block.
-/

namespace Throughput.Simulated

/-- A transfer that a block has executed. -/
structure Executed where
  sender : Address
  nonce : UInt64
  transfer : Transfer
  /-- The place of the block in the chain. -/
  block : Nat
  succeeded : Bool
deriving DecidableEq, Repr

namespace Executed

/-- The place in the pool that the transfer had. -/
def place (x : Executed) : Address × UInt64 := (x.sender, x.nonce)

/-- The receipt of the transfer: the number of its block is its place as a word. -/
def receipt (x : Executed) : Receipt := ⟨x.block.toUInt64, x.succeeded⟩

end Executed

namespace Draft

/-- What is written down of a transfer that goes into a block. -/
def execution (c : Config) (block : Nat) (sender : Address) (t : Transfer) (d : Draft) : Executed :=
  ⟨sender, (d.accounts.find sender).nonce, t, block, (c.execute sender t d.accounts).1⟩

/-- The next transfer of a sender that goes into a block, if there is one and it fits. -/
def next? (c : Config) (block : Nat) (d : Draft) (sender : Address) : Option Executed :=
  if d.isFull c then none else (d.executable? sender).map (d.execution c block sender)

/-- What one pass over the senders puts into a block. -/
def executedInPass (c : Config) (block : Nat) : List Address → Draft → List Executed
  | [], _ => []
  | a :: rest, d =>
    (d.next? c block a).toList ++ executedInPass c block rest (d.takeNext c block.toUInt64 a)

/-- What all passes put into a block. -/
def executedInPasses (c : Config) (block : Nat) (senders : List Address) : Nat → Draft → List Executed
  | 0, _ => []
  | passes + 1, d =>
    let next := senders.foldl (takeNext c block.toUInt64) d
    d.executedInPass c block senders ++
      if next.included = d.included ∨ next.isFull c then []
      else executedInPasses c block senders passes next

/-- A block that is closed leaves no empty queues behind. -/
def closed (d : Draft) : Draft :=
  { d with pool := d.pool.filter fun _ queue => !queue.isEmpty, included := 0 }

variable {c : Config} {block : Nat} {P : List Executed → Draft → Prop} {log : List Executed}
  {d : Draft}

/-- Is a property kept when one transfer goes into a block? -/
def KeptByAdd (c : Config) (block : Nat) (P : List Executed → Draft → Prop) : Prop :=
  ∀ log d a t, d.isFull c = false → d.executable? a = some t → P log d →
    P (log ++ [d.execution c block a t]) (d.add c block.toUInt64 a t)

theorem takeNext_keeps (hadd : KeptByAdd c block P) (h : P log d) (a : Address) :
    P (log ++ (d.next? c block a).toList) (d.takeNext c block.toUInt64 a) := by
  unfold next? takeNext
  by_cases hfull : d.isFull c
  · simpa [hfull] using h
  · cases ht : d.executable? a with
    | none => simpa [hfull, ht] using h
    | some t => simpa [hfull, ht] using hadd log d a t (by simpa using hfull) ht h

theorem pass_keeps (hadd : KeptByAdd c block P) (senders : List Address) (h : P log d) :
    P (log ++ d.executedInPass c block senders)
      (senders.foldl (takeNext c block.toUInt64) d) := by
  induction senders generalizing log d with
  | nil => simpa [executedInPass] using h
  | cons a rest ih =>
    have hrest := ih (takeNext_keeps hadd h a)
    simpa only [executedInPass, List.append_assoc, List.foldl_cons] using hrest

/-- What one transfer keeps is kept while a block is filled. -/
theorem fill_keeps (hadd : KeptByAdd c block P) (senders : List Address) (passes : Nat)
    (h : P log d) :
    P (log ++ d.executedInPasses c block senders passes)
      (d.fill c block.toUInt64 senders passes) := by
  induction passes generalizing log d with
  | zero => simpa [executedInPasses, fill] using h
  | succ passes ih =>
    have hpass := pass_keeps hadd senders h
    unfold executedInPasses fill
    dsimp only
    by_cases hlast : (senders.foldl (takeNext c block.toUInt64) d).included = d.included ∨
        (senders.foldl (takeNext c block.toUInt64) d).isFull c
    · simpa only [hlast, if_true, List.append_nil] using hpass
    · simpa only [hlast, if_false, List.append_assoc] using ih hpass

end Draft

namespace Chain

/-- The draft of the next block before any transfer is in it. -/
def draft (chain : Chain) : Draft := ⟨chain.accounts, chain.pool, chain.pooled, chain.receipts, 0⟩

/-- The draft of the next block when nothing more goes into it. -/
def filled (c : Config) (chain : Chain) : Draft :=
  chain.draft.fill c chain.blocks.size.toUInt64 chain.pool.keys (chain.pooled + 1)

/-- What the next block executes. -/
def executedNext (c : Config) (chain : Chain) : List Executed :=
  chain.draft.executedInPasses c chain.blocks.size chain.pool.keys (chain.pooled + 1)

/-- What a number of further blocks execute. -/
def executed (c : Config) : Nat → Chain → List Executed
  | 0, _ => []
  | n + 1, chain => chain.executedNext c ++ executed c n (chain.produce c)

variable {c : Config} {log : List Executed} {chain : Chain}

theorem draft_produce (c : Config) (chain : Chain) :
    (chain.produce c).draft = (chain.filled c).closed := rfl

theorem blocks_produce (c : Config) (chain : Chain) :
    (chain.produce c).blocks = chain.blocks.push
      { number := chain.blocks.size.toUInt64, timestamp := c.timestamp chain.blocks.size.toUInt64
        transactions := (chain.filled c).included.toUInt64
        gasUsed := (transferGas * (chain.filled c).included).toUInt64
        gasLimit := c.blockGasLimit } := rfl

/-- A property of drafts that one transfer keeps is kept by the production of a block. -/
theorem produce_keeps {P : List Executed → Draft → Prop} (hadd : ∀ block, Draft.KeptByAdd c block P)
    (hclosed : ∀ log d, P log d → P log d.closed) (h : P log chain.draft) :
    P (log ++ chain.executedNext c) (chain.produce c).draft := by
  rw [draft_produce]
  exact hclosed _ _ (Draft.fill_keeps (hadd _) _ _ h)

/-- What one block keeps is kept by further blocks. -/
theorem extend_keeps {Q : List Executed → Chain → Prop}
    (hproduce : ∀ log chain, Q log chain → Q (log ++ chain.executedNext c) (chain.produce c))
    (n : Nat) (h : Q log chain) : Q (log ++ chain.executed c n) (chain.extend c n) := by
  induction n generalizing log chain with
  | zero => simpa [executed, extend] using h
  | succ n ih =>
    have hrest := ih (hproduce log chain h)
    simpa only [executed, extend, List.append_assoc] using hrest

theorem size_blocks_extend (c : Config) (n : Nat) (chain : Chain) :
    (chain.extend c n).blocks.size = chain.blocks.size + n := by
  induction n generalizing chain with
  | zero => rfl
  | succ n ih =>
    rw [extend, ih, blocks_produce, Array.size_push]
    omega

theorem extend_add (c : Config) (m n : Nat) (chain : Chain) :
    chain.extend c (m + n) = (chain.extend c m).extend c n := by
  induction m generalizing chain with
  | zero => simp [extend]
  | succ m ih => rw [Nat.add_right_comm, extend, ih, ← extend]

/-- A block counts what it executes, and its gas is within the limit. -/
theorem included_filled (c : Config) (chain : Chain) :
    (chain.filled c).included = (chain.executedNext c).length ∧
      transferGas * (chain.executedNext c).length ≤ c.blockGasLimit.toNat := by
  let P : List Executed → Draft → Prop := fun log d =>
    d.included = log.length ∧ transferGas * log.length ≤ c.blockGasLimit.toNat
  have hadd : Draft.KeptByAdd c chain.blocks.size P := by
    rintro log d a t hroom - ⟨hcount, -⟩
    simp only [Draft.isFull, decide_eq_false_iff_not, Nat.not_lt, hcount] at hroom
    simp only [P, Draft.add, hcount, List.length_append, List.length_singleton, Nat.mul_add,
      Nat.mul_one, true_and]
    exact hroom
  have hstart : P [] chain.draft := ⟨rfl, Nat.zero_le _⟩
  exact Draft.fill_keeps hadd chain.pool.keys (chain.pooled + 1) hstart

/-- The next block has the next place. -/
theorem block_of_executedNext {x : Executed} (hx : x ∈ chain.executedNext c) :
    x.block = chain.blocks.size := by
  let P : List Executed → Draft → Prop := fun log _ => ∀ x ∈ log, x.block = chain.blocks.size
  have hadd : Draft.KeptByAdd c chain.blocks.size P := by
    rintro log d a t - - h x hx
    rcases List.mem_append.mp hx with hx | hx
    · exact h x hx
    · rw [List.mem_singleton.mp hx]
      rfl
  have hstart : P [] chain.draft := nofun
  exact Draft.fill_keeps hadd chain.pool.keys (chain.pooled + 1) hstart x hx

end Chain

end Throughput.Simulated
