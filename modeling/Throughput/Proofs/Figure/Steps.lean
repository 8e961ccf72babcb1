import Mathlib.Algebra.GroupWithZero.Nat
import Throughput.Figure.BlockTime
import Throughput.Figure.Metrics

/-!
# The steps of a chain

The rates of blocks, their cadence and the comparison with a target are formed apart from each other.
They are all about the same steps: the places of a chain at which the next block has the next height.
-/

namespace Throughput

/-- A step of a chain: the block at a place and the one after it, if its height is the next. -/
def stepAt? (chain : List Block) (place : Nat) : Option (Block × Block) :=
  match chain[place]?, chain[place + 1]? with
  | some a, some b => if b.number.toNat = a.number.toNat + 1 then some (a, b) else none
  | _, _ => none

/-- The steps of a chain in their order. -/
def steps (chain : List Block) : List (Block × Block) :=
  (List.range chain.length).filterMap (stepAt? chain)

/-- The intervals that have been counted. -/
def IntervalTally.total (t : IntervalTally) : Nat := t.faster + t.onTarget + t.slower

/-- The greater of two words is one of them, and no less than either. -/
instance instLawfulOrderMaxUInt64 : Std.LawfulOrderMax UInt64 where
  max_eq_or a b := by
    change (if a ≤ b then b else a) = a ∨ (if a ≤ b then b else a) = b
    split
    · exact .inr rfl
    · exact .inl rfl
  max_le_iff a b c := by
    change (if a ≤ b then b else a) ≤ c ↔ _
    split
    · rename_i hle
      exact ⟨fun h => ⟨UInt64.le_trans hle h, h⟩, And.right⟩
    · rename_i hgt
      have hba := UInt64.le_of_lt (UInt64.not_le.mp hgt)
      exact ⟨fun h => ⟨h, UInt64.le_trans hba h⟩, And.left⟩

namespace BlockTimeReport

variable {σ : Type} {ledger : Ledger σ} {now : Instant} {count gasPerTransaction : UInt64}
  {target : Duration} {s s' : σ} {report : BlockTimeReport}

/-- Are these the blocks from `first` to `last` that a ledger has, where `last` is its height and `first`
is `count` below it? -/
def Reads (ledger : Ledger σ) (now : Instant) (count : UInt64) (s : σ) (first last : UInt64)
    (blocks : List Block) (s' : σ) : Prop :=
  ∃ s₁, ledger.height now s = (.ok last, s₁) ∧
    (first = if count ≤ last then last - count else 0) ∧
    readHistory ledger now (last.toNat + 1 - first.toNat) first s₁ = (.ok blocks, s')

/-- A report is about the blocks that are read. -/
theorem read_eq_ok : read ledger now count gasPerTransaction target s = (.ok report, s') ↔
    ∃ first last blocks, Reads ledger now count s first last blocks s' ∧
      report = ofBlocks first last gasPerTransaction (target / 1_000_000_000).toUInt64 blocks := by
  unfold read Reads
  constructor
  · intro h
    split at h
    · nomatch h
    · rename_i last s₁ hheight
      dsimp only at h
      split at h
      · nomatch h
      · rename_i blocks s₂ hblocks
        obtain ⟨hreport, rfl⟩ := Prod.mk.inj h
        exact ⟨_, last, blocks, ⟨s₁, hheight, rfl, hblocks⟩, (Except.ok.inj hreport).symm⟩
  · rintro ⟨first, last, blocks, ⟨s₁, hheight, hfirst, hblocks⟩, rfl⟩
    rw [hheight]
    dsimp only
    rw [← hfirst, hblocks]

end BlockTimeReport

/-- Blocks with a gap in their heights, and with a time that goes back. -/
def Block.gapped : List Block :=
  [⟨10, 100, 4, 0, 1⟩, ⟨12, 200, 5, 0, 1⟩, ⟨13, 190, 6, 0, 1⟩, ⟨14, 191, 7, 0, 1⟩]

end Throughput
