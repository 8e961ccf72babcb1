import Throughput.Proofs.Estimate.Calls
import Throughput.Run.Benchmark

/-!
# The blocks that are analysed

A run reads the last blocks of its window, up to a maximum, and the block before them as a baseline.
-/

namespace Throughput

variable {σ : Type}

/-- A block that was asked for, and the answer. -/
structure BlockRead where
  height : UInt64
  answer : Answer (Option Block)

namespace BlockRead

/-- What a ledger notes of it. -/
def note (r : BlockRead) : Note := .block r.height r.answer

/-- The block, if it was present and could be read. -/
def block? (r : BlockRead) : Option Block := r.answer.toOption.join

/-- The height and the block, if it was present and could be read. -/
def found? (r : BlockRead) : Option (UInt64 × Block) := r.block?.map (r.height, ·)

end BlockRead

theorem readBlocks_succ (ledger : Ledger σ) (now : Instant) (count : Nat) (height : UInt64) (s : σ) :
    let read := ledger.block now height s
    let others := readBlocks ledger now count (height + 1) read.2
    readBlocks ledger now (count + 1) height s =
      ((BlockRead.found? ⟨height, read.1⟩).toList ++ others.1, others.2) := by
  rw [readBlocks]
  dsimp only
  cases (ledger.block now height s).1 with
  | error e => rfl
  | ok b => cases b <;> rfl

/-- Each height is asked for once, in ascending order, and what was found is what was present. -/
theorem readBlocks_noted (ledger : Ledger σ) (now : Instant) (count : Nat) (height : UInt64) (s : σ)
    (notes : List Note) (hfits : height.toNat + count ≤ 2 ^ 64) : ∃ reads : List BlockRead,
      readBlocks ledger.noted now count height (s, notes) =
        ((readBlocks ledger now count height s).1,
          ((readBlocks ledger now count height s).2, notes ++ reads.map (·.note))) ∧
      (readBlocks ledger now count height s).1 = reads.filterMap (·.found?) ∧
      reads.map (·.height.toNat) = List.range' height.toNat count := by
  induction count generalizing height s notes with
  | zero => exact ⟨[], by rw [List.map_nil, List.append_nil]; rfl, rfl, rfl⟩
  | succ count ih =>
    obtain ⟨hplace, hroom⟩ := range'_toNat_succ hfits
    obtain ⟨reads, hnoted, hfound, hheights⟩ := ih (height + 1) (ledger.block now height s).2
      (notes ++ [.block height (ledger.block now height s).1]) hroom
    rw [readBlocks_succ, readBlocks_succ]
    refine ⟨⟨height, (ledger.block now height s).1⟩ :: reads, ?_, ?_, ?_⟩
    · rw [List.map_cons, List.append_cons]
      exact congrArg (fun others => (_ ++ others.1, others.2)) hnoted
    · rw [hfound, List.filterMap_cons]
      cases BlockRead.found? ⟨height, (ledger.block now height s).1⟩ <;> rfl
    · rw [List.map_cons, hheights, hplace, List.range'_succ]

/-- Among blocks at different heights the one before the first is the baseline. -/
theorem splitBaseline_found {first : UInt64} {base : BlockRead} {later : List BlockRead}
    (hbase : base.height + 1 = first) (hlater : ∀ r ∈ later, r.height + 1 ≠ first) :
    splitBaseline first ((base :: later).filterMap (·.found?)) =
      (base.block?, later.filterMap (·.block?)) := by
  have hbefore : (later.filterMap (·.found?)).filter (fun b => b.1 + 1 == first) = [] := by
    rw [List.filter_eq_nil_iff]
    intro b hb
    obtain ⟨r, hr, hfound⟩ := List.mem_filterMap.mp hb
    obtain ⟨-, -, rfl⟩ := Option.map_eq_some_iff.mp hfound
    simpa using hlater r hr
  have hafter : (later.filterMap (·.found?)).filter (fun b => !(b.1 + 1 == first)) =
      later.filterMap (·.found?) := by
    rw [List.filter_eq_self]
    intro b hb
    simpa using List.filter_eq_nil_iff.mp hbefore b hb
  have hblocks : (later.filterMap (·.found?)).map Prod.snd = later.filterMap (·.block?) := by
    rw [List.map_filterMap]
    congr
    funext r
    rw [BlockRead.found?, Option.map_map]
    exact Option.map_id' ..
  unfold splitBaseline
  rw [List.partition_eq_filter_filter, List.filterMap_cons, BlockRead.found?]
  cases base.block? with
  | none =>
    dsimp only [Option.map_none, Function.comp_def]
    rw [hbefore, hafter, hblocks]
    rfl
  | some b =>
    dsimp only [Option.map_some, Function.comp_def]
    rw [List.filter_cons_of_pos (by simpa using hbase), hbefore,
      List.filter_cons_of_neg (by simpa using hbase), hafter, hblocks]
    rfl

namespace RunConfig

variable {c : RunConfig}

theorem toNat_firstAnalyzed (hmost : c.maxBlocksAnalyzed ≠ 0) {start last : UInt64}
    (hlt : start < last) : (c.firstAnalyzed start last).toNat =
      max (start.toNat + 1) (last.toNat - c.maxBlocksAnalyzed.toNat + 1) := by
  have hpos : 0 < c.maxBlocksAnalyzed.toNat :=
    Nat.pos_of_ne_zero fun h => hmost (UInt64.toNat_inj.mp h)
  have hlast := last.toNat_lt
  rw [UInt64.lt_iff_toNat_lt] at hlt
  have hstart : (start + 1).toNat = start.toNat + 1 := by
    rw [UInt64.toNat_add]
    exact Nat.mod_eq_of_lt (by simp; omega)
  have hnewest : ((if c.maxBlocksAnalyzed ≤ last then last - c.maxBlocksAnalyzed else 0) + 1).toNat =
      last.toNat - c.maxBlocksAnalyzed.toNat + 1 := by
    split
    · rename_i hle
      have hdiff := UInt64.toNat_sub_of_le _ _ hle
      rw [UInt64.toNat_add, hdiff]
      exact Nat.mod_eq_of_lt (by simp; omega)
    · rename_i hgt
      rw [UInt64.not_le, UInt64.lt_iff_toNat_lt] at hgt
      rw [Nat.sub_eq_zero_of_le (Nat.le_of_lt hgt)]
      rfl
  unfold firstAnalyzed
  dsimp only
  rw [← hstart, ← hnewest]
  exact apply_ite UInt64.toNat ..

variable {w : RunWindow}

theorem analyzedBlocks_of_unknown (hnot : ∀ last, w.endHeight = some last → last ≤ w.startHeight)
    (ledger : Ledger σ) (now : Instant) (s : σ) :
    c.analyzedBlocks ledger now w s = ((none, []), s) := by
  unfold analyzedBlocks
  cases hend : w.endHeight with
  | none => rfl
  | some last => exact if_pos (hnot last hend)

/-- A window that has grown is read once from the height before those that are analysed on. -/
theorem analyzedBlocks_reads (hmost : c.maxBlocksAnalyzed ≠ 0) {last : UInt64}
    (hend : w.endHeight = some last) (hgrown : w.startHeight < last) (ledger : Ledger σ)
    (now : Instant) (s : σ) (notes : List Note) : ∃ base later,
      c.analyzedBlocks ledger.noted now w (s, notes) = ((c.analyzedBlocks ledger now w s).1,
        ((c.analyzedBlocks ledger now w s).2, notes ++ (base :: later).map BlockRead.note)) ∧
      (c.analyzedBlocks ledger now w s).1 = (base.block?, later.filterMap (·.block?)) ∧
      base.height.toNat = max w.startHeight.toNat (last.toNat - c.maxBlocksAnalyzed.toNat) ∧
      later.map (·.height.toNat) =
        List.range' (base.height.toNat + 1) (last.toNat - base.height.toNat) := by
  have hfirst := toNat_firstAnalyzed hmost hgrown
  rw [UInt64.lt_iff_toNat_lt] at hgrown
  unfold analyzedBlocks
  rw [hend]
  dsimp only
  rw [if_neg (UInt64.not_le.mpr hgrown), if_neg (UInt64.not_le.mpr hgrown)]
  generalize c.firstAnalyzed w.startHeight last = first at hfirst ⊢
  have hlast := last.toNat_lt
  have hone : (1 : UInt64) ≤ first := by
    rw [UInt64.le_iff_toNat_le, UInt64.toNat_one]
    omega
  have hlowest : (first - 1).toNat =
      max w.startHeight.toNat (last.toNat - c.maxBlocksAnalyzed.toNat) := by
    rw [UInt64.toNat_sub_of_le _ _ hone, UInt64.toNat_one]
    omega
  have hcount : last.toNat + 2 - first.toNat = last.toNat - (first - 1).toNat + 1 := by omega
  obtain ⟨reads, hnoted, hfound, hheights⟩ := readBlocks_noted ledger now
    (last.toNat + 2 - first.toNat) (first - 1) s notes (by omega)
  rw [hcount, List.range'_succ] at hheights
  obtain ⟨base, later, rfl, hbase, hlater⟩ := List.map_eq_cons_iff.mp hheights
  have hnext : base.height + 1 = first := by
    rw [UInt64.toNat_inj.mp hbase]
    exact UInt64.sub_add_cancel first 1
  refine ⟨base, later, ?_, ?_, hbase.trans hlowest, by rw [hlater, hbase]⟩
  · rw [hnoted]
  · rw [hfound]
    refine splitBaseline_found hnext fun r hr hsame => ?_
    -- a height above the lowest that is one before the first is the lowest
    have hmem : r.height.toNat ∈ later.map (·.height.toNat) := List.mem_map_of_mem hr
    rw [hlater, List.mem_range'_1, ← hbase,
      (UInt64.add_left_inj 1).mp (hsame.trans hnext.symm)] at hmem
    exact absurd hmem.1 (Nat.not_succ_le_self _)

/-- No more blocks are analysed than may be, or than were produced; and none where the end of the window
is unknown. -/
theorem length_analyzedBlocks_le (hmost : c.maxBlocksAnalyzed ≠ 0) (ledger : Ledger σ)
    (now : Instant) (w : RunWindow) (s : σ) :
    (c.analyzedBlocks ledger now w s).1.2.length ≤
      w.blocksProduced.elim 0 fun produced => min c.maxBlocksAnalyzed.toNat produced.toNat := by
  by_cases hgrown : ∃ last, w.endHeight = some last ∧ w.startHeight < last
  · obtain ⟨last, hend, hlt⟩ := hgrown
    obtain ⟨base, later, -, hblocks, hbase, hlater⟩ :=
      analyzedBlocks_reads hmost hend hlt ledger now s []
    have hproduced := UInt64.toNat_sub_of_le _ _ (UInt64.le_of_lt hlt)
    have hlength := congrArg List.length hlater
    rw [List.length_map, List.length_range'] at hlength
    unfold RunWindow.blocksProduced
    rw [hblocks, hend, Option.map_some, Option.elim_some, if_pos (UInt64.le_of_lt hlt), hproduced]
    refine Nat.le_trans (List.length_filterMap_le ..) ?_
    omega
  · rw [analyzedBlocks_of_unknown fun last hend => ?_]
    · exact Nat.zero_le _
    · exact UInt64.not_lt.mp fun hlt => hgrown ⟨last, hend, hlt⟩

/-- A window that has grown is read from as many blocks before its end as may be analysed, or from its
start if that is later: each height up to the end once, in ascending order. What is present at the lowest
height is the baseline, and what is present above are the blocks that are analysed. Nothing is read of a
window that has not grown or whose end is unknown. -/
theorem analyzedBlocks_exact (c : RunConfig) (hmost : c.maxBlocksAnalyzed ≠ 0) (ledger : Ledger σ)
    (now : Instant) (w : RunWindow) (s : σ) (notes : List Note) : ∃ reads : List BlockRead,
      c.analyzedBlocks ledger.noted now w (s, notes) = ((c.analyzedBlocks ledger now w s).1,
        ((c.analyzedBlocks ledger now w s).2, notes ++ reads.map (·.note))) ∧
      (∀ last, w.endHeight = some last → w.startHeight < last → ∃ base later,
        reads = base :: later ∧
        base.height.toNat = max w.startHeight.toNat (last.toNat - c.maxBlocksAnalyzed.toNat) ∧
        later.map (·.height.toNat) =
          List.range' (base.height.toNat + 1) (last.toNat - base.height.toNat) ∧
        (c.analyzedBlocks ledger now w s).1 = (base.block?, later.filterMap (·.block?))) ∧
      ((∀ last, w.endHeight = some last → last ≤ w.startHeight) →
        reads = [] ∧ (c.analyzedBlocks ledger now w s).1 = (none, [])) := by
  by_cases hgrown : ∃ last, w.endHeight = some last ∧ w.startHeight < last
  · obtain ⟨last, hend, hlt⟩ := hgrown
    obtain ⟨base, later, hnoted, hblocks, hbase, hlater⟩ :=
      analyzedBlocks_reads hmost hend hlt ledger now s notes
    refine ⟨base :: later, hnoted, fun last' hend' _ => ?_, fun hnot => ?_⟩
    · obtain rfl := Option.some.inj (hend.symm.trans hend')
      exact ⟨base, later, rfl, hbase, hlater, hblocks⟩
    · exact absurd (hnot last hend) (UInt64.not_le.mpr hlt)
  · have hnot : ∀ last, w.endHeight = some last → last ≤ w.startHeight := fun last hend =>
      UInt64.not_lt.mp fun hlt => hgrown ⟨last, hend, hlt⟩
    rw [analyzedBlocks_of_unknown hnot, analyzedBlocks_of_unknown hnot]
    refine ⟨[], by rw [List.map_nil, List.append_nil], fun last hend hlt => ?_,
      fun _ => ⟨rfl, rfl⟩⟩
    exact absurd (hnot last hend) (UInt64.not_le.mpr hlt)

end RunConfig

/-! ## A window with holes -/

/-- A ledger with empty blocks, of which one is missing and one cannot be read. -/
def Ledger.patchy : Ledger Unit where
  submit _ _ _ := (.pure 0 (.error (.transport "down")), ())
  sequenceNumber _ _ _ := (.ok 0, ())
  balance _ _ _ := (.ok 0, ())
  height _ _ := (.ok 6, ())
  block _ height _ :=
    (if height = 4 then .ok none else if height = 5 then .error (.transport "down")
      else .ok (some ⟨height, height, 0, 0, 1⟩), ())
  receipt _ _ _ := (.pure 0 (.ok none), ())

/-- Of the four blocks up to height six, two are found, and neither takes the place of the baseline. -/
theorem RunConfig.analyzedBlocks_exact_patchy :
    let c : RunConfig := { maxBlocksAnalyzed := 4 }
    ∃ reads : List BlockRead,
      c.analyzedBlocks Ledger.patchy.noted 0 ⟨1, some 6⟩ ((), []) =
        ((some ⟨2, 2, 0, 0, 1⟩, [⟨3, 3, 0, 0, 1⟩, ⟨6, 6, 0, 0, 1⟩]), (), reads.map (·.note)) ∧
      reads.map (·.height.toNat) = [2, 3, 4, 5, 6] := by
  intro c
  obtain ⟨reads, hnoted, hgrown, -⟩ :=
    c.analyzedBlocks_exact (by decide) Ledger.patchy 0 ⟨1, some 6⟩ () []
  obtain ⟨base, later, rfl, hbase, hlater, -⟩ := hgrown 6 rfl (by decide)
  have hfound : (c.analyzedBlocks Ledger.patchy 0 ⟨1, some 6⟩ ()).1 =
      (some ⟨2, 2, 0, 0, 1⟩, [⟨3, 3, 0, 0, 1⟩, ⟨6, 6, 0, 0, 1⟩]) := by decide
  have hlowest : max (1 : UInt64).toNat ((6 : UInt64).toNat - c.maxBlocksAnalyzed.toNat) = 2 := rfl
  rw [hlowest] at hbase
  rw [hfound] at hnoted
  refine ⟨base :: later, hnoted, ?_⟩
  rw [List.map_cons, hlater, hbase]
  rfl

end Throughput
