import Mathlib.Algebra.GroupWithZero.Nat
import Mathlib.Data.List.Nodup
import Mathlib.Data.List.Perm.Basic
import Throughput.Random.Sample

/-!
# Samples without repetitions

Whichever method draws it, and whatever the words are, a sample has as many indices as were asked for,
all of them below the length and none twice.
-/

namespace Throughput.Sample

namespace IsDraw

variable {length amount i : Nat} {drawn other : List Nat}

theorem nil (length : Nat) : IsDraw length 0 [] := ⟨rfl, .nil, nofun⟩

theorem cons (h : IsDraw length amount drawn) (hi : i < length) (hnew : i ∉ drawn) :
    IsDraw length (amount + 1) (i :: drawn) :=
  ⟨congrArg Nat.succ h.size, List.nodup_cons.mpr ⟨hnew, h.nodup⟩,
    List.forall_mem_cons.mpr ⟨hi, h.lt⟩⟩

theorem perm (h : IsDraw length amount drawn) (hperm : other.Perm drawn) :
    IsDraw length amount other :=
  ⟨hperm.length_eq.trans h.size, hperm.nodup_iff.mpr h.nodup, fun i hi => h.lt i (hperm.subset hi)⟩

theorem concat (h : IsDraw length amount drawn) (hi : i < length) (hnew : i ∉ drawn) :
    IsDraw length (amount + 1) (drawn ++ [i]) :=
  (h.cons hi hnew).perm (List.perm_append_singleton ..)

theorem mono (h : IsDraw length amount drawn) {more : Nat} (hmore : length ≤ more) :
    IsDraw more amount drawn :=
  ⟨h.size, h.nodup, fun i hi => Nat.lt_of_lt_of_le (h.lt i hi) hmore⟩

end IsDraw

/-- What each step of a fold keeps, whatever words it draws, the fold keeps. -/
theorem foldlM_keeps {β : Type} (P : Nat → β → Prop) (step : β → Nat → StateM WordStream β)
    (first : β) (count : Nat) (hfirst : P 0 first)
    (hstep : ∀ i < count, ∀ b, P i b → ∀ words, P (i + 1) ((step b i).run words).1)
    (words : WordStream) : P count (((List.range count).foldlM step first).run words).1 := by
  induction count with
  | zero => exact hfirst
  | succ count ih =>
    rw [List.range_succ, List.foldlM_append]
    exact hstep count (Nat.lt_succ_self _) _ (ih fun i hi => hstep i (Nat.lt_succ_of_lt hi)) _

section Words

variable {x y z length low high : Nat} (words : WordStream)

theorem widen_fst_lt (hx : x < UInt32.size) (hy : 0 < y) : (widen x y).1 < y :=
  Nat.div_lt_of_lt_mul (Nat.mul_lt_mul_of_pos_right hx hy)

/-- A carry from the second word stays below the range, as both words together are less than one. -/
theorem widen_fst_succ_lt (hx : x < UInt32.size) (hz : z < UInt32.size) (hy : 0 < y)
    (hcarry : UInt32.size ≤ (widen x y).2 + (widen z y).1) : (widen x y).1 + 1 < y := by
  have hhigh := widen_fst_lt hx hy
  have hlow := widen_fst_lt hz hy
  have hsplit : UInt32.size * (widen x y).1 + (widen x y).2 = x * y := Nat.div_add_mod ..
  have hnext : (x + 1) * y ≤ UInt32.size * y := Nat.mul_le_mul_right y hx
  by_contra hlast
  have hend : (widen x y).1 + 1 = y := by omega
  have hfull : UInt32.size * y = UInt32.size * (widen x y).1 + UInt32.size := by
    rw [← Nat.mul_succ, Nat.succ_eq_add_one, hend]
  rw [Nat.succ_mul] at hnext
  omega

theorem run_inRange (low high : Nat) :
    ((inRange low high).run words).1 =
      let first := widen words.next.1.toNat (high - low + 1)
      let second := widen words.next.2.next.1.toNat (high - low + 1)
      if UInt32.size - (high - low + 1) < first.2 then
        low + first.1 + (if UInt32.size ≤ first.2 + second.1 then 1 else 0)
      else low + first.1 := by
  dsimp only
  split
  · rename_i hwide
    exact congrArg (fun rest : StateM WordStream Nat => (rest.run words.next.2).1) (if_pos hwide)
  · rename_i hnarrow
    exact congrArg (fun rest : StateM WordStream Nat => (rest.run words.next.2).1) (if_neg hnarrow)

theorem inRange_le (h : low ≤ high) : ((inRange low high).run words).1 ≤ high := by
  have hpos : 0 < high - low + 1 := Nat.succ_pos _
  have hfirst := widen_fst_lt words.next.1.toNat_lt hpos
  have hsecond := widen_fst_succ_lt words.next.1.toNat_lt words.next.2.next.1.toNat_lt hpos
  rw [run_inRange]
  dsimp only
  split
  · split
    · rename_i hcarry
      have hlast := hsecond hcarry
      omega
    · omega
  · omega

theorem belowUnbiased_lt (h : 0 < length) (attempts : Nat) :
    ((belowUnbiased length attempts).run words).1 < length := by
  induction attempts generalizing words with
  | zero => exact widen_fst_lt words.next.1.toNat_lt h
  | succ attempts ih =>
    have hrun : (belowUnbiased length (attempts + 1)).run words =
        if (UInt32.size - length) % length ≤ (widen words.next.1.toNat length).2 then
          ((widen words.next.1.toNat length).1, words.next.2)
        else (belowUnbiased length attempts).run words.next.2 := by
      split
      · rename_i hfair
        exact congrArg (fun rest : StateM WordStream Nat => rest.run words.next.2) (if_pos hfair)
      · rename_i hbiased
        exact congrArg (fun rest : StateM WordStream Nat => rest.run words.next.2) (if_neg hbiased)
    rw [hrun]
    split
    · exact widen_fst_lt words.next.1.toNat_lt h
    · exact ih _

end Words

variable {length amount : Nat}

/-- One more value takes the place of another, which goes to the end. -/
theorem perm_set_concat {drawn : List Nat} {p : Nat} (hp : p < drawn.length) (bound : Nat) :
    (drawn.set p bound ++ [drawn[p]]).Perm (bound :: drawn) := by
  have hsplit : drawn.take p ++ drawn[p] :: drawn.drop (p + 1) = drawn := by simp
  rw [List.set_eq_take_cons_drop _ hp, List.append_assoc, List.cons_append]
  refine List.perm_middle.trans (List.Perm.cons bound ?_)
  conv_rhs => rw [← hsplit]
  exact (List.perm_append_comm).append_left _

/-- A value up to the bound, or the bound instead of one that was drawn before, makes a larger draw. -/
theorem IsDraw.replace {bound t : Nat} {drawn : Array Nat} (h : IsDraw bound amount drawn.toList)
    (ht : t ≤ bound) :
    IsDraw (bound + 1) (amount + 1)
      ((match drawn.idxOf? t with
        | some p => drawn.setIfInBounds p bound
        | none => drawn).push t).toList := by
  have hwider := h.mono (Nat.le_succ bound)
  rw [Array.toList_push]
  split
  · rename_i p hfound
    rw [show drawn = drawn.toList.toArray from Array.toArray_toList.symm, List.idxOf?_toArray,
      List.idxOf?_eq_some_iff] at hfound
    obtain ⟨hp, rfl, -⟩ := hfound
    rw [Array.toList_setIfInBounds]
    have hbound : bound ∉ drawn.toList := fun hmem => Nat.lt_irrefl _ (h.lt bound hmem)
    exact (hwider.cons (Nat.lt_succ_self _) hbound).perm (perm_set_concat hp bound)
  · rename_i hfound
    rw [Array.idxOf?_eq_none_iff, ← Array.mem_toList_iff] at hfound
    exact hwider.concat (Nat.lt_succ_of_le ht) hfound

theorem isDraw_byReplacement (h : amount ≤ length) (words : WordStream) :
    IsDraw length amount ((byReplacement length amount).run words).1.toList := by
  obtain ⟨extra, rfl⟩ := Nat.exists_eq_add_of_le' h
  unfold byReplacement
  rw [Nat.add_sub_cancel]
  refine foldlM_keeps (fun i (drawn : Array Nat) => IsDraw (extra + i) i drawn.toList)
    _ #[] amount (.nil _) ?_ words
  intro i _ drawn hdrawn words
  exact hdrawn.replace (inRange_le words (Nat.zero_le (extra + i)))

theorem swapIfInBounds_perm (indices : Array Nat) (i k : Nat) :
    (indices.swapIfInBounds i k).Perm indices := by
  unfold Array.swapIfInBounds
  split
  · split
    · exact Array.swap_perm ..
    · exact .refl _
  · exact .refl _

theorem isDraw_byShuffle (h : amount ≤ length) (words : WordStream) :
    IsDraw length amount ((byShuffle length amount).run words).1.toList := by
  have hshuffled := foldlM_keeps (fun _ (indices : Array Nat) => indices.Perm (Array.range length))
    (fun indices i => do
      let k ← inRange i (length - 1)
      pure (indices.swapIfInBounds i k)) (Array.range length) amount (.refl _)
    (fun i _ _ hindices _ => (swapIfInBounds_perm _ i _).trans hindices) words
  have hperm := hshuffled.toList
  rw [Array.toList_range] at hperm
  have hdrawn : ((byShuffle length amount).run words).1.toList =
      (((List.range amount).foldlM (fun (indices : Array Nat) i => do
        let k ← inRange i (length - 1)
        pure (indices.swapIfInBounds i k)) (Array.range length)).run words).1.toList.take amount :=
    Array.toList_extract.trans (List.extract_eq_take_drop ..)
  rw [hdrawn]
  refine ⟨?_, ?_, fun i hi => ?_⟩
  · rw [List.length_take, hperm.length_eq, List.length_range, Nat.min_eq_left h]
  · exact (hperm.nodup_iff.mpr List.nodup_range).sublist (List.take_sublist ..)
  · exact List.mem_range.mp (hperm.mem_iff.mp (List.mem_of_mem_take hi))

/-- There is always an index left that was not seen, and such a one is drawn. -/
theorem unseenBelow_spec {drawn : List Nat} {seen : Std.HashSet Nat}
    (hseen : ∀ i, i ∈ seen ↔ i ∈ drawn) (hroom : drawn.length < length)
    (attempts : Nat) (words : WordStream) :
    ((unseenBelow length seen attempts).run words).1 < length ∧
      ((unseenBelow length seen attempts).run words).1 ∉ drawn := by
  induction attempts generalizing words with
  | zero =>
    obtain ⟨i, hi, hnew⟩ : ∃ i ∈ List.range length, i ∉ drawn := by
      by_contra! hall
      have hle := (List.subperm_of_subset List.nodup_range hall).length_le
      rw [List.length_range] at hle
      exact Nat.not_lt.mpr hle hroom
    have hsome : ((List.range length).find? fun i => !seen.contains i).isSome :=
      List.find?_isSome.mpr ⟨i, hi, by simpa [hseen] using hnew⟩
    obtain ⟨found, hfound⟩ := Option.isSome_iff_exists.mp hsome
    have hdrawn : ((unseenBelow length seen 0).run words).1 = found := by
      change ((List.range length).find? _).getD 0 = found
      rw [hfound, Option.getD_some]
    have hunseen := List.find?_some hfound
    rw [hdrawn]
    exact ⟨List.mem_range.mp (List.mem_of_find?_eq_some hfound), by simpa [hseen] using hunseen⟩
  | succ attempts ih =>
    let first := (belowUnbiased length 200).run words
    have hrun : ((unseenBelow length seen (attempts + 1)).run words).1 =
        if seen.contains first.1 then ((unseenBelow length seen attempts).run first.2).1
        else first.1 := by
      split
      · rename_i hold
        exact congrArg (fun rest : StateM WordStream Nat => (rest.run first.2).1) (if_pos hold)
      · rename_i hnew
        exact congrArg (fun rest : StateM WordStream Nat => (rest.run first.2).1) (if_neg hnew)
    rw [hrun]
    split
    · exact ih _
    · rename_i hnew
      rw [Std.HashSet.contains_iff_mem, hseen] at hnew
      exact ⟨belowUnbiased_lt words (Nat.zero_lt_of_lt hroom) 200, hnew⟩

theorem isDraw_byRejection (h : amount ≤ length) (words : WordStream) :
    IsDraw length amount ((byRejection length amount).run words).1.toList := by
  have hdrawn := foldlM_keeps
    (fun i (drawn : Array Nat × Std.HashSet Nat) => IsDraw length i drawn.1.toList ∧
      ∀ i, i ∈ drawn.2 ↔ i ∈ drawn.1.toList)
    (fun (drawn, seen) _ => do
      let i ← unseenBelow length seen 200
      pure (drawn.push i, seen.insert i)) (#[], ∅) amount
    ⟨.nil _, by simp⟩ ?_ words
  · exact hdrawn.1
  · rintro i hi ⟨drawn, seen⟩ ⟨hdrawn, hseen⟩ words
    have hroom : drawn.toList.length < length := by
      rw [hdrawn.size]
      omega
    obtain ⟨hlt, hnew⟩ := unseenBelow_spec hseen hroom 200 words
    change IsDraw length (i + 1) (drawn.push ((unseenBelow length seen 200).run words).1).toList ∧
      ∀ j, j ∈ seen.insert ((unseenBelow length seen 200).run words).1 ↔
        j ∈ (drawn.push ((unseenBelow length seen 200).run words).1).toList
    rw [Array.toList_push]
    refine ⟨hdrawn.concat hlt hnew, fun j => ?_⟩
    rw [Std.HashSet.mem_insert, hseen, List.mem_append, List.mem_singleton, beq_iff_eq, or_comm,
      eq_comm]

/-- A sample has as many indices as were asked for, all of them below the length and none twice. -/
theorem isDraw_indices (h : amount ≤ length) (words : WordStream) :
    IsDraw length amount ((indices length amount).run words).1.toList := by
  unfold indices
  split
  · exact isDraw_byReplacement h words
  · exact isDraw_byShuffle h words
  · exact isDraw_byRejection h words

end Throughput.Sample
