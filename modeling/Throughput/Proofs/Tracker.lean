import Throughput.Tracker

/-!
# What a tracker keeps

Every recorded outcome is kept in its place and counted once, as accepted if it has a handle and as a
failure of its kind if it has none. The reasons that are kept are the first.
-/

namespace Throughput

/-- The failures of one kind. -/
def OutcomeCounts.ofKind (c : OutcomeCounts) : FailureKind → Nat
  | .rejected => c.rejected
  | .timedOut => c.timedOut
  | .transport => c.transport
  | .malformed => c.malformed

theorem OutcomeCounts.ofKind_addFailure (c : OutcomeCounts) (added kind : FailureKind) :
    (c.addFailure added).ofKind kind = c.ofKind kind + if added = kind then 1 else 0 := by
  cases added <;> cases kind <;> rfl

theorem OutcomeCounts.failed_addFailure (c : OutcomeCounts) (kind : FailureKind) :
    (c.addFailure kind).failed = c.failed + 1 := by
  cases kind <;> simp only [addFailure, failed] <;> omega

theorem OutcomeCounts.accepted_addFailure (c : OutcomeCounts) (kind : FailureKind) :
    (c.addFailure kind).accepted = c.accepted := by
  cases kind <;> rfl

/-- The kind of failure that an outcome without a handle counts as. -/
def Outcome.failureKind? (o : Outcome) : Option FailureKind :=
  match o.handle with
  | some _ => none
  | none => some (o.failure.elim .malformed (·.kind))

/-- The reason that an outcome without a handle gives. -/
def Outcome.reason? (o : Outcome) : Option String :=
  match o.handle with
  | some _ => none
  | none => o.failure.map (·.reason)

namespace Tracker

/-- Records outcomes in their order. -/
def recordAll (t : Tracker) (outcomes : List Outcome) : Tracker := outcomes.foldl record t

theorem recordAll_concat (t : Tracker) (outcomes : List Outcome) (o : Outcome) :
    t.recordAll (outcomes ++ [o]) = (t.recordAll outcomes).record o := by
  simp [recordAll]

theorem recordAll_append (t : Tracker) (outcomes more : List Outcome) :
    t.recordAll (outcomes ++ more) = (t.recordAll outcomes).recordAll more :=
  List.foldl_append

theorem outcomes_record (t : Tracker) (o : Outcome) :
    (t.record o).outcomes = t.outcomes.push o := by
  unfold record
  split <;> rfl

theorem accepted_record (t : Tracker) (o : Outcome) :
    (t.record o).counts.accepted = t.counts.accepted + if o.handle.isSome then 1 else 0 := by
  unfold record
  cases o.handle with
  | some handle => rfl
  | none => cases o.failure <;> exact OutcomeCounts.accepted_addFailure ..

theorem failed_record (t : Tracker) (o : Outcome) :
    (t.record o).counts.failed = t.counts.failed + if o.handle.isSome then 0 else 1 := by
  unfold record
  cases o.handle with
  | some handle => rfl
  | none => cases o.failure <;> exact OutcomeCounts.failed_addFailure ..

theorem outcomes_recordAll (t : Tracker) (outcomes : List Outcome) :
    (t.recordAll outcomes).outcomes.toList = t.outcomes.toList ++ outcomes := by
  induction outcomes generalizing t with
  | nil => simp [recordAll]
  | cons o outcomes ih =>
    have hrest := ih (t.record o)
    rw [outcomes_record] at hrest
    simpa [recordAll] using hrest

/-- A tally that goes up with the outcomes of a class counts them. -/
theorem tally_recordAll (tally : Tracker → Nat) (p : Outcome → Bool)
    (h : ∀ t o, tally (t.record o) = tally t + if p o then 1 else 0) (t : Tracker)
    (outcomes : List Outcome) : tally (t.recordAll outcomes) = tally t + outcomes.countP p := by
  induction outcomes generalizing t with
  | nil => rfl
  | cons o outcomes ih =>
    have hrest := ih (t.record o)
    rw [h] at hrest
    rw [List.countP_cons]
    simp only [recordAll, List.foldl_cons] at hrest ⊢
    omega

/-- The accepted outcomes are those with a handle. -/
theorem accepted_recordAll (t : Tracker) (outcomes : List Outcome) :
    (t.recordAll outcomes).counts.accepted =
      t.counts.accepted + outcomes.countP (fun o => o.handle.isSome) :=
  tally_recordAll (·.counts.accepted) (·.handle.isSome) accepted_record t outcomes

/-- All other outcomes are failures. -/
theorem failed_recordAll (t : Tracker) (outcomes : List Outcome) :
    (t.recordAll outcomes).counts.failed =
      t.counts.failed + (outcomes.length - outcomes.countP (fun o => o.handle.isSome)) := by
  have hother : ∀ t o, (record t o).counts.failed =
      t.counts.failed + if !o.handle.isSome then 1 else 0 := by
    intro t o
    rw [failed_record]
    cases o.handle <;> rfl
  have hcounted := tally_recordAll (·.counts.failed) (!·.handle.isSome) hother t outcomes
  have hlength := outcomes.length_eq_countP_add_countP (p := fun o => o.handle.isSome)
  simp only [Bool.not_eq_true, Bool.decide_eq_false] at hlength
  omega

/-- The handles are those that have been given to an outcome. -/
theorem mem_handles_record {t : Tracker} {o : Outcome} {handle : Handle} :
    handle ∈ (t.record o).handles ↔ o.handle = some handle ∨ handle ∈ t.handles := by
  unfold record handles
  cases o.handle with
  | some given => simp [Std.ExtTreeSet.mem_insert]
  | none => cases o.failure <;> simp

theorem mem_handles_recordAll {t : Tracker} {outcomes : List Outcome} {handle : Handle} :
    handle ∈ (t.recordAll outcomes).handles ↔
      handle ∈ outcomes.filterMap (·.handle) ∨ handle ∈ t.handles := by
  induction outcomes generalizing t with
  | nil => simp [recordAll]
  | cons o outcomes ih =>
    have hrest := ih (t := t.record o)
    rw [mem_handles_record] at hrest
    rw [show t.recordAll (o :: outcomes) = (t.record o).recordAll outcomes from rfl, hrest]
    cases ho : o.handle with
    | none => simp [ho]
    | some given => simp [ho, eq_comm, or_assoc, or_left_comm]

theorem nodup_handles (t : Tracker) : t.handles.Nodup := by
  have hdistinct := Std.ExtTreeSet.distinct_toList (t := t.accepted)
  refine hdistinct.imp ?_
  rintro handle _ hne rfl
  exact hne Std.ReflCmp.compare_self

/-- A fresh tracker that records outcomes with distinct handles has these handles. -/
theorem handles_perm (cap : Nat) {outcomes : List Outcome}
    (hdistinct : (outcomes.filterMap (·.handle)).Nodup) :
    ((withCap cap).recordAll outcomes).handles.Perm (outcomes.filterMap (·.handle)) := by
  rw [List.perm_ext_iff_of_nodup (nodup_handles _) hdistinct]
  intro handle
  rw [mem_handles_recordAll]
  simp [withCap, handles]

theorem ofKind_record (t : Tracker) (o : Outcome) (kind : FailureKind) :
    (t.record o).counts.ofKind kind =
      t.counts.ofKind kind + if o.failureKind? = some kind then 1 else 0 := by
  unfold record Outcome.failureKind?
  cases o.handle with
  | some handle => rfl
  | none =>
    simp only [Option.some.injEq]
    cases o.failure <;> exact OutcomeCounts.ofKind_addFailure ..

/-- The failures of each kind are those of the outcomes that count as such. -/
theorem ofKind_recordAll (t : Tracker) (outcomes : List Outcome) (kind : FailureKind) :
    (t.recordAll outcomes).counts.ofKind kind =
      t.counts.ofKind kind + outcomes.countP (fun o => o.failureKind? = some kind) := by
  have hkind : ∀ t o, (record t o).counts.ofKind kind =
      t.counts.ofKind kind + if decide (o.failureKind? = some kind) then 1 else 0 := by
    intro t o
    rw [ofKind_record]
    simp only [decide_eq_true_eq]
  exact tally_recordAll (·.counts.ofKind kind) (·.failureKind? = some kind) hkind t outcomes

theorem sampleCap_record (t : Tracker) (o : Outcome) : (t.record o).sampleCap = t.sampleCap := by
  unfold record
  split <;> rfl

/-- A reason is kept as long as there is room. -/
theorem samples_record (t : Tracker) (o : Outcome) (h : t.samples.size ≤ t.sampleCap) :
    (t.record o).samples.toList = (t.samples.toList ++ o.reason?.toList).take t.sampleCap := by
  have hall : t.samples.toList.take t.sampleCap = t.samples.toList :=
    List.take_of_length_le (by simpa using h)
  have hnone : t.samples.toList = (t.samples.toList ++ []).take t.sampleCap := by
    rw [List.append_nil, hall]
  unfold record Outcome.reason?
  cases o.handle with
  | some handle => exact hnone
  | none =>
    cases o.failure with
    | none => exact hnone
    | some failure =>
      dsimp only [Option.map_some, Option.toList_some]
      split
      · rename_i hroom
        rw [Array.toList_push, List.take_of_length_le]
        rw [List.length_append, Array.length_toList]
        exact hroom
      · rename_i hfull
        rw [List.take_append_of_le_length (by simpa using Nat.le_of_not_lt hfull), hall]

/-- The reasons that are kept are the first that are given. -/
theorem samples_recordAll (t : Tracker) (outcomes : List Outcome)
    (h : t.samples.size ≤ t.sampleCap) :
    (t.recordAll outcomes).samples.toList =
      (t.samples.toList ++ outcomes.filterMap (·.reason?)).take t.sampleCap := by
  induction outcomes generalizing t with
  | nil =>
    rw [List.filterMap_nil, List.append_nil, List.take_of_length_le (by simpa using h)]
    rfl
  | cons o outcomes ih =>
    have hsamples := samples_record t o h
    have hroom : (t.record o).samples.size ≤ (t.record o).sampleCap := by
      rw [sampleCap_record, ← Array.length_toList, hsamples]
      exact List.length_take_le ..
    have hrest := ih (t.record o) hroom
    rw [hsamples, sampleCap_record] at hrest
    have hgiven : (o :: outcomes).filterMap (·.reason?) =
        o.reason?.toList ++ outcomes.filterMap (·.reason?) := by
      rw [List.filterMap_cons]
      cases o.reason? <;> rfl
    rw [show t.recordAll (o :: outcomes) = (t.record o).recordAll outcomes from rfl, hrest, hgiven,
      ← List.append_assoc]
    generalize t.samples.toList ++ o.reason?.toList = given
    rw [List.take_append, List.take_append, List.take_take, Nat.min_self, List.length_take]
    congr 2
    omega

/-- A record that began empty holds what has been recorded. -/
theorem outcomes_withCap (cap : Nat) (outcomes : List Outcome) :
    ((withCap cap).recordAll outcomes).outcomes.toList = outcomes :=
  (outcomes_recordAll ..).trans (List.nil_append _)

theorem samples_withCap (cap : Nat) (outcomes : List Outcome) :
    ((withCap cap).recordAll outcomes).samples.toList =
      (outcomes.filterMap (·.reason?)).take cap :=
  samples_recordAll (withCap cap) outcomes (Nat.zero_le _)

theorem isSealed_record (t : Tracker) (o : Outcome) : (t.record o).isSealed = t.isSealed := by
  unfold record
  split <;> rfl

/-- What a fresh tracker holds after outcomes have been recorded, whatever their handles and failures
are: the outcomes themselves in their order, each counted in its class, the handles without repetitions,
and the first reasons that were given. -/
theorem recordAll_holds (cap : Nat) (outcomes : List Outcome) :
    let t := (withCap cap).recordAll outcomes
    t.counts.total = outcomes.length ∧ t.outcomes.size = outcomes.length ∧
    t.outcomes.toList = outcomes ∧
    (∀ sender, t.outcomesOf sender = outcomes.filter (·.request.sender = sender)) ∧
    t.counts.accepted = outcomes.countP (·.handle.isSome) ∧
    t.counts.rejected = outcomes.countP (·.failureKind? = some .rejected) ∧
    t.counts.timedOut = outcomes.countP (·.failureKind? = some .timedOut) ∧
    t.counts.transport = outcomes.countP (·.failureKind? = some .transport) ∧
    t.counts.malformed = outcomes.countP (·.failureKind? = some .malformed) ∧
    t.counts.accepted + t.counts.failed = t.counts.total ∧
    t.handles.Nodup ∧ (∀ handle, handle ∈ t.handles ↔ ∃ o ∈ outcomes, o.handle = some handle) ∧
    t.samples.toList = (outcomes.filterMap (·.reason?)).take cap := by
  intro t
  have houtcomes : t.outcomes.toList = outcomes :=
    (outcomes_recordAll ..).trans (List.nil_append _)
  have hclass : ∀ kind, t.counts.ofKind kind = outcomes.countP (·.failureKind? = some kind) :=
    fun kind => by
      refine (ofKind_recordAll (withCap cap) outcomes kind).trans ?_
      cases kind <;> exact Nat.zero_add _
  have haccepted : t.counts.accepted = outcomes.countP (·.handle.isSome) :=
    (accepted_recordAll ..).trans (Nat.zero_add _)
  have hfailed : t.counts.failed = outcomes.length - outcomes.countP (·.handle.isSome) :=
    (failed_recordAll ..).trans (Nat.zero_add _)
  have hle := outcomes.countP_le_length (p := fun o => o.handle.isSome)
  refine ⟨?_, ?_, houtcomes, fun sender => ?_, haccepted, hclass .rejected, hclass .timedOut,
    hclass .transport, hclass .malformed, rfl, nodup_handles t, fun handle => ?_, ?_⟩
  · unfold OutcomeCounts.total
    rw [haccepted, hfailed]
    omega
  · rw [← Array.length_toList, houtcomes]
  · unfold outcomesOf
    rw [houtcomes]
    rfl
  · rw [mem_handles_recordAll, List.mem_filterMap]
    simp [withCap, handles]
  · exact (samples_recordAll (withCap cap) outcomes (Nat.zero_le _)).trans (by simp [withCap])

end Tracker

end Throughput
