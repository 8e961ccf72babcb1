import Throughput.Proofs.Send.Progress
import Throughput.Proofs.Tracker

/-!
# How a phase extends its record

A phase only adds to its record, and every outcome that it adds has either a handle or the failure that
stands for an error. So the reasons that are kept are as many as there are failures, up to the cap.
-/

namespace Throughput

variable {σ ε : Type}

/-- Does an outcome have either a handle or a failure, and then the failure of an error? -/
def Outcome.IsTold (o : Outcome) : Prop :=
  (o.handle.isSome ∧ o.failure = none) ∨
    (o.handle = none ∧ ∃ error, o.failure = some (.ofError error))

theorem Flight.isTold_settle (timeout : Duration) (f : Flight σ) (s : σ) :
    (f.settle timeout s).1.IsTold := by
  unfold settle
  dsimp only
  split
  · exact .inr ⟨rfl, _, rfl⟩
  · split
    · exact .inl ⟨rfl, rfl⟩
    · exact .inr ⟨rfl, _, rfl⟩

namespace Tracker

variable {before middle after : Tracker} {cap : Nat}

/-- Has a record come from another one by outcomes that have a handle or a reason? -/
def Extends (before after : Tracker) : Prop :=
  ∃ added, after = before.recordAll added ∧ ∀ o ∈ added, o.IsTold

namespace Extends

theorem refl (t : Tracker) : t.Extends t := ⟨[], rfl, nofun⟩

theorem trans (h : before.Extends middle) (h' : middle.Extends after) : before.Extends after := by
  obtain ⟨added, rfl, hadded⟩ := h
  obtain ⟨more, rfl, hmore⟩ := h'
  refine ⟨added ++ more, (recordAll_append ..).symm, fun o ho => ?_⟩
  rcases List.mem_append.mp ho with ho | ho
  · exact hadded o ho
  · exact hmore o ho

theorem record (t : Tracker) {o : Outcome} (h : o.IsTold) : t.Extends (t.record o) := by
  refine ⟨[o], rfl, fun o' ho' => ?_⟩
  rwa [List.mem_singleton.mp ho']

theorem handles_subset (h : before.Extends after) : before.handles ⊆ after.handles := by
  obtain ⟨added, rfl, -⟩ := h
  exact fun handle hhandle => mem_handles_recordAll.mpr (.inr hhandle)

end Extends

/-- Of outcomes that have a handle or a reason, those without a handle give a reason. -/
theorem length_reasons {outcomes : List Outcome} (h : ∀ o ∈ outcomes, o.IsTold) :
    (outcomes.filterMap (·.reason?)).length =
      outcomes.length - outcomes.countP (·.handle.isSome) := by
  have hsplit := outcomes.length_eq_countP_add_countP (p := fun o => o.handle.isSome)
  have hreasons : outcomes.countP (fun o => o.reason?.isSome) =
      outcomes.countP (fun o => ¬o.handle.isSome) := by
    refine List.countP_congr fun o ho => ?_
    unfold Outcome.reason?
    rcases h o ho with ⟨hhandle, -⟩ | ⟨hhandle, error, hfailure⟩
    · obtain ⟨handle, hhandle⟩ := Option.isSome_iff_exists.mp hhandle
      simp [hhandle]
    · simp [hhandle, hfailure]
  rw [List.length_filterMap_eq_countP, hreasons]
  omega

/-- What is kept of a record that began empty: every outcome is counted once, and the reasons are as many
as the failures up to the cap. -/
structure Kept (cap : Nat) (t : Tracker) : Prop where
  counted : t.counts.accepted + t.counts.failed = t.outcomes.size
  sampled : t.samples.size = min cap t.counts.failed
  accepted : t.counts.accepted = t.outcomes.toList.countP (·.handle.isSome)
  handles : t.handles ⊆ t.outcomes.toList.filterMap (·.handle)

/-- All outcomes of a record that began empty are told, and the samples are the first of their reasons. -/
theorem told_of_extends (h : (withCap cap).Extends after) :
    (∀ o ∈ after.outcomes.toList, o.IsTold) ∧
      after.samples.toList = (after.outcomes.toList.filterMap (·.reason?)).take cap := by
  obtain ⟨added, rfl, htold⟩ := h
  rw [outcomes_withCap]
  exact ⟨htold, samples_withCap ..⟩

theorem kept_of_extends (h : (withCap cap).Extends after) : after.Kept cap := by
  obtain ⟨added, rfl, htold⟩ := h
  have houtcomes := outcomes_withCap cap added
  have haccepted : ((withCap cap).recordAll added).counts.accepted =
      added.countP (·.handle.isSome) := (accepted_recordAll ..).trans (Nat.zero_add _)
  have hfailed : ((withCap cap).recordAll added).counts.failed =
      added.length - added.countP (·.handle.isSome) := (failed_recordAll ..).trans (Nat.zero_add _)
  refine ⟨?_, ?_, ?_, fun handle hhandle => ?_⟩
  · have hle := added.countP_le_length (p := fun o => o.handle.isSome)
    rw [haccepted, hfailed, ← Array.length_toList, houtcomes]
    omega
  · rw [← Array.length_toList, samples_withCap, List.length_take, hfailed, ← length_reasons htold]
  · rw [haccepted, houtcomes]
  · rw [houtcomes]
    rcases mem_handles_recordAll.mp hhandle with hgiven | hnone
    · exact hgiven
    · simp [withCap, Tracker.handles] at hnone

theorem Kept.close {t : Tracker} (h : t.Kept cap) : t.close.Kept cap :=
  ⟨h.counted, h.sampled, h.accepted, h.handles⟩

/-- There are no more handles than accepted outcomes. -/
theorem Kept.length_handles_le {t : Tracker} (h : t.Kept cap) :
    t.handles.length ≤ t.counts.accepted := by
  rw [h.accepted, ← List.length_filterMap_eq_countP]
  exact (List.subperm_of_subset t.nodup_handles h.handles).length_le

end Tracker

theorem Launch.all_extends (ledger : Ledger σ) (timeout : Duration) (now : Instant)
    (requests : List Request) (s : σ) (tracker : Tracker) :
    tracker.Extends (all ledger timeout now requests s tracker).tracker := by
  apply List.foldlRecOn (motive := fun l : Launch σ => tracker.Extends l.tracker)
  · exact .refl _
  · intro l hl request _
    unfold add
    dsimp only
    split
    · exact hl.trans (.record _ (Flight.isTold_settle ..))
    · exact hl

namespace Job

variable {j : Job σ ε} {p p' : Phase σ ε} {before : Tracker}

theorem Move.extends (m : Move j p p') : p.tracker.Extends p'.tracker := by
  cases m with
  | settle f rest hf =>
    rw [settleFirst_eq hf]
    exact .record _ (Flight.isTold_settle ..)
  | start => exact Launch.all_extends ..
  | burst => exact Launch.all_extends ..
  | group => exact Launch.all_extends ..
  | startRefills c =>
    rw [startRefills_eq]
    split <;> exact .refl _
  | _ => exact .refl _

theorem extends_advance (hp : j.Shaped p) (h : before.Extends p.tracker)
    (allowed : Instant → Bool → Bool) (steps : Nat) :
    before.Extends (j.advance allowed steps p).tracker :=
  (advance_keeps (P := fun p => before.Extends p.tracker) (fun _ _ _ h m => h.trans m.extends)
    allowed steps hp h).2

end Job

end Throughput
