import Throughput.Proofs.Send.Groups
import Throughput.Proofs.Send.Stop
import Throughput.Proofs.Send.StopFlag
import Throughput.Proofs.Send.Times

/-!
# Groups one after another

A group of a batch strategy is sent when all submissions of the groups before it have been recorded,
and a pause after the last of them was over. A pause that is cut short is followed by no group.
-/

namespace Throughput

variable {σ ε : Type}

namespace Job

variable {j : Job (σ × Journal) ε} {p p' q : Phase (σ × Journal) ε} {before : Tracker} {t : Instant}

/-- Does a pause last its time or up to the deadline, from when everything was over? -/
def Rests (j : Job (σ × Journal) ε) (pause : Duration) (p : Phase (σ × Journal) ε) : Prop :=
  ∀ wake, p.stage = .pausing wake → ∃ ended,
    (∀ e ∈ p.ledger.2, e.endsAt j.generator.submitTimeout ≤ ended) ∧
      wake = j.upToDeadline (ended + pause)

/-- The start of the next group: all groups before it are full, and all their outcomes have been
recorded. -/
structure StartsGroup (j : Job (σ × Journal) ε) (before : Tracker) (size : Nat) (t : Instant)
    (p q : Phase (σ × Journal) ε) : Prop where
  left : p.dispatched < j.target
  full : p.dispatched = p.groups * size
  groups : q.groups = p.groups + 1
  dispatched : q.dispatched = p.dispatched + min size (j.target - p.dispatched)
  calls : ∃ requests : List Request, q.ledger.2.calls = p.ledger.2.calls ++ requests.map (·, t)
  settled : ∀ e ∈ p.ledger.2, e.IsSettled j.generator.submitTimeout
  recorded : ∃ added, p.tracker = before.recordAll added ∧
    added.Perm (p.ledger.2.map (Entry.outcome j.generator.submitTimeout))

theorem Move.shouldStop (m : Move j p p') (hnow : p.now ≤ p'.now) (h : j.shouldStop p = true) :
    j.shouldStop p' = true := by
  simp only [Job.shouldStop, Bool.or_eq_true] at h ⊢
  exact h.imp (m.seen hnow) fun hover => isOver_mono hover hnow

/-- A phase that has been marked has a reason to stop. -/
theorem Move.stopped (m : Move j p p') (hnow : p.now ≤ p'.now)
    (h : p.stoppedEarly = true → j.shouldStop p = true) :
    p'.stoppedEarly = true → j.shouldStop p' = true := by
  have hkeep : p'.stoppedEarly = p.stoppedEarly → p'.stoppedEarly = true →
      j.shouldStop p' = true := fun hsame hset => m.shouldStop hnow (h (hsame ▸ hset))
  cases m with
  | settle f rest hf =>
    rw [settleFirst_eq hf] at hkeep ⊢
    exact hkeep rfl
  | stop _ hd hstop => exact fun _ => hstop
  | cut tick hstage hfirst hraised =>
    intro _
    simp only [Job.shouldStop, hraised, Shutdown.seenAt, Bool.true_or]
  | startRefills c due =>
    rw [startRefills_eq] at hkeep ⊢
    split
    · rename_i hzero
      rw [if_pos hzero] at hkeep
      exact hkeep rfl
    · rename_i hinterval
      rw [if_neg hinterval] at hkeep
      exact hkeep rfl
  | start | burst | group | complete | pause | prime | expire | ask | refill | drained =>
    exact hkeep rfl

section Batches

variable {size : Nat} {pause : Option Duration} (hs : j.strategy = .steadyBatch size pause)

include hs

theorem groupTarget_of_batch : j.groupTarget = j.target := by
  simp only [groupTarget, hs]

theorem batchSize_of_batch : j.batchSize = size := by
  simp only [batchSize, hs]

theorem queued_of_batch (hp : j.Shaped p) : p.queued = [] := by
  by_contra hq
  obtain ⟨c, hc⟩ := saturation_of_queued hp hq
  simp [hs] at hc

/-- Batches send only groups. -/
theorem Move.group_of_batch (m : Move j p p') (hmore : p'.dispatched ≠ p.dispatched) :
    Decides p ∧ j.shouldStop (j.wakeUp p) = false ∧ p.dispatched < j.target ∧
      p'.dispatched = p.dispatched + min size (j.target - p.dispatched) ∧
      p'.groups = p.groups + 1 := by
  cases m with
  | settle f rest hf =>
    rw [settleFirst_eq hf] at hmore
    exact absurd rfl hmore
  | burst hburst => simp [hs] at hburst
  | group hburst hd hgo hleft =>
    have hsize := groupSize_eq hburst p.dispatched
    rw [batchSize_of_batch hs, groupTarget_of_batch hs] at hsize
    rw [groupTarget_of_batch hs] at hleft
    refine ⟨hd, hgo, hleft, ?_, rfl⟩
    simp only [sendGroup, launch, wakeUp_dispatched, Generator.length_build, hsize]
  | startRefills c due hc => simp [hs] at hc
  | refill c due next hc => simp [hs] at hc
  | start | stop | complete | pause | prime | cut | expire | ask | drained => exact absurd rfl hmore

/-- Groups are sent one at a time. -/
theorem Move.length_flights (hp : j.Shaped p) (h : p.flights.length ≤ size) (m : Move j p p') :
    p'.flights.length ≤ size := by
  cases m with
  | settle f rest hf =>
    rw [settleFirst_eq hf]
    rw [hf] at h
    exact (Nat.le_succ _).trans h
  | start hq => exact absurd (queued_of_batch hs hp) hq
  | burst hburst => simp [hs] at hburst
  | group hburst hd hgo hleft =>
    have hlength := j.length_launch
      (j.generator.build p.dispatched (j.groupSize p.dispatched) p.sequences).1 (j.wakeUp p)
    rw [Generator.length_build, wakeUp_flights, hd.2.1, List.length_nil, Nat.zero_add] at hlength
    refine hlength.trans ?_
    rw [groupSize_eq hburst, batchSize_of_batch hs]
    exact Nat.min_le_left ..
  | startRefills c due hc => simp [hs] at hc
  | refill c due next hc => simp [hs] at hc
  | stop | complete | pause | prime | cut | expire | ask | drained => exact h

/-- A pause begins when all submissions are over, and lasts its time or up to the deadline. -/
theorem Move.rests (hp : j.Shaped p) (hb : j.IsBalanced before p) (hc : Current before p)
    (h : j.Rests (pause.getD 0) p) (m : Move j p p') : j.Rests (pause.getD 0) p' := by
  intro wake hwake
  cases m with
  | settle f rest hf =>
    rw [settleFirst_eq hf] at hwake
    -- nothing is under way during a pause
    obtain ⟨-, -, hp⟩ := hp
    simp only [show p.stage = .pausing wake from hwake, hf] at hp
    nomatch hp.1
  | start hq => exact absurd (queued_of_batch hs hp) hq
  | pause size' pause' hs' hstage hidle hleft =>
    obtain ⟨-, rfl⟩ := Strategy.steadyBatch.inj (hs.symm.trans hs')
    exact ⟨p.now, hc.endsAt_le hb hidle.1, (Stage.pausing.inj hwake).symm⟩
  | startRefills c due hc => simp [hs] at hc
  | refill c due next hc => simp [hs] at hc
  | burst | group | stop | complete | prime | cut | expire | ask | drained => nomatch hwake

/-- With a pause to come no group follows at once. -/
theorem goOn_group (hpause : pause ≠ none) (hstage : p.stage = .group) :
    (j.goOn p).dispatched = p.dispatched := by
  obtain ⟨length, rfl⟩ := Option.ne_none_iff_exists'.mp hpause
  simp only [goOn, hstage, afterGroup, hs]
  split
  · rename_i hdone
    simp only [proceed, hs, hdone, if_true, Phase.finish]
  · rfl

/-- A group starts a pause after everything before it was over. -/
theorem endsAt_add_le (hp : j.Shaped p) (hb : j.IsBalanced before p) (hcounted : IsCounted p)
    (hcurrent : Current before p) (hrests : j.Rests (pause.getD 0) p) {e : Event}
    (hdue : j.Due p t e) (hmore : (j.step e p).dispatched ≠ p.dispatched) :
    ∀ x ∈ p.ledger.2, x.endsAt j.generator.submitTimeout + pause.getD 0 ≤ t := by
  obtain ⟨hd, hgo, -⟩ := (step_move hp hdue).group_of_batch hs hmore
  obtain rfl : e = .wake := by
    cases e with
    | settle =>
      obtain ⟨f, rest, hf, -⟩ := hdue.1
      exact absurd (congrArg Phase.dispatched (settleFirst_eq hf)) hmore
    | start => exact absurd rfl hmore
    | wake => rfl
  have ht := eq_of_wakesAt hdue.1
  have hends := hcurrent.endsAt_le hb hd.2.1
  obtain ⟨-, -, hshape⟩ := hp
  rcases hd with ⟨hstart | hgroup | ⟨wake, hpause⟩, -, -⟩
  -- at the beginning nothing has been submitted
  · simp only [hstart] at hshape
    have hnone : p.ledger.2.length = 0 := by
      have hcount := hcounted
      simp only [IsCounted, hshape.2.1, hshape.2.2, List.length_nil] at hcount
      exact hcount
    rw [List.length_eq_zero_iff.mp hnone]
    exact fun x hx => absurd hx List.not_mem_nil
  · cases pause with
    | none =>
      intro x hx
      rw [ht]
      exact (hends x hx).trans (j.le_waitEnd p)
    | some length => exact absurd (goOn_group (p := j.wakeUp p) hs (Option.some_ne_none _) hgroup) hmore
  · obtain ⟨ended, hended, rfl⟩ := hrests wake hpause
    intro x hx
    simp only [shouldStop, Bool.or_eq_false_iff] at hgo
    have hraised : (j.wakeUp p).shutdown ≠ .raised := by
      intro hraised
      simp [hraised, Shutdown.seenAt] at hgo
    have hwait : ended + pause.getD 0 ≤ (j.wakeUp p).now :=
      le_wakeUp_of_wait (by simp only [waitEnd, hpause]) hraised hgo.2
    rw [ht]
    exact (Nat.add_le_add_right (hended x hx) _).trans hwait

theorem stage_ne_estimating (hp : j.Shaped p) (due next : Instant) :
    p.stage ≠ .estimating due next := by
  intro hstage
  obtain ⟨-, -, hp⟩ := hp
  simp only [hstage] at hp
  obtain ⟨c, hc, -⟩ := hp.2.1
  simp [hs] at hc

theorem Course.inGroups (hsound : j.IsSound) {b : Bench σ} {memory : ε}
    (h : j.Course (start b.journaled memory) p) : j.InGroups p := by
  have hburst : j.strategy ≠ .burst := by simp [hs]
  exact (h.keeps (I := j.InGroups) (j.shaped_start _ _) (.start hsound hburst _ _)
    (fun _ _ hq hI m _ _ => m.inGroups hsound hburst (stage_ne_estimating hs hq) hI)
    (fun _ _ _ hI _ _ _ => ⟨hI.dispatched, hI.groups⟩)).2

theorem Course.length_flights {b : Bench σ} {memory : ε}
    (h : j.Course (start b.journaled memory) p) : p.flights.length ≤ size :=
  (h.keeps (I := fun p => p.flights.length ≤ size) (j.shaped_start _ _) (Nat.zero_le _)
    (fun _ _ hq hI m _ _ => m.length_flights hs hq hI) (fun _ _ _ hI _ _ _ => hI)).2

theorem Course.rests (hj : j.IsJournaled) {b : Bench σ} {memory : ε}
    (h : j.Course (start b.journaled memory) p) : j.Rests (pause.getD 0) p := by
  induction h with
  | refl => exact fun wake hwake => nomatch hwake
  | event h hdue ih =>
    have hp := h.shaped (j.shaped_start _ _)
    obtain ⟨hb, -, hcurrent⟩ := h.books hj
    exact (step_move hp hdue).rests hs hp hb hcurrent ih
  | raise _ _ _ _ ih => exact ih

/-- With an empty queue the journal holds all that has been issued. -/
theorem Course.length_journal (hj : j.IsJournaled) {b : Bench σ} {memory : ε}
    (h : j.Course (start b.journaled memory) p) : p.ledger.2.length = p.dispatched := by
  obtain ⟨-, hcounted, -⟩ := h.books hj
  rwa [IsCounted, queued_of_batch hs (h.shaped (j.shaped_start _ _)), List.length_nil,
    Nat.add_zero] at hcounted

/-- What an event submits. -/
theorem calls_of_due (hj : j.IsJournaled) (hp : j.Shaped p) (hb : j.IsBalanced before p) {e : Event}
    (hdue : j.Due p t e) :
    ∃ sent : List Request, (j.step e p).dispatched = p.dispatched + sent.length ∧
      (j.step e p).ledger.2.calls = p.ledger.2.calls ++ sent.map (·, t) := by
  have m := step_move hp hdue
  obtain ⟨-, issued, ⟨hcount, -⟩, sent, hsent, hcalls⟩ := m.books hj hp hb
  rw [queued_of_batch hs hp, queued_of_batch hs (m.shaped hp), List.nil_append,
    List.append_nil] at hsent
  rw [step_now hdue] at hcalls
  exact ⟨sent, hsent ▸ hcount, hcalls⟩

/-- Groups keep their distance throughout. -/
theorem Course.isPaced (hsound : j.IsSound) (hj : j.IsJournaled) {b : Bench σ} {memory : ε}
    (h : j.Course (start b.journaled memory) p) :
    p.ledger.2.IsPaced size (pause.getD 0) j.generator.submitTimeout := by
  induction h with
  | refl => exact .nil ..
  | raise _ _ _ _ ih => exact ih
  | @event q t e h hdue ih =>
    have hq := h.shaped (j.shaped_start _ _)
    obtain ⟨hb, hcounted, hcurrent⟩ := h.books hj
    have htimes := (step_move hq hdue).times hj hb
    have hlength := h.length_journal hs hj
    have hlength' := (h.event hdue).length_journal hs hj
    by_cases hmore : (j.step e q).dispatched = q.dispatched
    · exact ih.congr htimes (by rw [hlength, hlength', hmore])
    · obtain ⟨-, -, hleft, hdispatched, -⟩ := (step_move hq hdue).group_of_batch hs hmore
      have hfull := (h.inGroups hs hsound).full (by rwa [groupTarget_of_batch hs])
      rw [batchSize_of_batch hs] at hfull
      obtain ⟨sent, -, hcalls⟩ := calls_of_due hs hj hq hb hdue
      refine ih.next (t := t) htimes (hsound.batch size pause hs) (hlength.trans hfull) ?_
        (fun i x hi hx => Journal.startedAt_of_calls hcalls hi hx)
        (endsAt_add_le hs hq hb hcounted hcurrent (h.rests hs hj) hdue hmore)
      rw [hlength', hdispatched, hfull]
      exact Nat.add_le_add_left (Nat.min_le_left ..) _

/-- Raising the signal does not move the mark of a batch strategy. -/
theorem Flagged.raise (h : j.Flagged p) : j.Flagged (raisedAt t p) := by
  have hnone : ¬ j.Refills p := by
    rintro ⟨c, hc, -⟩
    simp [hs] at hc
  unfold Flagged at h ⊢
  cases hstage : p.stage <;> simp only [raisedAt, hstage] at h ⊢
  case draining | finished =>
    unfold Marked at h ⊢
    split at h
    · rename_i hset
      rw [if_pos hset]
      exact ⟨h.1, fun _ => rfl⟩
    · rename_i hset
      rw [if_neg hset]
      exact h.imp_right fun hexpired => absurd hexpired.1 hnone
  all_goals exact h

/-- Where a batch strategy has ended, it is complete or marked, and marked for a reason. -/
theorem Course.ended {b : Bench σ} {memory : ε} (h : j.Course (start b.journaled memory) p)
    (hstage : p.stage = .finished) :
    (p.stoppedEarly = true → p.dispatched < j.target ∧ j.shouldStop p = true) ∧
      (p.stoppedEarly = false → p.dispatched = j.target) := by
  obtain ⟨hshaped, hflagged, hreason⟩ := h.keeps
    (I := fun p => j.Flagged p ∧ (p.stoppedEarly = true → j.shouldStop p = true))
    (j.shaped_start _ _) ⟨rfl, nofun⟩
    (fun _ _ hq hI m hnow _ => ⟨m.flagged hq hI.1, m.stopped hnow hI.2⟩)
    (fun _ _ _ hI _ _ _ =>
      ⟨hI.1.raise hs, fun _ => by simp [shouldStop, raisedAt, Shutdown.seenAt]⟩)
  simp only [Flagged, hstage, Marked] at hflagged
  refine ⟨fun hset => ?_, fun hset => ?_⟩
  · rw [if_pos hset] at hflagged
    exact ⟨hflagged.1, hreason hset⟩
  · rw [if_neg (by simp [hset])] at hflagged
    refine Nat.le_antisymm hshaped.1 (hflagged.resolve_right ?_)
    rintro ⟨⟨c, hc, -⟩, -⟩
    simp [hs] at hc

/-- The groups of an event that is due: it starts none, or the next one. -/
theorem Course.groups_of_due (hsound : j.IsSound) (hj : j.IsJournaled) {b : Bench σ} {memory : ε}
    (h : j.Course (start b.journaled memory) p) {e : Event} (hdue : j.Due p t e) :
    ((j.step e p).groups = p.groups ∧ (j.step e p).dispatched = p.dispatched ∧
      (j.step e p).ledger.2.calls = p.ledger.2.calls) ∨
      j.StartsGroup b.tracker size t p (j.step e p) := by
  have hp := h.shaped (j.shaped_start _ _)
  obtain ⟨hb, -, -⟩ := h.books hj
  obtain ⟨sent, hcount, hcalls⟩ := calls_of_due hs hj hp hb hdue
  have hsize := batchSize_of_batch hs
  have hpos : 0 < j.batchSize := hsize ▸ hsound.batch size pause hs
  by_cases hmore : (j.step e p).dispatched = p.dispatched
  · obtain rfl : sent = [] := List.length_eq_zero_iff.mp (by omega)
    refine .inl ⟨?_, hmore, by simpa using hcalls⟩
    rw [(h.inGroups hs hsound).groups_eq hpos, ((h.event hdue).inGroups hs hsound).groups_eq hpos,
      hmore]
  · obtain ⟨hd, -, hleft, hdispatched, hgroups⟩ := (step_move hp hdue).group_of_batch hs hmore
    have hfull := (h.inGroups hs hsound).full (by rwa [groupTarget_of_batch hs])
    rw [IsBalanced, hd.2.1] at hb
    exact .inr ⟨hleft, hsize ▸ hfull, hgroups, hdispatched, ⟨sent, hcalls⟩, hb.recorded.1,
      hb.recorded.2⟩

end Batches

end Job

namespace Generator

/-- Batches are sent group after group: at most one group is under way, and the next one starts only
when every outcome of the groups before it has been recorded and a pause after the last of them is
over. All groups are full but for one that reaches the target. A phase that is stopped has sent full
groups only and has a reason to stop; any other phase is complete. -/
theorem steady_batches (g : Generator) (ledger : Ledger σ) (estimator : Estimator σ ε) {size : Nat}
    (hsize : 0 < size) (pause : Option Duration) (target : Nat) (duration : Option Duration)
    (b : Bench σ) (memory : ε) :
    ∃ j : Job (σ × Journal) ε,
    g.job ledger.journaled estimator.journaled (.steadyBatch size pause) target duration b.now =
      .ok j ∧
    (∀ p, j.Course (Job.start b.journaled memory) p →
      p.flights.length ≤ size ∧ p.ledger.2.length = p.dispatched ∧ p.dispatched ≤ target ∧
      p.groups = p.dispatched ⌈/⌉ size ∧
      p.ledger.2.IsPaced size (pause.getD 0) g.submitTimeout ∧
      (∀ t e, j.Due p t e →
        ((j.step e p).groups = p.groups ∧ (j.step e p).dispatched = p.dispatched ∧
          (j.step e p).ledger.2.calls = p.ledger.2.calls) ∨
        j.StartsGroup b.tracker size t p (j.step e p)) ∧
      (p.stage = .finished →
        (p.stoppedEarly = true →
          p.dispatched = p.groups * size ∧ p.dispatched < target ∧ j.shouldStop p = true) ∧
        (p.stoppedEarly = false → p.dispatched = target) ∧
        (duration = none → g.sendTimeout = none → p.shutdown.seenAt p.now = false →
          p.dispatched = target ∧ p.groups = target ⌈/⌉ size))) ∧
    (let p := j.run (Job.start b.journaled memory)
     j.Course (Job.start b.journaled memory) p ∧ p.stage = .finished ∧
      (g.sendWith ledger estimator (.steadyBatch size pause) target duration b memory).1 =
        .ok (j.summary b.journaled p)) := by
  obtain ⟨j, hjob⟩ := Job.exists_job g ledger.journaled estimator.journaled
    (.steadyBatch size pause) target duration b.now
    (fun _ _ hs => by cases hs; exact Nat.ne_of_gt hsize) nofun
  refine ⟨j, hjob, ?_⟩
  have hsound := Job.isSound_of_job hjob
  have hj := Job.isJournaled_of_job hjob
  have heq := Job.job_eq hjob
  have hs : j.strategy = .steadyBatch size pause := by rw [heq]
  have hdeadline : j.deadline = g.deadline b.now duration := by rw [heq]
  obtain rfl : j.generator = g := by rw [heq]
  obtain rfl : j.target = target := by rw [heq]
  refine ⟨fun p hp => ?_, ?_⟩
  · have hgroups := hp.inGroups hs hsound
    have hcount := hgroups.groups_eq (Job.batchSize_pos hsound (by simp [hs]))
    rw [Job.batchSize_of_batch hs] at hcount
    refine ⟨hp.length_flights hs, hp.length_journal hs hj, (hp.shaped (j.shaped_start _ _)).1, hcount,
      hp.isPaced hs hsound hj, fun t e hdue => hp.groups_of_due hs hsound hj hdue, fun hstage => ?_⟩
    obtain ⟨hstopped, hcomplete⟩ := hp.ended hs hstage
    refine ⟨fun hset => ?_, hcomplete, fun hduration htimeout hunseen => ?_⟩
    · obtain ⟨hleft, hreason⟩ := hstopped hset
      have hfull := hgroups.full (by rwa [Job.groupTarget_of_batch hs])
      rw [Job.batchSize_of_batch hs] at hfull
      exact ⟨hfull, hleft, hreason⟩
    · have hdone : p.dispatched = j.target := by
        refine hcomplete (Bool.eq_false_iff.mpr fun hset => ?_)
        have hreason := (hstopped hset).2
        simp [Job.shouldStop, hunseen, Job.isOver, hdeadline, deadline, hduration, htimeout]
          at hreason
      exact ⟨hdone, hdone ▸ hcount⟩
  · have hticks : j.Ticks := fun c hc => by simp [hs] at hc
    exact ⟨Job.course_advance _ _ (j.shaped_start _ _), sendWith_of_journaled hjob hticks memory⟩

/-- Three requests in groups of two with a pause between them. -/
theorem steady_batches_ofTwo :
    let r := (ofTwo none).sendWith (Ledger.steady (some 0)) (Estimator.always 0)
      (.steadyBatch 2 (some (seconds 1))) 3 none (Bench.ofTwo .never) ()
    ∃ summary, r.1 = .ok summary ∧ summary.dispatched = 3 ∧ summary.groups = 2 := by
  obtain ⟨j, hjob, hcourse, hrun, hended, hsend⟩ := steady_batches (ofTwo none)
    (Ledger.steady (some 0)) (Estimator.always 0) Nat.two_pos (some (seconds 1)) 3 none
    (Bench.ofTwo .never) ()
  obtain ⟨-, -, -, -, -, -, hends⟩ := hcourse _ hrun
  obtain ⟨-, -, hcomplete⟩ := hends hended
  obtain rfl := Job.job_eq hjob
  exact ⟨_, hsend, hcomplete rfl rfl (by cbv)⟩

end Generator

end Throughput
