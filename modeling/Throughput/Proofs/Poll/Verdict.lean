import Throughput.Proofs.Poll.Report

/-!
# How a poll ends

A round over a sealed source ends a poll as complete when all handles of the source have been seen
included, and only then.
-/

namespace Throughput

namespace Poll

variable {ω : Type} {config : PollConfig} {watch : Watch ω} {started deadline : Instant}
  {p q last : Poll ω} {rounds earlier past rest : List (Attempt ω)} {a : Attempt ω}
  {status : PollStatus} {x₀ : Instant × ω}

/-- As many handles have been seen as a snapshot has, if all that were seen are in it, exactly when
all of the snapshot have been seen. -/
theorem Saw.size_included (h : p.Saw started rounds) {handles : List Handle}
    (hnodup : handles.Nodup)
    (hseen : ∀ handle, (firstSighting rounds handle).isSome → handle ∈ handles) :
    p.sightings.included.size = handles.length ↔
      ∀ handle ∈ handles, (firstSighting rounds handle).isSome := by
  have hmem : ∀ handle, handle ∈ p.sightings.included.keys ↔
      (firstSighting rounds handle).isSome := by
    intro handle
    rw [Std.HashMap.mem_keys, ← h.included, Std.HashMap.isSome_getElem?_iff_mem]
  have hkeys : p.sightings.included.keys.Nodup := Std.HashMap.nodup_keys
  rw [← Std.HashMap.length_keys]
  constructor
  · intro hlength handle hhandle
    have hsub := List.subperm_of_subset hkeys fun _ hkey => hseen _ ((hmem _).mp hkey)
    have hperm := hsub.perm_of_length_le (Nat.le_of_eq hlength.symm)
    exact (hmem handle).mp (hperm.mem_iff.mpr hhandle)
  · intro hall
    apply List.Perm.length_eq
    rw [List.perm_ext_iff_of_nodup hkeys hnodup]
    exact fun handle => (hmem handle).trans ⟨hseen handle, hall handle⟩

/-- A round over a sealed source ends the poll as complete exactly when as many handles have been seen
as there are. -/
theorem verdict_eq_complete {s : Sightings} {e : Estimate} :
    verdict? config s e = some .complete ↔ s.included.size = e.tracked := by
  unfold verdict?
  split
  · simp [*]
  · split <;> simp [*]

theorem exact_of_verdict {s : Sightings} {e : Estimate}
    (h : verdict? config s e = some .thresholdReached) : e.exact = false := by
  unfold verdict? at h
  split at h
  · nomatch h
  · split at h
    · rename_i hsampled
      exact by simpa using (Bool.and_eq_true_iff.mp hsampled).1
    · nomatch h

namespace Goes

/-- A poll that ends neither by a deadline nor by the signal ends with a round over a sealed source. -/
theorem decided (h : Goes config watch started deadline p rounds status last)
    (hstatus : status = .complete ∨ status = .thresholdReached) :
    ∃ past a, rounds = past ++ [a] ∧ a.answers.isSome ∧ a.isSealed = true ∧
      (status = .complete → last.sightings.included.size = a.handles.length) ∧
      (status = .thresholdReached → config.samplingThreshold < a.handles.length) := by
  induction h with
  | @waited p q status hawait =>
    unfold await at hawait
    dsimp only at hawait
    split at hawait
    · obtain ⟨rfl, -⟩ : PollStatus.cancelled = status ∧ _ := by simpa using hawait
      simp at hstatus
    · split at hawait
      · obtain ⟨rfl, -⟩ : PollStatus.timedOut = status ∧ _ := by simpa using hawait
        simp at hstatus
      · nomatch hawait
  | @ended p q status hawait hround =>
    refine ⟨[], q.attempt config watch deadline, rfl, ?_⟩
    cases hanswers : (q.attempt config watch deadline).answers with
    | none =>
      have htimedOut := (round_of_cut started hanswers).1
      rw [hround] at htimedOut
      obtain rfl := Option.some.inj htimedOut
      simp at hstatus
    | some answers =>
      obtain ⟨-, -, hverdict, htracked, hthreshold⟩ :=
        round_of_answers started hanswers
      rw [hround] at hverdict
      split at hverdict
      · rename_i hsealed
        refine ⟨rfl, hsealed, fun hcomplete => ?_, fun hreached => ?_⟩
        · rw [hcomplete] at hverdict
          exact (verdict_eq_complete.mp hverdict.symm).trans htracked
        · rw [hreached] at hverdict
          exact hthreshold (exact_of_verdict hverdict.symm)
      · nomatch hverdict
  | @another p q last rest status _ _ _ ih =>
    obtain ⟨past, a, hrest, hlast⟩ := ih hstatus
    exact ⟨q.attempt config watch deadline :: past, a, by rw [hrest]; rfl, hlast⟩
  | exhausted => simp at hstatus

/-- A round that has seen all handles of a sealed source is the last. -/
theorem complete (h : Goes config watch started deadline p rounds status last)
    (hsaw : p.Saw started earlier) (hrounds : rounds = past ++ a :: rest)
    (hanswers : a.answers.isSome) (hsealed : a.isSealed = true) (hnodup : a.handles.Nodup)
    (hseen : ∀ handle, (firstSighting (earlier ++ past ++ [a]) handle).isSome ↔
      handle ∈ a.handles) : rest = [] ∧ status = .complete := by
  have hverdict : ∀ {q : Poll ω} {earlier : List (Attempt ω)}, q.Saw started earlier →
      a = q.attempt config watch deadline →
      (∀ handle, (firstSighting (earlier ++ [a]) handle).isSome ↔ handle ∈ a.handles) →
      (q.round config watch started deadline).1 = some .complete := by
    rintro q earlier hsaw rfl hseen
    obtain ⟨answers, hanswers⟩ := Option.isSome_iff_exists.mp hanswers
    obtain ⟨-, -, hverdict, htracked, -⟩ := round_of_answers started hanswers
    have hsaw : (q.round config watch started deadline).2.Saw started
        (earlier ++ [q.attempt config watch deadline]) := hsaw.round
    have hsize := (hsaw.size_included hnodup fun handle => (hseen handle).mp).mpr
      fun handle => (hseen handle).mpr
    rw [hverdict, if_pos hsealed, verdict_eq_complete, hsize, htracked]
  induction h generalizing earlier past with
  | waited => simp at hrounds
  | exhausted => simp at hrounds
  | @ended p q status hawait hround =>
    obtain ⟨rfl, ha⟩ := List.append_eq_singleton_iff.mp hrounds.symm |>.resolve_right (by simp)
    obtain ⟨rfl, rfl⟩ := List.cons.inj ha
    rw [List.append_nil] at hseen
    rw [hverdict (hsaw.await hawait) rfl hseen] at hround
    exact ⟨rfl, (Option.some.inj hround).symm⟩
  | @another p q last _ status hawait hround hrest ih =>
    cases past with
    | nil =>
      obtain ⟨ha, -⟩ := List.cons.inj hrounds
      rw [List.append_nil] at hseen
      rw [hverdict (hsaw.await hawait) ha.symm hseen] at hround
      nomatch hround
    | cons b past =>
      obtain ⟨rfl, htail⟩ := List.cons.inj hrounds
      apply ih (hsaw.await hawait).round htail
      intro handle
      rw [← hseen handle]
      simp

end Goes

/-- No round has a handle twice in its snapshot. -/
theorem nodup_handles (hgrows : watch.Grows p.place)
    (hgoes : Goes config watch started deadline p rounds status last) (ha : a ∈ rounds) :
    a.handles.Nodup := by
  obtain ⟨-, hplaces, -⟩ := hgoes.places
  obtain ⟨hfirst, -, q, rfl⟩ := hplaces a ha
  rw [place_attempt] at hfirst
  rw [handles_attempt]
  exact hgrows.nodup hfirst

/-- What a poll has seen by a round is in the snapshot of that round. -/
theorem mem_of_firstSighting (hgrows : watch.Grows p.place)
    (hgoes : Goes config watch started deadline p rounds status last)
    (hrounds : rounds = past ++ a :: rest) {handle : Handle}
    (h : (firstSighting (past ++ [a]) handle).isSome) : handle ∈ a.handles := by
  obtain ⟨-, hplaces, hordered⟩ := hgoes.places
  rw [hrounds] at hplaces hordered
  obtain ⟨b, hb, hsome⟩ := List.findSome?_isSome_iff.mp h
  obtain ⟨hfirst, -, q, hq⟩ := hplaces b (by grind)
  have hhandle : handle ∈ b.handles := by
    rw [hq] at hsome ⊢
    exact mem_of_sighting hsome
  rcases List.mem_append.mp hb with hpast | hlast
  · obtain ⟨-, -, q', hq'⟩ := hplaces a (by simp)
    have hlater := (List.pairwise_append.mp hordered).2.2 b hpast a (List.mem_cons_self ..)
    rw [hq, place_attempt] at hfirst
    rw [hq, hq', place_attempt, place_attempt] at hlater
    rw [hq, handles_attempt] at hhandle
    rw [hq', handles_attempt]
    exact hgrows.grows hfirst hlater hhandle
  · rwa [List.mem_singleton.mp hlast] at hhandle

end Poll

end Throughput
