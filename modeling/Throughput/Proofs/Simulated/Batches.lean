import Throughput.Proofs.Send.Account
import Throughput.Proofs.Send.Course
import Throughput.Proofs.Send.Groups
import Throughput.Proofs.Send.Stop
import Throughput.Proofs.Simulated.Overlap

/-!
# Batches on a simulated ledger

A batch strategy has at most one group in progress. Its submissions to a simulated ledger all return or
are all given up, because they all have the same latency. So the peak of the ledger is bounded by the
size of a group, or it is the number of all submissions.
-/

namespace Throughput

variable {σ ε : Type}

/-- How a submission ends. -/
def Flight.ending (f : Flight σ) : Simulated.Happening :=
  if f.answer.isSome then .act f.settlesAt (.settle f.request) else .giveUp

namespace Simulated

/-- Has a submission been made to a simulated ledger, and is it answered just if the latency is within
the time that is allowed? -/
structure IsTimed (c : Config) (timeout : Duration) (f : Flight State) : Prop where
  of : f.IsOf (.simulated c)
  answered : f.answer.isSome = decide (c.submitLatency ≤ timeout)

/-- Has a timeline brought a ledger about with a number of submissions in progress, and never more than
a given number? Either all that is over has returned, or all of it has been given up. -/
structure Observed (c : Config) (timeout : Duration) (size : Nat) (fresh : State) (t : Timeline)
    (s : State) (n : Nat) : Prop where
  state : s = t.after c fresh
  possible : t.IsPossible
  within : ∀ past : Timeline, past <+: t → past.underWay ≤ size
  begun : t.begun = t.returned + t.givenUp + n
  returns : c.submitLatency ≤ timeout → t.givenUp = 0
  givesUp : timeout < c.submitLatency → t.returned = 0

variable {c : Config} {timeout : Duration} {size : Nat} {fresh s : State} {t : Timeline} {n : Nat}

theorem isTimed_start (c : Config) (timeout : Duration) (now : Instant) (request : Request)
    (s : State) : IsTimed c timeout (Flight.start (.simulated c) timeout now request s).1 := by
  refine ⟨(Flight.isOf_start ..).1, ?_⟩
  change (if c.submitLatency ≤ timeout then _ else _ : Flight State).answer.isSome = _
  split
  · rename_i hle
    exact (decide_eq_true hle).symm
  · rename_i hlate
    exact (decide_eq_false hlate).symm

namespace IsTimed

variable {f : Flight State}

/-- A submission returns if the latency is within its time, and is given up otherwise. -/
theorem ending_cases (hf : IsTimed c timeout f) :
    c.submitLatency ≤ timeout ∧ f.ending = .act f.settlesAt (.settle f.request) ∨
      timeout < c.submitLatency ∧ f.ending = .giveUp := by
  have hanswered := hf.answered
  unfold Flight.ending
  by_cases hle : c.submitLatency ≤ timeout
  · rw [decide_eq_true hle] at hanswered
    exact .inl ⟨hle, if_pos hanswered⟩
  · rw [decide_eq_false hle] at hanswered
    refine .inr ⟨Nat.lt_of_not_le hle, if_neg ?_⟩
    rw [hanswered]
    exact Bool.false_ne_true

theorem settle_after (hf : IsTimed c timeout f) (t : Timeline) :
    (f.settle timeout (t.after c fresh)).2 = Timeline.after c (t ++ [f.ending]) fresh := by
  unfold Flight.settle Flight.ending
  cases ha : f.answer with
  | none => exact (t.after_giveUp c fresh).symm
  | some answer =>
    obtain ⟨called, before, rfl⟩ := hf.of answer ha
    rw [Option.isSome_some, if_pos rfl, Timeline.after_act]
    dsimp only
    split <;> rename_i heq <;> exact (congrArg Prod.snd heq).symm

end IsTimed

namespace Observed

theorem nil : Observed c timeout size fresh [] fresh 0 where
  state := rfl
  possible := Timeline.isPossible_nil
  within past hpast := by
    rw [List.prefix_nil.mp hpast]
    exact Nat.zero_le _
  begun := rfl
  returns _ := rfl
  givesUp _ := rfl

/-- One more thing happens. -/
theorem concat {s' : State} {n' : Nat} (h : Observed c timeout size fresh t s n) {x : Happening}
    (hstate : s' = Timeline.after c (t ++ [x]) fresh) (hroom : n' ≤ size)
    (hbegun : Timeline.begun (t ++ [x]) =
      Timeline.returned (t ++ [x]) + Timeline.givenUp (t ++ [x]) + n')
    (hreturns : c.submitLatency ≤ timeout → Timeline.givenUp (t ++ [x]) = 0)
    (hgivesUp : timeout < c.submitLatency → Timeline.returned (t ++ [x]) = 0) :
    Observed c timeout size fresh (t ++ [x]) s' n' where
  state := hstate
  possible := Timeline.isPossible_concat.mpr ⟨h.possible, by omega⟩
  within past hpast := by
    rcases List.prefix_concat_iff.mp hpast with rfl | hpast
    · unfold Timeline.underWay
      omega
    · exact h.within past hpast
  begun := hbegun
  returns := hreturns
  givesUp := hgivesUp

/-- One more submission starts. -/
theorem start (h : Observed c timeout size fresh t s n) (hroom : n < size) (now : Instant)
    (request : Request) :
    Observed c timeout size fresh (t ++ [.act now (.start request)])
      ((Ledger.simulated c).submit now request s).2 (n + 1) := by
  obtain ⟨hbegun, hreturned, hgivenUp⟩ := t.counts_start now request
  have hcount := h.begun
  refine h.concat ?_ hroom ?_ (fun hle => hgivenUp.trans (h.returns hle))
    fun hlt => hreturned.trans (h.givesUp hlt)
  · rw [Timeline.after_act, h.state]
    rfl
  · omega

/-- A submission in progress ends. -/
theorem settle (h : Observed c timeout size fresh t s (n + 1)) {f : Flight State}
    (hf : IsTimed c timeout f) :
    Observed c timeout size fresh (t ++ [f.ending]) (f.settle timeout s).2 n := by
  have hcount := h.begun
  have hroom : n ≤ size := by
    have hbound := h.within t (List.prefix_refl t)
    unfold Timeline.underWay at hbound
    omega
  have hstate : (f.settle timeout s).2 = Timeline.after c (t ++ [f.ending]) fresh := by
    rw [h.state]
    exact hf.settle_after t
  rcases hf.ending_cases with ⟨hle, hending⟩ | ⟨hlt, hending⟩
  · obtain ⟨hbegun, hreturned, hgivenUp⟩ := t.counts_settle f.settlesAt f.request
    rw [hending] at hstate ⊢
    exact h.concat hstate hroom (by omega) (fun _ => hgivenUp.trans (h.returns hle))
      fun hlt => absurd hle (Nat.not_le_of_lt hlt)
  · obtain ⟨hbegun, hreturned, hgivenUp⟩ := t.counts_giveUp
    rw [hending] at hstate ⊢
    exact h.concat hstate hroom (by omega) (fun hle => absurd hle (Nat.not_le_of_lt hlt))
      fun _ => hreturned.trans (h.givesUp hlt)

/-- The peak is bounded by the given number if the submissions return, and else it is the number of all
submissions. -/
theorem peak (hfresh : fresh.IsFresh) (h : Observed c timeout size fresh t s n) :
    (c.submitLatency ≤ timeout → s.peakInFlight ≤ size) ∧
      (timeout < c.submitLatency → s.peakInFlight = t.begun) := by
  obtain ⟨-, hpeak⟩ := Timeline.counts_after c hfresh h.possible
  rw [← h.state] at hpeak
  constructor
  · intro hle
    refine hpeak.le_of_forall fun past hpast => ?_
    have hgivenUp := Timeline.givenUp_le_of_prefix hpast
    rw [h.returns hle] at hgivenUp
    rw [Nat.le_zero.mp hgivenUp]
    exact h.within past hpast
  · intro hlt
    -- nothing returns, so all that has started counts
    have hcount : ∀ past : Timeline, past <+: t → past.underWay + past.givenUp = past.begun := by
      intro past hpast
      have hreturned := Timeline.returned_le_of_prefix hpast
      have hbegun := Timeline.IsPossible.begun_eq fun earlier hearlier =>
        h.possible earlier (hearlier.trans hpast)
      rw [h.givesUp hlt] at hreturned
      omega
    apply Nat.le_antisymm
    · refine hpeak.le_of_forall fun past hpast => ?_
      rw [hcount past hpast]
      exact Timeline.begun_le_of_prefix hpast
    · rw [← hcount t (List.prefix_refl t)]
      exact hpeak.2 ⟨t, List.prefix_refl t, rfl⟩

end Observed

/-- Are submissions being started, some of them in progress before? -/
structure Starting (c : Config) (timeout : Duration) (size : Nat) (fresh : State) (before : Nat)
    (t : Timeline) (l : Launch State) : Prop where
  observed : Observed c timeout size fresh t l.ledger (before + l.started.length)
  timed : ∀ f ∈ l.started, IsTimed c timeout f

namespace Starting

variable {before : Nat} {l : Launch State}

theorem add (h : Starting c timeout size fresh before t l)
    (hroom : before + l.started.length < size) (now : Instant) (request : Request) :
    ∃ t', Starting c timeout size fresh before t' (l.add (.simulated c) timeout now request) ∧
      t'.begun = t.begun + 1 := by
  have hstarted := h.observed.start hroom now request
  have hbegun := (t.counts_start now request).1
  have htimed := isTimed_start c timeout now request l.ledger
  have hledger := (Flight.isOf_start (.simulated c) timeout now request l.ledger).2.2
  rw [← hledger] at hstarted
  unfold Launch.add
  dsimp only
  split
  · have hended := hstarted.settle htimed
    refine ⟨_, ⟨hended, h.timed⟩, ?_⟩
    rw [Timeline.begun_concat, hbegun]
    rcases htimed.ending_cases with ⟨-, hending⟩ | ⟨-, hending⟩ <;> rw [hending] <;> rfl
  · exact ⟨_, ⟨hstarted, List.forall_mem_cons.mpr ⟨htimed, h.timed⟩⟩, hbegun⟩

theorem addAll (requests : List Request) (h : Starting c timeout size fresh before t l)
    (hroom : before + l.started.length + requests.length ≤ size) (now : Instant) :
    ∃ t', Starting c timeout size fresh before t'
        (requests.foldl (Launch.add (.simulated c) timeout now) l) ∧
      t'.begun = t.begun + requests.length := by
  induction requests generalizing t l with
  | nil => exact ⟨t, h, rfl⟩
  | cons request requests ih =>
    rw [List.length_cons] at hroom ⊢
    obtain ⟨t', h', hbegun'⟩ := h.add (by omega) now request
    have hadded := Launch.length_started_add (.simulated c) timeout now l request
    obtain ⟨t'', h'', hbegun''⟩ := ih h' (by omega)
    exact ⟨t'', h'', by omega⟩

/-- Each request of a list starts a submission. -/
theorem launch (h : Observed c timeout size fresh t s before) (requests : List Request)
    (hroom : before + requests.length ≤ size) (now : Instant) (tracker : Tracker) :
    ∃ t', Starting c timeout size fresh before t'
        (Launch.all (.simulated c) timeout now requests s tracker) ∧
      t'.begun = t.begun + requests.length :=
  addAll requests (l := { ledger := s, tracker }) ⟨h, nofun⟩ hroom now

end Starting

end Simulated

open Simulated

namespace Job

variable {c : Simulated.Config} {fresh : State} {j : Job State ε} {p p' : Phase State ε}
  {t : Timeline} {size : Nat} {pause : Option Duration}

/-- Has a timeline brought the ledger of a phase about, with as many submissions in progress as are
under way, and with a start for each request? -/
structure Watched (j : Job State ε) (c : Simulated.Config) (size : Nat) (fresh : State) (t : Timeline)
    (p : Phase State ε) : Prop where
  observed : Observed c j.generator.submitTimeout size fresh t p.ledger p.flights.length
  timed : ∀ f ∈ p.flights, IsTimed c j.generator.submitTimeout f
  begun : t.begun = p.dispatched

theorem watched_start (j : Job State ε) (c : Simulated.Config) (size : Nat) (b : Bench State)
    (memory : ε) : j.Watched c size b.ledger [] (start b memory) :=
  ⟨.nil, nofun, rfl⟩

/-- A group that leaves no more than the given number in progress. -/
theorem Watched.sendGroup (hl : j.ledger = .simulated c) (h : j.Watched c size fresh t p)
    (requests : List Request) (hroom : p.flights.length + requests.length ≤ size)
    (sequences : Sequences) :
    ∃ t', j.Watched c size fresh t' (j.sendGroup requests sequences p) := by
  obtain ⟨t', ⟨hobserved, htimed⟩, hbegun⟩ :=
    Starting.launch h.observed requests hroom p.now p.tracker
  rw [← hl] at hobserved htimed
  have hlength : (j.sendGroup requests sequences p).flights.length = p.flights.length +
      (Launch.all j.ledger j.generator.submitTimeout p.now requests p.ledger
        p.tracker).started.length := by
    unfold Job.sendGroup launch
    dsimp only
    rw [Flights.length_add, List.length_reverse]
  rw [← hlength] at hobserved
  refine ⟨t', hobserved, fun f hf => ?_, ?_⟩
  · rcases List.mem_append.mp ((Flights.add_perm ..).mem_iff.mp hf) with hf | hf
    · exact h.timed f hf
    · exact htimed f (List.mem_reverse.mp hf)
  · rw [hbegun, h.begun]
    rfl

/-- Batches are watched from the start of each submission to its end. -/
theorem Move.watched (hl : j.ledger = .simulated c) (hs : j.strategy = .steadyBatch size pause)
    (hp : j.Shaped p) (h : j.Watched c size fresh t p) (m : Move j p p') :
    ∃ t', j.Watched c size fresh t' p' := by
  cases m with
  | settle f rest hf =>
    have hobserved := h.observed
    have htimed := h.timed
    rw [hf] at hobserved htimed
    obtain ⟨hfirst, hrest⟩ := List.forall_mem_cons.mp htimed
    rw [settleFirst_eq hf]
    refine ⟨_, hobserved.settle hfirst, hrest, ?_⟩
    rw [← h.begun, Timeline.begun_concat]
    rcases hfirst.ending_cases with ⟨-, hending⟩ | ⟨-, hending⟩ <;> rw [hending] <;> rfl
  | group hburst hd =>
    have hwatched : j.Watched c size fresh t (j.wakeUp p) := ⟨h.observed, h.timed, h.begun⟩
    refine hwatched.sendGroup hl _ ?_ _
    rw [wakeUp_flights, hd.2.1, List.length_nil, Nat.zero_add, Generator.length_build,
      groupSize_eq hburst]
    simp only [batchSize, hs]
    exact Nat.min_le_left ..
  | start hq =>
    obtain ⟨c', hc⟩ := saturation_of_queued hp hq
    nomatch hs.symm.trans hc
  | burst hburst => nomatch hs.symm.trans hburst
  | startRefills c' due hc => nomatch hs.symm.trans hc
  | refill c' due next hc => nomatch hs.symm.trans hc
  | stop | complete | pause | prime | cut | expire | ask | drained =>
    exact ⟨t, h.observed, h.timed, h.begun⟩

/-- In whatever order events happen, the ledger has been brought about by a timeline. -/
theorem Course.watched (hl : j.ledger = .simulated c) (hs : j.strategy = .steadyBatch size pause)
    {b : Bench State} {memory : ε} (h : j.Course (start b memory) p) :
    ∃ t, j.Watched c size b.ledger t p :=
  (h.keeps (I := fun p => ∃ t, j.Watched c size b.ledger t p) (j.shaped_start b memory)
    ⟨[], j.watched_start c size b memory⟩
    (fun _ _ hq hI m _ _ => hI.elim fun _ hI => m.watched hl hs hq hI)
    fun _ _ _ hI _ _ _ => hI.elim fun t hI => ⟨t, hI.observed, hI.timed, hI.begun⟩).2

end Job

end Throughput
