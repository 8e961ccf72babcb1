import Mathlib.Data.List.Permutation
import Throughput.Proofs.Send.Journal
import Throughput.Proofs.Send.Launch
import Throughput.Proofs.Tracker

/-!
# The books balance

Each submission in the journal is either under way or has been recorded, and only once. Starting a
submission and settling one keep it so.
-/

namespace Throughput

variable {σ : Type}

/-- Does an entry with a property stand at a place of the journal? -/
def Journal.Holds (journal : Journal) (place : Nat) (P : Entry → Prop) : Prop :=
  ∃ e, journal[place]? = some e ∧ P e

/-- Is a submission under way the one of an entry that stands at a place? -/
def Flight.Awaits (timeout : Duration) (f : Flight (σ × Journal)) (place : Nat) (e : Entry) : Prop :=
  f.request = e.request ∧ f.startedAt = e.startedAt ∧ e.answer = none ∧
  f.settlesAt = e.startedAt + e.duration timeout ∧
  match f.answer with
  | some answer =>
    e.latency = some (e.duration timeout) ∧
      ∃ call : Call σ Handle, answer = (call.journaled place).answer
  | none => ¬ e.InTime timeout

/-- Is an outcome the one of an entry that has settled? -/
def Outcome.Closes (timeout : Duration) (o : Outcome) (e : Entry) : Prop :=
  e.IsSettled timeout ∧ o = e.outcome timeout

/-- Is each entry of the journal under way or recorded, and only once? -/
def Balanced (timeout : Duration) (before tracker : Tracker) (journal : Journal)
    (flights : Flights (σ × Journal)) : Prop :=
  ∃ (closed : List (Nat × Outcome)) (pending : List (Nat × Flight (σ × Journal))),
    tracker = before.recordAll (closed.map Prod.snd) ∧
    (∀ x ∈ closed, journal.Holds x.1 (x.2.Closes timeout)) ∧
    (∀ x ∈ pending, journal.Holds x.1 (x.2.Awaits timeout x.1)) ∧
    (pending.map Prod.snd).Perm flights ∧
    (closed.map Prod.fst ++ pending.map Prod.fst).Perm (List.range journal.length)

namespace Journal

variable {journal : Journal} {place : Nat} {P : Entry → Prop}

theorem Holds.concat (h : journal.Holds place P) (e : Entry) : (journal ++ [e]).Holds place P := by
  obtain ⟨e', he, hP⟩ := h
  obtain ⟨hlt, -⟩ := List.getElem?_eq_some_iff.mp he
  exact ⟨e', by rw [List.getElem?_append_left hlt, he], hP⟩

theorem holds_concat {e : Entry} (h : P e) : (journal ++ [e]).Holds journal.length P :=
  ⟨e, by simp, h⟩

theorem Holds.set (h : journal.Holds place P) {other : Nat} (hne : other ≠ place) (e : Entry) :
    Holds (journal.set other e) place P := by
  obtain ⟨e', he, hP⟩ := h
  exact ⟨e', by rw [List.getElem?_set_ne hne, he], hP⟩

theorem holds_set {e : Entry} (hlt : place < journal.length) (h : P e) :
    Holds (journal.set place e) place P :=
  ⟨e, by rw [List.getElem?_set_self hlt], h⟩

theorem calls_concat (journal : Journal) (e : Entry) :
    calls (journal ++ [e]) = journal.calls ++ [(e.request, e.startedAt)] := by
  simp [calls]

/-- An entry that is replaced by one of the same call leaves the calls as they are. -/
theorem calls_set {e e' : Entry} (h : journal[place]? = some e)
    (hcall : (e'.request, e'.startedAt) = (e.request, e.startedAt)) :
    calls (journal.set place e') = journal.calls := by
  unfold calls
  apply List.ext_getElem?
  intro i
  rw [List.map_set, hcall]
  by_cases hi : place = i
  · subst i
    obtain ⟨hlt, -⟩ := List.getElem?_eq_some_iff.mp h
    rw [List.getElem?_set_self (by simpa using hlt), List.getElem?_map, h, Option.map_some]
  · rw [List.getElem?_set_ne hi]

theorem calls_map_fst (journal : Journal) :
    journal.calls.map Prod.fst = journal.map Entry.request := by
  simp [calls]

theorem modify_eq_set {e : Entry} (h : journal[place]? = some e) (f : Entry → Entry) :
    journal.modify place f = journal.set place (f e) := by
  obtain ⟨hlt, hget⟩ := List.getElem?_eq_some_iff.mp h
  apply List.ext_getElem?
  intro i
  by_cases hi : place = i
  · subst i
    simp [hlt, hget]
  · simp [hi]

/-- Reading the places one by one gives the whole journal. -/
theorem map_range (journal : Journal) (f : Entry → Outcome) :
    (List.range journal.length).map (fun place => journal[place]?.map f) =
      (journal.map f).map some := by
  apply List.ext_getElem
  · simp
  · intro place hlt _
    have hlt : place < journal.length := by simpa using hlt
    simp [List.getElem?_eq_getElem hlt]

end Journal

namespace Flight

variable {ledger : Ledger σ} {timeout : Duration} {now : Instant} {s : σ} {journal : Journal}

/-- A submission that starts is written down last and is under way. -/
theorem start_journaled (ledger : Ledger σ) (timeout : Duration) (now : Instant)
    (request : Request) (s : σ) (journal : Journal) :
    ∃ e, (start ledger.journaled timeout now request (s, journal)).2.2 = journal ++ [e] ∧
      (e.request, e.startedAt) = (request, now) ∧
      (start ledger.journaled timeout now request (s, journal)).1.Awaits timeout journal.length e := by
  refine ⟨{ request, startedAt := now, latency := (ledger.submit now request s).1.latency },
    ?_, rfl, ?_⟩
  · unfold start
    dsimp only [Ledger.journaled, Call.journaled]
    split <;> rfl
  · unfold start
    dsimp only [Ledger.journaled, Call.journaled]
    split
    · rename_i latency hlat
      split
      · rename_i hle
        refine ⟨rfl, rfl, rfl, ?_, ?_, ⟨_, rfl⟩⟩
        · simp [Entry.duration, hlat, Nat.min_eq_left hle]
        · simp [Entry.duration, hlat, Nat.min_eq_left hle]
      · rename_i hlt
        refine ⟨rfl, rfl, rfl, ?_, ?_⟩
        · simp [Entry.duration, hlat, Nat.min_eq_right (Nat.le_of_not_le hlt)]
        · simpa [Entry.InTime, hlat] using hlt
    · rename_i hlat
      exact ⟨rfl, rfl, rfl, by simp [Entry.duration, hlat], by simp [Entry.InTime, hlat]⟩

/-- A submission that settles closes its entry and leaves the other entries as they are. -/
theorem settle_journaled {f : Flight (σ × Journal)} {place : Nat} {e : Entry}
    (h : f.Awaits timeout place e) (hplace : journal[place]? = some e) (s : σ) :
    ∃ e', (f.settle timeout (s, journal)).2.2 = journal.set place e' ∧
      (e'.request, e'.startedAt) = (e.request, e.startedAt) ∧
      (f.settle timeout (s, journal)).1.Closes timeout e' := by
  obtain ⟨hrequest, hstarted, hanswer, hsettles, h⟩ := h
  unfold settle
  cases hf : f.answer with
  | none =>
    rw [hf] at h
    -- no answer came in time, so the entry stays as it is
    obtain ⟨hlt, hget⟩ := List.getElem?_eq_some_iff.mp hplace
    refine ⟨e, ?_, rfl, ⟨?_, fun _ => hanswer⟩, ?_⟩
    · rw [← hget, List.set_getElem_self]
    · intro latency hle hlat
      exact absurd ⟨latency, hle, hlat⟩ h
    · simp [Entry.outcome, hanswer, hrequest, hstarted, hsettles]
  | some answer =>
    rw [hf] at h
    obtain ⟨hlat, call, rfl⟩ := h
    have hdone : ∀ answer, (e.answered f.settlesAt answer).IsSettled timeout := by
      intro answer
      refine ⟨fun latency hle hl => ⟨answer, ?_⟩, fun hlate => ?_⟩
      · have hsame : e.duration timeout = latency := Option.some.inj (hlat.symm.trans hl)
        simp [Entry.answered, hsettles, hsame]
      · exact absurd ⟨e.duration timeout, e.duration_le timeout, hlat⟩ hlate
    simp only [Call.journaled_answer, Journal.modify_eq_set hplace]
    generalize call.answer f.settlesAt s = result
    rcases result with ⟨error | handle, s⟩
    · refine ⟨_, rfl, rfl, hdone _, ?_⟩
      simp [Entry.outcome, Entry.answered, Entry.duration, hrequest, hstarted, hsettles]
    · refine ⟨_, rfl, rfl, hdone _, ?_⟩
      simp [Entry.outcome, Entry.answered, Entry.duration, hrequest, hstarted, hsettles]

end Flight

variable {ledger : Ledger σ} {timeout : Duration} {now : Instant} {before tracker : Tracker}
  {journal : Journal} {flights : Flights (σ × Journal)}

namespace Balanced

theorem refl (timeout : Duration) (before : Tracker) :
    Balanced timeout before before [] ([] : Flights (σ × Journal)) :=
  ⟨[], [], rfl, nofun, nofun, .nil, .nil⟩

/-- Each submission under way is the one of an entry. -/
theorem awaits (h : Balanced timeout before tracker journal flights) {f : Flight (σ × Journal)}
    (hf : f ∈ flights) : ∃ place e, journal[place]? = some e ∧ f.Awaits timeout place e := by
  obtain ⟨closed, pending, -, -, hpending, hflights, -⟩ := h
  obtain ⟨x, hx, rfl⟩ := List.mem_map.mp (hflights.mem_iff.mpr hf)
  obtain ⟨e, hplace, hawaits⟩ := hpending x hx
  exact ⟨x.1, e, hplace, hawaits⟩

/-- The order of the submissions under way is of no account. -/
theorem perm {flights' : Flights (σ × Journal)} (h : Balanced timeout before tracker journal flights)
    (hperm : flights.Perm flights') : Balanced timeout before tracker journal flights' := by
  obtain ⟨closed, pending, htracker, hclosed, hpending, hflights, hplaces⟩ := h
  exact ⟨closed, pending, htracker, hclosed, hpending, hflights.trans hperm, hplaces⟩

theorem start (h : Balanced timeout before tracker journal flights) {e : Entry}
    {f : Flight (σ × Journal)} (hf : f.Awaits timeout journal.length e) :
    Balanced timeout before tracker (journal ++ [e]) (f :: flights) := by
  obtain ⟨closed, pending, htracker, hclosed, hpending, hflights, hplaces⟩ := h
  refine ⟨closed, (journal.length, f) :: pending, htracker, fun x hx => (hclosed x hx).concat e,
    ?_, hflights.cons f, ?_⟩
  · intro x hx
    rcases List.mem_cons.mp hx with rfl | hx
    · exact Journal.holds_concat hf
    · exact (hpending x hx).concat e
  · rw [List.length_append, List.length_singleton, List.range_succ, List.map_cons]
    exact List.perm_middle.trans ((hplaces.cons _).trans (List.perm_append_singleton ..).symm)

/-- Settling a submission moves its entry from those under way to those recorded. -/
theorem settle {f : Flight (σ × Journal)} (h : Balanced timeout before tracker journal (f :: flights))
    (s : σ) :
    Balanced timeout before (tracker.record (f.settle timeout (s, journal)).1)
        (f.settle timeout (s, journal)).2.2 flights ∧
      (f.settle timeout (s, journal)).2.2.calls = journal.calls := by
  obtain ⟨closed, pending, htracker, hclosed, hpending, hflights, hplaces⟩ := h
  obtain ⟨⟨place, f'⟩, hmem, rfl⟩ := List.mem_map.mp (hflights.mem_iff.mpr (List.mem_cons_self ..))
  obtain ⟨pending₁, pending₂, rfl⟩ := List.append_of_mem hmem
  have hmiddle : (pending₁ ++ (place, f') :: pending₂).Perm
      ((place, f') :: (pending₁ ++ pending₂)) := List.perm_middle
  have hrest : ((pending₁ ++ pending₂).map Prod.snd).Perm flights :=
    ((hmiddle.map Prod.snd).symm.trans hflights).cons_inv
  have hall : (place :: (closed.map Prod.fst ++ (pending₁ ++ pending₂).map Prod.fst)).Perm
      (List.range journal.length) := by
    refine List.perm_middle.symm.trans (.trans (.append_left _ ?_) hplaces)
    exact (hmiddle.map Prod.fst).symm
  -- its place occurs nowhere else, so all other entries are as they were
  have hnew := (List.nodup_cons.mp (hall.nodup_iff.mpr List.nodup_range)).1
  have hother : ∀ x : Nat, x ∈ closed.map Prod.fst ++ (pending₁ ++ pending₂).map Prod.fst →
      place ≠ x := fun x hx he => hnew (he ▸ hx)
  obtain ⟨e, hplace, hawaits⟩ := hpending _ hmem
  obtain ⟨hlt, -⟩ := List.getElem?_eq_some_iff.mp hplace
  obtain ⟨e', hset, hcall, hcloses⟩ := Flight.settle_journaled hawaits hplace s
  rw [hset]
  refine ⟨⟨closed ++ [(place, (f'.settle timeout (s, journal)).1)], pending₁ ++ pending₂, ?_, ?_, ?_,
    hrest, ?_⟩, Journal.calls_set hplace hcall⟩
  · rw [List.map_append, List.map_singleton, Tracker.recordAll_concat, htracker]
  · intro x hx
    rcases List.mem_append.mp hx with hx | hx
    · exact (hclosed x hx).set (hother _ (by simp [List.mem_map_of_mem hx])) e'
    · rw [List.mem_singleton.mp hx]
      exact Journal.holds_set hlt hcloses
  · intro x hx
    have hmem' : x.1 ∈ closed.map Prod.fst ++ (pending₁ ++ pending₂).map Prod.fst :=
      List.mem_append_right _ (List.mem_map_of_mem hx)
    refine (hpending x ?_).set (hother _ hmem') e'
    simp only [List.mem_append, List.mem_cons] at hx ⊢
    exact hx.imp_right .inr
  · rw [List.length_set, List.map_append, List.map_singleton, List.append_assoc]
    exact List.perm_middle.trans hall

/-- A submission that settles as it starts is recorded at once. -/
theorem add (ledger : Ledger σ) (now : Instant) {l : Launch (σ × Journal)}
    (h : Balanced timeout before l.tracker l.ledger.2 (l.started ++ flights)) (request : Request) :
    Balanced timeout before (l.add ledger.journaled timeout now request).tracker
        (l.add ledger.journaled timeout now request).ledger.2
        ((l.add ledger.journaled timeout now request).started ++ flights) ∧
      (l.add ledger.journaled timeout now request).ledger.2.calls =
        l.ledger.2.calls ++ [(request, now)] := by
  obtain ⟨e, hjournal, hcall, hawaits⟩ :=
    Flight.start_journaled ledger timeout now request l.ledger.1 l.ledger.2
  have hstart := h.start hawaits
  rw [← hjournal] at hstart
  have hcalls := Journal.calls_concat l.ledger.2 e
  rw [← hjournal, hcall] at hcalls
  unfold Launch.add
  dsimp only
  split
  · obtain ⟨hb, hc⟩ := hstart.settle
      (Flight.start ledger.journaled timeout now request (l.ledger.1, l.ledger.2)).2.1
    exact ⟨hb, hc.trans hcalls⟩
  · exact ⟨hstart, hcalls⟩

/-- Submissions that start together are written down in their order. -/
theorem launch (h : Balanced timeout before tracker journal flights) (requests : List Request)
    (s : σ) :
    let l := Launch.all ledger.journaled timeout now requests (s, journal) tracker
    Balanced timeout before l.tracker l.ledger.2 (Flights.add flights l.started.reverse) ∧
      l.ledger.2.calls = journal.calls ++ requests.map (·, now) := by
  -- those started so far stand before the others until they are sorted in
  have hfold : ∀ l : Launch (σ × Journal),
      Balanced timeout before l.tracker l.ledger.2 (l.started ++ flights) →
      Balanced timeout before (requests.foldl (Launch.add ledger.journaled timeout now) l).tracker
          (requests.foldl (Launch.add ledger.journaled timeout now) l).ledger.2
          ((requests.foldl (Launch.add ledger.journaled timeout now) l).started ++ flights) ∧
        (requests.foldl (Launch.add ledger.journaled timeout now) l).ledger.2.calls =
          l.ledger.2.calls ++ requests.map (·, now) := by
    induction requests with
    | nil => intro l hl; exact ⟨hl, by simp⟩
    | cons request requests ih =>
      intro l hl
      obtain ⟨hb, hc⟩ := hl.add ledger now request
      obtain ⟨hb', hc'⟩ := ih _ hb
      refine ⟨hb', ?_⟩
      rw [List.foldl_cons, hc', hc, List.map_cons, List.append_assoc]
      rfl
  obtain ⟨hb, hc⟩ := hfold { ledger := (s, journal), tracker } h
  refine ⟨hb.perm ?_, hc⟩
  refine List.perm_append_comm.trans (.trans (.append_left _ ?_) (Flights.add_perm ..).symm)
  exact (List.reverse_perm _).symm

/-- With nothing under way, what was recorded are the outcomes of the entries. -/
theorem recorded (h : Balanced timeout before tracker journal ([] : Flights (σ × Journal))) :
    (∀ e ∈ journal, e.IsSettled timeout) ∧
      ∃ added, tracker = before.recordAll added ∧
        added.Perm (journal.map (Entry.outcome timeout)) := by
  obtain ⟨closed, pending, htracker, hclosed, -, hflights, hplaces⟩ := h
  obtain rfl : pending = [] := List.map_eq_nil_iff.mp hflights.eq_nil
  simp only [List.map_nil, List.append_nil] at hplaces
  refine ⟨fun e he => ?_, closed.map Prod.snd, htracker, ?_⟩
  · obtain ⟨place, hlt, rfl⟩ := List.mem_iff_getElem.mp he
    obtain ⟨x, hx, rfl⟩ := List.mem_map.mp (hplaces.mem_iff.mpr (List.mem_range.mpr hlt))
    obtain ⟨e, hget, hsettled, -⟩ := hclosed x hx
    rw [List.getElem?_eq_getElem hlt, Option.some.injEq] at hget
    exact hget ▸ hsettled
  · have houtcome : ∀ x ∈ closed, journal[x.1]?.map (Entry.outcome timeout) = some x.2 := by
      intro x hx
      obtain ⟨e, hget, -, ho⟩ := hclosed x hx
      simp [hget, ho]
    have hfirst : closed.map (fun x => journal[x.1]?.map (Entry.outcome timeout)) =
        (closed.map Prod.snd).map some := by
      rw [List.map_map]
      exact List.map_congr_left houtcome
    have hmap := hplaces.map fun place => journal[place]?.map (Entry.outcome timeout)
    rw [journal.map_range, List.map_map] at hmap
    have hsome : ((closed.map Prod.snd).map some).Perm
        ((journal.map (Entry.outcome timeout)).map some) := hfirst ▸ hmap
    exact (List.map_perm_map_iff fun _ _ => Option.some.inj).mp hsome

end Balanced

end Throughput
