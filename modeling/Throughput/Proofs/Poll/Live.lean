import Throughput.Proofs.Poll.Verdict
import Throughput.Proofs.Tracker

/-!
# A poll over a record that is still written

While a poll runs, others go on recording outcomes until they seal the record. The poll asks whether
the record is sealed before it takes its snapshot, so that the snapshot of a sealed record is final.
-/

namespace Throughput

namespace Tracker

/-- What others do to a record. -/
inductive Act where
  | record (o : Outcome)
  | close

/-- Lets others act. -/
def perform (t : Tracker) : Act → Tracker
  | .record o => t.record o
  | .close => t.close

/-- The record when others have acted one after the other. -/
def performAll (t : Tracker) (acts : List Act) : Tracker := acts.foldl perform t

variable {t : Tracker} {acts : List Act}

theorem performAll_append (t : Tracker) (acts more : List Act) :
    t.performAll (acts ++ more) = (t.performAll acts).performAll more :=
  List.foldl_append

theorem handles_subset_performAll : t.handles ⊆ (t.performAll acts).handles := by
  induction acts generalizing t with
  | nil => exact List.Subset.refl _
  | cons act acts ih =>
    refine List.Subset.trans ?_ ih
    cases act with
    | record o => exact fun handle hhandle => mem_handles_record.mpr (.inr hhandle)
    | close => exact List.Subset.refl _

theorem isSealed_performAll :
    (t.performAll acts).isSealed = true ↔ t.isSealed = true ∨ .close ∈ acts := by
  induction acts generalizing t with
  | nil => simp [performAll]
  | cons act acts ih =>
    have hrest : (t.performAll (act :: acts)) = (t.perform act).performAll acts := rfl
    rw [hrest, ih]
    cases act with
    | record o => simp [perform, isSealed_record]
    | close => simp [perform, close]

/-- Sealing again changes nothing in the handles. -/
theorem handles_performAll (h : ∀ act ∈ acts, act = .close) :
    (t.performAll acts).handles = t.handles := by
  induction acts generalizing t with
  | nil => rfl
  | cons act acts ih =>
    obtain ⟨rfl, hrest⟩ := List.forall_mem_cons.mp h
    exact ih hrest

end Tracker

open Tracker (Act)

/-- A record that others write, beside a watched world. Others act between the two looks of a round at
the record, and whenever the world changes. -/
structure Live (ω : Type) where
  world : ω
  /-- The record in which the poll looks whether it is sealed. -/
  tracker : Tracker
  /-- What others do after that and before the snapshot. -/
  between : List Act := []
  /-- What they do with each change of the world: before the next look, and between it and the
  snapshot. -/
  later : List (List Act × List Act) := []

namespace Live

variable {ω : Type}

/-- The record of which a snapshot is taken. -/
def snapshot (l : Live ω) : Tracker := l.tracker.performAll l.between

/-- All that others will do. -/
def acts (l : Live ω) : List Act := l.between ++ l.later.flatMap fun (before, between) => before ++ between

/-- The record when others have done all that they will do. -/
def final (l : Live ω) : Tracker := l.tracker.performAll l.acts

/-- Lets others act while the world changes. -/
def pass (l : Live ω) (world : ω) : Live ω :=
  match l.later with
  | [] => { world, tracker := l.snapshot }
  | (before, between) :: later =>
    { world, tracker := l.snapshot.performAll before, between, later }

/-- Is nothing recorded in a sealed record? -/
structure Orderly (l : Live ω) : Prop where
  closed : l.tracker.isSealed = true → ∀ act ∈ l.acts, act = .close
  closes : l.acts.Pairwise fun earlier later => earlier = .close → later = .close

variable {l : Live ω} {world : ω}

theorem acts_pass (l : Live ω) (world : ω) : ∃ done, l.acts = done ++ (l.pass world).acts ∧
    (l.pass world).tracker = l.tracker.performAll done := by
  unfold pass acts
  match l.later with
  | [] => exact ⟨l.between, by simp, rfl⟩
  | (before, between) :: later =>
    exact ⟨l.between ++ before, by simp, (Tracker.performAll_append ..).symm⟩

theorem final_pass (l : Live ω) (world : ω) : (l.pass world).final = l.final := by
  obtain ⟨done, hacts, htracker⟩ := l.acts_pass world
  unfold final
  rw [hacts, Tracker.performAll_append, htracker]

theorem Orderly.pass (h : l.Orderly) (world : ω) : (l.pass world).Orderly := by
  obtain ⟨done, hacts, htracker⟩ := l.acts_pass world
  have hcloses := h.closes
  have hclosed := h.closed
  rw [hacts] at hcloses hclosed
  obtain ⟨-, hrest, hacross⟩ := List.pairwise_append.mp hcloses
  refine ⟨fun hsealed act hact => ?_, hrest⟩
  rw [htracker, Tracker.isSealed_performAll] at hsealed
  rcases hsealed with hsealed | hdone
  · exact hclosed hsealed act (List.mem_append_right _ hact)
  · exact hacross .close hdone act hact rfl

/-- The snapshot of a sealed record is final. -/
theorem Orderly.snapshot_eq_final (h : l.Orderly) (hsealed : l.tracker.isSealed = true) :
    l.snapshot.handles = l.final.handles := by
  have hall := h.closed hsealed
  rw [final, Tracker.handles_performAll hall]
  exact Tracker.handles_performAll fun act hact => hall act (List.mem_append_left _ hact)

/-- Has a record come from another by what others do to it? -/
structure Leads (l later : Live ω) : Prop where
  orderly : later.Orderly
  final : later.final = l.final
  grows : l.snapshot.handles ⊆ later.snapshot.handles
  sealed : l.tracker.isSealed = true → later.tracker.isSealed = true

theorem Leads.refl (h : l.Orderly) : l.Leads l := ⟨h, rfl, List.Subset.refl _, id⟩

theorem Leads.pass {later : Live ω} (h : l.Leads later) (world : ω) :
    l.Leads (later.pass world) := by
  obtain ⟨done, -, htracker⟩ := later.acts_pass world
  have hgrows : later.snapshot.handles ⊆ (later.pass world).snapshot.handles := by
    unfold Live.pass
    split
    · exact Tracker.handles_subset_performAll
    · exact List.Subset.trans Tracker.handles_subset_performAll Tracker.handles_subset_performAll
  refine ⟨h.orderly.pass world, (later.final_pass world).trans h.final,
    List.Subset.trans h.grows hgrows, fun hsealed => ?_⟩
  rw [htracker, Tracker.isSealed_performAll]
  exact .inl (h.sealed hsealed)

/-- Once the record has been found sealed, every snapshot is final. -/
theorem Leads.snapshot_eq {later : Live ω} (h : l.Leads later)
    (hsealed : l.tracker.isSealed = true) : later.snapshot.handles = l.final.handles := by
  rw [h.orderly.snapshot_eq_final (h.sealed hsealed), h.final]

end Live

/-- Watches a record that others write. -/
def Watch.live {ω : Type} (base : Watch ω) : Watch (Live ω) where
  advance limit l := l.pass (base.advance limit l.world)
  handles _ l := l.snapshot.handles.toArray
  isSealed _ l := l.tracker.isSealed
  receipt now handle l :=
    let (call, world) := base.receipt now handle l.world
    (⟨call.latency, fun now l =>
      let (answer, world) := call.answer now l.world
      (answer, l.pass world)⟩, l.pass world)

namespace Watch

variable {ω : Type} {base : Watch ω} {x y : Instant × Live ω}

/-- Whatever happens to the watched world, others go on as they would have. -/
theorem live_later (h : base.live.Later x y) (hx : x.2.Orderly) : x.2.Leads y.2 := by
  refine h.keeps (P := fun y => x.2.Leads y.2) (fun y z hstep hy => ?_) (.refl hx)
  cases hstep with
  | advance => exact hy.pass _
  | receipt => exact hy.pass _
  | answer => exact hy.pass _

theorem live_grows {now : Instant} {l : Live ω} (h : l.Orderly) : base.live.Grows (now, l) where
  nodup _ := Tracker.nodup_handles _
  grows hx hxy := (live_later hxy (live_later hx h).orderly).grows

end Watch

namespace Poll

variable {ω : Type}

/-- Once a round has found the record sealed, its snapshot and the last one are final. -/
theorem handles_eq_final (config : PollConfig) {base : Watch ω} {now : Instant}
    (shutdown : Shutdown) {l : Live ω} (words : WordStream) (horderly : l.Orderly)
    {a : Attempt (Live ω)} (ha : a ∈ history config base.live now shutdown l words)
    (hsealed : a.isSealed = true) :
    a.handles = l.final.handles ∧
      (ending config base.live now shutdown l words).2.world.snapshot.handles = l.final.handles := by
  obtain ⟨-, hplaces, -⟩ := (goes_ending config base.live now shutdown l words).places
  obtain ⟨hfirst, hlast, q, rfl⟩ := hplaces a ha
  have hbefore : l.Leads q.world := Watch.live_later hfirst horderly
  have hafter : q.world.Leads (ending config base.live now shutdown l words).2.world :=
    Watch.live_later hlast hbefore.orderly
  rw [← hbefore.final]
  exact ⟨(Live.Leads.refl hbefore.orderly).snapshot_eq hsealed, hafter.snapshot_eq hsealed⟩

/-- However others go on recording and sealing while a poll runs, a poll that ends as complete has seen
every handle that is ever accepted; one that ends by its threshold has found the record sealed and then
more handles than are asked for one by one, and reports all handles that are ever accepted. A round that
has found the record sealed, and all handles of its snapshot seen by its end, is the last, and the poll
is complete. -/
theorem live_verdicts (config : PollConfig) (base : Watch ω) (now : Instant) (shutdown : Shutdown)
    (l : Live ω) (words : WordStream) (horderly : l.Orderly) :
    let e := ending config base.live now shutdown l words
    let rounds := history config base.live now shutdown l words
    let report := report base.live now e.1 e.2
    (report.status = .complete →
      (∀ handle ∈ l.final.handles, ∃ r ∈ report.records, r.handle = handle ∧ r.inclusion.isSome) ∧
        report.unresolved = 0) ∧
    (report.status = .thresholdReached →
      ∃ past a, rounds = past ++ [a] ∧ a.isSealed = true ∧
        config.samplingThreshold < a.handles.length ∧ a.handles = l.final.handles ∧
        report.records.map (·.handle) = l.final.handles) ∧
    ∀ past rest a, rounds = past ++ a :: rest → a.answers.isSome → a.isSealed = true →
      (∀ handle ∈ a.handles, (firstSighting (past ++ [a]) handle).isSome) →
      rest = [] ∧ report.status = .complete := by
  intro e rounds report
  have hgoes : Goes config base.live now (now + config.timeout) (fresh now shutdown l words) rounds
      e.1 e.2 := goes_ending config base.live now shutdown l words
  have hgrows : base.live.Grows (now, l) := Watch.live_grows horderly
  have hrecords : report.records = e.2.world.snapshot.handles.map fun handle =>
      ⟨handle, firstSighting rounds handle,
        ((firstSighting rounds handle).map (·.observedAt)).getD e.2.now⟩ :=
    records_ending config shutdown words hgrows
  refine ⟨fun hcomplete => ?_, fun hreached => ?_, fun past rest a hrounds hanswers hsealed hall => ?_⟩
  · obtain ⟨past, a, hrounds, -, hsealed, hsize, -⟩ := hgoes.decided (.inl hcomplete)
    have ha : a ∈ rounds := by simp [hrounds]
    obtain ⟨hsnapshot, hlast⟩ := handles_eq_final config shutdown words horderly ha hsealed
    have hseen : ∀ handle ∈ l.final.handles, (firstSighting rounds handle).isSome := by
      rw [← hsnapshot]
      refine ((saw_ending config base.live now shutdown l words).size_included
        (nodup_handles hgrows hgoes ha) fun handle hsome => ?_).mp (hsize hcomplete)
      apply mem_of_firstSighting hgrows hgoes hrounds
      rwa [← hrounds]
    rw [hlast] at hrecords
    constructor
    · intro handle hhandle
      rw [hrecords]
      exact ⟨_, List.mem_map_of_mem hhandle, rfl, hseen handle hhandle⟩
    · have hall : report.verified = report.records.length := by
        rw [report.verified_eq, List.countP_eq_length, hrecords]
        exact List.forall_mem_map.mpr hseen
      unfold PollReport.unresolved
      rw [hall, Nat.sub_self]
  · obtain ⟨past, a, hrounds, -, hsealed, -, hsize⟩ := hgoes.decided (.inr hreached)
    have ha : a ∈ rounds := by simp [hrounds]
    obtain ⟨hsnapshot, hlast⟩ := handles_eq_final config shutdown words horderly ha hsealed
    refine ⟨past, a, hrounds, hsealed, hsize hreached, hsnapshot, ?_⟩
    rw [hrecords, List.map_map]
    exact (List.map_id _).trans hlast
  · have ha : a ∈ rounds := by simp [hrounds]
    apply hgoes.complete (saw_fresh now shutdown l words) hrounds hanswers hsealed
      (nodup_handles hgrows hgoes ha)
    exact fun handle => ⟨mem_of_firstSighting hgrows hgoes hrounds, hall handle⟩

end Poll

/-- A ledger on which everything is included at once. -/
def Scripted.Script.prompt : Scripted.Script := { receipts := [{ reply := .inBlock 5 true }] }

/-- The acceptance of one transfer. -/
def Outcome.accepted (handle : Handle) : Outcome := ⟨⟨1, 2, 5, 21000, 0, none⟩, some handle, none, 0, 0⟩

/-- One handle is there at the first look. Another is recorded, and the record sealed, just before the
first snapshot. -/
def Live.sealedMeanwhile : Live Scripted.State :=
  { world := {}, tracker := {}
    later := [([.record (.accepted 1)], [.record (.accepted 2), .close])] }

/-- Watches this record on that ledger. -/
def Watch.liveOnPrompt : Watch (Live Scripted.State) := (Watch.fixed (.scripted .prompt) #[]).live

/-- The rounds of a poll over this record. -/
def Live.roundsMeanwhile (threshold : Float) : List (Attempt (Live Scripted.State)) :=
  Poll.history (.ofThreeRounds threshold) .liveOnPrompt 0 .never .sealedMeanwhile (.ofSeed 0)

set_option maxRecDepth 4000 in
theorem Live.looks_roundsMeanwhile (threshold : Float) :
    ((roundsMeanwhile threshold).take 2).map (fun a => (a.isSealed, a.handles, a.answers.isSome)) =
      [(false, [1, 2], true), (true, [1, 2], true)] := by
  cbv

set_option maxRecDepth 4000 in
theorem Live.seen_roundsMeanwhile (threshold : Float) :
    ([1, 2] : List Handle).all
      (fun handle => (firstSighting ((roundsMeanwhile threshold).take 2) handle).isSome) = true := by
  cbv

/-- The first round has seen both handles, but found the record open; the second ends the poll. -/
theorem Poll.live_verdicts_sealedMeanwhile :
    let e := ending (.ofThreeRounds 0.95) .liveOnPrompt 0 .never .sealedMeanwhile (.ofSeed 0)
    e.1 = .complete ∧ (report .liveOnPrompt 0 e.1 e.2).unresolved = 0 ∧
      (Live.roundsMeanwhile 0.95).length = 2 := by
  intro e
  have horderly : Live.sealedMeanwhile.Orderly :=
    ⟨nofun, by simp [Live.acts, Live.sealedMeanwhile]⟩
  obtain ⟨hcomplete, -, hlast⟩ := live_verdicts (.ofThreeRounds 0.95)
    (.fixed (.scripted .prompt) #[]) 0 .never .sealedMeanwhile (.ofSeed 0) horderly
  have hlooks := Live.looks_roundsMeanwhile 0.95
  have hseen := Live.seen_roundsMeanwhile 0.95
  change ∀ past rest a, Live.roundsMeanwhile 0.95 = past ++ a :: rest → _ at hlast
  generalize Live.roundsMeanwhile 0.95 = rounds at hlooks hseen hlast ⊢
  match rounds with
  | [] => simp at hlooks
  | [_] => simp at hlooks
  | first :: second :: rest =>
    simp only [List.take_succ_cons, List.take_zero, List.map_cons, List.map_nil, List.cons.injEq,
      Prod.mk.injEq, and_true] at hlooks hseen
    obtain ⟨-, hsealed, hhandles, hanswers⟩ := hlooks
    obtain ⟨rfl, hstatus⟩ := hlast [first] rest second rfl hanswers hsealed (by
      rw [hhandles]
      exact List.all_eq_true.mp hseen)
    exact ⟨hstatus, (hcomplete hstatus).2, rfl⟩

end Throughput
