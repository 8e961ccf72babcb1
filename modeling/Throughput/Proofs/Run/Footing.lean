import Throughput.Proofs.Run.Account

/-!
# What a run stands on

A valid configuration whose reads all succeed can be prepared, and nothing else can.
-/

namespace Throughput

variable {σ : Type} {ledger : Ledger σ} {now : Instant} {s s' : σ}

namespace Sequences

/-- The starts that are read are those of all addresses in their order. -/
theorem addresses_of_readStarts {addresses : List Address} {starts : List (Address × UInt64)}
    (h : (readStarts ledger now addresses s).1 = .ok starts) : starts.map Prod.fst = addresses := by
  induction addresses generalizing s starts with
  | nil =>
    cases h
    rfl
  | cons a rest ih =>
    unfold readStarts at h
    split at h
    · nomatch h
    · rename_i start s₁ _
      dsimp only at h
      cases hothers : (readStarts ledger now rest s₁).1 with
      | error e =>
        rw [hothers] at h
        nomatch h
      | ok others =>
        rw [hothers] at h
        obtain rfl := Except.ok.inj h
        exact congrArg (a :: ·) (ih hothers)

/-- Has no counter handed out a number yet? -/
def IsFresh (m : Sequences) : Prop :=
  ∀ (a : Address) (counter : Counter), m[a]? = some counter → counter.next = counter.start

/-- Counters at given starts are fresh, and they are those of the addresses that are given one. -/
theorem ofStarts_spec (starts : List (Address × UInt64)) :
    (∀ a, a ∈ ofStarts starts ↔ a ∈ starts.map Prod.fst) ∧ (ofStarts starts).IsFresh := by
  have hfold : ∀ m : Sequences, m.IsFresh →
      let filled : Sequences := starts.foldl (fun m entry => m.insert entry.1 ⟨entry.2, entry.2⟩) m
      (∀ a, a ∈ filled ↔ a ∈ starts.map Prod.fst ∨ a ∈ m) ∧ filled.IsFresh := by
    induction starts with
    | nil => exact fun m hm => ⟨by simp, hm⟩
    | cons entry starts ih =>
      intro m hm
      obtain ⟨hmem, hnext⟩ := ih (m.insert entry.1 ⟨entry.2, entry.2⟩) (by
        intro a counter hcounter
        rw [Std.ExtTreeMap.getElem?_insert] at hcounter
        split at hcounter
        · rw [← Option.some.inj hcounter]
        · exact hm a counter hcounter)
      refine ⟨fun a => ?_, hnext⟩
      rw [List.foldl_cons, hmem a, Std.ExtTreeMap.mem_insert, Std.LawfulEqCmp.compare_eq_iff_eq,
        List.map_cons, List.mem_cons, or_left_comm, or_assoc, @eq_comm _ a]
  obtain ⟨hmem, hnext⟩ := hfold ∅ (by simp [IsFresh])
  exact ⟨fun a => (hmem a).trans (by simp), hnext⟩

/-- What is seeded off a ledger are fresh counters of the given addresses. -/
theorem seed_spec {addresses : List Address} {m : Sequences}
    (h : seed ledger now addresses s = (.ok m, s')) :
    (∀ a, a ∈ m ↔ a ∈ addresses) ∧ m.IsFresh := by
  have hresult : (readStarts ledger now addresses s).1.map ofStarts = .ok m := congrArg Prod.fst h
  cases hstarts : (readStarts ledger now addresses s).1 with
  | error e =>
    rw [hstarts] at hresult
    nomatch hresult
  | ok starts =>
    rw [hstarts] at hresult
    obtain rfl := Except.ok.inj hresult
    obtain ⟨hmem, hnext⟩ := ofStarts_spec starts
    rw [addresses_of_readStarts hstarts] at hmem
    exact ⟨hmem, hnext⟩

end Sequences

namespace Generator

variable {g : Generator} {m : Sequences} {template : Template} {timeout : Duration}
  {sendTimeout : Option Duration}

/-- Any counter at all is enough for a generator. -/
theorem ofSequences_of_mem {a : Address} (h : a ∈ m) (template : Template) (timeout : Duration)
    (sendTimeout : Option Duration) : ∃ g, ofSequences m template timeout sendTimeout = .ok g := by
  have hkey : a ∈ m.senders := Std.ExtTreeMap.mem_keys.mpr h
  unfold ofSequences
  dsimp only
  rw [dif_pos (by simpa using List.length_pos_of_mem hkey)]
  exact ⟨_, rfl⟩

/-- The senders of a generator are those with a counter. -/
theorem mem_sequences_iff (h : ofSequences m template timeout sendTimeout = .ok g) (a : Address) :
    a ∈ m ↔ ∃ place < g.senders.size, g.senderAt place = a := by
  rw [← g.mem_senders, senders_ofSequences h, List.mem_toArray, Sequences.senders,
    Std.ExtTreeMap.mem_keys]

/-- Where the counter of each sender starts. -/
def firstOf (g : Generator) (m : Sequences) (place : Nat) : UInt64 :=
  (m.start? (g.senderAt place)).getD 0

/-- Fresh counters stand where they start. -/
theorem standAt_firstOf (h : ofSequences m template timeout sendTimeout = .ok g)
    (hfresh : m.IsFresh) : g.StandAt m (g.firstOf m) := by
  intro place hp
  have hmem := (mem_sequences_iff h (g.senderAt place)).mpr ⟨place, hp, rfl⟩
  obtain ⟨counter, hcounter⟩ :=
    Option.isSome_iff_exists.mp (Std.ExtTreeMap.mem_iff_isSome_getElem?.mp hmem)
  refine ⟨counter.start, ?_⟩
  have hfirst : g.firstOf m place = counter.next := by
    simp [firstOf, Sequences.start?, hcounter, hfresh _ _ hcounter]
  rw [hfirst, hcounter]

end Generator

namespace RunConfig

variable {c : RunConfig} {f : Footing}

/-- Are height, sequence numbers and balances all read, one after the other? -/
def Reads (c : RunConfig) (ledger : Ledger σ) (now : Instant) (s : σ) (height : UInt64)
    (sequences : Sequences) (balances : List Snapshot) (s' : σ) : Prop :=
  ∃ s₁ s₂, ledger.height now s = (.ok height, s₁) ∧
    Sequences.seed ledger now c.senders s₁ = (.ok sequences, s₂) ∧
    readBalances ledger now (checkedAccounts c.checks) s₂ = (.ok balances, s')

/-- A run can be prepared if its configuration is valid and all reads succeed. -/
theorem prepare_eq_ok : c.prepare ledger now s = (.ok f, s') ↔
    c.validate = .ok () ∧ c.Reads ledger now s f.startHeight f.sequences f.balances s' ∧
      Generator.ofSequences f.sequences c.template c.submitTimeout c.sendTimeout =
        .ok f.generator := by
  constructor
  · intro h
    unfold prepare at h
    split at h
    · nomatch h
    · rename_i hvalid
      split at h
      · nomatch h
      · rename_i height s₁ hheight
        split at h
        · nomatch h
        · rename_i m s₂ hseed
          split at h
          · nomatch h
          · rename_i balances s₃ hbalances
            obtain ⟨hfooting, rfl⟩ := Prod.mk.inj h
            cases hg : Generator.ofSequences m c.template c.submitTimeout c.sendTimeout with
            | error e =>
              rw [hg] at hfooting
              nomatch hfooting
            | ok g =>
              rw [hg] at hfooting
              obtain rfl := Except.ok.inj hfooting
              exact ⟨hvalid, ⟨s₁, s₂, hheight, hseed, hbalances⟩, hg⟩
  · rintro ⟨hvalid, ⟨s₁, s₂, hheight, hseed, hbalances⟩, hg⟩
    unfold prepare
    rw [hvalid]
    simp only [hheight, hseed, hbalances, hg]
    rfl

/-- A valid configuration has no fault. -/
theorem fault?_of_validate (h : c.validate = .ok ()) : c.fault? = none := by
  unfold validate at h
  split at h
  · nomatch h
  · assumption

/-- What a valid configuration makes sure of. -/
structure IsValid (c : RunConfig) : Prop where
  senders : c.senders ≠ []
  batch : ∀ size pause, c.strategy = .steadyBatch size pause → size ≠ 0
  duration : ∀ s, c.strategy = .saturation s → ∃ d, c.duration = some d
  refillInterval : ∀ s, c.strategy = .saturation s → 0 < s.refillInterval
  interval : c.poll.interval ≠ 0
  sampleCap : c.poll.sampleCap ≠ 0
  blocks : c.maxBlocksAnalyzed ≠ 0

theorem isValid_of_validate (h : c.validate = .ok ()) : c.IsValid := by
  have hfault := fault?_of_validate h
  unfold fault? at hfault
  split at hfault
  · nomatch hfault
  · rename_i hsenders
    obtain ⟨hfirst, -⟩ := Option.or_eq_none_iff.mp hfault
    obtain ⟨hstrategy, hsettings⟩ := Option.or_eq_none_iff.mp hfirst
    have hset : c.poll.interval ≠ 0 ∧ c.poll.sampleCap ≠ 0 ∧ c.maxBlocksAnalyzed ≠ 0 := by
      unfold settingFault? at hsettings
      grind
    have hsaturation : ∀ s, c.strategy = .saturation s →
        (∃ d, c.duration = some d) ∧ 0 < s.refillInterval := by
      intro s hs
      simp only [strategyFault?, hs] at hstrategy
      split at hstrategy
      · nomatch hstrategy
      · rename_i hduration
        refine ⟨Option.ne_none_iff_exists'.mp (by simpa using hduration), ?_⟩
        by_contra hzero
        rw [Nat.eq_zero_of_not_pos hzero, if_pos rfl] at hstrategy
        split at hstrategy <;> nomatch hstrategy
    refine ⟨by simpa using hsenders, fun size pause hs => ?_, fun s hs => (hsaturation s hs).1,
      fun s hs => (hsaturation s hs).2, hset.1, hset.2.1, hset.2.2⟩
    simpa [strategyFault?, hs] using hstrategy

end RunConfig

end Throughput
