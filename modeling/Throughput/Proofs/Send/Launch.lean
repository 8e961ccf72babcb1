import Throughput.Proofs.Schedule
import Throughput.Send.Flight

/-!
# Submissions that start together

What settles at once is recorded at once. The rest joins the submissions under way, which stay in the
order in which they settle.
-/

namespace Throughput

variable {σ : Type}

/-- Are submissions in the order in which they settle, none of them overdue? -/
def Flights.Ordered (now : Instant) (flights : Flights σ) : Prop :=
  flights.Pairwise (fun f g => f.settlesAt ≤ g.settlesAt) ∧ ∀ f ∈ flights, now ≤ f.settlesAt

theorem Flights.add_perm (flights : Flights σ) (started : List (Flight σ)) :
    (Flights.add flights started).Perm (flights ++ started) :=
  perm_merge_mergeSort ..

theorem Flights.length_add (flights : Flights σ) (started : List (Flight σ)) :
    (Flights.add flights started).length = flights.length + started.length := by
  simpa using (Flights.add_perm flights started).length_eq

theorem Flights.add_nil (flights : Flights σ) : flights.add [] = flights := by
  simp [add]

/-- Newly started submissions are put where they settle. -/
theorem Flights.Ordered.add {now : Instant} {flights : Flights σ} {started : List (Flight σ)}
    (h : flights.Ordered now) (hs : ∀ f ∈ started, now ≤ f.settlesAt) :
    (Flights.add flights started).Ordered now := by
  refine ⟨pairwise_merge_mergeSort Flight.settlesAt started h.1, fun f hf => ?_⟩
  rcases List.mem_append.mp ((Flights.add_perm flights started).mem_iff.mp hf) with hm | hm
  · exact h.2 f hm
  · exact hs f hm

theorem Flight.settlesAt_le_of_start (ledger : Ledger σ) (timeout : Duration) (now : Instant)
    (request : Request) (s : σ) :
    (Flight.start ledger timeout now request s).1.settlesAt ≤ now + timeout := by
  unfold start
  dsimp only
  split
  · split
    · exact Nat.add_le_add_left ‹_› now
    · exact Nat.le_refl _
  · exact Nat.le_refl _

namespace Launch

variable {ledger : Ledger σ} {timeout : Duration} {now : Instant}

/-- Each request adds at most one submission under way. -/
theorem length_started_add (ledger : Ledger σ) (timeout : Duration) (now : Instant) (l : Launch σ)
    (request : Request) :
    (l.add ledger timeout now request).started.length ≤ l.started.length + 1 := by
  unfold add
  dsimp only
  split
  · exact Nat.le_succ _
  · exact Nat.le_refl _

theorem length_started_all (requests : List Request) (s : σ) (tracker : Tracker) :
    (all ledger timeout now requests s tracker).started.length ≤ requests.length := by
  have hfold : ∀ l : Launch σ, (requests.foldl (add ledger timeout now) l).started.length ≤
      l.started.length + requests.length := by
    induction requests with
    | nil => intro l; exact Nat.le_refl _
    | cons request requests ih =>
      intro l
      have hadd := length_started_add ledger timeout now l request
      have hrest := ih (l.add ledger timeout now request)
      simp only [List.foldl_cons, List.length_cons]
      omega
  simpa [all] using hfold { ledger := s, tracker }

/-- What does not settle at once settles later. -/
theorem settlesAt_of_started (requests : List Request) (s : σ) (tracker : Tracker) :
    ∀ f ∈ (all ledger timeout now requests s tracker).started, now ≤ f.settlesAt := by
  apply List.foldlRecOn (motive := fun l : Launch σ => ∀ f ∈ l.started, now ≤ f.settlesAt)
  · simp
  · intro l h request _
    unfold add
    dsimp only
    split
    · exact h
    · rename_i hlate
      exact List.forall_mem_cons.mpr ⟨Nat.le_of_not_le hlate, h⟩

/-- What does not settle at once settles when its time is over at the latest. -/
theorem settlesAt_le_of_started (requests : List Request) (s : σ) (tracker : Tracker) :
    ∀ f ∈ (all ledger timeout now requests s tracker).started, f.settlesAt ≤ now + timeout := by
  apply List.foldlRecOn (motive := fun l : Launch σ => ∀ f ∈ l.started, f.settlesAt ≤ now + timeout)
  · simp
  · intro l h request _
    have hfirst := Flight.settlesAt_le_of_start ledger timeout now request l.ledger
    unfold add
    dsimp only
    split
    · exact h
    · exact List.forall_mem_cons.mpr ⟨hfirst, h⟩

/-- A ledger that answers at once leaves nothing under way. -/
theorem started_all_eq_nil
    (h : ∀ now request s, (ledger.submit now request s).1.latency = some 0)
    (requests : List Request) (s : σ) (tracker : Tracker) :
    (all ledger timeout now requests s tracker).started = [] := by
  apply List.foldlRecOn (motive := fun l : Launch σ => l.started = [])
  · rfl
  · intro l hnone request _
    have hsettles : (Flight.start ledger timeout now request l.ledger).1.settlesAt ≤ now := by
      simp [Flight.start, h]
    unfold add
    dsimp only
    rw [if_pos hsettles]
    exact hnone

end Launch

end Throughput
