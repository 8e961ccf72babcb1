import Throughput.Word

/-!
# The shutdown signal

A signal that is raised once and stays raised. Whatever else happens at the instant it falls due
happens before it.
-/

namespace Throughput

/-- When the signal is raised. -/
inductive Shutdown where
  | never
  | due (instant : Instant)
  | raised
deriving DecidableEq, Repr

namespace Shutdown

/-- Is the signal seen by someone who acts at an instant? -/
def seenAt (s : Shutdown) (now : Instant) : Bool :=
  match s with
  | never => false
  | due instant => instant < now
  | raised => true

/-- A wait from one instant to another that the signal cuts short: when it ends, and the signal then. -/
def wait (s : Shutdown) (now wake : Instant) : Instant × Shutdown :=
  if s.seenAt now then (now, raised)
  else
    let wake := max now wake
    match s with
    | due instant => if instant < wake then (max now instant, raised) else (wake, s)
    | _ => (wake, s)

/-- Was the signal raised by the end of a wait? -/
def isRaised (s : Shutdown) : Bool := s == raised

theorem seenAt_mono {s : Shutdown} {now later : Instant} (h : s.seenAt now = true)
    (hle : now ≤ later) : s.seenAt later = true := by
  cases s with
  | never => cases h
  | due instant =>
    simp only [seenAt, decide_eq_true_eq] at h ⊢
    exact Nat.lt_of_lt_of_le h hle
  | raised => rfl

theorem unseen_of_le {s : Shutdown} {now later : Instant} (h : s.seenAt later = false)
    (hle : now ≤ later) : s.seenAt now = false := by
  rw [← Bool.not_eq_true] at h ⊢
  exact fun hseen => h (seenAt_mono hseen hle)

theorem wait_le (s : Shutdown) (now wake : Instant) : (s.wait now wake).1 ≤ max now wake := by
  unfold wait
  grind

theorem le_wait (s : Shutdown) (now wake : Instant) : now ≤ (s.wait now wake).1 := by
  unfold wait
  grind

/-- A wait that the signal does not end lasts to its end and leaves the signal as it is. -/
theorem wait_eq_of_ne_raised {s : Shutdown} {now wake : Instant}
    (h : (s.wait now wake).2 ≠ raised) : s.wait now wake = (max now wake, s) := by
  unfold wait at h ⊢
  grind

theorem seenAt_eq_false_of_wait {s : Shutdown} {now wake : Instant}
    (h : (s.wait now wake).2 ≠ raised) : s.seenAt (max now wake) = false := by
  unfold wait at h
  unfold seenAt at h ⊢
  grind

theorem wait_of_unseen {s : Shutdown} {now wake : Instant} (h : s.seenAt (max now wake) = false) :
    s.wait now wake = (max now wake, s) ∧ s.isRaised = false := by
  unfold wait
  rw [unseen_of_le h (Nat.le_max_left ..)]
  cases s with
  | never => exact ⟨rfl, rfl⟩
  | due instant =>
    have hlate : ¬instant < max now wake := of_decide_eq_false h
    exact ⟨if_neg hlate, rfl⟩
  | raised => cases h

end Shutdown

end Throughput
