import Mathlib.Algebra.Order.Floor.Div
import Throughput.Proofs.Poll.Rounds

/-!
# How long and how often a poll asks

A poll does not outlast its timeout, whatever the ledger does, and begins its rounds no faster than at
its interval.
-/

namespace Throughput.Poll

variable {ω : Type} {config : PollConfig} {watch : Watch ω} {started deadline : Instant}
  {p last : Poll ω} {rounds : List (Attempt ω)} {status : PollStatus}

namespace Goes

/-- There are no more rounds than intervals that begin between the first tick and the deadline. -/
theorem length_le (h : Goes config watch started deadline p rounds status last)
    (hinterval : config.interval ≠ 0) :
    rounds.length ≤ (deadline - p.tick) ⌈/⌉ config.interval := by
  by_contra! hmore
  obtain ⟨hfirst, hlast⟩ := h.starts _ _ (List.getElem?_eq_getElem hmore)
  have hall := le_smul_ceilDiv (b := deadline - p.tick) (Nat.pos_of_ne_zero hinterval)
  rw [smul_eq_mul, Nat.mul_comm] at hall
  have hbefore := Nat.lt_of_le_of_lt hfirst hlast
  exact Nat.not_lt.mpr (Nat.sub_le_iff_le_add'.mp hall) hbefore

end Goes

end Throughput.Poll
