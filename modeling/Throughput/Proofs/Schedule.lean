import Throughput.Word

/-!
# Schedules

What is put into a schedule where it falls due leaves the schedule in order.
-/

namespace Throughput

variable {α : Type}

theorem perm_merge_mergeSort (notAfter : α → α → Bool) (schedule started : List α) :
    (schedule.merge (started.mergeSort notAfter) notAfter).Perm (schedule ++ started) :=
  (List.merge_perm_append ..).trans ((List.mergeSort_perm ..).append_left schedule)

theorem pairwise_merge_mergeSort (due : α → Instant) {schedule : List α} (started : List α)
    (h : schedule.Pairwise fun x y => due x ≤ due y) :
    (schedule.merge (started.mergeSort fun x y => due x ≤ due y)
      fun x y => due x ≤ due y).Pairwise fun x y => due x ≤ due y := by
  have htrans : ∀ x y z : α, decide (due x ≤ due y) = true → decide (due y ≤ due z) = true →
      decide (due x ≤ due z) = true := by
    intro x y z hxy hyz
    simp only [decide_eq_true_eq] at hxy hyz ⊢
    exact Nat.le_trans hxy hyz
  have htotal : ∀ x y : α, (decide (due x ≤ due y) || decide (due y ≤ due x)) = true := by
    intro x y
    simp only [Bool.or_eq_true, decide_eq_true_eq]
    exact Nat.le_total ..
  have hsorted := List.pairwise_mergeSort htrans htotal started
  have hschedule : schedule.Pairwise fun x y => decide (due x ≤ due y) = true := h.imp (by simp)
  exact (List.pairwise_merge htrans htotal _ _ hschedule hsorted).imp (by simp)

end Throughput
