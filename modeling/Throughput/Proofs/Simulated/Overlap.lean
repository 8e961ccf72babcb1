import Mathlib.Data.List.Induction
import Mathlib.Order.Bounds.Basic
import Throughput.Proofs.Simulated.History

/-!
# Submissions that overlap

A submission is in progress from its start until it returns or its caller gives it up. Of the latter a
simulated ledger learns nothing. It counts the submission as in progress for ever.
-/

namespace Throughput.Simulated

/-- What happens around a ledger. -/
inductive Happening where
  | act (now : Instant) (e : Act)
  /-- The caller of a submission gives it up. -/
  | giveUp
deriving DecidableEq, Repr

namespace Happening

/-- What the ledger sees of it. -/
def act? : Happening → Option (Instant × Act)
  | .act now e => some (now, e)
  | .giveUp => none

/-- Does a submission start? -/
def begins : Happening → Bool
  | .act _ (.start _) => true
  | _ => false

/-- Does a submission return? -/
def returns : Happening → Bool
  | .act _ (.settle _) => true
  | _ => false

theorem returns_of_begins {x : Happening} (h : x.begins = true) : x.returns = false := by
  cases x with
  | giveUp => rfl
  | act now e =>
    cases e with
    | start request => rfl
    | settle request => nomatch h
    | ask query => rfl

end Happening

/-- What happens around a ledger, in order. -/
abbrev Timeline := List Happening

namespace Timeline

/-- What the ledger sees of a timeline. -/
def script (t : Timeline) : Script := t.filterMap Happening.act?

/-- How many submissions have been started. -/
def begun (t : Timeline) : Nat := t.countP Happening.begins

/-- How many submissions have returned. -/
def returned (t : Timeline) : Nat := t.countP Happening.returns

/-- How many submissions have been given up. -/
def givenUp (t : Timeline) : Nat := t.countP (· == .giveUp)

/-- How many submissions are in progress. -/
def underWay (t : Timeline) : Nat := t.begun - (t.returned + t.givenUp)

/-- Does each return and each giving up end a submission that is in progress? -/
def IsPossible (t : Timeline) : Prop :=
  ∀ past : Timeline, past <+: t → past.returned + past.givenUp ≤ past.begun

/-- Is a number the largest that there has been at any instant of a timeline? -/
def IsPeak (t : Timeline) (number : Timeline → Nat) : Nat → Prop :=
  IsGreatest {n | ∃ past : Timeline, past <+: t ∧ n = number past}

variable {t past : Timeline} {number other : Timeline → Nat} {n m : Nat}

theorem begun_concat (t : Timeline) (x : Happening) :
    begun (t ++ [x]) = t.begun + if x.begins then 1 else 0 := by
  simp [begun, List.countP_singleton]

theorem returned_concat (t : Timeline) (x : Happening) :
    returned (t ++ [x]) = t.returned + if x.returns then 1 else 0 := by
  simp [returned, List.countP_singleton]

theorem givenUp_concat (t : Timeline) (x : Happening) :
    givenUp (t ++ [x]) = t.givenUp + if x == .giveUp then 1 else 0 := by
  simp [givenUp, List.countP_singleton]

theorem counts_start (t : Timeline) (now : Instant) (request : Request) :
    begun (t ++ [.act now (.start request)]) = t.begun + 1 ∧
      returned (t ++ [.act now (.start request)]) = t.returned ∧
      givenUp (t ++ [.act now (.start request)]) = t.givenUp :=
  ⟨t.begun_concat _, t.returned_concat _, t.givenUp_concat _⟩

theorem counts_settle (t : Timeline) (now : Instant) (request : Request) :
    begun (t ++ [.act now (.settle request)]) = t.begun ∧
      returned (t ++ [.act now (.settle request)]) = t.returned + 1 ∧
      givenUp (t ++ [.act now (.settle request)]) = t.givenUp :=
  ⟨t.begun_concat _, t.returned_concat _, t.givenUp_concat _⟩

theorem counts_giveUp (t : Timeline) :
    begun (t ++ [.giveUp]) = t.begun ∧ returned (t ++ [.giveUp]) = t.returned ∧
      givenUp (t ++ [.giveUp]) = t.givenUp + 1 :=
  ⟨t.begun_concat _, t.returned_concat _, t.givenUp_concat _⟩

theorem begun_le_of_prefix (h : past <+: t) : past.begun ≤ t.begun := h.sublist.countP_le

theorem returned_le_of_prefix (h : past <+: t) : past.returned ≤ t.returned := h.sublist.countP_le

theorem givenUp_le_of_prefix (h : past <+: t) : past.givenUp ≤ t.givenUp := h.sublist.countP_le

theorem isPossible_nil : IsPossible [] := by
  intro past hpast
  rw [List.prefix_nil.mp hpast]
  exact Nat.le_refl _

theorem isPossible_concat {x : Happening} :
    IsPossible (t ++ [x]) ↔
      t.IsPossible ∧ returned (t ++ [x]) + givenUp (t ++ [x]) ≤ begun (t ++ [x]) := by
  constructor
  · intro h
    exact ⟨fun past hpast => h past (hpast.trans (List.prefix_append ..)),
      h _ (List.prefix_refl _)⟩
  · rintro ⟨hbefore, hnow⟩ past hpast
    rcases List.prefix_concat_iff.mp hpast with rfl | hpast
    · exact hnow
    · exact hbefore past hpast

theorem IsPossible.begun_eq (h : t.IsPossible) :
    t.begun = t.underWay + t.givenUp + t.returned := by
  have hall := h t (List.prefix_refl t)
  unfold underWay
  omega

namespace IsPeak

theorem nil (number : Timeline → Nat) : IsPeak [] number (number []) := by
  refine ⟨⟨[], List.prefix_refl _, rfl⟩, ?_⟩
  rintro n ⟨past, hpast, rfl⟩
  rw [List.prefix_nil.mp hpast]

/-- The last thing that happens brings a new peak, or leaves the one there was. -/
theorem concat (h : t.IsPeak number n) (x : Happening) :
    IsPeak (t ++ [x]) number (max (number (t ++ [x])) n) := by
  have hset : {n | ∃ past : Timeline, past <+: t ++ [x] ∧ n = number past} =
      insert (number (t ++ [x])) {n | ∃ past : Timeline, past <+: t ∧ n = number past} := by
    ext n
    constructor
    · rintro ⟨past, hpast, rfl⟩
      rcases List.prefix_concat_iff.mp hpast with rfl | hpast
      · exact .inl rfl
      · exact .inr ⟨past, hpast, rfl⟩
    · rintro (rfl | ⟨past, hpast, rfl⟩)
      · exact ⟨_, List.prefix_refl _, rfl⟩
      · exact ⟨past, hpast.trans (List.prefix_append ..), rfl⟩
  unfold IsPeak
  rw [hset]
  exact h.insert _

/-- What is no larger at any instant has no larger peak. -/
theorem le_add (h : t.IsPeak number n) (h' : t.IsPeak other m) {extra : Nat}
    (hle : ∀ past : Timeline, past <+: t → number past ≤ other past + extra) : n ≤ m + extra := by
  obtain ⟨past, hpast, rfl⟩ := h.1
  have hother : other past ≤ m := h'.2 ⟨past, hpast, rfl⟩
  have hnumber := hle past hpast
  omega

theorem le_of_forall (h : t.IsPeak number n)
    (hle : ∀ past : Timeline, past <+: t → number past ≤ m) : n ≤ m := by
  obtain ⟨past, hpast, rfl⟩ := h.1
  exact hle past hpast

theorem congr (h : t.IsPeak number n)
    (hsame : ∀ past : Timeline, past <+: t → other past = number past) : t.IsPeak other n := by
  obtain ⟨⟨past, hpast, rfl⟩, hmax⟩ := h
  refine ⟨⟨past, hpast, (hsame past hpast).symm⟩, ?_⟩
  rintro n ⟨past', hpast', rfl⟩
  rw [hsame past' hpast']
  exact hmax ⟨past', hpast', rfl⟩

end IsPeak

end Timeline

namespace State

/-- Has nothing been submitted to a ledger? -/
structure IsFresh (s : State) : Prop where
  inFlight : s.inFlight = 0
  peak : s.peakInFlight = 0

theorem isFresh_genesis (c : Config) (accounts : List (Address × Account)) :
    (State.genesis c accounts).IsFresh := ⟨rfl, rfl⟩

theorem counts_receive (c : Config) (now : Instant) (request : Request) (s : State) :
    (s.receive c now request).2.inFlight = s.inFlight - 1 ∧
      (s.receive c now request).2.peakInFlight = s.peakInFlight := by
  unfold receive
  dsimp only
  split
  · exact ⟨rfl, rfl⟩
  · split
    · exact ⟨rfl, rfl⟩
    · exact ⟨rfl, rfl⟩

end State

theorem Query.counts_ask (c : Config) (now : Instant) (query : Query) (s : State) :
    (query.ask c now s).2.inFlight = s.inFlight ∧
      (query.ask c now s).2.peakInFlight = s.peakInFlight := by
  rw [ask_eq_view]
  exact ⟨rfl, rfl⟩

namespace Timeline

/-- The ledger as a timeline leaves it. -/
def after (c : Config) (t : Timeline) (s : State) : State := (play c t.script s).state

variable (c : Config) (t : Timeline) (s : State)

theorem after_act (now : Instant) (e : Act) :
    after c (t ++ [.act now e]) s = (e.perform c now (t.after c s)).2 := by
  unfold after script
  rw [List.filterMap_append, play_append]
  rfl

theorem after_giveUp : after c (t ++ [.giveUp]) s = t.after c s := by
  unfold after script
  rw [List.filterMap_append]
  exact congrArg (fun script => (play c script s).state) (List.append_nil _)

/-- A start raises the count, and the peak to the count. A return lowers the count, and a giving up
leaves it as it is. -/
theorem counts_concat (x : Happening) :
    (after c (t ++ [x]) s).inFlight =
        (t.after c s).inFlight + (if x.begins then 1 else 0) - (if x.returns then 1 else 0) ∧
      (after c (t ++ [x]) s).peakInFlight =
        if x.begins then max ((t.after c s).inFlight + 1) (t.after c s).peakInFlight
        else (t.after c s).peakInFlight := by
  cases x with
  | giveUp =>
    rw [after_giveUp]
    exact ⟨rfl, rfl⟩
  | act now e =>
    rw [after_act]
    cases e with
    | start request => exact ⟨rfl, Nat.max_comm ..⟩
    | settle request => exact State.counts_receive c now request _
    | ask query => exact Query.counts_ask c now query _

/-- A fresh ledger counts as in progress what has not returned, be it given up or not, and its peak is
the largest number that it has counted so far. -/
theorem counts_after {s : State} (hs : s.IsFresh) {t : Timeline} (h : t.IsPossible) :
    (t.after c s).inFlight = t.underWay + t.givenUp ∧
      t.IsPeak (fun past => past.underWay + past.givenUp) (t.after c s).peakInFlight := by
  induction t using List.reverseRecOn with
  | nil =>
    refine ⟨hs.inFlight, ?_⟩
    have hpeak : (after c [] s).peakInFlight = 0 := hs.peak
    rw [hpeak]
    exact .nil _
  | append_singleton t x ih =>
    obtain ⟨hcount, hpeak⟩ := ih (isPossible_concat.mp h).1
    have hbefore := (isPossible_concat.mp h).1.begun_eq
    have hnow := h.begun_eq
    have hle : underWay t + givenUp t ≤ (after c t s).peakInFlight :=
      hpeak.2 ⟨t, List.prefix_refl t, rfl⟩
    obtain ⟨hcount', hpeak'⟩ := counts_concat c t s x
    rw [begun_concat, returned_concat] at hnow
    have hcounted : underWay (t ++ [x]) + givenUp (t ++ [x]) =
        underWay t + givenUp t + (if x.begins then 1 else 0) - (if x.returns then 1 else 0) := by
      omega
    refine ⟨by rw [hcount', hcount, hcounted], ?_⟩
    -- only a start can bring a new peak
    have hmax := hpeak.concat x
    rw [hcounted] at hmax
    rw [hpeak', hcount]
    cases hx : x.begins with
    | true =>
      simpa [hx, Happening.returns_of_begins hx] using hmax
    | false =>
      rw [hx] at hmax
      simp only [Bool.false_eq_true, if_false, Nat.add_zero] at hmax ⊢
      rwa [Nat.max_eq_right (Nat.le_trans (Nat.sub_le ..) hle)] at hmax

end Timeline

end Throughput.Simulated
