import Throughput.CommandLine.Settings
import Throughput.Proofs.CommandLine.Address
import Throughput.Proofs.Number.Plain

/-!
# Ratios on the command line

A ratio is read just if the text is one by its grammar: two addresses with a slash between them, an equals
sign and a positive number, with blanks around each of the three. Whatever form of a ratio the program
itself writes reads back.
-/

namespace Throughput

/-! ## Separators -/

/-- A text is split where the separator first stands. -/
theorem splitFirst?_eq_some {c : Char} {text before after : List Char} :
    splitFirst? c text = some (before, after) ↔ text = before ++ c :: after ∧ c ∉ before := by
  induction text generalizing before with
  | nil => simp [splitFirst?]
  | cons d text ih =>
    unfold splitFirst?
    split_ifs with hfound
    · subst hfound
      cases before with
      | nil => simp
      | cons x before =>
        refine iff_of_false nofun fun ⟨heq, hnone⟩ => hnone ?_
        rw [(List.cons.inj heq).1]
        exact List.mem_cons_self
    · rw [Option.map_eq_some_iff]
      cases before with
      | nil =>
        refine iff_of_false ?_ fun ⟨heq, _⟩ => hfound (List.cons.inj heq).1.symm
        rintro ⟨parts, -, heq⟩
        nomatch heq
      | cons x before =>
        constructor
        · rintro ⟨⟨earlier, later⟩, hsplit, heq⟩
          cases heq
          obtain ⟨rfl, hnone⟩ := ih.mp hsplit
          exact ⟨rfl, by simp [hfound, hnone]⟩
        · rintro ⟨heq, hnone⟩
          obtain ⟨rfl, htext⟩ := List.cons.inj heq
          exact ⟨(before, after), ih.mpr ⟨htext, fun h => hnone (List.mem_cons_of_mem d h)⟩, rfl⟩

namespace RatioTarget

variable {a b c : List Char} {text : List Char}

/-- The equals sign is the first of the text, and the slash the first before it. -/
theorem split?_eq_some : split? text = some (a, b, c) ↔
    text = a ++ '/' :: b ++ '=' :: c ∧ '/' ∉ a ∧ '=' ∉ a ∧ '=' ∉ b := by
  unfold split?
  simp only [Option.bind_eq_bind, Option.bind_eq_some_iff, Option.some_inj, Prod.mk.injEq, Prod.exists,
    splitFirst?_eq_some]
  constructor
  · rintro ⟨accounts, _, ⟨rfl, hequals⟩, _, _, ⟨rfl, hslash⟩, rfl, rfl, rfl⟩
    simp only [List.mem_append, List.mem_cons, not_or] at hequals
    exact ⟨rfl, hslash, hequals.1, hequals.2.2⟩
  · rintro ⟨rfl, hslash, hequals, hequals'⟩
    refine ⟨a ++ '/' :: b, c, ⟨rfl, ?_⟩, a, b, ⟨rfl, hslash⟩, rfl, rfl, rfl⟩
    simp only [List.mem_append, List.mem_cons, not_or]
    exact ⟨hequals, by decide, hequals'⟩

/-! ## Parts -/

theorem readAccount_eq_ok {account : Address} :
    readAccount text = .ok account ↔ Address.read (trimmed text) = .ok account := by
  unfold readAccount
  cases Address.read (trimmed text) with
  | error cause => exact iff_of_false nofun nofun
  | ok found => simp [Except.mapError]

theorem readTarget_eq_ok {target : Float} : readTarget text = .ok target ↔
    Decimal.read (trimmed text) = .ok target ∧ 0 < target ∧ target.isFinite := by
  unfold readTarget
  cases Decimal.read (trimmed text) with
  | error cause => exact iff_of_false nofun nofun
  | ok found =>
    dsimp only
    rw [Except.ok.injEq]
    split_ifs with hpositive
    · rw [Bool.and_eq_true, decide_eq_true_iff] at hpositive
      constructor
      · intro h
        obtain rfl := Except.ok.inj h
        exact ⟨rfl, hpositive⟩
      · exact fun h => congrArg Except.ok h.1
    · rw [Bool.and_eq_true, decide_eq_true_iff] at hpositive
      refine iff_of_false nofun ?_
      rintro ⟨rfl, h⟩
      exact hpositive h

/-- Is a text this ratio by the grammar? -/
def Spells (text : String) (r : RatioTarget) : Prop :=
  ∃ a b c : String, text = a ++ "/" ++ b ++ "=" ++ c ∧
    '/' ∉ a.toList ∧ '=' ∉ a.toList ∧ '=' ∉ b.toList ∧
    Address.read (trimmed a.toList) = .ok r.numerator ∧
    Address.read (trimmed b.toList) = .ok r.denominator ∧
    Decimal.read (trimmed c.toList) = .ok r.target ∧ 0 < r.target ∧ r.target.isFinite

/-- A text is read as a ratio just if it is one by the grammar. -/
theorem read_eq_ok {text : String} {r : RatioTarget} : read text = .ok r ↔ Spells text r := by
  constructor
  · intro h
    unfold read at h
    split at h
    · nomatch h
    · rename_i a b c hsplit
      obtain ⟨htext, hslash, hequals, hequals'⟩ := split?_eq_some.mp hsplit
      cases htarget : readTarget c with
      | error fault =>
        rw [htarget] at h
        nomatch h
      | ok target =>
      cases hnumerator : readAccount a with
      | error fault =>
        rw [htarget, hnumerator] at h
        nomatch h
      | ok numerator =>
      cases hdenominator : readAccount b with
      | error fault =>
        rw [htarget, hnumerator, hdenominator] at h
        nomatch h
      | ok denominator =>
      rw [htarget, hnumerator, hdenominator] at h
      obtain rfl := Except.ok.inj h
      refine ⟨String.ofList a, String.ofList b, String.ofList c, ?_, ?_⟩
      · rw [← String.toList_inj, htext]
        simp
      · simp only [String.toList_ofList]
        exact ⟨hslash, hequals, hequals', readAccount_eq_ok.mp hnumerator,
          readAccount_eq_ok.mp hdenominator, readTarget_eq_ok.mp htarget⟩
  · rintro ⟨a, b, c, rfl, hslash, hequals, hequals', hnumerator, hdenominator, htarget⟩
    have hsplit : split? (a ++ "/" ++ b ++ "=" ++ c).toList = some (a.toList, b.toList, c.toList) :=
      split?_eq_some.mpr ⟨by simp, hslash, hequals, hequals'⟩
    unfold read
    rw [hsplit]
    dsimp only
    rw [readTarget_eq_ok.mpr htarget, readAccount_eq_ok.mpr hnumerator,
      readAccount_eq_ok.mpr hdenominator]
    rfl

/-! ## What the program writes -/

/-- Blanks around a text without blanks are dropped. -/
theorem trimmed_blanks {before after : List Char} (hbefore : ∀ c ∈ before, isBlank c)
    (hafter : ∀ c ∈ after, isBlank c) (htext : ∀ c ∈ text, isBlank c = false) :
    trimmed (before ++ text ++ after) = String.ofList text := by
  have hstop : ∀ text rest : List Char, (∀ c ∈ text, isBlank c = false) → text ≠ [] →
      (text ++ rest).dropWhile isBlank = text ++ rest := by
    intro text rest htext hsome
    obtain ⟨first, text, rfl⟩ := List.exists_cons_of_ne_nil hsome
    rw [List.cons_append, List.dropWhile_cons_of_neg]
    rw [htext first List.mem_cons_self]
    exact Bool.false_ne_true
  have hdropped : ∀ c ∈ after.reverse, isBlank c := fun c hc => hafter c (List.mem_reverse.mp hc)
  unfold trimmed trimBlanks
  rw [List.append_assoc, List.dropWhile_append_of_pos hbefore]
  rcases eq_or_ne text [] with rfl | hsome
  · rw [List.nil_append, List.dropWhile_eq_nil_iff.mpr hafter]
    rfl
  · have hreverse := hstop text.reverse []
      (fun c hc => htext c (List.mem_reverse.mp hc)) (by simpa using hsome)
    rw [List.append_nil] at hreverse
    rw [hstop text after htext hsome, List.reverse_append, List.dropWhile_append_of_pos hdropped, hreverse,
      List.reverse_reverse]

theorem isBlank_of_isDigit {c : Char} (h : c.isDigit) : isBlank c = false := by
  rw [Char.isDigit, Bool.and_eq_true, decide_eq_true_iff, decide_eq_true_iff, ge_iff_le,
    UInt32.le_iff_toNat_le, UInt32.le_iff_toNat_le] at h
  have hlow : 48 ≤ c.toNat := h.1
  have hhigh : c.toNat ≤ 57 := h.2
  unfold isBlank
  simp only [Bool.or_eq_false_iff, Bool.and_eq_false_iff, decide_eq_false_iff_not, beq_eq_false_iff_ne]
  omega

/-- The parts of a ratio with blanks beside the equals sign are the ratio. -/
theorem spells_parts {r : RatioTarget} (hpos : 0 < r.target) (hfinite : r.target.isFinite)
    (space : String) (hspace : ∀ c ∈ space.toList, isBlank c ∧ c ≠ '=') :
    Spells (r.numerator.checksummed ++ "/" ++ r.denominator.checksummed ++ space ++ "=" ++ space ++
      Decimal.plain r.target) r := by
  have hshows : Shows r.target (value r.target) ∧ 0 < value r.target := by
    have hvalue := (lt_iff_value (x := 0) rfl hfinite).mp hpos
    exact ⟨shows_value hfinite hvalue, hvalue⟩
  have hblank : ∀ c ∈ space.toList, isBlank c := fun c hc => (hspace c hc).1
  have hnone : ∀ c ∈ ([] : List Char), isBlank c := fun c hc => nomatch hc
  have htarget : ∀ c ∈ (Decimal.plain r.target).toList, isBlank c = false := fun c hc => by
    rcases Decimal.plain_chars hshows.1 hshows.2 hc with hdigit | rfl
    · exact isBlank_of_isDigit hdigit
    · decide
  refine ⟨r.numerator.checksummed, r.denominator.checksummed ++ space, space ++ Decimal.plain r.target,
    by simp only [String.append_assoc], ?_, ?_, ?_, ?_, ?_, ?_, hpos, hfinite⟩
  · exact fun hc => (Address.checksummed_chars _ hc).2.1 rfl
  · exact fun hc => (Address.checksummed_chars _ hc).2.2.1 rfl
  · rw [String.toList_append, List.mem_append]
    rintro (hc | hc)
    · exact (Address.checksummed_chars _ hc).2.2.1 rfl
    · exact (hspace _ hc).2 rfl
  · have htrimmed := trimmed_blanks hnone hnone fun c hc =>
      (r.numerator.checksummed_chars hc).2.2.2
    rw [List.nil_append, List.append_nil, String.ofList_toList] at htrimmed
    rw [htrimmed, Address.read_checksummed]
  · have htrimmed := trimmed_blanks hnone hblank fun c hc =>
      (r.denominator.checksummed_chars hc).2.2.2
    rw [List.nil_append, String.ofList_toList] at htrimmed
    rw [String.toList_append, htrimmed, Address.read_checksummed]
  · have htrimmed := trimmed_blanks hblank hnone htarget
    rw [List.append_nil, String.ofList_toList] at htrimmed
    rw [String.toList_append, htrimmed, Decimal.read_plain hshows.1 hshows.2]

/-- A text is read as a ratio just if it is one by the grammar. So a ratio reads back from its three parts
with a slash and an equals sign between them, and from the label of the check that a run makes of it. -/
theorem read_iff_spells :
    (∀ (text : String) (r : RatioTarget), read text = .ok r ↔ Spells text r) ∧
    ∀ r : RatioTarget, 0 < r.target → r.target.isFinite →
      read (r.numerator.checksummed ++ "/" ++ r.denominator.checksummed ++ "=" ++
        Decimal.plain r.target) = .ok r ∧
      ∀ s : CommandLine.RunSettings, r ∈ s.ratios → ∃ check ∈ s.config.checks,
        check.expectation = .ratio r.numerator r.denominator r.target s.tolerance ∧
          check.label = r.label ∧ read check.label = .ok r := by
  refine ⟨fun text r => read_eq_ok, fun r hpos hfinite => ⟨?_, fun s hr => ?_⟩⟩
  · have hspells := spells_parts hpos hfinite "" fun c hc => nomatch hc
    rw [String.append_empty, String.append_empty] at hspells
    exact read_eq_ok.mpr hspells
  · refine ⟨_, List.mem_append_right _ (List.mem_map_of_mem hr), rfl, rfl, read_eq_ok.mpr ?_⟩
    have hspells := spells_parts hpos hfinite " " fun c hc => by
      rw [List.mem_singleton.mp hc]
      decide
    have hlabel : r.label = r.numerator.checksummed ++ "/" ++ r.denominator.checksummed ++ " " ++ "=" ++
        " " ++ Decimal.plain r.target := by
      unfold label
      simp only [String.append_assoc]
      rfl
    change Spells r.label r
    rw [hlabel]
    exact hspells

/-- A ratio of two and a half reads back from its parts and from the label of its check. -/
theorem read_iff_spells_half :
    let r : RatioTarget := ⟨1, 2, 2.5⟩
    let s : CommandLine.RunSettings := { ratios := [r] }
    read (Address.checksummed 1 ++ "/" ++ Address.checksummed 2 ++ "=" ++ Decimal.plain 2.5) = .ok r ∧
      ∃ check ∈ s.config.checks, check.label = r.label ∧ read check.label = .ok r := by
  intro r s
  obtain ⟨hparts, hlabel⟩ := read_iff_spells.2 r (by decide +kernel) (by decide +kernel)
  obtain ⟨check, hmem, -, hsame, hread⟩ := hlabel s List.mem_cons_self
  exact ⟨hparts, check, hmem, hsame, hread⟩

end RatioTarget

end Throughput
