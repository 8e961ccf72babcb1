import Mathlib.Data.List.TakeWhile
import Throughput.Proofs.Number.Scientific
import Throughput.Proofs.Number.Shortest

/-!
# The plain form reads back

The plain form of a number has its fewest digits, and the zeros that put them in their place. The reader
takes all of them as one whole number and a power of ten, and rounds; so it gives the number back.
-/

namespace Throughput

open Float.Model Float.Model.UnpackedFloat

/-! ## The bits of a number -/

/-- The sign, the biased exponent and the fraction of a number of the format. -/
def fieldsOf : UnpackedFloat → Sign × Nat × Nat
  | .notANumber => (.positive, 2047, 1)
  | .infinity sign => (sign, 2047, 0)
  | .zero sign => (sign, 0, 0)
  | .finite sign m e _ =>
    if m < 2 ^ 52 then (sign, 0, m) else (sign, (e + 1075).toNat, m - 2 ^ 52)

theorem fieldsOf_finite {sign : Sign} {m : Nat} {e : Int} (hm : 0 < m) :
    fieldsOf (.finite sign m e hm) =
      if m < 2 ^ 52 then (sign, 0, m) else (sign, (e + 1075).toNat, m - 2 ^ 52) := rfl

theorem fieldsOf_ofFields {sign : Sign} {biased fraction : Nat} (hfraction : fraction < 2 ^ 52)
    (hnumber : ofFields sign biased fraction ≠ .notANumber) :
    fieldsOf (ofFields sign biased fraction) = (sign, biased, fraction) := by
  unfold ofFields at hnumber ⊢
  split_ifs at hnumber ⊢ with hfull hnone hleast
  · rw [hfull, hnone]
    rfl
  · exact absurd rfl hnumber
  · rcases signed_cases sign fraction (-1074) with ⟨hzero, hsigned⟩ | ⟨hpos, hsigned⟩
    · rw [hsigned, hleast, hzero]
      rfl
    · rw [hsigned, fieldsOf_finite, if_pos hfraction, hleast]
  · rw [signed_of_pos (by omega), fieldsOf_finite, if_neg (by omega)]
    simp only [Prod.mk.injEq, true_and]
    omega

theorem eq_of_unpack {b c : BitVec 64}
    (hnumber : UnpackedFloat.unpack Format.binary64 b ≠ .notANumber)
    (h : UnpackedFloat.unpack Format.binary64 b = UnpackedFloat.unpack Format.binary64 c) : b = c := by
  have hfields := congrArg fieldsOf h
  rw [unpack_eq_ofFields] at hnumber
  rw [unpack_eq_ofFields, unpack_eq_ofFields] at h
  rw [unpack_eq_ofFields, unpack_eq_ofFields, fieldsOf_ofFields (BitVec.isLt _) hnumber,
    fieldsOf_ofFields (BitVec.isLt _) (h ▸ hnumber), Prod.mk.injEq, Prod.mk.injEq,
    toNat_unpackExponent, toNat_unpackExponent, toNat_unpackMantissa, toNat_unpackMantissa] at hfields
  obtain ⟨hsign, hexponent, hmantissa⟩ := hfields
  have hnegative := congrArg (· == Sign.negative) hsign
  rw [ofBitVec_beq_negative, ofBitVec_beq_negative, toNat_unpackSign, toNat_unpackSign,
    decide_eq_decide] at hnegative
  have hb := b.isLt
  have hc := c.isLt
  apply BitVec.eq_of_toNat_eq
  omega

/-- There is only one number that shows a magnitude. -/
theorem Shows.eq {x y : Float} {v : ℚ} (hx : Shows x v) (hy : Shows y v) : x = y := by
  have hsame := hx.unpacked_eq hy
  have hnumber : unpacked x ≠ .notANumber := by
    obtain ⟨m, e, -, hread, -⟩ := hx
    rw [hread]
    rcases signed_cases .positive m e with ⟨-, hsigned⟩ | ⟨_, hsigned⟩ <;> rw [hsigned] <;>
      exact UnpackedFloat.noConfusion
  have hbits : x.toModel.toBits.toBitVec = y.toModel.toBits.toBitVec :=
    eq_of_unpack hnumber hsame
  obtain ⟨⟨⟨x⟩, _⟩⟩ := x
  obtain ⟨⟨⟨y⟩, _⟩⟩ := y
  obtain rfl : x = y := hbits
  rfl

namespace Decimal

/-! ## Reading digits -/

/-- The length of a number that is written out is the place of its first digit. -/
theorem length_toString (n : Nat) : n < 10 ^ (toString n).length ∧
    (0 < n → 10 ^ ((toString n).length - 1) ≤ n) := by
  have hbound := fun k => Nat.length_toDigits_le_iff (n := n) (k := k) (by decide : 1 < 10)
  rw [Nat.toString_eq_ofList_toDigits, String.length_ofList]
  refine ⟨(hbound _ Nat.length_toDigits_pos).mp le_rfl, fun hn => ?_⟩
  rcases Nat.eq_zero_or_pos ((Nat.toDigits 10 n).length - 1) with hone | hmore
  · rw [hone]
    exact hn
  · have hlong := (hbound _ hmore).not.mp (by omega)
    omega

/-- A decimal number in the range that is computed at all is rounded once. -/
theorem nearest_rounds {digits : Nat} {exponent : Int} (hdigits : 0 < digits)
    (hsmall : |exponent| ≤ 2048) (hlow : (10 : ℚ) ^ (-400 : Int) ≤ digits * 10 ^ exponent)
    (hhigh : digits * (10 : ℚ) ^ exponent < 10 ^ (400 : Int)) :
    Rounds .positive (nearest digits exponent) (digits * 10 ^ exponent) := by
  obtain ⟨hless, hmore⟩ := length_toString digits
  have hmore := hmore hdigits
  have hlength : 0 < (toString digits).length := by
    rw [Nat.toString_eq_ofList_toDigits, String.length_ofList]
    exact Nat.length_toDigits_pos
  unfold nearest
  dsimp only
  generalize (toString digits).length = length at *
  have hscale : (0 : ℚ) < 10 ^ exponent := zpow_pos (by norm_num) _
  have hbelow : -400 ≤ (length : Int) + exponent := by
    have hfirst : (digits : ℚ) * 10 ^ exponent < 10 ^ ((length : Int) + exponent) := by
      rw [zpow_add₀ (by norm_num), zpow_natCast]
      exact mul_lt_mul_of_pos_right (by exact_mod_cast hless) hscale
    have hplace := (zpow_lt_zpow_iff_right₀ (by norm_num)).mp (hlow.trans_lt hfirst)
    omega
  have habove : (length : Int) + exponent ≤ 400 := by
    have hfirst : (10 : ℚ) ^ (((length - 1 : Nat) : Int) + exponent) ≤ digits * 10 ^ exponent := by
      rw [zpow_add₀ (by norm_num), zpow_natCast]
      exact mul_le_mul_of_nonneg_right (by exact_mod_cast hmore) hscale.le
    have hplace := (zpow_lt_zpow_iff_right₀ (by norm_num)).mp (hfirst.trans_lt hhigh)
    omega
  rw [if_neg (by omega), if_neg (by omega)]
  have hsize := abs_le.mp hsmall
  split_ifs with hsign
  · obtain ⟨n, rfl⟩ := Int.eq_ofNat_of_zero_le hsign
    exact ofScientific_rounds digits false (by omega)
  · obtain ⟨n, hn⟩ := Int.eq_ofNat_of_zero_le (show 0 ≤ -exponent by omega)
    have hrounds := ofScientific_rounds digits true (n := n) (by omega)
    rw [if_pos rfl, show -(n : Int) = exponent by omega] at hrounds
    rwa [hn, Int.toNat_natCast]

/-! ## Reading a text of digits -/

/-- A text that starts with a digit has no sign and is no word. -/
theorem read_of_digit {first : Char} {rest : List Char} (hfirst : first.isDigit) :
    read (String.ofList (first :: rest)) =
      match readUnsigned? (first :: rest) with
      | some value => .ok value
      | none => .error .invalid := by
  have hother : ∀ {c : Char}, c.isDigit = false → first ≠ c := by
    rintro c hc rfl
    rw [hc] at hfirst
    exact Bool.false_ne_true hfirst
  have hsign : takeSign (first :: rest) = (false, first :: rest) := by
    unfold takeSign
    split
    · rename_i heq
      exact absurd (List.cons.inj heq).1 (hother (by decide))
    · rename_i heq
      exact absurd (List.cons.inj heq).1 (hother (by decide))
    · rfl
  have hlower : first.toLower = first := by
    rw [Char.isDigit, Bool.and_eq_true, decide_eq_true_iff, decide_eq_true_iff] at hfirst
    exact dif_neg fun hletter => absurd (UInt32.le_trans hletter.1 hfirst.2) (by decide)
  have hword : ∀ (word : List Char) {c : Char}, c.isDigit = false →
      String.ofList ((first :: rest).map Char.toLower) ≠ String.ofList (c :: word) := by
    intro word c hc heq
    rw [String.ofList_inj, List.map_cons, hlower] at heq
    exact hother hc (List.cons.inj heq).1
  unfold read
  rw [String.toList_ofList, hsign, if_neg (by simp)]
  dsimp only
  rw [if_neg (not_or.mpr ⟨hword ['n', 'f'] (by decide),
    hword ['n', 'f', 'i', 'n', 'i', 't', 'y'] (by decide)⟩), if_neg (hword ['a', 'n'] (by decide))]
  rfl

/-- Digits, and a point and digits after them or nothing. -/
theorem readUnsigned?_digits {whole : List Char} (hwhole : ∀ c ∈ whole, c.isDigit) (hsome : whole ≠ []) :
    readUnsigned? whole = some (nearest (digitsValue whole) 0) ∧
      ∀ fraction : List Char, (∀ c ∈ fraction, c.isDigit) →
        readUnsigned? (whole ++ '.' :: fraction) =
          some (nearest (digitsValue (whole ++ fraction)) (-fraction.length)) := by
  have hfull : whole.isEmpty = false := List.isEmpty_eq_false_iff.mpr hsome
  constructor
  · unfold readUnsigned?
    rw [List.takeWhile_eq_self_iff.mpr hwhole, List.dropWhile_eq_nil_iff.mpr hwhole]
    dsimp only
    rw [hfull, List.append_nil, if_neg (by simp)]
    rfl
  · intro fraction hfraction
    have hpoint : ('.' :: fraction).takeWhile Char.isDigit = [] ∧
        ('.' :: fraction).dropWhile Char.isDigit = '.' :: fraction := ⟨rfl, rfl⟩
    unfold readUnsigned?
    rw [List.takeWhile_append_of_pos hwhole, List.dropWhile_append_of_pos hwhole, hpoint.1, hpoint.2,
      List.append_nil]
    change (if whole.isEmpty ∧ (fraction.takeWhile Char.isDigit).isEmpty then none
      else (readExponent? (fraction.dropWhile Char.isDigit)).map fun e =>
        nearest (digitsValue (whole ++ fraction.takeWhile Char.isDigit))
          (e - (fraction.takeWhile Char.isDigit).length)) = _
    rw [List.takeWhile_eq_self_iff.mpr hfraction, List.dropWhile_eq_nil_iff.mpr hfraction, hfull,
      if_neg (by simp), readExponent?, Option.map_some, zero_sub]

/-! ## The text of a number -/

theorem digitsValue_append_zeros (digits : List Char) (n : Nat) :
    digitsValue (digits ++ List.replicate n '0') = digitsValue digits * 10 ^ n := by
  change Nat.ofDigitChars 10 (digits ++ List.replicate n '0') 0 = Nat.ofDigitChars 10 digits 0 * 10 ^ n
  rw [Nat.ofDigitChars_append, Nat.ofDigitChars_replicate_zero, Nat.mul_comm]

theorem digitsValue_zeros_append (digits : List Char) (n : Nat) :
    digitsValue (List.replicate n '0' ++ digits) = digitsValue digits := by
  change Nat.ofDigitChars 10 (List.replicate n '0' ++ digits) 0 = Nat.ofDigitChars 10 digits 0
  rw [Nat.ofDigitChars_append, Nat.ofDigitChars_replicate_zero, Nat.mul_zero]

theorem digitsValue_toString (n : Nat) : digitsValue (toString n).toList = n := by
  rw [Nat.toString_eq_ofList_toDigits, String.toList_ofList]
  exact Nat.ofDigitChars_ten_toDigits

theorem isDigit_toString {n : Nat} {c : Char} (h : c ∈ (toString n).toList) : c.isDigit := by
  rw [Nat.toString_eq_ofList_toDigits, String.toList_ofList] at h
  exact Nat.isDigit_of_mem_toDigits (by decide) (by decide) h

/-- The text of digits in their place is made of digits, with a point among them where the exponent is
negative. -/
theorem positional_spec (s : Scaled) : ∃ whole : List Char, whole ≠ [] ∧ (∀ c ∈ whole, c.isDigit) ∧
    ((s.positional "").toList = whole ∧ 0 ≤ s.exponent ∧
        digitsValue whole = s.digits * 10 ^ s.exponent.toNat ∨
      ∃ fraction : List Char, (∀ c ∈ fraction, c.isDigit) ∧
        (s.positional "").toList = whole ++ '.' :: fraction ∧ -(fraction.length : Int) = s.exponent ∧
          digitsValue (whole ++ fraction) = s.digits) := by
  have hsome : (toString s.digits).toList ≠ [] := by
    rw [Nat.toString_eq_ofList_toDigits, String.toList_ofList]
    exact Nat.toDigits_ne_nil
  have hzero : ∀ {n c}, c ∈ List.replicate n '0' → c.isDigit := fun h => by
    rw [List.eq_of_mem_replicate h]
    decide
  unfold Scaled.positional
  dsimp only
  split_ifs with hsign
  · refine ⟨(toString s.digits).toList ++ List.replicate s.exponent.toNat '0', by simp,
      fun c hc => (List.mem_append.mp hc).elim isDigit_toString hzero, .inl ⟨by simp, hsign, ?_⟩⟩
    rw [digitsValue_append_zeros, digitsValue_toString]
  · generalize hpadded : List.replicate ((-s.exponent).toNat + 1 - (toString s.digits).length) '0' ++
      (toString s.digits).toList = padded
    have hdigits : ∀ c ∈ padded, c.isDigit := fun c hc =>
      (List.mem_append.mp (hpadded ▸ hc)).elim hzero isDigit_toString
    have hlength : (-s.exponent).toNat + 1 ≤ padded.length := by
      rw [← hpadded, List.length_append, List.length_replicate, String.length_toList]
      omega
    have hvalue : digitsValue padded = s.digits := by
      rw [← hpadded, digitsValue_zeros_append, digitsValue_toString]
    refine ⟨padded.take (padded.length - (-s.exponent).toNat), ?_,
      fun c hc => hdigits c (List.mem_of_mem_take hc), .inr
        ⟨padded.drop (padded.length - (-s.exponent).toNat),
          fun c hc => hdigits c (List.mem_of_mem_drop hc), ?_, ?_, ?_⟩⟩
    · rw [ne_eq, List.take_eq_nil_iff]
      rintro (hnone | hnone)
      · omega
      · rw [hnone] at hlength
        simp at hlength
    · simp
    · rw [List.length_drop]
      omega
    · rw [List.take_append_drop, hvalue]

/-- What the digits of a number in their place are read as. -/
theorem read_positional (s : Scaled) : ∃ (digits : Nat) (exponent : Int),
    read (s.positional "") = .ok (nearest digits exponent) ∧
      (digits * 10 ^ exponent : ℚ) = s.value ∧ min s.exponent 0 ≤ exponent ∧ exponent ≤ 0 := by
  obtain ⟨whole, hsome, hwhole, htext⟩ := positional_spec s
  obtain ⟨first, rest, rfl⟩ := List.exists_cons_of_ne_nil hsome
  obtain ⟨hplain, hpoint⟩ := readUnsigned?_digits hwhole hsome
  have hfirst := hwhole first List.mem_cons_self
  rcases htext with ⟨htext, hsign, hvalue⟩ | ⟨fraction, hfraction, htext, hexponent, hvalue⟩
  · refine ⟨digitsValue (first :: rest), 0, ?_, ?_, by omega, le_rfl⟩
    · rw [← String.ofList_toList (s := s.positional ""), htext, read_of_digit hfirst, hplain]
    · obtain ⟨n, hn⟩ := Int.eq_ofNat_of_zero_le hsign
      rw [hvalue, Scaled.value, hn, Int.toNat_natCast, zpow_natCast, zpow_zero, mul_one]
      push_cast
      rfl
  · refine ⟨digitsValue (first :: rest ++ fraction), -fraction.length, ?_, ?_, by omega, by omega⟩
    · rw [← String.ofList_toList (s := s.positional ""), htext, List.cons_append, read_of_digit hfirst,
        ← List.cons_append, hpoint fraction hfraction]
    · rw [hvalue, hexponent, Scaled.value]

theorem two_zpow_lt {n : Int} (h : n ≤ 1200) : (2 : ℚ) ^ n < 10 ^ (400 : Int) := by
  calc (2 : ℚ) ^ n ≤ 2 ^ (3 * 400 : Int) := zpow_le_zpow_right₀ one_le_two h
    _ = (2 ^ (3 : Int)) ^ (400 : Int) := zpow_mul 2 3 400
    _ < 10 ^ (400 : Int) := zpow_lt_zpow_left₀ (by norm_num) (by norm_num) (by norm_num)

/-- The numbers of the format are well inside the range that the reader computes. -/
theorem range_of_canonical {m : Nat} {e : Int} (h : Canonical m e) (hm : 0 < m) (he : e ≤ 971) :
    (10 : ℚ) ^ (-400 : Int) ≤ magnitudeOf m e / 2 ∧ 2 * magnitudeOf m e < 10 ^ (400 : Int) := by
  have hscale : (0 : ℚ) < 2 ^ e := zpow_pos two_pos e
  have hone : (1 : ℚ) ≤ m := by exact_mod_cast hm
  have hdigits : (m : ℚ) ≤ 2 ^ (53 : Int) := by exact_mod_cast h.digits.le
  constructor
  · calc (10 : ℚ) ^ (-400 : Int) = (10 ^ (400 : Int))⁻¹ := zpow_neg 10 400
      _ ≤ (2 ^ (1 - e))⁻¹ :=
        inv_anti₀ (zpow_pos two_pos _) (two_zpow_lt (by have := h.least; omega)).le
      _ = 2 ^ e / 2 := by rw [← zpow_neg, neg_sub, zpow_sub_one₀ two_ne_zero, div_eq_mul_inv]
      _ ≤ magnitudeOf m e / 2 := by
        rw [magnitudeOf]
        nlinarith
  · calc 2 * magnitudeOf m e ≤ 2 * (2 ^ (53 : Int) * 2 ^ e) := by
          rw [magnitudeOf]
          nlinarith
      _ = 2 ^ (53 + e + 1) := by rw [zpow_add_one₀ two_ne_zero, zpow_add₀ two_ne_zero, mul_comm]
      _ < 10 ^ (400 : Int) := two_zpow_lt (by omega)

theorem plain_eq {x : Float} {m : Nat} {e : Int} {hm : 0 < m}
    (h : unpacked x = .finite .positive m e hm) : plain x = (shortest .up m e).positional "" := by
  have hexact : Binary64.ofFloat x = .finite false m e := by
    rw [Binary64.ofFloat_eq]
    exact congrArg Binary64.ofUnpacked h
  unfold plain
  rw [hexact]
  rfl

/-- The plain form of a positive number is made of digits and a point. -/
theorem plain_chars {x : Float} {v : ℚ} (hx : Shows x v) (hv : 0 < v) {c : Char}
    (hc : c ∈ (plain x).toList) : c.isDigit ∨ c = '.' := by
  obtain ⟨m, e, hm, -, hread, -⟩ := hx.unpacked_of_pos hv
  rw [plain_eq hread] at hc
  obtain ⟨whole, -, hwhole, ⟨htext, -⟩ | ⟨fraction, hfraction, htext, -⟩⟩ :=
    positional_spec (shortest .up m e)
  · rw [htext] at hc
    exact .inl (hwhole c hc)
  · rw [htext, List.mem_append, List.mem_cons] at hc
    rcases hc with hc | hc | hc
    · exact .inl (hwhole c hc)
    · exact .inr hc
    · exact .inl (hfraction c hc)

/-- A positive number reads back from its plain form. -/
theorem read_plain {x : Float} {v : ℚ} (hx : Shows x v) (hv : 0 < v) : read (plain x) = .ok x := by
  obtain ⟨m, e, hm, hcanonical, hread, rfl⟩ := hx.unpacked_of_pos hv
  have hroom := hcanonical.exponent_le hx.le_largest
  obtain ⟨hback, hexponent⟩ := shortest_spec .up hm hcanonical hroom
  obtain ⟨hlow, hhigh⟩ := hback.bounds hm
  obtain ⟨hrange, hrange'⟩ := range_of_canonical hcanonical hm hroom
  obtain ⟨digits, exponent, htext, hvalue, hleast, hmost⟩ := read_positional (shortest .up m e)
  rw [plain_eq hread, htext]
  have hpos : 0 < (shortest .up m e).value := (half_pos hv).trans_le hlow
  have hdigits : 0 < digits := by
    refine Nat.pos_of_ne_zero ?_
    rintro rfl
    rw [Nat.cast_zero, zero_mul] at hvalue
    exact hpos.ne hvalue
  rw [← hvalue] at hlow hhigh
  have hrounds := nearest_rounds hdigits (abs_le.mpr ⟨by omega, by omega⟩)
    (hrange.trans hlow) (hhigh.trans_lt hrange')
  rw [hvalue] at hrounds
  obtain ⟨m', e', hrounded, hunpacked⟩ := hrounds
  obtain ⟨rfl, rfl⟩ := hrounded.unique (hback.rounded hcanonical)
  rw [stored_of_storable (storable_signed hcanonical hroom)] at hunpacked
  have hshows : Shows (nearest digits exponent) (magnitudeOf m' e') :=
    ⟨m', e', hcanonical, hunpacked, rfl⟩
  rw [hshows.eq hx]

end Decimal

end Throughput
