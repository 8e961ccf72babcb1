import Throughput.Number.Binary64
import Throughput.Proofs.Number.Rounding

/-!
# Packing binary64 numbers

A result is packed into the bits of the format, and read off them again where it is used next. A
number of the grid comes back as it was unless it is too large, and then as an infinity of its sign.
-/

namespace Throughput

open Float.Model Float.Model.UnpackedFloat

/-! ## The three parts of the bits -/

theorem toNat_unpackMantissa (b : BitVec 64) :
    (@unpackMantissa Format.binary64 b).toNat = b.toNat % 2 ^ 52 := by
  simp [unpackMantissa]

theorem toNat_unpackExponent (b : BitVec 64) :
    (@unpackExponent Format.binary64 b).toNat = b.toNat / 2 ^ 52 % 2 ^ 11 := by
  simp [unpackExponent, Nat.shiftRight_eq_div_pow]

theorem toNat_unpackSign (b : BitVec 64) :
    (@unpackSign Format.binary64 b).toNat = b.toNat / 2 ^ 63 := by
  have hlt : b.toNat < 2 ^ 64 := b.isLt
  change (b.extractLsb' 63 1).toNat = _
  rw [BitVec.extractLsb'_toNat, Nat.shiftRight_eq_div_pow]
  omega

/-- The sign that was packed is read again. -/
theorem ofBitVec_unpackSign (sign : Sign) (e : BitVec 11) (m : BitVec 52) :
    Sign.ofBitVec (unpackSign (packComponents Format.binary64 sign e m)) = sign := by
  have hbits : unpackSign (packComponents Format.binary64 sign e m) = sign.toBitVec := by
    apply BitVec.eq_of_toNat_eq
    rw [toNat_unpackSign]
    change (sign.toBitVec ++ e ++ m).toNat / 2 ^ 63 = _
    rw [BitVec.toNat_append, ← Nat.shiftLeft_add_eq_or_of_lt m.isLt, BitVec.toNat_append,
      ← Nat.shiftLeft_add_eq_or_of_lt e.isLt, Nat.shiftLeft_eq, Nat.shiftLeft_eq]
    have he := e.isLt
    have hm := m.isLt
    omega
  rw [hbits]
  cases sign <;> rfl

/-- The leading digit of a mantissa of 53 digits is not stored. -/
theorem toNat_append_one (fraction : BitVec 52) :
    (1#1 ++ fraction).toNat = 2 ^ 52 + fraction.toNat := by
  rw [BitVec.toNat_append, ← Nat.shiftLeft_add_eq_or_of_lt fraction.isLt]
  rfl

/-! ## Reading the bits -/

/-- The number that a sign, a biased exponent and a fraction stand for. -/
def ofFields (sign : Sign) (biased fraction : Nat) : UnpackedFloat :=
  if biased = 2047 then
    if fraction = 0 then .infinity sign else .notANumber
  else if biased = 0 then signed sign fraction (-1074)
  else signed sign (2 ^ 52 + fraction) ((biased : Int) - 1075)

theorem unpack_eq_ofFields (b : BitVec 64) :
    UnpackedFloat.unpack Format.binary64 b =
      ofFields (Sign.ofBitVec (@unpackSign Format.binary64 b))
        (@unpackExponent Format.binary64 b).toNat
        (@unpackMantissa Format.binary64 b).toNat := by
  have hfull : @unpackExponent Format.binary64 b = -1#11 ↔
      (@unpackExponent Format.binary64 b).toNat = 2047 := BitVec.toNat_inj.symm
  have hleast : @unpackExponent Format.binary64 b = 0#11 ↔
      (@unpackExponent Format.binary64 b).toNat = 0 := BitVec.toNat_inj.symm
  have hnone : @unpackMantissa Format.binary64 b = 0#52 ↔
      (@unpackMantissa Format.binary64 b).toNat = 0 := BitVec.toNat_inj.symm
  unfold UnpackedFloat.unpack ofFields
  by_cases h : @unpackExponent Format.binary64 b = -1#11
  · rw [if_pos h, if_pos (hfull.mp h)]
    by_cases h : @unpackMantissa Format.binary64 b = 0#52
    · rw [if_pos h, if_pos (hnone.mp h)]
    · rw [if_neg h, if_neg (mt hnone.mpr h)]
  · rw [if_neg h, if_neg (mt hfull.mpr h)]
    by_cases h : @unpackExponent Format.binary64 b = 0#11
    · rw [if_pos h, if_pos (hleast.mp h)]
      by_cases hm : @unpackMantissa Format.binary64 b = 0#52
      · rw [dif_pos hm, hnone.mp hm, signed_zero]
      · rw [dif_neg hm, signed_of_pos (Nat.pos_of_ne_zero (mt hnone.mpr hm)), h]
        rfl
    · rw [if_neg h, if_neg (mt hleast.mpr h), signed_of_pos (by omega)]
      exact (UnpackedFloat.finite.injEq ..).mpr ⟨rfl, toNat_append_one _, rfl⟩

/-- The numbers that the bits can hold. -/
def Storable : UnpackedFloat → Prop
  | .finite _ m e _ => Canonical m e ∧ e ≤ 971
  | _ => True

theorem storable_signed {sign : Sign} {m : Nat} {e : Int} (h : Canonical m e) (he : e ≤ 971) :
    Storable (signed sign m e) := by
  rcases signed_cases sign m e with ⟨-, hsigned⟩ | ⟨hm, hsigned⟩
  · rw [hsigned]
    trivial
  · rw [hsigned]
    exact ⟨h, he⟩

theorem storable_ofFields {sign : Sign} {biased fraction : Nat} (hbiased : biased < 2 ^ 11)
    (hfraction : fraction < 2 ^ 52) : Storable (ofFields sign biased fraction) := by
  unfold ofFields
  split_ifs
  · trivial
  · trivial
  · exact storable_signed ⟨le_refl _, by omega, .inl rfl⟩ (by decide)
  · exact storable_signed ⟨by omega, by omega, .inr (by omega)⟩ (by omega)

theorem storable_unpack (x : Float.Model) : Storable x.unpack := by
  unfold Float.Model.unpack
  rw [unpack_eq_ofFields]
  exact storable_ofFields (BitVec.isLt _) (BitVec.isLt _)

/-- The exact value of an unpacked number. -/
def Binary64.ofUnpacked : UnpackedFloat → Binary64
  | .notANumber => .notANumber
  | .infinity sign => .infinite (sign == .negative)
  | .zero sign => .finite (sign == .negative) 0 (-1074)
  | .finite sign m e _ => .finite (sign == .negative) m e

theorem Binary64.ofUnpacked_signed {sign : Sign} {m : Nat} {e : Int} (h : Canonical m e) :
    ofUnpacked (signed sign m e) = .finite (sign == .negative) m e := by
  rcases signed_cases sign m e with ⟨rfl, -⟩ | ⟨hm, hsigned⟩
  · rw [h.normal.resolve_right (by decide)]
    rfl
  · rw [hsigned]
    rfl

theorem Binary64.ofUnpacked_ofFields {sign : Sign} {biased fraction : Nat}
    (hfraction : fraction < 2 ^ 52) : ofUnpacked (ofFields sign biased fraction) =
      if biased = 2047 then
        if fraction = 0 then .infinite (sign == .negative) else .notANumber
      else if biased = 0 then .finite (sign == .negative) fraction (-1074)
      else .finite (sign == .negative) (2 ^ 52 + fraction) ((biased : Int) - 1075) := by
  unfold ofFields
  split_ifs
  · rfl
  · rfl
  · exact ofUnpacked_signed ⟨le_refl _, by omega, .inl rfl⟩
  · exact ofUnpacked_signed ⟨by omega, by omega, .inr (by omega)⟩

theorem ofBitVec_beq_negative (b : BitVec 1) :
    (Sign.ofBitVec b == .negative) = decide (b.toNat = 1) := by
  rcases BitVec.eq_zero_or_eq_one b with rfl | rfl <;> rfl

/-- The exact value is that of the number as the arithmetic unpacks it. -/
theorem Binary64.ofFloat_eq (x : Float) : ofFloat x = ofUnpacked x.toModel.unpack := by
  have hsign : x.toModel.toBits.toBitVec.toNat / 2 ^ 63 = 1 ↔
      2 ^ 63 ≤ x.toModel.toBits.toBitVec.toNat := by
    have hlt := x.toModel.toBits.toBitVec.isLt
    omega
  rw [Float.Model.unpack, unpack_eq_ofFields, ofUnpacked_ofFields (BitVec.isLt _),
    ofBitVec_beq_negative, toNat_unpackSign, toNat_unpackExponent, toNat_unpackMantissa,
    decide_eq_decide.mpr hsign]
  rfl

/-! ## Writing the bits -/

/-- A number as it is read after it was written. -/
def stored (x : UnpackedFloat) : UnpackedFloat := (Float.Model.pack x).unpack

@[simp]
theorem stored_infinity (sign : Sign) : stored (.infinity sign) = .infinity sign := by
  cases sign <;> rfl

@[simp]
theorem stored_zero (sign : Sign) : stored (.zero sign) = .zero sign := by
  cases sign <;> rfl

/-- The exponent that is stored for a number of the format. -/
theorem biasedExponent_eq {e : Int} :
    (e + Format.binary64.exponentBias + Format.binary64.mantissaBitsWithoutImplicit).toNat =
      (e + 1075).toNat := by
  change (e + 1023 + 52).toNat = _
  omega

/-- The bits of a number of the format: the exponent is zero if the leading digit is. -/
theorem pack_finite (sign : Sign) {m : Nat} {e : Int} (hm : 0 < m) (h : Canonical m e)
    (he : e ≤ 971) : UnpackedFloat.pack Format.binary64 (.finite sign m e hm) =
      packComponents Format.binary64 sign
        (BitVec.ofNat 11 (if 2 ^ 52 ≤ m then (e + 1075).toNat else 0)) (BitVec.ofNat 52 m) := by
  have hfits : ¬2 ^ 11 ≤ (e + 1075).toNat + 1 := by omega
  have hfull : m.log2 + 1 = Format.binary64.mantissaBits ↔ 2 ^ 52 ≤ m := by
    rw [← Nat.le_log2 hm.ne']
    have hlt := (Nat.log2_lt hm.ne').mpr h.digits
    change m.log2 + 1 = 53 ↔ _
    omega
  unfold UnpackedFloat.pack
  dsimp only
  rw [biasedExponent_eq, if_neg hfits]
  simp only [hfull]
  split <;> rfl

theorem pack_finite_of_lt (sign : Sign) {m : Nat} {e : Int} (hm : 0 < m) (he : 971 < e) :
    UnpackedFloat.pack Format.binary64 (.finite sign m e hm) =
      UnpackedFloat.pack Format.binary64 (.infinity sign) := by
  have hfull : 2 ^ 11 ≤ (e + 1075).toNat + 1 := by omega
  unfold UnpackedFloat.pack
  dsimp only
  rw [biasedExponent_eq, if_pos hfull]

theorem ofFields_stored (sign : Sign) {m : Nat} {e : Int} (h : Canonical m e) (he : e ≤ 971) :
    ofFields sign ((if 2 ^ 52 ≤ m then (e + 1075).toNat else 0) % 2 ^ 11) (m % 2 ^ 52) =
      signed sign m e := by
  have hleast := h.least
  have hdigits := h.digits
  rcases le_or_gt (2 ^ 52) m with hnormal | hnormal
  · have hbiased : (e + 1075).toNat % 2 ^ 11 = (e + 1075).toNat := by omega
    rw [if_pos hnormal, hbiased, ofFields, if_neg (by omega), if_neg (by omega)]
    congr 1 <;> omega
  · have hleast : e = -1074 := h.normal.resolve_right (by omega)
    rw [if_neg (by omega), Nat.mod_eq_of_lt hnormal, hleast]
    rfl

/-- A number of the format comes back as it was, and a larger one as an infinity. -/
theorem stored_finite (sign : Sign) {m : Nat} {e : Int} (hm : 0 < m) (h : Canonical m e) :
    stored (.finite sign m e hm) = if e ≤ 971 then .finite sign m e hm else .infinity sign := by
  change UnpackedFloat.unpack Format.binary64 (UnpackedFloat.pack Format.binary64 _) = _
  by_cases he : e ≤ 971
  · rw [if_pos he, pack_finite sign hm h he, unpack_eq_ofFields, ofBitVec_unpackSign,
      unpackExponent_packComponents, unpackMantissa_packComponents, BitVec.toNat_ofNat,
      BitVec.toNat_ofNat]
    exact (ofFields_stored sign h he).trans (signed_of_pos hm)
  · rw [if_neg he, pack_finite_of_lt sign hm (not_le.mp he)]
    exact stored_infinity sign

/-- What was read comes back. -/
theorem stored_of_storable {u : UnpackedFloat} (h : Storable u) : stored u = u := by
  match u with
  | .notANumber => rfl
  | .infinity sign => exact stored_infinity sign
  | .zero sign => exact stored_zero sign
  | .finite sign m e hm => rw [stored_finite sign hm h.1, if_pos h.2]

/-- A number keeps its sign, also one that the format has no room for. -/
theorem stored_finite_fields (sign : Sign) {m : Nat} (e : Int) (hm : 0 < m) :
    ∃ biased fraction, stored (.finite sign m e hm) = ofFields sign biased fraction := by
  change ∃ biased fraction,
    UnpackedFloat.unpack Format.binary64 (UnpackedFloat.pack Format.binary64 _) = _
  unfold UnpackedFloat.pack packedInfinity
  dsimp only
  split_ifs <;>
    rw [unpack_eq_ofFields, ofBitVec_unpackSign] <;>
    exact ⟨_, _, rfl⟩

end Throughput
