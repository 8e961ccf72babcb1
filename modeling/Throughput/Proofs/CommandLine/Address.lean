import Mathlib.Data.List.Forall2
import Mathlib.Tactic.Ring
import Throughput.Text.Blank
import Throughput.Word

/-!
# Addresses read back

The checksummed form of an address has its forty digits, some of its letters as capitals. The reader takes
digits of either case, so it gives the address back.
-/

namespace Throughput

/-! ## Bytes of a text -/

theorem toList_loop (bytes : ByteArray) (i : Nat) (seen : List UInt8) :
    ByteArray.toList.loop bytes i seen = seen.reverse ++ bytes.data.toList.drop i := by
  fun_induction ByteArray.toList.loop bytes i seen with
  | case1 i seen hmore ih =>
    have hi : i < bytes.data.toList.length := by simpa using hmore
    rw [ih, List.drop_eq_getElem_cons hi]
    simp [ByteArray.get!, hmore]
  | case2 i seen hnone =>
    rw [List.drop_eq_nil_of_le (by simpa using Nat.le_of_not_lt hnone), List.append_nil]

/-- Each character of an ASCII text is one byte. -/
theorem toUTF8_of_ascii {text : List Char} (h : ∀ c ∈ text, c.toNat < 128) :
    (String.ofList text).toUTF8.toList = text.map fun c => c.toNat.toUInt8 := by
  have hbytes : (String.ofList text).toUTF8.toList = text.flatMap String.utf8EncodeChar := by
    rw [String.toUTF8_eq_toByteArray, ByteArray.toList, toList_loop]
    exact List.toList_data_toByteArray
  rw [hbytes]
  clear hbytes
  induction text with
  | nil => rfl
  | cons c text ih =>
    have hc : c.utf8Size = 1 := by
      rw [Char.utf8Size_eq_one_iff, UInt32.le_iff_toNat_le]
      exact Nat.le_of_lt_succ (h c List.mem_cons_self)
    rw [List.flatMap_cons, String.utf8EncodeChar_eq_singleton hc, List.map_cons,
      ih fun d hd => h d (List.mem_cons_of_mem c hd)]
    rfl

/-! ## Digits -/

/-- Is this a digit of either case with this value? -/
def Hex.IsDigit (c : Char) (d : Nat) : Prop :=
  d < 16 ∧ (c = Hex.digit d ∨ c = (Hex.digit d).toUpper)

namespace Hex

theorem digit_spec : ∀ d < 16, ∀ capital : Bool,
    let c := if capital then (digit d).toUpper else digit d
    value? c = some d ∧ c.toNat < 128 ∧ c ≠ '/' ∧ c ≠ '=' ∧ isBlank c = false := by
  decide +kernel

/-- A digit has its value in either case. It is an ASCII character, no blank and no separator. -/
theorem IsDigit.spec {c : Char} {d : Nat} (h : IsDigit c d) :
    value? c = some d ∧ c.toNat < 128 ∧ c ≠ '/' ∧ c ≠ '=' ∧ isBlank c = false := by
  obtain ⟨hd, rfl | rfl⟩ := h
  · exact digit_spec d hd false
  · exact digit_spec d hd true

theorem exists_isDigit {text : List Char} {digits : List Nat}
    (h : List.Forall₂ IsDigit text digits) {c : Char} (hc : c ∈ text) : ∃ d, IsDigit c d := by
  induction h with
  | nil => nomatch hc
  | cons hdigit _ ih =>
    rcases List.mem_cons.mp hc with rfl | hc
    · exact ⟨_, hdigit⟩
    · exact ih hc

/-- The digits of a number are its residues. -/
theorem foldl_digits (n width value : Nat) :
    ((List.range width).reverse.map fun i => n / 16 ^ i % 16).foldl (16 * · + ·) value =
      16 ^ width * value + n % 16 ^ width := by
  induction width generalizing value with
  | zero => simp [Nat.mod_one]
  | succ width ih =>
    rw [List.range_succ, List.reverse_append, List.reverse_singleton, List.singleton_append,
      List.map_cons, List.foldl_cons, ih, Nat.mod_pow_succ, Nat.pow_succ]
    ring

end Hex

namespace Address

/-- Reading gives the number that the digits stand for. -/
theorem readDigits_eq {text : List Char} {digits : List Nat}
    (h : List.Forall₂ Hex.IsDigit text digits) (position value : Nat) :
    readDigits position value (text.map fun c => c.toNat.toUInt8) =
      .ok (digits.foldl (16 * · + ·) value) := by
  induction h generalizing position value with
  | nil => rfl
  | @cons c d text digits hdigit _ ih =>
    obtain ⟨hvalue, hascii, -⟩ := hdigit.spec
    have hbyte : Char.ofNat c.toNat.toUInt8.toNat = c := by
      have hsmall : c.toNat.toUInt8.toNat = c.toNat := Nat.mod_eq_of_lt (by omega)
      rw [hsmall, Char.ofNat_toNat]
    rw [List.map_cons, readDigits, hbyte, hvalue]
    exact ih ..

/-- Some of the digits are made capitals. -/
theorem forall₂_mark (mark : Char → Char → Char) (hmark : ∀ c m, mark c m = c ∨ mark c m = c.toUpper)
    {digits : List Nat} (hdigits : ∀ d ∈ digits, d < 16) {marks : List Char}
    (hlength : digits.length ≤ marks.length) :
    List.Forall₂ Hex.IsDigit (List.zipWith mark (digits.map Hex.digit) marks) digits := by
  induction digits generalizing marks with
  | nil => exact .nil
  | cons d digits ih =>
    obtain ⟨m, marks, rfl⟩ := List.exists_cons_of_length_pos (Nat.zero_lt_of_lt hlength)
    rw [List.map_cons, List.zipWith_cons_cons]
    refine .cons ⟨hdigits d List.mem_cons_self, hmark ..⟩ (ih ?_ (Nat.le_of_succ_le_succ hlength))
    exact fun x hx => hdigits x (List.mem_cons_of_mem d hx)

/-- The checksummed form: a mark and forty digits. -/
theorem checksummed_spec (a : Address) : ∃ text : List Char,
    a.checksummed = String.ofList ('0' :: 'x' :: text) ∧ List.Forall₂ Hex.IsDigit text
      ((List.range 40).reverse.map fun i => a.toNat / 16 ^ i % 16) := by
  have hplain : a.digits =
      ((List.range 40).reverse.map fun i => a.toNat / 16 ^ i % 16).map Hex.digit := by
    rw [digits, Hex.fixed, List.map_map]
    rfl
  unfold checksummed
  rw [hplain]
  refine ⟨_, rfl, forall₂_mark _ (fun c m => ?_) (fun d hd => ?_) ?_⟩
  · split
    · exact .inl rfl
    · exact .inr rfl
  · obtain ⟨i, -, rfl⟩ := List.mem_map.mp hd
    exact Nat.mod_lt _ (by decide)
  · simp [Hex.fixed]

/-- The checksummed form is ASCII without blanks and separators. -/
theorem checksummed_chars (a : Address) {c : Char} (hc : c ∈ a.checksummed.toList) :
    c.toNat < 128 ∧ c ≠ '/' ∧ c ≠ '=' ∧ isBlank c = false := by
  obtain ⟨text, htext, hdigits⟩ := a.checksummed_spec
  rw [htext, String.toList_ofList, List.mem_cons, List.mem_cons] at hc
  rcases hc with rfl | rfl | hc
  · decide
  · decide
  · obtain ⟨d, hdigit⟩ := Hex.exists_isDigit hdigits hc
    exact hdigit.spec.2

/-- An address reads back from its checksummed form. -/
theorem read_checksummed (a : Address) : read a.checksummed = .ok a := by
  obtain ⟨text, htext, hdigits⟩ := a.checksummed_spec
  have hlength : text.length = 40 := by
    rw [hdigits.length_eq]
    simp
  have hbytes : a.checksummed.toUTF8.toList = 48 :: 120 :: text.map fun c => c.toNat.toUInt8 := by
    have hascii : ∀ c ∈ '0' :: 'x' :: text, c.toNat < 128 := fun c hc =>
      (a.checksummed_chars (by rwa [htext, String.toList_ofList])).1
    rw [htext, toUTF8_of_ascii hascii]
    rfl
  have hnumber := readDigits_eq hdigits 0 0
  rw [Hex.foldl_digits, Nat.mul_zero, Nat.zero_add, Nat.mod_eq_of_lt] at hnumber
  · have hmark : ∀ bytes : List UInt8, withoutMark (48 :: 120 :: bytes) = bytes := fun bytes => by
      rw [withoutMark, if_pos (Or.inl rfl)]
    unfold read
    dsimp only
    rw [hbytes, hmark, if_neg (by simp [hlength]), if_neg (by simp [hlength]), hnumber]
    exact congrArg Except.ok (BitVec.eq_of_toNat_eq (by simp))
  · exact a.isLt

end Address

end Throughput
