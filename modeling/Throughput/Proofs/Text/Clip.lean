import Mathlib.Data.List.Infix
import Throughput.Ledger.Error

/-!
# Where a text is cut

What is kept of a text is its longest start that ends where a character does and fits the limit. Going
back from the limit byte by byte, until a character starts or the text ends, leads to the same place.
-/

namespace Throughput

/-! ## Characters and their bytes -/

section Characters

variable {limit : Nat} {start text : List Char}

theorem utf8Bytes_cons (c : Char) (text : List Char) :
    utf8Bytes (c :: text) = c.utf8Size + utf8Bytes text := rfl

theorem utf8Bytes_append (start rest : List Char) :
    utf8Bytes (start ++ rest) = utf8Bytes start + utf8Bytes rest := by
  induction start with
  | nil => exact (Nat.zero_add _).symm
  | cons c start ih => rw [List.cons_append, utf8Bytes_cons, ih, utf8Bytes_cons, Nat.add_assoc]

theorem utf8Bytes_le_of_isPrefix (h : start <+: text) : utf8Bytes start ≤ utf8Bytes text := by
  obtain ⟨rest, rfl⟩ := h
  rw [utf8Bytes_append]
  exact Nat.le_add_right ..

theorem clip_isPrefix (limit : Nat) (text : List Char) : clip limit text <+: text := by
  induction text generalizing limit with
  | nil => exact List.prefix_rfl
  | cons c rest ih =>
    unfold clip
    split
    · exact (List.prefix_cons_inj c).mpr (ih _)
    · exact List.nil_prefix

theorem utf8Bytes_clip_le (limit : Nat) (text : List Char) : utf8Bytes (clip limit text) ≤ limit := by
  induction text generalizing limit with
  | nil => exact Nat.zero_le _
  | cons c rest ih =>
    unfold clip
    split
    · have hrest := ih (limit - c.utf8Size)
      rw [utf8Bytes_cons]
      omega
    · exact Nat.zero_le _

/-- Every start that fits is a start of what is kept. -/
theorem isPrefix_clip (h : start <+: text) (hfits : utf8Bytes start ≤ limit) :
    start <+: clip limit text := by
  induction text generalizing limit start with
  | nil =>
    rw [List.prefix_nil.mp h]
    exact List.nil_prefix
  | cons c rest ih =>
    rcases List.prefix_cons_iff.mp h with rfl | ⟨others, rfl, hothers⟩
    · exact List.nil_prefix
    · rw [utf8Bytes_cons] at hfits
      unfold clip
      rw [if_pos (by omega), List.prefix_cons_inj]
      exact ih hothers (by omega)

/-- A text that fits is kept whole. -/
theorem clip_of_le (h : utf8Bytes text ≤ limit) : clip limit text = text :=
  (clip_isPrefix limit text).eq_of_length_le (isPrefix_clip List.prefix_rfl h).length_le

/-- The room that is left is less than one character can take. -/
theorem lt_utf8Bytes_clip_add (h : limit < utf8Bytes text) :
    limit < utf8Bytes (clip limit text) + 4 := by
  induction text generalizing limit with
  | nil => exact absurd h (Nat.not_lt_zero _)
  | cons c rest ih =>
    have hsize := c.utf8Size_le_four
    unfold clip
    split
    · rw [utf8Bytes_cons] at h ⊢
      have hlong : limit - c.utf8Size < utf8Bytes rest := by omega
      have hrest := ih hlong
      omega
    -- the first character that does not fit takes at most four bytes
    · omega

end Characters

/-! ## Boundaries -/

theorem utf8ByteSize_ofList (text : List Char) :
    (String.ofList text).utf8ByteSize = utf8Bytes text := by
  induction text with
  | nil => rfl
  | cons c rest ih =>
    rw [← List.singleton_append, String.ofList_append, String.utf8ByteSize_append, ih,
      ← String.singleton_eq_ofList, String.utf8ByteSize_singleton]
    rfl

theorem utf8Bytes_toList (text : String) : utf8Bytes text.toList = text.utf8ByteSize := by
  rw [← utf8ByteSize_ofList, String.ofList_toList]

/-- Does a character of a text start at an offset, or the text end there? -/
abbrev IsBoundary (text : String) (offset : Nat) : Prop :=
  (⟨offset⟩ : String.Pos.Raw).IsValid text

/-- Is a text the longest start of another one that ends at a boundary and has at most the given number
of bytes? -/
structure IsLongestStart (limit : Nat) (text start : String) : Prop where
  bytes : start.toByteArray = text.toByteArray.extract 0 start.utf8ByteSize
  boundary : IsBoundary text start.utf8ByteSize
  fits : start.utf8ByteSize ≤ limit
  longest : ∀ offset ≤ limit, IsBoundary text offset → offset ≤ start.utf8ByteSize

theorem isLongestStart_clip (limit : Nat) (text : String) :
    IsLongestStart limit text (String.ofList (clip limit text.toList)) := by
  obtain ⟨rest, hrest⟩ := clip_isPrefix limit text.toList
  have htext : String.ofList (clip limit text.toList) ++ String.ofList rest = text := by
    rw [← String.ofList_append, hrest, String.ofList_toList]
  refine ⟨?_, ?_, ?_, fun offset hfits hvalid => ?_⟩
  · have hbytes := ByteArray.extract_append_eq_left (b := (String.ofList rest).toByteArray)
      (String.size_toByteArray (s := String.ofList (clip limit text.toList))).symm
    rw [← String.toByteArray_append, htext] at hbytes
    exact hbytes.symm
  · exact String.Pos.Raw.isValid_iff_exists_append.mpr ⟨_, _, htext.symm, rfl⟩
  · rw [utf8ByteSize_ofList]
    exact utf8Bytes_clip_le ..
  -- a boundary is where some number of whole characters ends, and these are a start that fits
  · obtain ⟨count, hoffset⟩ := String.Pos.Raw.isValid_iff_exists_take_toList.mp hvalid
    dsimp only at hoffset
    rw [utf8ByteSize_ofList] at hoffset ⊢
    rw [hoffset] at hfits ⊢
    exact utf8Bytes_le_of_isPrefix (isPrefix_clip (List.take_prefix ..) hfits)

/-- Goes back from an offset of a text to the first boundary on the way; none if that led below the
start of the text. -/
def boundaryUpTo? (text : String) : Nat → Option Nat
  | 0 => if IsBoundary text 0 then some 0 else none
  | offset + 1 =>
    if IsBoundary text (offset + 1) then some (offset + 1) else boundaryUpTo? text offset

theorem boundaryUpTo?_eq {text : String} {cut offset : Nat} (hcut : IsBoundary text cut)
    (hle : cut ≤ offset) (hlast : ∀ between ≤ offset, IsBoundary text between → between ≤ cut) :
    boundaryUpTo? text offset = some cut := by
  induction offset with
  | zero =>
    obtain rfl := Nat.le_zero.mp hle
    exact if_pos hcut
  | succ offset ih =>
    unfold boundaryUpTo?
    split
    · rename_i hboundary
      rw [Nat.le_antisymm hle (hlast _ (Nat.le_refl _) hboundary)]
    · rename_i hinside
      have hne : cut ≠ offset + 1 := fun hsame => hinside (hsame ▸ hcut)
      exact ih (by omega) fun between hbetween => hlast between (by omega)

/-- Going back from the limit leads to the end of the longest start. -/
theorem IsLongestStart.boundaryUpTo?_eq {limit : Nat} {text start : String}
    (h : IsLongestStart limit text start) :
    boundaryUpTo? text limit = some start.utf8ByteSize :=
  Throughput.boundaryUpTo?_eq h.boundary h.fits h.longest

/-! ## Reasons -/

namespace Failure

variable (kind : FailureKind) (text : String)

theorem isLongestStart_reason : IsLongestStart reasonLimit text (of kind text).reason :=
  isLongestStart_clip ..

theorem reason_of_le {text : String} (h : text.utf8ByteSize ≤ reasonLimit) :
    (of kind text).reason = text := by
  rw [← utf8Bytes_toList] at h
  unfold of
  rw [clip_of_le h, String.ofList_toList]

/-- At most three bytes of room are left when a reason is cut. -/
theorem le_reason_of_lt {text : String} (h : reasonLimit < text.utf8ByteSize) :
    reasonLimit ≤ (of kind text).reason.utf8ByteSize + 3 := by
  rw [← utf8Bytes_toList] at h
  have hroom := lt_utf8Bytes_clip_add h
  unfold of
  rw [utf8ByteSize_ofList]
  omega

end Failure

end Throughput
