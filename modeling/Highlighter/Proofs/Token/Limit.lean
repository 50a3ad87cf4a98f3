import Highlighter.Proofs.Token.Tokenization
import Highlighter.Token.Limit

/-! # What is left of a long text

A text that fits is left as it is.  Of a longer one that part from its start is left which ends with
the last character within the limit, so that no longer part would fit.  The tokens of what is left
read the same in the whole text. -/

set_option autoImplicit false

namespace Highlighter

namespace Text

variable {text before : String} {limit offset : Nat}

/-! ## The place of the cut -/

theorem lastBoundary_le (text : String) (limit : Nat) : lastBoundary text limit ≤ limit := by
  induction limit with
  | zero => exact Nat.le_refl 0
  | succ limit ih =>
      rw [lastBoundary]
      split
      · exact Nat.le_refl _
      · exact Nat.le_succ_of_le ih

theorem isBoundary_lastBoundary (text : String) (limit : Nat) :
    IsBoundary text (lastBoundary text limit) := by
  induction limit with
  | zero => exact isBoundary_zero text
  | succ limit ih =>
      rw [lastBoundary]
      split
      · next valid => exact String.Pos.Raw.isValid_eq_true_iff.mp valid
      · exact ih

theorem le_lastBoundary (boundary : IsBoundary text offset) :
    offset ≤ limit → offset ≤ lastBoundary text limit := by
  induction limit with
  | zero =>
      intro le
      exact le
  | succ limit ih =>
      intro le
      rw [lastBoundary]
      split
      · exact le
      · next invalid =>
        have other : offset ≠ limit + 1 := by
          intro same
          rw [same] at boundary
          exact invalid (String.Pos.Raw.isValid_eq_true_iff.mpr boundary)
        exact ih (by omega)

/-! ## The part that is left -/

theorem clamp_eq_self (fits : Fits text) : clamp text = text := if_pos fits

theorem clamp_of_long (long : ¬ Fits text) :
    ∃ rest, text = clamp text ++ rest ∧
      (clamp text).utf8ByteSize = lastBoundary text (UInt32.size - 1) := by
  obtain ⟨front, rest, split, place⟩ :=
    isBoundary_iff.mp (isBoundary_lastBoundary text (UInt32.size - 1))
  have whole : text = String.ofList ([] ++ front ++ rest) := by
    rw [List.nil_append, ← split, String.ofList_toList]
  have left : clamp text = String.ofList front := by
    have extracted := String.extract_of_valid [] front rest
    rw [← whole, ← byteLength_eq_utf8Len, ← byteLength_eq_utf8Len, byteLength_nil, Nat.zero_add,
      ← place] at extracted
    rw [clamp, if_neg long]
    exact extracted
  refine ⟨String.ofList rest, ?_, ?_⟩
  · rw [left, ← String.ofList_append]
    exact whole
  · rw [left, place, ← byteLength_toList, String.toList_ofList]

theorem exists_clamp_append (text : String) : ∃ rest, text = clamp text ++ rest := by
  by_cases fits : Fits text
  · exact ⟨"", by rw [clamp_eq_self fits, String.append_empty]⟩
  · obtain ⟨rest, whole, _⟩ := clamp_of_long fits
    exact ⟨rest, whole⟩

theorem fits_clamp (text : String) : Fits (clamp text) := by
  by_cases fits : Fits text
  · rw [clamp_eq_self fits]
    exact fits
  · obtain ⟨_, _, size⟩ := clamp_of_long fits
    rw [Fits, size]
    exact Nat.lt_of_le_of_lt (lastBoundary_le text _) (by decide)

/-- No longer part from the start of the text fits. -/
theorem utf8ByteSize_le_clamp (fits : Fits before) (after : String) :
    before.utf8ByteSize ≤ (clamp (before ++ after)).utf8ByteSize := by
  by_cases whole : Fits (before ++ after)
  · rw [clamp_eq_self whole, String.utf8ByteSize_append]
    exact Nat.le_add_right _ _
  · obtain ⟨_, _, size⟩ := clamp_of_long whole
    have boundary : IsBoundary (before ++ after) (byteLength before.toList) :=
      isBoundary_byteLength String.toList_append
    rw [byteLength_toList] at boundary
    rw [size]
    exact le_lastBoundary boundary (Nat.le_sub_one_of_lt fits)

theorem clamp_append_of_long {after : String} (fits : Fits before) (single : after.utf8ByteSize = 1)
    (long : ¬ Fits (before ++ after)) : clamp (before ++ after) = before := by
  obtain ⟨rest, whole⟩ := exists_clamp_append (before ++ after)
  have within := fits_clamp (before ++ after)
  have enough := utf8ByteSize_le_clamp fits after
  have size : (clamp (before ++ after)).utf8ByteSize = before.utf8ByteSize := by
    unfold Fits at within long
    rw [String.utf8ByteSize_append] at long
    omega
  have chars := congrArg String.toList whole
  rw [String.toList_append, String.toList_append] at chars
  rw [← byteLength_toList, ← byteLength_toList before] at size
  exact (String.toList_injective (append_inj_of_byteLength_eq chars size.symm).1).symm

end Text

/-! ## Its tokens -/

open Text

variable {text : String} {token : Token}

theorem scan_eq_tokenize (fits : Fits text) : scan text = tokenize text := by
  rw [scan, clamp_eq_self fits]

theorem isBoundary_of_mem_scan (member : token ∈ scan text) :
    IsBoundary (clamp text) token.range.first ∧ IsBoundary (clamp text) token.range.stop :=
  (isTokenization_tokenize (clamp text)).boundaries token member

theorem first_le_last_of_mem_tokenize (member : token ∈ tokenize text) :
    token.range.first ≤ token.range.last :=
  (tiles_iff_successive.mp (isTokenization_tokenize text).tiles).le_of_mem token.range
    (List.mem_map_of_mem member)

/-- What is behind the cut makes no difference to the text of a token. -/
theorem text_of_mem_scan (member : token ∈ scan text) :
    token.text text = token.text (clamp text) := by
  obtain ⟨first, stop⟩ := isBoundary_of_mem_scan member
  obtain ⟨rest, whole⟩ := exists_clamp_append text
  have same := ByteRange.text_append first stop (first_le_last_of_mem_tokenize member) rest
  rw [← whole] at same
  exact same

theorem fits_text_of_mem_scan (member : token ∈ scan text) : Fits (token.text text) := by
  have tokens := isTokenization_tokenize (clamp text)
  have split : (clamp text).toList = [] ++ (clamp text).toList := rfl
  have stops : ∀ range ∈ (scan text).map Token.range, IsBoundary (clamp text) range.stop := by
    intro range listed
    obtain ⟨other, known, rfl⟩ := List.mem_map.mp listed
    exact (isBoundary_of_mem_scan known).2
  have size := (tokens.tiles.text_eq split stops).2 token.range (List.mem_map_of_mem member)
  have within := (isBoundary_of_mem_scan member).2.le
  have fits := fits_clamp text
  rw [text_of_mem_scan member]
  rw [byteLength_toList] at size
  unfold Fits at fits ⊢
  unfold Token.text
  omega

end Highlighter
