import Highlighter.Proofs.Text.Encoding
import Highlighter.Proofs.Token.Cut
import Highlighter.Token.Stream

/-! # Reading characters from bytes

A position *reads* some characters if it stands on the boundary before them and they are the rest
of the text.  Where a position reads characters, everything that is decided on bytes is what the
first of these characters says, and every move leads to a position that reads again. -/

set_option autoImplicit false

namespace Highlighter

open Alphabet Text

/-! ## Classes of bytes -/

namespace Alphabet

theorem isQuoteByte_toUInt8 {c : Char} (ascii : c.toNat < 128) :
    isQuoteByte c.toUInt8 = isQuote c := by
  have double : c.toUInt8 = 34 ↔ c = '\x22' := toUInt8_inj (d := '\x22') ascii (by decide)
  have single : c.toUInt8 = 39 ↔ c = '\x27' := toUInt8_inj (d := '\x27') ascii (by decide)
  rw [isQuoteByte, isQuote, Bool.eq_iff_iff]
  simp only [Bool.or_eq_true, beq_iff_eq, double, single]

theorem lt_of_isQuote {c : Char} (quote : isQuote c = true) : c.toNat < 128 := by
  simp only [isQuote, Bool.or_eq_true, beq_iff_eq] at quote
  rcases quote with rfl | rfl <;> decide

theorem isQuoteByte_of_le {byte : UInt8} (wide : 0x80 ≤ byte) : isQuoteByte byte = false := by
  simp only [isQuoteByte, Bool.or_eq_false_iff, beq_eq_false_iff_ne]
  constructor
  · rintro rfl
    exact absurd wide (by decide)
  · rintro rfl
    exact absurd wide (by decide)

theorem isPunctuation_of_le {byte : UInt8} (wide : 0x80 ≤ byte) : isPunctuation byte = false := by
  rw [isPunctuation, Bool.eq_false_iff, ne_eq, List.contains_iff_mem]
  intro member
  have small : punctuation.all (· < 0x80) = true := by decide
  have bound : byte < 0x80 := by simpa using List.all_eq_true.mp small byte member
  exact absurd wide (UInt8.not_le.mpr bound)

def markOf (c : Char) : Mark :=
  if isQuote c then .quote c.toUInt8 else if isSeparator c then .separator else .word

theorem markOf_eq_word_iff {c : Char} : markOf c = .word ↔ isWordChar c = true := by
  rw [isWordChar_iff]
  cases quote : isQuote c <;> cases separator : isSeparator c <;> simp [markOf, quote, separator]

end Alphabet

namespace PaddedText

theorem bytes_ofString {text : String} {before ahead : List Char}
    (split : text.toList = before ++ ahead) :
    (ofString text).bytes = before.utf8Encode ++ (ahead.utf8Encode ++
      zeros (paddedSize text.utf8ByteSize - text.utf8ByteSize)) := by
  rw [← ByteArray.append_assoc, ← List.utf8Encode_append, ← split, String.utf8Encode_toList]
  rfl

namespace Pos

variable {text : String} {pos later : (ofString text).Pos} {ahead rest : List Char} {c : Char}

/-- The position stands before `ahead`, and nothing of the text comes after that. -/
def Reads (pos : (ofString text).Pos) (ahead : List Char) : Prop :=
  ∃ before, text.toList = before ++ ahead ∧ pos.offset = byteLength before

theorem reads_startPos (text : String) : (ofString text).startPos.Reads text.toList :=
  ⟨[], rfl, rfl⟩

namespace Reads

theorem offset_add (reads : pos.Reads ahead) :
    pos.offset + byteLength ahead = (ofString text).length := by
  obtain ⟨before, split, start⟩ := reads
  rw [start, ← byteLength_append, ← split, byteLength_toList]
  rfl

theorem inside (reads : pos.Reads (c :: rest)) : pos.offset < (ofString text).length := by
  have total := reads.offset_add
  have width := c.utf8Size_pos
  rw [byteLength_cons] at total
  omega

theorem eq_of_le (reads : pos.Reads []) (le : pos.offset ≤ later.offset) : later = pos := by
  have total := reads.offset_add
  have bound := later.offset_le
  apply Pos.ext
  rw [byteLength_nil] at total
  omega

/-! ## What is read -/

theorem byte_eq (reads : pos.Reads (c :: rest)) {i : Nat}
    (bound : i < (String.utf8EncodeChar c).length) (apart : later.offset = pos.offset + i) :
    later.byte = (String.utf8EncodeChar c)[i] := by
  obtain ⟨before, split, start⟩ := reads
  have size := size_utf8Encode before
  have place : later.offset - before.utf8Encode.size = i := by omega
  have encoded : (String.utf8EncodeChar c).toByteArray.size = (String.utf8EncodeChar c).length := by
    simp
  have whole := bytes_ofString split
  rw [List.utf8Encode_cons, List.utf8Encode_singleton, ByteArray.append_assoc] at whole
  simp only [byte, whole]
  rw [ByteArray.getElem_append_right (by omega)]
  simp only [place]
  rw [ByteArray.getElem_append_left (by omega), List.getElem_toByteArray]

theorem byte_of_ascii (reads : pos.Reads (c :: rest)) (ascii : c.toNat < 128) :
    pos.byte = c.toUInt8 := by
  have encoded := utf8EncodeChar_of_ascii ascii
  have first := reads.byte_eq (i := 0) (by simp [encoded]) rfl
  simpa only [encoded, List.getElem_cons_zero] using first

theorem le_byte (reads : pos.Reads (c :: rest)) (wide : 128 ≤ c.toNat) : 0x80 ≤ pos.byte := by
  have nonempty : 0 < (String.utf8EncodeChar c).length := by
    rw [String.length_utf8EncodeChar]
    exact c.utf8Size_pos
  rw [reads.byte_eq nonempty rfl]
  exact le_of_mem_utf8EncodeChar wide _ (List.getElem_mem nonempty)

theorem leadWidth_byte (reads : pos.Reads (c :: rest)) : leadWidth pos.byte = c.utf8Size := by
  obtain ⟨lead, others, encoded, width⟩ := utf8EncodeChar_eq_cons c
  have first := reads.byte_eq (i := 0) (by simp [encoded]) rfl
  rw [first]
  simp only [encoded, List.getElem_cons_zero]
  exact width

theorem isEnd_eq_false (reads : pos.Reads (c :: rest)) : pos.isEnd = false := by
  simpa [isEnd] using reads.inside

theorem char_eq (reads : pos.Reads (c :: rest)) : pos.char = c := by
  have inside := reads.isEnd_eq_false
  obtain ⟨before, split, start⟩ := reads
  have size := size_utf8Encode before
  have decoded : (ofString text).bytes.utf8DecodeChar? pos.offset = some c := by
    rw [ByteArray.utf8DecodeChar?_eq_utf8DecodeChar?_extract, bytes_ofString split,
      ByteArray.extract_append_eq_right (by omega) (by simp),
      List.utf8Encode_cons, ByteArray.append_assoc]
    exact List.utf8DecodeChar?_utf8Encode_singleton_append
  simp [char, inside, decoded]

theorem mark_nil (reads : pos.Reads []) : pos.mark = .finish := by
  have total := reads.offset_add
  rw [byteLength_nil] at total
  rw [mark_eq_finish_iff]
  omega

/-- The byte decides where it is ASCII and the decoded character elsewhere, and both ways agree
with the classes of characters. -/
theorem mark_eq (reads : pos.Reads (c :: rest)) : pos.mark = markOf c := by
  have more := reads.isEnd_eq_false
  by_cases ascii : c.toNat < 128
  · have byte := reads.byte_of_ascii ascii
    have small := toUInt8_lt ascii
    simp only [mark, markOf, more, byte, isQuoteByte_toUInt8 ascii, small, ofUInt8_toUInt8 ascii,
      isSeparator, ascii]
    cases isPunctuation c.toUInt8 <;> cases isWhiteSpace c <;> simp
  · have high := reads.le_byte (Nat.le_of_not_lt ascii)
    have large : ¬ pos.byte < 0x80 := UInt8.not_lt.mpr high
    have notQuote : isQuote c = false := by
      by_contra quote
      exact ascii (lt_of_isQuote (by simpa using quote))
    simp only [mark, markOf, more, isQuoteByte_of_le high, isPunctuation_of_le high, large,
      reads.char_eq, notQuote, isSeparator, ascii]
    simp

/-! ## Moves -/

theorem offset_next (reads : pos.Reads (c :: rest)) :
    pos.next.offset = pos.offset + c.utf8Size := by
  have total := reads.offset_add
  rw [byteLength_cons] at total
  simp only [Pos.next, reads.leadWidth_byte]
  omega

theorem next (reads : pos.Reads (c :: rest)) : pos.next.Reads rest := by
  have step := reads.offset_next
  obtain ⟨before, split, start⟩ := reads
  refine ⟨before ++ [c], by simp [split], ?_⟩
  rw [step, start]
  simp

theorem nextByte_eq_next (reads : pos.Reads (c :: rest)) (ascii : c.toNat < 128) :
    pos.nextByte reads.inside = pos.next := by
  apply Pos.ext
  rw [reads.offset_next, utf8Size_of_ascii ascii]
  rfl

end Reads

end Pos

end PaddedText

end Highlighter
