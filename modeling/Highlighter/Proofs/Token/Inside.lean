import Highlighter.Proofs.Token.Reading

/-! # Positions inside of characters

A search for a byte may stop anywhere.  Wherever it stops, the byte there either starts a character
or can start none, and in both cases the width read off it stays within the text. -/

set_option autoImplicit false

namespace Highlighter

open Alphabet Text

namespace PaddedText.Pos

variable {text : String} {pos later : (ofString text).Pos} {ahead : List Char}

/-! ## Positions inside of characters -/

theorem exists_reads_of_le : ∀ {start : (ofString text).Pos}, start.Reads ahead →
    start.offset ≤ pos.offset → pos.offset < (ofString text).length →
      ∃ (lead : (ofString text).Pos) (c : Char) (rest : List Char) (i : Nat),
        lead.Reads (c :: rest) ∧ i < c.utf8Size ∧ pos.offset = lead.offset + i := by
  induction ahead with
  | nil =>
      intro start reads le inside
      have total := reads.offset_add
      rw [byteLength_nil] at total
      omega
  | cons c rest ih =>
      intro start reads le inside
      by_cases within : pos.offset < start.offset + c.utf8Size
      · exact ⟨start, c, rest, pos.offset - start.offset, reads, by omega, by omega⟩
      · exact ih reads.next (by rw [reads.offset_next]; omega) inside

theorem exists_reads (inside : pos.offset < (ofString text).length) :
    ∃ (lead : (ofString text).Pos) (c : Char) (rest : List Char) (i : Nat),
      lead.Reads (c :: rest) ∧ i < c.utf8Size ∧ pos.offset = lead.offset + i :=
  exists_reads_of_le (reads_startPos text) (Nat.zero_le _) inside

theorem leadWidth_of_not_isUTF8FirstByte {byte : UInt8} (later : ¬ byte.IsUTF8FirstByte) :
    leadWidth byte = 1 := by
  have every : ∀ value : Fin 256, ¬ (UInt8.ofFin value).IsUTF8FirstByte →
      leadWidth (UInt8.ofFin value) = 1 := by decide +kernel
  exact every byte.toFin later

/-- A position stands on the first byte of a character, or else on a byte that can start none. -/
theorem reads_or_not_isUTF8FirstByte (inside : pos.offset < (ofString text).length) :
    (∃ c rest, pos.Reads (c :: rest)) ∨ ¬ pos.byte.IsUTF8FirstByte := by
  obtain ⟨lead, c, rest, i, reads, within, apart⟩ := exists_reads inside
  by_cases first : i = 0
  · have same : pos = lead := Pos.ext (by omega)
    exact .inl ⟨c, rest, same ▸ reads⟩
  · rw [← String.length_utf8EncodeChar] at within
    rw [reads.byte_eq within apart, UInt8.isUTF8FirstByte_getElem_utf8EncodeChar]
    exact .inr first

/-- No width that is read off a byte leads past the end of the text. -/
theorem add_leadWidth_le (inside : pos.offset < (ofString text).length) :
    pos.offset + leadWidth pos.byte ≤ (ofString text).length := by
  rcases reads_or_not_isUTF8FirstByte inside with ⟨c, rest, reads⟩ | later
  · have total := reads.offset_add
    rw [byteLength_cons] at total
    rw [reads.leadWidth_byte]
    omega
  · rw [leadWidth_of_not_isUTF8FirstByte later]
    exact inside

/-! ## What a jump passes over -/

theorem byte_find (wanted : UInt8) (pos : (ofString text).Pos)
    (found : (pos.find wanted).offset < (ofString text).length) :
    (pos.find wanted).byte = wanted ∨ (pos.find wanted).byte = backslash := by
  fun_induction find wanted pos with
  | case1 pos _ stop => exact stop
  | case2 pos _ _ ih => exact ih found
  | case3 pos ended => exact absurd found ended

theorem byte_of_lt_find (wanted : UInt8) (pos : (ofString text).Pos) :
    ∀ between : (ofString text).Pos, pos.offset ≤ between.offset →
      between.offset < (pos.find wanted).offset →
        between.byte ≠ wanted ∧ between.byte ≠ backslash := by
  fun_induction find wanted pos with
  | case1 pos =>
      intro between le less
      omega
  | case2 pos inside goOn ih =>
      intro between le less
      by_cases here : between.offset = pos.offset
      · obtain rfl : between = pos := Pos.ext here
        simpa using goOn
      · exact ih between (by simp only [nextByte]; omega) less
  | case3 pos =>
      intro between le less
      omega

end PaddedText.Pos

end Highlighter
