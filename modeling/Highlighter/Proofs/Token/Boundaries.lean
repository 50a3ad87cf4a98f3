import Mathlib
import Highlighter.Proofs.Token.Inside
import Highlighter.Proofs.Token.Split

/-! # Walks along boundaries

A step over a character leads from one boundary of characters to the next.  A search stops at a
byte that it was asked for, wherever that byte stands.  So a walk can leave the boundaries exactly
if a byte is searched for that some character of the text has behind its first byte. -/

set_option autoImplicit false

namespace Highlighter

open Alphabet Text

/-- Some character of `text` has `byte` behind its first byte. -/
def IsInner (text : String) (byte : UInt8) : Prop :=
  ∃ c ∈ text.toList, byte ∈ (String.utf8EncodeChar c).tail

namespace PaddedText.Pos

variable {text : String} {pos later : (ofString text).Pos} {ahead rest : List Char} {c : Char}

/-- The position parts the text in two.  What stands there is the first character of the second
part, and every token from there on can be taken out of the text. -/
structure IsSound (pos : (ofString text).Pos) : Prop where
  parts : ∃ before after : String, text = before ++ after ∧ pos.offset = before.utf8ByteSize ∧
    pos.char = after.toList.headD '\x00'
  tokens : ∀ token ∈ pos.tokens,
    IsBoundary text token.range.first ∧ IsBoundary text token.range.stop

/-! ## Boundaries and bytes -/

theorem isBoundary_offset_iff : IsBoundary text pos.offset ↔ ∃ ahead, pos.Reads ahead := by
  rw [isBoundary_iff]
  exact exists_comm

theorem Reads.isUTF8FirstByte_iff (reads : pos.Reads (c :: rest)) {i : Nat}
    (within : i < c.utf8Size) (apart : later.offset = pos.offset + i) :
    later.byte.IsUTF8FirstByte ↔ i = 0 := by
  rw [← String.length_utf8EncodeChar] at within
  rw [reads.byte_eq within apart, UInt8.isUTF8FirstByte_getElem_utf8EncodeChar]

/-- Inside the text the boundaries are the places of first bytes. -/
theorem isBoundary_iff_isUTF8FirstByte (inside : pos.offset < (ofString text).length) :
    IsBoundary text pos.offset ↔ pos.byte.IsUTF8FirstByte := by
  rw [isBoundary_offset_iff]
  constructor
  · rintro ⟨ahead, reads⟩
    cases ahead with
    | nil =>
        have total := reads.offset_add
        rw [byteLength_nil] at total
        omega
    | cons c rest => exact (reads.isUTF8FirstByte_iff c.utf8Size_pos rfl).mpr rfl
  · intro first
    rcases reads_or_not_isUTF8FirstByte inside with ⟨c, rest, reads⟩ | later
    · exact ⟨c :: rest, reads⟩
    · exact absurd first later

theorem mem_tail_utf8EncodeChar_iff {byte : UInt8} :
    byte ∈ (String.utf8EncodeChar c).tail ↔
      ∃ (i : Nat) (within : i < (String.utf8EncodeChar c).length),
        i ≠ 0 ∧ (String.utf8EncodeChar c)[i] = byte := by
  rw [List.mem_iff_getElem?]
  simp only [List.getElem?_tail, List.getElem?_eq_some_iff]
  constructor
  · rintro ⟨i, within, here⟩
    exact ⟨i + 1, within, Nat.succ_ne_zero i, here⟩
  · rintro ⟨i, within, later, here⟩
    obtain ⟨j, rfl⟩ := Nat.exists_eq_succ_of_ne_zero later
    exact ⟨j, within, here⟩

/-- The byte at a position between two boundaries is an inner one. -/
theorem isInner_byte (inside : pos.offset < (ofString text).length)
    (apart : ¬ IsBoundary text pos.offset) : IsInner text pos.byte := by
  obtain ⟨lead, c, rest, i, reads, within, place⟩ := exists_reads inside
  rw [isBoundary_iff_isUTF8FirstByte inside, reads.isUTF8FirstByte_iff within place] at apart
  obtain ⟨before, split, _⟩ := id reads
  rw [← String.length_utf8EncodeChar] at within
  exact ⟨c, by simp [split],
    mem_tail_utf8EncodeChar_iff.mpr ⟨i, within, apart, (reads.byte_eq within place).symm⟩⟩

/-! ## Steps that stay on boundaries -/

theorem isBoundary_next (boundary : IsBoundary text pos.offset) :
    IsBoundary text pos.next.offset := by
  rw [isBoundary_offset_iff] at boundary ⊢
  obtain ⟨ahead, reads⟩ := boundary
  cases ahead with
  | nil => exact ⟨[], (reads.eq_of_le (le_next pos)).symm ▸ reads⟩
  | cons c rest => exact ⟨rest, reads.next⟩

/-- A search ends on a boundary, wherever it started, unless it is for an inner byte. -/
theorem isBoundary_find {wanted : UInt8} (outer : ¬ IsInner text wanted)
    (pos : (ofString text).Pos) : IsBoundary text (pos.find wanted).offset := by
  by_cases found : (pos.find wanted).offset < (ofString text).length
  · by_contra apart
    rcases byte_find wanted pos found with same | same
    · exact outer (same ▸ isInner_byte found apart)
    · rw [isBoundary_iff_isUTF8FirstByte found, same] at apart
      exact apart (by decide)
  · have ended := Nat.le_antisymm (pos.find wanted).offset_le (Nat.le_of_not_lt found)
    rw [ended]
    exact isBoundary_utf8ByteSize text

theorem isBoundary_walk {moves : List Move}
    (outer : ∀ wanted, Move.find wanted ∈ moves → ¬ IsInner text wanted) :
    ∀ {pos : (ofString text).Pos}, IsBoundary text pos.offset →
      IsBoundary text (pos.walk moves).offset := by
  induction moves with
  | nil =>
      intro pos boundary
      exact boundary
  | cons move rest ih =>
      intro pos boundary
      have later : ∀ wanted, Move.find wanted ∈ rest → ¬ IsInner text wanted :=
        fun wanted member => outer wanted (List.mem_cons_of_mem move member)
      cases move with
      | next => exact ih later (isBoundary_next boundary)
      | find wanted => exact ih later (isBoundary_find (outer wanted List.mem_cons_self) pos)

theorem isSound_of_isBoundary (boundary : IsBoundary text pos.offset) : pos.IsSound := by
  obtain ⟨ahead, reads⟩ := isBoundary_offset_iff.mp boundary
  obtain ⟨before, split, start⟩ := id reads
  constructor
  · refine ⟨String.ofList before, String.ofList ahead, ?_, ?_, ?_⟩
    · rw [← String.ofList_append, ← split, String.ofList_toList]
    · rw [← byteLength_toList, String.toList_ofList, start]
    · rw [String.toList_ofList]
      cases ahead with
      | nil =>
          have ended : pos.isEnd = true := by
            have total := reads.offset_add
            rw [byteLength_nil] at total
            simp only [isEnd, decide_eq_true_eq]
            omega
          simp [char, ended]
      | cons c rest => exact reads.char_eq
  · have cutting := isCut_cut ahead
    have nonempty : ∀ piece ∈ cut ahead, piece.chars ≠ [] :=
      fun piece member => (cutting.formed piece member).ne_nil
    rw [← cutting.whole] at split
    rw [reads.tokens_eq_layout, start]
    exact (layout_in_text nonempty split).2

theorem IsSound.isBoundary (sound : pos.IsSound) : IsBoundary text pos.offset := by
  obtain ⟨before, after, rfl, place, _⟩ := sound.parts
  rw [place, ← byteLength_toList]
  exact isBoundary_byteLength String.toList_append

/-! ## Searches that leave them -/

/-- From the front of a character a search for one of its inner bytes ends inside of it. -/
theorem Reads.not_isBoundary_find (reads : pos.Reads (c :: rest)) {wanted : UInt8}
    (inner : wanted ∈ (String.utf8EncodeChar c).tail) :
    ¬ IsBoundary text (pos.find wanted).offset := by
  obtain ⟨i, within, later, here⟩ := mem_tail_utf8EncodeChar_iff.mp inner
  have total := reads.offset_add
  rw [byteLength_cons] at total
  rw [String.length_utf8EncodeChar] at within
  obtain ⟨target, place⟩ : ∃ target : (ofString text).Pos, target.offset = pos.offset + i :=
    ⟨⟨pos.offset + i, by omega⟩, rfl⟩
  have byte : target.byte = wanted := by
    rw [← here]
    exact reads.byte_eq _ place
  have notFirst : ¬ wanted.IsUTF8FirstByte := by
    rw [← byte, reads.isUTF8FirstByte_iff within place]
    exact later
  have jump := le_find wanted pos
  have reached : (pos.find wanted).offset ≤ target.offset := by
    by_contra passed
    exact (byte_of_lt_find wanted pos target (by omega) (Nat.lt_of_not_le passed)).1 byte
  have inside : (pos.find wanted).offset < (ofString text).length := by omega
  intro boundary
  rw [isBoundary_iff_isUTF8FirstByte inside,
    reads.isUTF8FirstByte_iff (i := (pos.find wanted).offset - pos.offset) (by omega)
      (by omega)] at boundary
  have stays : pos.find wanted = pos := Pos.ext (by omega)
  have found := byte_find wanted pos inside
  rw [stays] at found
  rcases found with same | same
  · rw [← same, reads.isUTF8FirstByte_iff c.utf8Size_pos rfl] at notFirst
    exact notFirst rfl
  · have width := reads.leadWidth_byte
    rw [same] at width
    have single : leadWidth backslash = 1 := by decide
    omega

/-- Every inner byte of a text can be walked to. -/
theorem exists_walk_not_isBoundary {wanted : UInt8} (inner : IsInner text wanted) :
    ∃ count, ¬ IsBoundary text
      ((ofString text).startPos.walk (List.replicate count .next ++ [.find wanted])).offset := by
  obtain ⟨c, member, inner⟩ := inner
  obtain ⟨before, rest, split⟩ := List.append_of_mem member
  have start := reads_startPos text
  rw [split] at start
  refine ⟨before.length, ?_⟩
  rw [walk, List.foldl_append]
  exact (reads_walk_next before start).not_isBoundary_find inner

end PaddedText.Pos

open PaddedText in
/-- No walk leaves the text.  The walks whose searches are for given bytes all lead to sound
positions exactly if none of these bytes is an inner one of the text. -/
theorem isSound_walk_iff (text : String) (searched : UInt8 → Prop) :
    (∀ moves, ((ofString text).startPos.walk moves).offset ≤ text.utf8ByteSize) ∧
      ((∀ moves, (∀ wanted, Move.find wanted ∈ moves → searched wanted) →
          ((ofString text).startPos.walk moves).IsSound) ↔
        ∀ wanted, searched wanted → ¬ IsInner text wanted) := by
  refine ⟨fun moves => ((ofString text).startPos.walk moves).offset_le, ?_⟩
  constructor
  · intro sound wanted asked inner
    obtain ⟨count, apart⟩ := Pos.exists_walk_not_isBoundary inner
    refine apart (sound _ ?_).isBoundary
    intro other member
    obtain rfl : other = wanted := by simpa using member
    exact asked
  · intro outer moves asked
    apply Pos.isSound_of_isBoundary
    refine Pos.isBoundary_walk (fun wanted member => ?_) (isBoundary_zero text)
    exact outer wanted (asked wanted member)

open PaddedText in
/-- A search for the second byte of a character stops there: no character starts at that place,
and the token from there on is none of the text. -/
theorem not_isSound_walk_inside_of_character :
    (¬ ∀ (text : String) (moves : List Move), ((ofString text).startPos.walk moves).IsSound) ∧
      ((ofString "é").startPos.walk [.find 0xA9]).offset = 1 ∧
      ((ofString "é").startPos.walk [.find 0xA9]).char = '\uFFFD' ∧
      ((ofString "é").startPos.walk [.find 0xA9]).tokens = [Token.plain 1 1] ∧
      ¬ IsBoundary "é" 1 := by
  have place : ((ofString "é").startPos.walk [.find 0xA9]).offset = 1 := by cbv
  have apart : ¬ IsBoundary "é" 1 := by
    rw [IsBoundary]
    decide
  refine ⟨?_, place, by cbv, by cbv, apart⟩
  intro sound
  have boundary := (sound "é" [.find 0xA9]).isBoundary
  rw [place] at boundary
  exact apart boundary

end Highlighter
