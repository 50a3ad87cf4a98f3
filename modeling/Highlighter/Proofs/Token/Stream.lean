import Highlighter.Proofs.Token.Reading

/-! # The tokens are the cut

A position that reads characters streams the pieces of their cut, laid out from its offset on.
So the tokens from a boundary on depend on the characters after it alone. -/

set_option autoImplicit false

namespace Highlighter

open Alphabet Text

def Piece.token (piece : Piece) (start : Nat) : Token :=
  ⟨⟨start, start + byteLength piece.chars - 1⟩, piece.kind⟩

/-- The pieces as tokens one after the other, the first of them starting at `start`. -/
def layout : Nat → List Piece → List Token
  | _, [] => []
  | start, piece :: rest => piece.token start :: layout (start + byteLength piece.chars) rest

namespace PaddedText.Pos

variable {text : String} {pos after : (ofString text).Pos} {ahead chars rest : List Char} {c : Char}

/-! ## Jumps -/

/-- A jump passes over bytes that are not wanted. -/
theorem find_eq_of_forall (wanted : UInt8) : ∀ (count : Nat) (pos after : (ofString text).Pos),
    after.offset = pos.offset + count →
      (∀ (i : Nat) (between : (ofString text).Pos), i < count →
        between.offset = pos.offset + i → between.byte ≠ wanted ∧ between.byte ≠ backslash) →
      pos.find wanted = after.find wanted := by
  intro count
  induction count with
  | zero =>
      intro pos after apart _
      have same : pos = after := Pos.ext apart.symm
      rw [same]
  | succ count ih =>
      intro pos after apart unwanted
      have inside : pos.offset < (ofString text).length := by
        have bound := after.offset_le
        omega
      have here := unwanted 0 pos (by omega) rfl
      rw [find, dif_pos inside, if_neg (by simp [here])]
      apply ih
      · simp only [nextByte]
        omega
      · intro i between less place
        simp only [nextByte] at place
        exact unwanted (i + 1) between (by omega) (by omega)

theorem literalEnd_eq_of_find_eq {quote : UInt8} (same : pos.find quote = after.find quote) :
    pos.literalEnd quote = after.literalEnd quote := by
  rw [literalEnd, same, ← literalEnd]

theorem literalEnd_of_find_eq {quote : UInt8} (found : pos.find quote = pos)
    (inside : pos.offset < (ofString text).length) :
    pos.literalEnd quote =
      if pos.byte = backslash then (pos.nextByte inside).next.literalEnd quote
      else pos.nextByte inside := by
  rw [literalEnd]
  simp only [found]
  rw [dif_pos inside]

namespace Reads

/-- An ASCII byte is never found inside of a longer character. -/
theorem find_next (reads : pos.Reads (c :: rest)) {quote : Char} (ascii : quote.toNat < 128)
    (ordinary : c ≠ quote) (unescaped : c ≠ '\\') :
    pos.find quote.toUInt8 = pos.next.find quote.toUInt8 := by
  apply find_eq_of_forall _ c.utf8Size _ _ reads.offset_next
  intro i between less place
  rw [← String.length_utf8EncodeChar] at less
  rw [reads.byte_eq less place]
  by_cases small : c.toNat < 128
  · have encoded := utf8EncodeChar_of_ascii small
    have first : i = 0 := by
      simp only [encoded, List.length_singleton] at less
      omega
    subst first
    simp only [encoded, List.getElem_cons_zero]
    exact ⟨fun same => ordinary ((toUInt8_inj small ascii).mp same),
      fun same => unescaped ((toUInt8_inj small (by decide)).mp same)⟩
  · have high := le_of_mem_utf8EncodeChar (Nat.le_of_not_lt small) _ (List.getElem_mem less)
    constructor
    · intro same
      rw [same] at high
      exact absurd (toUInt8_lt ascii) (UInt8.not_lt.mpr high)
    · intro same
      rw [same] at high
      exact absurd high (by decide)

theorem find_of_stop (reads : pos.Reads (c :: rest)) {quote : Char} (ascii : c.toNat < 128)
    (stop : c = quote ∨ c = '\\') : pos.find quote.toUInt8 = pos := by
  have byte := reads.byte_of_ascii ascii
  rw [find, dif_pos reads.inside, if_pos]
  rcases stop with rfl | rfl
  · exact .inl byte
  · exact .inr byte

/-! ## Ends of tokens -/

/-- The end of a literal in jumps is its end character by character, from inside of it as well as
from just after a backslash. -/
theorem literalEnd {quote : Char} (isQuote : isQuote quote = true) :
    ∀ (ahead : List Char) (pos : (ofString text).Pos), pos.Reads ahead →
      (pos.literalEnd quote.toUInt8).Reads ((pastQuote? quote false ahead).getD []) ∧
        (pos.next.literalEnd quote.toUInt8).Reads ((pastQuote? quote true ahead).getD []) := by
  have ascii := lt_of_isQuote isQuote
  intro ahead
  induction ahead with
  | nil =>
      intro pos reads
      rw [reads.eq_of_le (le_next pos), reads.eq_of_le (le_literalEnd quote.toUInt8 pos)]
      exact ⟨reads, reads⟩
  | cons c rest ih =>
      intro pos reads
      obtain ⟨plain, escaped⟩ := ih pos.next reads.next
      refine ⟨?_, plain⟩
      rw [pastQuote?]
      by_cases escape : c = '\\'
      · subst escape
        have small : Char.toNat '\\' < 128 := by decide
        have found : pos.find quote.toUInt8 = pos := reads.find_of_stop small (.inr rfl)
        have byte : pos.byte = backslash := reads.byte_of_ascii small
        rw [if_pos rfl, literalEnd_of_find_eq found reads.inside, if_pos byte,
          reads.nextByte_eq_next small]
        exact escaped
      · rw [if_neg escape]
        by_cases closing : c = quote
        · subst closing
          have found : pos.find c.toUInt8 = pos := reads.find_of_stop ascii (.inl rfl)
          have byte : pos.byte ≠ backslash := by
            rw [reads.byte_of_ascii ascii]
            exact fun same => escape ((toUInt8_inj ascii (by decide)).mp same)
          rw [if_pos rfl, literalEnd_of_find_eq found reads.inside, if_neg byte,
            reads.nextByte_eq_next ascii]
          exact reads.next
        · rw [if_neg closing, literalEnd_eq_of_find_eq (reads.find_next ascii closing escape)]
          exact plain

theorem wordEnd : ∀ (ahead : List Char) (pos : (ofString text).Pos), pos.Reads ahead →
    pos.wordEnd.Reads (ahead.dropWhile isWordChar) := by
  intro ahead
  induction ahead with
  | nil =>
      intro pos reads
      rw [reads.eq_of_le (le_wordEnd pos)]
      exact reads
  | cons c rest ih =>
      intro pos reads
      rw [Pos.wordEnd, reads.mark_eq]
      by_cases word : isWordChar c = true
      · rw [dif_pos (markOf_eq_word_iff.mpr word), List.dropWhile_cons_of_pos word]
        exact ih pos.next reads.next
      · rw [dif_neg fun same => word (markOf_eq_word_iff.mp same), List.dropWhile_cons_of_neg word]
        exact reads

/-! ## Tokens -/

theorem offset_eq (reads : pos.Reads (chars ++ ahead)) (later : after.Reads ahead) :
    after.offset = pos.offset + byteLength chars := by
  have total := reads.offset_add
  have left := later.offset_add
  rw [byteLength_append] at total
  omega

theorem tokenTo_eq (kind : TokenKind) (reads : pos.Reads (chars ++ ahead))
    (later : after.Reads ahead) : tokenTo kind pos after = Piece.token ⟨kind, chars⟩ pos.offset := by
  simp only [tokenTo, Piece.token, reads.offset_eq later]

theorem token?_quote (reads : pos.Reads (c :: rest)) (quote : isQuote c = true) :
    ∃ after, pos.token? = some (tokenTo .literal pos after, after) ∧
      after.Reads ((pastQuote? c false rest).getD []) := by
  have mark : pos.mark = .quote c.toUInt8 := by
    rw [reads.mark_eq, markOf, if_pos quote]
  refine ⟨pos.next.literalEnd c.toUInt8, ?_, (Reads.literalEnd quote rest _ reads.next).1⟩
  simp only [token?, mark]

theorem token?_separator (reads : pos.Reads (c :: rest)) (separator : isSeparator c = true) :
    pos.token? = some (tokenTo .plain pos pos.next, pos.next) := by
  have mark : pos.mark = .separator := by
    rw [reads.mark_eq, markOf, if_neg, if_pos separator]
    intro quote
    rw [isSeparator_of_isQuote quote] at separator
    contradiction
  simp only [token?, mark]

theorem token?_word (reads : pos.Reads (c :: rest)) (word : isWordChar c = true) :
    ∃ after, pos.token? = some (tokenTo .plain pos after, after) ∧
      after.Reads (rest.dropWhile isWordChar) := by
  have mark : pos.mark = .word := by
    rw [reads.mark_eq, markOf_eq_word_iff.mpr word]
  refine ⟨pos.next.wordEnd, ?_, Reads.wordEnd rest _ reads.next⟩
  simp only [token?, mark]

theorem tokens_eq_cons {kind : TokenKind} (reads : pos.Reads (chars ++ ahead))
    (found : pos.token? = some (tokenTo kind pos after, after)) (later : after.Reads ahead) :
    pos.tokens = Piece.token ⟨kind, chars⟩ pos.offset :: after.tokens ∧
      after.offset = pos.offset + byteLength chars := by
  refine ⟨?_, reads.offset_eq later⟩
  rw [Pos.tokens_eq, found, ← reads.tokenTo_eq kind later]

theorem tokens_eq_layout (reads : pos.Reads ahead) :
    pos.tokens = layout pos.offset (cut ahead) := by
  fun_induction cut ahead generalizing pos with
  | case1 =>
      have ended : pos.token? = none := by
        simp only [token?, reads.mark_nil]
      rw [Pos.tokens_eq, ended]
      rfl
  | case2 c rest quote ih =>
      obtain ⟨after, found, later⟩ := reads.token?_quote quote
      have split : pos.Reads ((c :: literalBody c false rest) ++ (pastQuote? c false rest).getD []) := by
        rw [List.cons_append, literalBody_append]
        exact reads
      obtain ⟨tokens, offset⟩ := split.tokens_eq_cons found later
      rw [tokens, ih later, offset]
      rfl
  | case3 c rest _ separator ih =>
      have split : pos.Reads ([c] ++ rest) := reads
      obtain ⟨tokens, offset⟩ :=
        split.tokens_eq_cons (reads.token?_separator separator) reads.next
      rw [tokens, ih reads.next, offset]
      rfl
  | case4 c rest quote separator ih =>
      have word := isWordChar_iff.mpr ⟨by simpa using separator, by simpa using quote⟩
      obtain ⟨after, found, later⟩ := reads.token?_word word
      have split : pos.Reads ((c :: rest.takeWhile isWordChar) ++ rest.dropWhile isWordChar) := by
        rw [List.cons_append, List.takeWhile_append_dropWhile]
        exact reads
      obtain ⟨tokens, offset⟩ := split.tokens_eq_cons found later
      rw [tokens, ih later, offset]
      rfl

end Reads

end PaddedText.Pos

theorem tokenize_eq_layout (text : String) : tokenize text = layout 0 (cut text.toList) :=
  (PaddedText.Pos.reads_startPos text).tokens_eq_layout

end Highlighter
