import Highlighter.Proofs.Lexicon.Draft
import Highlighter.Proofs.Run.Highlighting

/-! # Whole words

A word of a group gets the color of the group exactly where it stands on its own: not inside a
literal, and with no character of words directly before or after it. -/

set_option autoImplicit false

namespace Highlighter

open Alphabet Text

/-! ## Words among pieces -/

theorem Piece.isSeparator_or_isClosed_iff {piece : Piece} (formed : IsFormed piece) :
    piece.IsSeparator ∨ piece.IsClosed ↔ ¬ piece.IsOpen ∧ ¬ piece.IsWord := by
  constructor
  · rintro (separator | closed)
    · exact ⟨Piece.not_isOpen_of_plain separator.1, Piece.not_isWord_of_isSeparator separator⟩
    · exact ⟨Piece.not_isOpen_of_isClosed closed, Piece.not_isWord_of_literal closed.1⟩
  · rintro ⟨notOpen, notWord⟩
    rcases formed with separator | word | closed | unclosed
    · exact .inl separator
    · exact absurd word notWord
    · exact .inr closed
    · exact absurd unclosed notOpen

/-- A word is a piece of its own if what is before it ends on its own and what is after it starts
on its own, and only then. -/
theorem exists_cut_word_iff {before word after : List Char}
    (isWord : Piece.IsWord ⟨.plain, word⟩) :
    (∃ first second, cut (before ++ (word ++ after)) = first ++ ⟨.plain, word⟩ :: second ∧
        first.flatMap Piece.chars = before) ↔
      (∀ last ∈ (cut before).getLast?, last.IsSeparator ∨ last.IsClosed) ∧
        ∀ c ∈ after.head?, isWordChar c = false := by
  constructor
  · rintro ⟨first, second, found, front⟩
    have isCut := isCut_cut (before ++ (word ++ after))
    have whole := isCut.whole
    rw [found, List.flatMap_append, front, List.append_cancel_left_eq, List.flatMap_cons,
      List.append_cancel_left_eq] at whole
    rw [found] at isCut
    -- what stands before the word is cut as it would be without the word
    obtain ⟨early, late, border⟩ := isCut.of_append
    rw [front] at early
    refine ⟨?_, ?_⟩
    · intro last isLast
      rw [cut_eq_of_isCut early] at isLast
      have may := border last isLast ⟨.plain, word⟩ rfl
      rw [Piece.isSeparator_or_isClosed_iff (early.formed last (List.mem_of_getLast? isLast))]
      exact ⟨may.1, fun lastWord => may.2 ⟨lastWord, isWord⟩⟩
    · have apart := (List.isChain_cons.mp late.ordered).1
      rw [← whole]
      exact late.tail.isWordChar_eq_false_of_head
        fun next head nextWord => (apart next head).2 ⟨isWord, nextWord⟩
  · rintro ⟨ends, starts⟩
    have early := isCut_cut before
    have late := isCut_cut after
    have middle : IsCut (word ++ after) (⟨.plain, word⟩ :: cut after) :=
      IsCut.cons (.inr (.inl isWord)) (fun next head => ⟨Piece.not_isOpen_of_plain rfl,
        fun both => late.not_isWord_of_head starts next head both.2⟩) late
    refine ⟨cut before, cut after, cut_eq_of_isCut (early.append middle ?_), early.whole⟩
    intro last isLast next head
    obtain ⟨notOpen, notWord⟩ := (Piece.isSeparator_or_isClosed_iff
      (early.formed last (List.mem_of_getLast? isLast))).mp (ends last isLast)
    exact ⟨notOpen, fun both => notWord both.1⟩

/-! ## Words among tokens -/

section Tokens

variable {before word after : String} {token : Token} {kind : TokenKind}

theorem toList_append_append (before word after : String) :
    (before ++ word ++ after).toList = before.toList ++ (word.toList ++ after.toList) := by
  rw [String.toList_append, String.toList_append, List.append_assoc]

theorem Token.text_of_piece {text : String} (reads : token.piece text = ⟨kind, word.toList⟩) :
    token.text text = word := by
  rw [Token.piece, Piece.mk.injEq] at reads
  exact String.toList_injective reads.2

/-- A token over the bytes of `word` after `before` is a piece that reads `word`. -/
theorem cut_of_mem_tokenize (member : token ∈ tokenize (before ++ word ++ after))
    (start : token.range.first = before.utf8ByteSize)
    (stop : token.range.stop = before.utf8ByteSize + word.utf8ByteSize) :
    token.text (before ++ word ++ after) = word ∧
      ∃ first second, cut (before.toList ++ (word.toList ++ after.toList)) =
        first ++ ⟨token.kind, word.toList⟩ :: second ∧
          first.flatMap Piece.chars = before.toList := by
  have isCut := isCut_cut (before ++ word ++ after).toList
  rw [tokenize_eq_layout, mem_layout_iff] at member
  obtain ⟨first, piece, second, found, rfl⟩ := member
  rw [found] at isCut
  have whole := isCut.whole
  have nonempty := (isCut.formed piece (by simp)).ne_nil
  rw [List.flatMap_append, List.flatMap_cons] at whole
  rw [Nat.zero_add] at start stop ⊢
  have reads := Piece.piece_token nonempty whole.symm
  have front : byteLength (first.flatMap Piece.chars) = before.utf8ByteSize := start
  rw [Piece.stop_token nonempty, front] at stop
  rw [toList_append_append] at whole found
  obtain ⟨isFront, others⟩ :=
    append_inj_of_byteLength_eq whole (front.trans (byteLength_toList before).symm)
  obtain ⟨isWord, _⟩ := append_inj_of_byteLength_eq others
    ((Nat.add_left_cancel stop).trans (byteLength_toList word).symm)
  obtain ⟨kind, chars⟩ := piece
  obtain rfl : chars = word.toList := isWord
  exact ⟨Token.text_of_piece reads, first, second, found, isFront⟩

theorem exists_token_of_cut {first second : List Piece}
    (found : cut (before.toList ++ (word.toList ++ after.toList)) =
      first ++ ⟨kind, word.toList⟩ :: second)
    (front : first.flatMap Piece.chars = before.toList) :
    ∃ token ∈ tokenize (before ++ word ++ after), token.kind = kind ∧
      token.text (before ++ word ++ after) = word ∧
      token.range.first = before.utf8ByteSize ∧
      token.range.stop = before.utf8ByteSize + word.utf8ByteSize := by
  have isCut := isCut_cut (before.toList ++ (word.toList ++ after.toList))
  rw [found] at isCut
  have nonempty := (isCut.formed ⟨kind, word.toList⟩ (by simp)).ne_nil
  have split := toList_append_append before word after
  have place : byteLength before.toList = before.utf8ByteSize := byteLength_toList before
  refine ⟨Piece.token ⟨kind, word.toList⟩ (byteLength before.toList), ?_, rfl, ?_, place, ?_⟩
  · rw [tokenize_eq_layout, mem_layout_iff, split, found]
    exact ⟨first, ⟨kind, word.toList⟩, second, rfl, by rw [front, Nat.zero_add]⟩
  · exact Token.text_of_piece (Piece.piece_token nonempty split)
  · rw [Piece.stop_token nonempty, place, byteLength_toList]

end Tokens

/-! ## Words among runs -/

/-- Only a group that has words has runs. -/
theorem Theme.exists_word_of_mem_highlight {theme : Theme} {text : String} {run : Run}
    {group : GroupId} (indexed : theme.lexicon.IsIndexed) (member : run ∈ theme.highlight text)
    (keyword : run.category = .keyword group) : ∃ word, word ∈ theme.lexicon.words group := by
  have notPlain : Category.keyword group ≠ .plain := by
    intro same
    contradiction
  obtain ⟨token, _, category, _⟩ :=
    (exists_run_iff notPlain fun _ => True).mp ⟨run, member, keyword, trivial⟩
  obtain ⟨_, found⟩ := Token.category_eq_keyword.mp category
  exact ⟨_, (Lexicon.category_eq_keyword indexed).mp found⟩

/-- A run of a group covers exactly `word` if and only if the group lists it, the text before it is
empty or ends with a separator or a closed literal, and the text after it is empty or starts with
a separator or a quote. -/
theorem exists_keyword_run_iff (calls : List (String × List String)) (palette : Palette)
    (group : GroupId) (before word after : String) :
    (∃ run ∈ Theme.highlight ⟨.ofCalls calls, palette⟩ (before ++ word ++ after),
        run.category = .keyword group ∧ run.range.first = before.utf8ByteSize ∧
          run.range.stop = before.utf8ByteSize + word.utf8ByteSize) ↔
      word ∈ (Lexicon.ofCalls calls).words group ∧
        (∀ last ∈ (tokenize before).getLast?,
          (last.piece before).IsSeparator ∨ (last.piece before).IsClosed) ∧
        ∀ c ∈ after.toList.head?, isSeparator c = true ∨ isQuote c = true := by
  have sound := Lexicon.isSound_ofCalls calls
  have ends : (∀ last ∈ (tokenize before).getLast?,
      (last.piece before).IsSeparator ∨ (last.piece before).IsClosed) ↔
        ∀ last ∈ (cut before.toList).getLast?, last.IsSeparator ∨ last.IsClosed := by
    rw [← map_piece_tokenize, List.getLast?_map]
    simp
  have starts : (∀ c ∈ after.toList.head?, isSeparator c = true ∨ isQuote c = true) ↔
      ∀ c ∈ after.toList.head?, isWordChar c = false := by
    simp only [isWordChar_eq_false_iff]
  rw [ends, starts, exists_run_iff (by simp) fun range =>
    range.first = before.utf8ByteSize ∧
      range.stop = before.utf8ByteSize + word.utf8ByteSize]
  constructor
  · rintro ⟨token, member, keyword, start, stop⟩
    obtain ⟨reads, first, second, found, front⟩ := cut_of_mem_tokenize member start stop
    obtain ⟨plain, listed⟩ := Token.category_eq_keyword.mp keyword
    rw [reads, Lexicon.category_eq_keyword sound.indexed] at listed
    have isWord := isMatchable_iff.mp (sound.matchable group word listed)
    rw [plain] at found
    exact ⟨listed, (exists_cut_word_iff isWord).mp ⟨first, second, found, front⟩⟩
  · rintro ⟨listed, alone⟩
    have isWord := isMatchable_iff.mp (sound.matchable group word listed)
    obtain ⟨first, second, found, front⟩ := (exists_cut_word_iff isWord).mpr alone
    obtain ⟨token, member, plain, reads, start, stop⟩ := exists_token_of_cut found front
    refine ⟨token, member, Token.category_eq_keyword.mpr ⟨plain, ?_⟩, start, stop⟩
    rw [reads, Lexicon.category_eq_keyword sound.indexed]
    exact listed

end Highlighter
