import Highlighter.Proofs.Token.Pulls
import Highlighter.Proofs.Token.Tokenization

/-! # Parts of a text

The stream carries nothing over from one token to the next.  So a text may be taken apart where
one of its tokens ends, and the parts have the tokens of the whole; and from any character on, the
tokens are those of the characters still to come, whatever came before them. -/

set_option autoImplicit false

namespace Highlighter

open Text

/-- The token of the same bytes in a text with `distance` more bytes before it. -/
def Token.shift (distance : Nat) (token : Token) : Token :=
  ⟨⟨token.range.first + distance, token.range.last + distance⟩, token.kind⟩

/-- The text starts at `offset`, or one of its tokens ends there. -/
def IsBorder (text : String) (offset : Nat) : Prop :=
  offset = 0 ∨ ∃ token ∈ tokenize text, token.range.stop = offset

/-! ## Shifts -/

theorem layout_append (left right : List Piece) : ∀ start : Nat,
    layout start (left ++ right) =
      layout start left ++ layout (start + byteLength (left.flatMap Piece.chars)) right := by
  induction left with
  | nil =>
      intro start
      rfl
  | cons piece rest ih =>
      intro start
      rw [List.cons_append, layout, layout, ih, List.flatMap_cons, byteLength_append,
        Nat.add_assoc, List.cons_append]

theorem layout_shift {pieces : List Piece} (distance : Nat) :
    ∀ {start : Nat}, (∀ piece ∈ pieces, piece.chars ≠ []) →
      layout (start + distance) pieces = (layout start pieces).map (Token.shift distance) := by
  induction pieces with
  | nil =>
      intro start _
      rfl
  | cons piece rest ih =>
      intro start nonempty
      obtain ⟨here, later⟩ := List.forall_mem_cons.mp nonempty
      have some : byteLength piece.chars ≠ 0 := fun zero => here (byteLength_eq_zero_iff.mp zero)
      have last : start + distance + byteLength piece.chars - 1 =
          start + byteLength piece.chars - 1 + distance := by omega
      rw [layout, layout, List.map_cons, Nat.add_right_comm, ih later]
      simp only [Piece.token, Token.shift, last]

theorem layout_cut_eq (chars : List Char) (distance : Nat) :
    layout distance (cut chars) = (layout 0 (cut chars)).map (Token.shift distance) := by
  have nonempty : ∀ piece ∈ cut chars, piece.chars ≠ [] :=
    fun piece member => ((isCut_cut chars).formed piece member).ne_nil
  rw [← layout_shift distance nonempty, Nat.zero_add]

/-! ## Borders -/

theorem cut_of_cut_append {chars : List Char} {first second : List Piece}
    (found : cut chars = first ++ second) :
    cut (first.flatMap Piece.chars) = first ∧ cut (second.flatMap Piece.chars) = second := by
  have isCut := isCut_cut chars
  rw [found] at isCut
  obtain ⟨early, late, _⟩ := isCut.of_append
  exact ⟨cut_eq_of_isCut early, cut_eq_of_isCut late⟩

theorem isBorder_iff_cut {text : String} {offset : Nat} :
    IsBorder text offset ↔
      ∃ first second, cut text.toList = first ++ second ∧
        byteLength (first.flatMap Piece.chars) = offset := by
  have nonempty : ∀ piece ∈ cut text.toList, piece.chars ≠ [] :=
    fun piece member => ((isCut_cut text.toList).formed piece member).ne_nil
  rw [IsBorder, tokenize_eq_layout]
  constructor
  · rintro (rfl | ⟨token, member, rfl⟩)
    · exact ⟨[], cut text.toList, rfl, rfl⟩
    · obtain ⟨before, piece, after, found, rfl⟩ := mem_layout_iff.mp member
      refine ⟨before ++ [piece], after, by simp [found], ?_⟩
      rw [Piece.stop_token (nonempty piece (by simp [found]))]
      simp
  · rintro ⟨first, second, found, rfl⟩
    rcases List.eq_nil_or_concat first with rfl | ⟨before, piece, rfl⟩
    · exact .inl rfl
    · have split : cut text.toList = before ++ piece :: second := by simp [found]
      refine .inr ⟨_, mem_layout_iff.mpr ⟨before, piece, second, split, rfl⟩, ?_⟩
      rw [Piece.stop_token (nonempty piece (by simp [split]))]
      simp

theorem tokenize_append {before after : String}
    (found : cut (before ++ after).toList = cut before.toList ++ cut after.toList) :
    tokenize (before ++ after) =
      tokenize before ++ (tokenize after).map (Token.shift before.utf8ByteSize) := by
  rw [tokenize_eq_layout, tokenize_eq_layout, tokenize_eq_layout, found, layout_append,
    (isCut_cut before.toList).whole, Nat.zero_add, byteLength_toList,
    layout_cut_eq after.toList]

theorem exists_split_of_isBorder {text : String} {offset : Nat} (border : IsBorder text offset) :
    ∃ before after, text = before ++ after ∧ before.utf8ByteSize = offset ∧
      cut text.toList = cut before.toList ++ cut after.toList := by
  obtain ⟨first, second, found, rfl⟩ := isBorder_iff_cut.mp border
  obtain ⟨early, late⟩ := cut_of_cut_append found
  have whole := (isCut_cut text.toList).whole
  rw [found, List.flatMap_append] at whole
  refine ⟨String.ofList (first.flatMap Piece.chars), String.ofList (second.flatMap Piece.chars),
    ?_, ?_, ?_⟩
  · rw [← String.ofList_append, whole, String.ofList_toList]
  · rw [← byteLength_toList, String.toList_ofList]
  · rw [String.toList_ofList, String.toList_ofList, early, late, found]

/-- The last token of the front ends where the front does. -/
theorem isBorder_of_tokenize_append {before after : String} {tokens : List Token}
    (same : tokenize (before ++ after) = tokenize before ++ tokens) :
    IsBorder (before ++ after) before.utf8ByteSize := by
  have tiles := (isTokenization_tokenize before).tiles
  rcases List.eq_nil_or_concat (tokenize before) with none | ⟨others, token, found⟩
  · rw [none] at tiles
    exact .inl tiles.symm
  · rw [found, List.concat_eq_append, List.map_append, tiles_append] at tiles
    obtain ⟨_, _, _, _, stop⟩ := tiles
    exact .inr ⟨token, by rw [same, found]; simp, stop⟩

theorem tokenize_text {text : String} {token : Token} (member : token ∈ tokenize text) :
    tokenize (token.text text) = [⟨⟨0, token.range.size - 1⟩, token.kind⟩] := by
  rw [tokenize_eq_layout, mem_layout_iff] at member
  obtain ⟨before, piece, after, found, rfl⟩ := member
  have isCut := isCut_cut text.toList
  have nonempty : piece.chars ≠ [] := (isCut.formed piece (by simp [found])).ne_nil
  have whole := isCut.whole
  rw [found, List.flatMap_append, List.flatMap_cons] at whole
  have reads := congrArg Piece.chars (Piece.piece_token nonempty whole.symm)
  have single : cut piece.chars = [piece] := by
    have split : cut ((piece :: after).flatMap Piece.chars) = [piece] ++ after :=
      (cut_of_cut_append found).2
    have alone := (cut_of_cut_append split).1
    rwa [List.flatMap_singleton] at alone
  have size : (piece.token (0 + byteLength (before.flatMap Piece.chars))).range.size =
      byteLength piece.chars := by
    rw [ByteRange.size, Piece.stop_token nonempty, Piece.token, Nat.add_sub_cancel_left]
  rw [Nat.zero_add] at size ⊢
  have chars : ((piece.token (byteLength (before.flatMap Piece.chars))).text text).toList =
      piece.chars := reads
  rw [tokenize_eq_layout, chars, single, size]
  simp [layout, Piece.token]

/-- A text has the tokens of two parts one after the other exactly if it is taken apart at a
border.  In particular each token is the only token of its own text. -/
theorem tokenize_split (text : String) :
    (∀ offset, IsBorder text offset ↔
      ∃ before after, text = before ++ after ∧ before.utf8ByteSize = offset ∧
        tokenize text = tokenize before ++ (tokenize after).map (Token.shift offset)) ∧
      ∀ token ∈ tokenize text,
        tokenize (token.text text) = [⟨⟨0, token.range.size - 1⟩, token.kind⟩] := by
  refine ⟨?_, fun token => tokenize_text⟩
  intro offset
  constructor
  · intro border
    obtain ⟨before, after, rfl, rfl, found⟩ := exists_split_of_isBorder border
    exact ⟨before, after, rfl, rfl, tokenize_append found⟩
  · rintro ⟨before, after, rfl, rfl, same⟩
    exact isBorder_of_tokenize_append same

/-! ## Starting in the middle -/

namespace PaddedText

/-- The position between two parts of a text, reached one character after another. -/
def between (before after : String) : (ofString (before ++ after)).Pos :=
  (ofString (before ++ after)).startPos.walk (List.replicate before.length .next)

theorem Pos.reads_walk_next (before : List Char) : ∀ {text : String} {pos : (ofString text).Pos}
    {ahead : List Char}, pos.Reads (before ++ ahead) →
      (pos.walk (List.replicate before.length .next)).Reads ahead := by
  induction before with
  | nil =>
      intro text pos ahead reads
      exact reads
  | cons c rest ih =>
      intro text pos ahead reads
      exact ih (Reads.next reads)

theorem reads_between (before after : String) : (between before after).Reads after.toList := by
  have start := Pos.reads_startPos (before ++ after)
  rw [String.toList_append] at start
  exact Pos.reads_walk_next before.toList start

theorem offset_between (before after : String) :
    (between before after).offset = before.utf8ByteSize := by
  have start := Pos.reads_startPos (before ++ after)
  rw [String.toList_append] at start
  have moved := start.offset_eq (reads_between before after)
  rw [byteLength_toList] at moved
  rw [moved]
  exact Nat.zero_add _

/-- A stream that starts between two parts of a text gives, pull by pull, what a stream over the
second part alone gives, moved by the bytes of the first. -/
theorem pulls_between (before after : String) :
    (between before after).offset = before.utf8ByteSize ∧
      (between before after).tokens = (tokenize after).map (Token.shift before.utf8ByteSize) ∧
      ∀ count, (between before after).pulls count =
        ((ofString after).startPos.pulls count).map
          (Option.map (Token.shift before.utf8ByteSize)) := by
  have tokens : (between before after).tokens =
      (tokenize after).map (Token.shift before.utf8ByteSize) := by
    rw [(reads_between before after).tokens_eq_layout, offset_between, layout_cut_eq,
      tokenize_eq_layout]
  refine ⟨offset_between before after, tokens, ?_⟩
  intro count
  rw [Pos.pulls_eq, Pos.pulls_eq, tokens, tokenize]
  simp [Function.comp_def]

end PaddedText

end Highlighter
