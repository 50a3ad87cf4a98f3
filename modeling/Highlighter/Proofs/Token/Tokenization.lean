import Highlighter.Proofs.Token.Tiling

/-! # What the tokens of a text are

A description of the tokens that says nothing of how they are found, and the statement that it
fits one list of tokens for each text: the one that the stream gives. -/

set_option autoImplicit false

namespace Highlighter

open Alphabet Text

structure IsTokenization (text : String) (tokens : List Token) : Prop where
  tiles : Tiles 0 text.utf8ByteSize (tokens.map Token.range)
  boundaries : ∀ token ∈ tokens,
    IsBoundary text token.range.first ∧ IsBoundary text token.range.stop
  /-- A plain token is a single separator or a word. -/
  plain : ∀ token ∈ tokens, token.kind = .plain →
    (token.piece text).IsSeparator ∨ (token.piece text).IsWord
  /-- A literal ends at the first unescaped quote of its own sort, or with the text if there is
  none. -/
  literal : ∀ token ∈ tokens, token.kind = .literal →
    (token.piece text).IsClosed ∨
      ((token.piece text).IsOpen ∧ token.range.stop = text.utf8ByteSize)
  /-- Words are as long as they can be. -/
  apart : tokens.IsChain fun token next =>
    ¬ ((token.piece text).IsWord ∧ (next.piece text).IsWord)

theorem isChain_map_piece {text : String} {tokens : List Token} :
    ∀ {start : Nat}, Tiles start text.utf8ByteSize (tokens.map Token.range) →
      (∀ token ∈ tokens, (token.piece text).IsOpen → token.range.stop = text.utf8ByteSize) →
      (tokens.IsChain fun token next => ¬ ((token.piece text).IsWord ∧ (next.piece text).IsWord)) →
      (tokens.map (Token.piece text)).IsChain Piece.MayPrecede := by
  induction tokens with
  | nil =>
      intro start _ _ _
      exact List.isChain_nil
  | cons token rest ih =>
      intro start tiles unclosed apart
      obtain ⟨_, _, later⟩ := tiles
      obtain ⟨here, others⟩ := List.forall_mem_cons.mp unclosed
      obtain ⟨neighbours, apart⟩ := List.isChain_cons.mp apart
      rw [List.map_cons, List.isChain_cons]
      refine ⟨?_, ih later others apart⟩
      intro next head
      cases rest with
      | nil => simp at head
      | cons following others =>
          obtain rfl : following.piece text = next := by simpa using head
          refine ⟨?_, neighbours following rfl⟩
          intro isOpen
          have stop := here isOpen
          exact absurd stop (Nat.ne_of_lt later.lt)

theorem IsTokenization.isCut {text : String} {tokens : List Token}
    (tokenization : IsTokenization text tokens) :
    IsCut text.toList (tokens.map (Token.piece text)) ∧
      tokens = layout 0 (tokens.map (Token.piece text)) := by
  have split : text.toList = [] ++ text.toList := rfl
  have boundaries : ∀ range ∈ tokens.map Token.range, IsBoundary text range.stop := by
    intro range member
    obtain ⟨token, known, rfl⟩ := List.mem_map.mp member
    exact (tokenization.boundaries token known).2
  obtain ⟨whole, sizes⟩ := tokenization.tiles.text_eq split boundaries
  have same : layout 0 (tokens.map (Token.piece text)) = tokens :=
    layout_map_piece tokenization.tiles fun token known =>
      sizes token.range (List.mem_map_of_mem known)
  rw [List.flatMap_map] at whole
  refine ⟨⟨(List.flatMap_map ..).trans whole, ?_, ?_⟩, same.symm⟩
  · intro piece member
    obtain ⟨token, known, rfl⟩ := List.mem_map.mp member
    cases kind : token.kind with
    | plain =>
        rcases tokenization.plain token known kind with separator | word
        · exact .inl separator
        · exact .inr (.inl word)
    | literal =>
        rcases tokenization.literal token known kind with closed | unclosed
        · exact .inr (.inr (.inl closed))
        · exact .inr (.inr (.inr unclosed.1))
  · apply isChain_map_piece tokenization.tiles _ tokenization.apart
    intro token member isOpen
    rcases tokenization.literal token member isOpen.1 with closed | unclosed
    · exact absurd isOpen (Piece.not_isOpen_of_isClosed closed)
    · exact unclosed.2

theorem stop_of_isOpen {text : String} {tokens : List Token} {stop : Nat} :
    ∀ {start : Nat}, Tiles start stop (tokens.map Token.range) →
      (tokens.map (Token.piece text)).IsChain Piece.MayPrecede →
      ∀ token ∈ tokens, (token.piece text).IsOpen → token.range.stop = stop := by
  induction tokens with
  | nil =>
      intro start _ _ token member
      simp at member
  | cons first rest ih =>
      intro start tiles ordered token member isOpen
      obtain ⟨_, _, later⟩ := tiles
      rw [List.map_cons, List.isChain_cons] at ordered
      rcases List.mem_cons.mp member with rfl | member
      · cases rest with
        | nil => exact later
        | cons next others => exact absurd isOpen (ordered.1 (next.piece text) rfl).1
      · exact ih later ordered.2 token member isOpen

theorem IsCut.isTokenization {text : String} {pieces : List Piece}
    (isCut : IsCut text.toList pieces) : IsTokenization text (layout 0 pieces) := by
  have nonempty : ∀ piece ∈ pieces, piece.chars ≠ [] :=
    fun piece member => (isCut.formed piece member).ne_nil
  have split : text.toList = [] ++ pieces.flatMap Piece.chars := isCut.whole.symm
  obtain ⟨same, boundaries⟩ := layout_in_text nonempty split
  rw [byteLength_nil] at same boundaries
  have tiles : Tiles 0 text.utf8ByteSize ((layout 0 pieces).map Token.range) := by
    have size := congrArg byteLength isCut.whole
    rw [byteLength_toList] at size
    rw [← Nat.zero_add text.utf8ByteSize, ← size]
    exact tiles_layout nonempty
  have ordered := isCut.ordered
  rw [← same] at ordered
  have formed : ∀ token ∈ layout 0 pieces, IsFormed (token.piece text) := by
    intro token member
    apply isCut.formed
    rw [← same]
    exact List.mem_map_of_mem member
  refine ⟨tiles, boundaries, ?_, ?_, ?_⟩
  · intro token member plain
    rcases formed token member with separator | word | closed | unclosed
    · exact .inl separator
    · exact .inr word
    · exact absurd (plain.symm.trans closed.1) (by decide)
    · exact absurd (plain.symm.trans unclosed.1) (by decide)
  · intro token member literal
    rcases formed token member with separator | word | closed | unclosed
    · exact absurd (literal.symm.trans separator.1) (by decide)
    · exact absurd (literal.symm.trans word.1) (by decide)
    · exact .inl closed
    · exact .inr ⟨unclosed, stop_of_isOpen tiles ordered token member unclosed⟩
  · exact ((List.isChain_map _).mp ordered).imp fun _ _ may => may.2

theorem isTokenization_tokenize (text : String) : IsTokenization text (tokenize text) := by
  rw [tokenize_eq_layout]
  exact (isCut_cut text.toList).isTokenization

theorem map_piece_tokenize (text : String) :
    (tokenize text).map (Token.piece text) = cut text.toList :=
  (cut_eq_of_isCut (isTokenization_tokenize text).isCut.1).symm

/-- The description fits the tokens that the stream gives and no other list. -/
theorem isTokenization_iff_eq_tokenize (text : String) (tokens : List Token) :
    IsTokenization text tokens ↔ tokens = tokenize text := by
  constructor
  · intro tokenization
    obtain ⟨isCut, same⟩ := tokenization.isCut
    rw [tokenize_eq_layout, cut_eq_of_isCut isCut]
    exact same
  · rintro rfl
    exact isTokenization_tokenize text

end Highlighter
