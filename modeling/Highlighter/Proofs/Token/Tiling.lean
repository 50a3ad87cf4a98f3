import Highlighter.Proofs.Token.Stream

/-! # Tokens in their text

A tiling covers a stretch of offsets by ranges that lie end to end.  Where its ranges also begin
and end on boundaries of characters, they cut the characters of the text, and each token is its
piece at its place. -/

set_option autoImplicit false

namespace Highlighter

open Alphabet Text

/-- The ranges lie end to end from `start` to `stop` and none of them is empty. -/
def Tiles (start stop : Nat) : List ByteRange → Prop
  | [] => start = stop
  | range :: rest => range.first = start ∧ range.first ≤ range.last ∧ Tiles range.stop stop rest

/-- A character of `text` starts at `offset`, or the text ends there. -/
def IsBoundary (text : String) (offset : Nat) : Prop :=
  String.Pos.Raw.IsValid text ⟨offset⟩

theorem Tiles.le {ranges : List ByteRange} :
    ∀ {start stop : Nat}, Tiles start stop ranges → start ≤ stop := by
  induction ranges with
  | nil =>
      intro start stop tiles
      exact Nat.le_of_eq tiles
  | cons range rest ih =>
      intro start stop tiles
      obtain ⟨first, nonempty, later⟩ := tiles
      have bound := ih later
      simp only [ByteRange.stop] at bound
      omega

theorem Tiles.lt {range : ByteRange} {rest : List ByteRange} {start stop : Nat}
    (tiles : Tiles start stop (range :: rest)) : start < stop := by
  obtain ⟨first, nonempty, later⟩ := tiles
  have bound := later.le
  simp only [ByteRange.stop] at bound
  omega

/-- What may hold of where one range stops and where the next starts. -/
structure IsForward (border : Nat → Nat → Prop) : Prop where
  refl : ∀ offset, border offset offset
  trans : ∀ {first second third}, border first second → border second third → border first third
  le : ∀ {first second}, border first second → first ≤ second

theorem isForward_eq : IsForward Eq := ⟨fun _ => rfl, Eq.trans, Nat.le_of_eq⟩

theorem isForward_le : IsForward (· ≤ ·) := ⟨Nat.le_refl, Nat.le_trans, id⟩

/-- Ranges one after the other, none of them empty, with `border` from each to the next. -/
def Successive (border : Nat → Nat → Prop) (start stop : Nat) : List ByteRange → Prop
  | [] => border start stop
  | range :: rest =>
    border start range.first ∧ range.first ≤ range.last ∧ Successive border range.stop stop rest

theorem tiles_iff_successive {ranges : List ByteRange} : ∀ {start stop : Nat},
    Tiles start stop ranges ↔ Successive Eq start stop ranges := by
  induction ranges with
  | nil =>
      intro start stop
      rfl
  | cons range rest ih =>
      intro start stop
      rw [Tiles, Successive, ih, eq_comm]

section Successive

variable {border : Nat → Nat → Prop} {left right ranges : List ByteRange} {before start stop : Nat}

theorem Successive.of_border (forward : IsForward border) (here : border before start)
    (later : Successive border start stop ranges) : Successive border before stop ranges := by
  cases ranges with
  | nil => exact forward.trans here later
  | cons range rest => exact ⟨forward.trans here later.1, later.2⟩

theorem successive_append (forward : IsForward border) : ∀ {start stop : Nat},
    Successive border start stop (left ++ right) ↔
      ∃ middle, Successive border start middle left ∧ Successive border middle stop right := by
  induction left with
  | nil =>
      intro start stop
      constructor
      · intro later
        exact ⟨start, forward.refl start, later⟩
      · rintro ⟨middle, here, later⟩
        exact later.of_border forward here
  | cons range rest ih =>
      intro start stop
      rw [List.cons_append, Successive, ih]
      constructor
      · rintro ⟨here, nonempty, middle, earlier, later⟩
        exact ⟨middle, ⟨here, nonempty, earlier⟩, later⟩
      · rintro ⟨middle, ⟨here, nonempty, earlier⟩, later⟩
        exact ⟨here, nonempty, middle, earlier, later⟩

theorem Successive.extend {middle : Nat} (forward : IsForward border)
    (earlier : Successive border start middle ranges) (here : border middle stop) :
    Successive border start stop ranges := by
  have none : Successive border middle stop [] := here
  have all := (successive_append forward).mpr ⟨middle, earlier, none⟩
  rw [List.append_nil] at all
  exact all

theorem Successive.le_of_mem : ∀ {start : Nat}, Successive border start stop ranges →
    ∀ range ∈ ranges, range.first ≤ range.last := by
  induction ranges with
  | nil =>
      intro start _ range member
      simp at member
  | cons range rest ih =>
      intro start successive
      obtain ⟨_, nonempty, later⟩ := successive
      exact List.forall_mem_cons.mpr ⟨nonempty, ih later⟩

theorem tiles_append : Tiles start stop (left ++ right) ↔
    ∃ middle, Tiles start middle left ∧ Tiles middle stop right := by
  simp only [tiles_iff_successive]
  exact successive_append isForward_eq

end Successive

theorem isBoundary_iff {text : String} {offset : Nat} :
    IsBoundary text offset ↔
      ∃ before ahead, text.toList = before ++ ahead ∧ offset = byteLength before := by
  rw [IsBoundary, String.Pos.Raw.isValid_iff_exists_append]
  constructor
  · rintro ⟨left, right, rfl, place⟩
    refine ⟨left.toList, right.toList, String.toList_append, ?_⟩
    rw [byteLength_toList]
    exact congrArg String.Pos.Raw.byteIdx place
  · rintro ⟨before, ahead, split, rfl⟩
    refine ⟨String.ofList before, String.ofList ahead, ?_, ?_⟩
    · rw [← String.ofList_append, ← split, String.ofList_toList]
    · rw [String.rawEndPos_ofList, byteLength_eq_utf8Len]

theorem isBoundary_byteLength {text : String} {before ahead : List Char}
    (split : text.toList = before ++ ahead) : IsBoundary text (byteLength before) :=
  isBoundary_iff.mpr ⟨before, ahead, split, rfl⟩

theorem isBoundary_zero (text : String) : IsBoundary text 0 :=
  isBoundary_iff.mpr ⟨[], text.toList, rfl, rfl⟩

theorem isBoundary_utf8ByteSize (text : String) : IsBoundary text text.utf8ByteSize :=
  isBoundary_iff.mpr ⟨text.toList, [], (List.append_nil _).symm, (byteLength_toList text).symm⟩

theorem IsBoundary.le {text : String} {offset : Nat} (boundary : IsBoundary text offset) :
    offset ≤ text.utf8ByteSize := by
  obtain ⟨before, ahead, split, rfl⟩ := isBoundary_iff.mp boundary
  rw [← byteLength_toList, split, byteLength_append]
  exact Nat.le_add_right _ _

theorem ByteRange.toList_text {text : String} {range : ByteRange} {before middle after : List Char}
    (split : text.toList = before ++ (middle ++ after)) (first : range.first = byteLength before)
    (stop : range.stop = byteLength before + byteLength middle) :
    (range.text text).toList = middle := by
  have whole : text = String.ofList (before ++ middle ++ after) := by
    rw [List.append_assoc, ← split, String.ofList_toList]
  rw [ByteRange.text, first, stop, whole, byteLength_eq_utf8Len, byteLength_eq_utf8Len,
    String.extract_of_valid, String.toList_ofList]

theorem ByteRange.text_append {before : String} {range : ByteRange}
    (first : IsBoundary before range.first) (stop : IsBoundary before range.stop)
    (nonempty : range.first ≤ range.last) (after : String) :
    range.text (before ++ after) = range.text before := by
  obtain ⟨left, ahead, split, first⟩ := isBoundary_iff.mp first
  obtain ⟨left', ahead', split', stop⟩ := isBoundary_iff.mp stop
  have le : byteLength left ≤ byteLength left' := by
    rw [← first, ← stop, ByteRange.stop]
    omega
  obtain ⟨middle, rfl⟩ := exists_append_of_byteLength_le (split.symm.trans split') le
  rw [byteLength_append] at stop
  rw [List.append_assoc] at split'
  have longer : (before ++ after).toList = left ++ (middle ++ (ahead' ++ after.toList)) := by
    rw [String.toList_append, split', List.append_assoc, List.append_assoc]
  apply String.toList_injective
  rw [toList_text longer first stop, toList_text split' first stop]

/-- The ranges of a tiling hold the characters one after the other, without one missing or one
read twice. -/
theorem Tiles.text_eq {text : String} {ranges : List ByteRange} : ∀ {before ahead : List Char},
    text.toList = before ++ ahead → Tiles (byteLength before) text.utf8ByteSize ranges →
      (∀ range ∈ ranges, IsBoundary text range.stop) →
      ranges.flatMap (fun range => (range.text text).toList) = ahead ∧
        ∀ range ∈ ranges, range.stop = range.first + byteLength (range.text text).toList := by
  induction ranges with
  | nil =>
      intro before ahead split tiles _
      have total := congrArg byteLength split
      rw [byteLength_toList, byteLength_append] at total
      have ended : byteLength before = text.utf8ByteSize := tiles
      have none : ahead = [] := byteLength_eq_zero_iff.mp (by omega)
      exact ⟨none.symm, by simp⟩
  | cons range rest ih =>
      intro before ahead split tiles boundaries
      obtain ⟨first, nonempty, later⟩ := tiles
      obtain ⟨stopHere, stopLater⟩ := List.forall_mem_cons.mp boundaries
      obtain ⟨before', after, split', stop⟩ := isBoundary_iff.mp stopHere
      have le : byteLength before ≤ byteLength before' := by
        simp only [ByteRange.stop] at stop
        omega
      obtain ⟨middle, rfl⟩ := exists_append_of_byteLength_le (split.symm.trans split') le
      rw [stop] at later
      obtain ⟨whole, sizes⟩ := ih split' later stopLater
      rw [List.append_assoc] at split'
      rw [byteLength_append] at stop
      have chars := ByteRange.toList_text split' first stop
      refine ⟨?_, List.forall_mem_cons.mpr ⟨?_, sizes⟩⟩
      · rw [List.flatMap_cons, chars, whole]
        exact List.append_cancel_left (split'.symm.trans split)
      · rw [chars, stop, first]

/-- The token without its place, as it reads in its text. -/
def Token.piece (text : String) (token : Token) : Piece :=
  ⟨token.kind, (token.text text).toList⟩

theorem Piece.stop_token {piece : Piece} (nonempty : piece.chars ≠ []) (start : Nat) :
    (piece.token start).range.stop = start + byteLength piece.chars := by
  have some : byteLength piece.chars ≠ 0 := fun zero => nonempty (byteLength_eq_zero_iff.mp zero)
  simp only [Piece.token, ByteRange.stop]
  omega

theorem Piece.piece_token {text : String} {piece : Piece} {before ahead : List Char}
    (nonempty : piece.chars ≠ []) (split : text.toList = before ++ (piece.chars ++ ahead)) :
    (piece.token (byteLength before)).piece text = piece := by
  have chars := ByteRange.toList_text split rfl (piece.stop_token nonempty _)
  simp only [Token.piece, Token.text, chars]
  rfl

/-! ## Tokens from pieces -/

section Layout

variable {text : String} {pieces : List Piece}

theorem tiles_layout : ∀ {start : Nat}, (∀ piece ∈ pieces, piece.chars ≠ []) →
    Tiles start (start + byteLength (pieces.flatMap Piece.chars))
      ((layout start pieces).map Token.range) := by
  induction pieces with
  | nil =>
      intro start _
      simp [layout, Tiles]
  | cons piece rest ih =>
      intro start nonempty
      obtain ⟨here, later⟩ := List.forall_mem_cons.mp nonempty
      have stop := piece.stop_token here start
      refine ⟨rfl, ?_, ?_⟩
      · have size : (piece.token start).range.first = start := rfl
        simp only [ByteRange.stop] at stop
        have some : byteLength piece.chars ≠ 0 := fun zero => here (byteLength_eq_zero_iff.mp zero)
        omega
      · rw [stop, List.flatMap_cons, byteLength_append, ← Nat.add_assoc]
        exact ih later

theorem layout_in_text : ∀ {before : List Char}, (∀ piece ∈ pieces, piece.chars ≠ []) →
    text.toList = before ++ pieces.flatMap Piece.chars →
      (layout (byteLength before) pieces).map (Token.piece text) = pieces ∧
        ∀ token ∈ layout (byteLength before) pieces,
          IsBoundary text token.range.first ∧ IsBoundary text token.range.stop := by
  induction pieces with
  | nil =>
      intro before _ _
      simp [layout]
  | cons piece rest ih =>
      intro before nonempty split
      obtain ⟨here, later⟩ := List.forall_mem_cons.mp nonempty
      rw [List.flatMap_cons] at split
      have split' : text.toList = (before ++ piece.chars) ++ rest.flatMap Piece.chars := by
        rw [split, List.append_assoc]
      obtain ⟨same, boundaries⟩ := ih later split'
      rw [byteLength_append] at same boundaries
      refine ⟨?_, ?_⟩
      · rw [layout, List.map_cons, Piece.piece_token here split, same]
      · rw [layout]
        refine List.forall_mem_cons.mpr ⟨⟨isBoundary_byteLength split, ?_⟩, boundaries⟩
        rw [piece.stop_token here, ← byteLength_append]
        exact isBoundary_byteLength split'

theorem mem_layout_iff {token : Token} : ∀ {start : Nat}, token ∈ layout start pieces ↔
    ∃ before piece after, pieces = before ++ piece :: after ∧
      token = piece.token (start + byteLength (before.flatMap Piece.chars)) := by
  induction pieces with
  | nil =>
      intro start
      simp [layout]
  | cons first rest ih =>
      intro start
      rw [layout, List.mem_cons, ih]
      constructor
      · rintro (rfl | ⟨before, piece, after, rfl, rfl⟩)
        · exact ⟨[], first, rest, rfl, rfl⟩
        · refine ⟨first :: before, piece, after, rfl, ?_⟩
          rw [List.flatMap_cons, byteLength_append, Nat.add_assoc]
      · rintro ⟨before, piece, after, split, rfl⟩
        cases before with
        | nil =>
            obtain ⟨rfl, rfl⟩ := List.cons.inj split
            exact .inl rfl
        | cons other others =>
            obtain ⟨rfl, rfl⟩ := List.cons.inj split
            refine .inr ⟨others, piece, after, rfl, ?_⟩
            rw [List.flatMap_cons, byteLength_append, Nat.add_assoc]

end Layout

/-! ## Pieces from tokens -/

theorem Token.token_piece {text : String} {token : Token} {start : Nat}
    (first : token.range.first = start)
    (stop : token.range.stop = start + byteLength (token.piece text).chars) :
    (token.piece text).token start = token := by
  have last : start + byteLength (token.piece text).chars - 1 = token.range.last := by
    rw [← stop]
    rfl
  rw [Piece.token, last, ← first]
  rfl

theorem layout_map_piece {text : String} {tokens : List Token} : ∀ {start stop : Nat},
    Tiles start stop (tokens.map Token.range) →
      (∀ token ∈ tokens,
        token.range.stop = token.range.first + byteLength (token.piece text).chars) →
      layout start (tokens.map (Token.piece text)) = tokens := by
  induction tokens with
  | nil =>
      intro start stop _ _
      rfl
  | cons token rest ih =>
      intro start stop tiles sizes
      obtain ⟨first, _, later⟩ := tiles
      obtain ⟨here, sizes⟩ := List.forall_mem_cons.mp sizes
      rw [first] at here
      rw [here] at later
      rw [List.map_cons, layout, Token.token_piece first here, ih later sizes]

end Highlighter
