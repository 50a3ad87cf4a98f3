import Mathlib.Data.List.Chain
import Mathlib.Data.List.TakeWhile
import Highlighter.Token.Alphabet
import Highlighter.Token.Basic

/-! # Cutting characters

The rules for tokens on characters alone, without bytes and offsets.  A *piece* is a token of
which only the mode and the characters are kept.  `cut` finds the pieces one after the other;
`IsCut` says what a list of pieces has to satisfy, and there is exactly one such list. -/

set_option autoImplicit false

namespace Highlighter

open Alphabet

structure Piece where
  kind : TokenKind
  chars : List Char
deriving DecidableEq, Repr

namespace Alphabet

/-- Does `c` belong into words? -/
def isWordChar (c : Char) : Bool := !isSeparator c && !isQuote c

theorem isSeparator_of_isQuote {c : Char} (quote : isQuote c = true) : isSeparator c = false := by
  simp only [isQuote, Bool.or_eq_true, beq_iff_eq] at quote
  rcases quote with rfl | rfl <;> decide

theorem isWordChar_iff {c : Char} :
    isWordChar c = true ↔ isSeparator c = false ∧ isQuote c = false := by
  simp [isWordChar]

theorem isWordChar_eq_false_iff {c : Char} :
    isWordChar c = false ↔ isSeparator c = true ∨ isQuote c = true := by
  cases separator : isSeparator c <;> cases quote : isQuote c <;>
    simp [isWordChar, separator, quote]

end Alphabet

/-! ## Literals -/

/-- What follows the first unescaped `quote`, if there is one.  A backslash takes the next
character along; the flag tells whether one has just been read. -/
def pastQuote? (quote : Char) : Bool → List Char → Option (List Char)
  | _, [] => none
  | true, _ :: rest => pastQuote? quote false rest
  | false, c :: rest =>
    if c = '\\' then pastQuote? quote true rest
    else if c = quote then some rest
    else pastQuote? quote false rest

/-- The characters up to and with the first unescaped `quote`, or else all of them. -/
def literalBody (quote : Char) : Bool → List Char → List Char
  | _, [] => []
  | true, c :: rest => c :: literalBody quote false rest
  | false, c :: rest =>
    if c = '\\' then c :: literalBody quote true rest
    else if c = quote then [c]
    else c :: literalBody quote false rest

theorem literalBody_append (quote : Char) (escaped : Bool) (chars : List Char) :
    literalBody quote escaped chars ++ (pastQuote? quote escaped chars).getD [] = chars := by
  induction chars generalizing escaped with
  | nil => cases escaped <;> rfl
  | cons c rest ih =>
      cases escaped with
      | true => simp only [literalBody, pastQuote?, List.cons_append, ih]
      | false =>
          simp only [literalBody, pastQuote?]
          by_cases escape : c = '\\'
          · simp only [if_pos escape, List.cons_append, ih]
          · by_cases closing : c = quote
            · simp [if_neg escape, if_pos closing]
            · simp only [if_neg escape, if_neg closing, List.cons_append, ih]

theorem pastQuote?_append {quote : Char} {escaped : Bool} {chars rest : List Char}
    (closed : pastQuote? quote escaped chars = some rest) (more : List Char) :
    pastQuote? quote escaped (chars ++ more) = some (rest ++ more) := by
  induction chars generalizing escaped with
  | nil => cases escaped <;> simp [pastQuote?] at closed
  | cons c others ih =>
      cases escaped with
      | true =>
          simp only [pastQuote?, List.cons_append] at closed ⊢
          exact ih closed
      | false =>
          simp only [pastQuote?, List.cons_append] at closed ⊢
          by_cases escape : c = '\\'
          · rw [if_pos escape] at closed ⊢
            exact ih closed
          · rw [if_neg escape] at closed ⊢
            by_cases closing : c = quote
            · rw [if_pos closing] at closed ⊢
              rw [Option.some.inj closed]
            · rw [if_neg closing] at closed ⊢
              exact ih closed

theorem literalBody_of_pastQuote?_eq_none {quote : Char} {escaped : Bool} {chars : List Char}
    (unclosed : pastQuote? quote escaped chars = none) :
    literalBody quote escaped chars = chars := by
  have whole := literalBody_append quote escaped chars
  rw [unclosed, Option.getD_none, List.append_nil] at whole
  exact whole

/-- The characters of a literal are read as they were found: with a quote at their end and no
unescaped one before it, or with none at all. -/
theorem pastQuote?_literalBody (quote : Char) (escaped : Bool) (chars : List Char) :
    pastQuote? quote escaped (literalBody quote escaped chars) =
      (pastQuote? quote escaped chars).map fun _ => [] := by
  induction chars generalizing escaped with
  | nil => cases escaped <;> rfl
  | cons c rest ih =>
      cases escaped with
      | true => simp only [literalBody, pastQuote?, ih]
      | false =>
          simp only [literalBody, pastQuote?]
          by_cases escape : c = '\\'
          · simp only [if_pos escape, pastQuote?, ih]
          · by_cases closing : c = quote
            · subst closing
              simp [if_neg escape, pastQuote?]
            · simp only [if_neg escape, if_neg closing, pastQuote?, ih]

theorem length_pastQuote?_le (quote : Char) (escaped : Bool) (chars : List Char) :
    ((pastQuote? quote escaped chars).getD []).length ≤ chars.length := by
  have whole := congrArg List.length (literalBody_append quote escaped chars)
  rw [List.length_append] at whole
  omega

/-! ## The cut -/

def cut : List Char → List Piece
  | [] => []
  | c :: rest =>
    if isQuote c then
      ⟨.literal, c :: literalBody c false rest⟩ :: cut ((pastQuote? c false rest).getD [])
    else if isSeparator c then ⟨.plain, [c]⟩ :: cut rest
    else ⟨.plain, c :: rest.takeWhile isWordChar⟩ :: cut (rest.dropWhile isWordChar)
termination_by chars => chars.length
decreasing_by
  · have shorter := length_pastQuote?_le c false rest
    simp only [List.length_cons]
    omega
  · simp
  · have shorter := (List.dropWhile_sublist isWordChar (l := rest)).length_le
    simp only [List.length_cons]
    omega

@[simp]
theorem cut_nil : cut [] = [] := by
  rw [cut]

theorem cut_quote {c : Char} (rest : List Char) (quote : isQuote c = true) :
    cut (c :: rest) =
      ⟨.literal, c :: literalBody c false rest⟩ :: cut ((pastQuote? c false rest).getD []) := by
  rw [cut, if_pos quote]

theorem cut_separator {c : Char} (rest : List Char) (separator : isSeparator c = true) :
    cut (c :: rest) = ⟨.plain, [c]⟩ :: cut rest := by
  have notQuote : ¬ isQuote c = true := by
    intro quote
    rw [isSeparator_of_isQuote quote] at separator
    contradiction
  rw [cut, if_neg notQuote, if_pos separator]

theorem cut_word {c : Char} (rest : List Char) (word : isWordChar c = true) :
    cut (c :: rest) =
      ⟨.plain, c :: rest.takeWhile isWordChar⟩ :: cut (rest.dropWhile isWordChar) := by
  obtain ⟨separator, quote⟩ := isWordChar_iff.mp word
  rw [cut, if_neg (by simp [quote]), if_neg (by simp [separator])]

/-! ## What a cut has to satisfy -/

namespace Piece

def IsSeparator (piece : Piece) : Prop :=
  piece.kind = .plain ∧ ∃ c, isSeparator c = true ∧ piece.chars = [c]

def IsWord (piece : Piece) : Prop :=
  piece.kind = .plain ∧ piece.chars ≠ [] ∧ ∀ c ∈ piece.chars, isWordChar c = true

/-- The last character is the first unescaped quote after the opening one. -/
def IsClosed (piece : Piece) : Prop :=
  piece.kind = .literal ∧ ∃ quote body, isQuote quote = true ∧ piece.chars = quote :: body ∧
    pastQuote? quote false body = some []

/-- No unescaped quote follows the opening one. -/
def IsOpen (piece : Piece) : Prop :=
  piece.kind = .literal ∧ ∃ quote body, isQuote quote = true ∧ piece.chars = quote :: body ∧
    pastQuote? quote false body = none

/-- May `next` follow directly?  Nothing follows an open literal, and no word another one. -/
def MayPrecede (piece next : Piece) : Prop :=
  ¬ piece.IsOpen ∧ ¬ (piece.IsWord ∧ next.IsWord)

theorem not_isOpen_of_plain {piece : Piece} (plain : piece.kind = .plain) : ¬ piece.IsOpen := by
  rintro ⟨literal, _⟩
  rw [plain] at literal
  contradiction

theorem not_isWord_of_literal {piece : Piece} (literal : piece.kind = .literal) :
    ¬ piece.IsWord := by
  rintro ⟨plain, _⟩
  rw [literal] at plain
  contradiction

theorem not_isOpen_of_isClosed {piece : Piece} (closed : piece.IsClosed) : ¬ piece.IsOpen := by
  obtain ⟨_, quote, body, _, chars, found⟩ := closed
  rintro ⟨_, quote', body', _, chars', missing⟩
  rw [chars, List.cons.injEq] at chars'
  obtain ⟨rfl, rfl⟩ := chars'
  rw [found] at missing
  contradiction

theorem not_isWord_of_isSeparator {piece : Piece} (separator : piece.IsSeparator) :
    ¬ piece.IsWord := by
  obtain ⟨_, c, isSep, chars⟩ := separator
  rintro ⟨_, _, word⟩
  have both := isWordChar_iff.mp (word c (by rw [chars]; exact List.mem_singleton_self c))
  rw [isSep] at both
  exact absurd both.1 (by decide)

end Piece

def IsFormed (piece : Piece) : Prop :=
  piece.IsSeparator ∨ piece.IsWord ∨ piece.IsClosed ∨ piece.IsOpen

theorem IsFormed.ne_nil {piece : Piece} (formed : IsFormed piece) : piece.chars ≠ [] := by
  rcases formed with ⟨_, c, _, chars⟩ | ⟨_, nonempty, _⟩ | ⟨_, _, _, _, chars, _⟩ |
    ⟨_, _, _, _, chars, _⟩
  · simp [chars]
  · exact nonempty
  · simp [chars]
  · simp [chars]

/-- The pieces make up the text, each of them is formed as it should be, and each may precede the
next. -/
structure IsCut (chars : List Char) (pieces : List Piece) : Prop where
  whole : pieces.flatMap Piece.chars = chars
  formed : ∀ piece ∈ pieces, IsFormed piece
  ordered : pieces.IsChain Piece.MayPrecede

namespace IsCut

variable {chars : List Char} {piece : Piece} {pieces : List Piece}

theorem nil : IsCut [] [] :=
  ⟨rfl, by simp, List.isChain_nil⟩

theorem cons (formed : IsFormed piece) (first : ∀ next ∈ pieces.head?, piece.MayPrecede next)
    (later : IsCut chars pieces) : IsCut (piece.chars ++ chars) (piece :: pieces) := by
  refine ⟨?_, ?_, List.isChain_cons.mpr ⟨first, later.ordered⟩⟩
  · rw [List.flatMap_cons, later.whole]
  · intro other member
    rcases List.mem_cons.mp member with rfl | member
    · exact formed
    · exact later.formed other member

theorem singleton (formed : IsFormed piece) : IsCut piece.chars [piece] := by
  have alone := cons formed (by simp) nil
  rw [List.append_nil] at alone
  exact alone

theorem tail (isCut : IsCut chars (piece :: pieces)) :
    IsCut (pieces.flatMap Piece.chars) pieces :=
  ⟨rfl, fun other member => isCut.formed other (List.mem_cons_of_mem _ member),
    (List.isChain_cons.mp isCut.ordered).2⟩

theorem append {left right : List Char} {first second : List Piece}
    (isCut : IsCut left first) (isCut' : IsCut right second)
    (border : ∀ last ∈ first.getLast?, ∀ next ∈ second.head?, last.MayPrecede next) :
    IsCut (left ++ right) (first ++ second) := by
  refine ⟨?_, ?_, List.isChain_append.mpr ⟨isCut.ordered, isCut'.ordered, border⟩⟩
  · rw [List.flatMap_append, isCut.whole, isCut'.whole]
  · intro piece member
    rcases List.mem_append.mp member with early | late
    · exact isCut.formed piece early
    · exact isCut'.formed piece late

theorem of_append {first second : List Piece} (isCut : IsCut chars (first ++ second)) :
    IsCut (first.flatMap Piece.chars) first ∧ IsCut (second.flatMap Piece.chars) second ∧
      ∀ last ∈ first.getLast?, ∀ next ∈ second.head?, last.MayPrecede next := by
  obtain ⟨early, late, border⟩ := List.isChain_append.mp isCut.ordered
  exact ⟨⟨rfl, fun piece member => isCut.formed piece (List.mem_append_left _ member), early⟩,
    ⟨rfl, fun piece member => isCut.formed piece (List.mem_append_right _ member), late⟩, border⟩

theorem head_formed (isCut : IsCut chars (piece :: pieces)) : IsFormed piece :=
  isCut.formed piece List.mem_cons_self

theorem isWordChar_eq_false_of_head (isCut : IsCut chars pieces)
    (apart : ∀ next ∈ pieces.head?, ¬ next.IsWord) :
    ∀ c ∈ chars.head?, isWordChar c = false := by
  intro c head
  cases pieces with
  | nil =>
      rw [← isCut.whole] at head
      simp at head
  | cons next others =>
      rw [← isCut.whole, List.flatMap_cons] at head
      rcases isCut.head_formed with ⟨_, d, separator, chars⟩ | word | closed | unclosed
      · rw [chars] at head
        obtain rfl : d = c := by simpa using head
        exact isWordChar_eq_false_iff.mpr (.inl separator)
      · exact absurd word (apart next rfl)
      · obtain ⟨_, quote, body, isQuote, chars, _⟩ := closed
        rw [chars] at head
        obtain rfl : quote = c := by simpa using head
        exact isWordChar_eq_false_iff.mpr (.inr isQuote)
      · obtain ⟨_, quote, body, isQuote, chars, _⟩ := unclosed
        rw [chars] at head
        obtain rfl : quote = c := by simpa using head
        exact isWordChar_eq_false_iff.mpr (.inr isQuote)

theorem not_isWord_of_head (isCut : IsCut chars pieces)
    (stop : ∀ c ∈ chars.head?, isWordChar c = false) :
    ∀ next ∈ pieces.head?, ¬ next.IsWord := by
  intro next head isWord
  obtain ⟨_, nonempty, inside⟩ := isWord
  obtain ⟨others, rfl⟩ := List.head?_eq_some_iff.mp head
  obtain ⟨c, rest, text⟩ := List.exists_cons_of_ne_nil nonempty
  have start : chars.head? = some c := by
    rw [← isCut.whole, List.flatMap_cons, text]
    rfl
  have stopped := stop c start
  rw [inside c (by simp [text])] at stopped
  contradiction

end IsCut

/-! ## There is exactly one -/

theorem takeWhile_isWordChar_append {word rest : List Char}
    (inside : ∀ c ∈ word, isWordChar c = true) (stop : ∀ c ∈ rest.head?, isWordChar c = false) :
    (word ++ rest).takeWhile isWordChar = word ∧ (word ++ rest).dropWhile isWordChar = rest := by
  rw [List.takeWhile_append_of_pos inside, List.dropWhile_append_of_pos inside]
  cases rest with
  | nil => simp
  | cons c others =>
      have stopped : isWordChar c = false := stop c rfl
      simp [stopped]

theorem cut_eq_of_isCut {pieces : List Piece} :
    ∀ {chars : List Char}, IsCut chars pieces → cut chars = pieces := by
  induction pieces with
  | nil =>
      intro chars isCut
      rw [← isCut.whole]
      exact cut_nil
  | cons piece others ih =>
      intro chars isCut
      have later := ih isCut.tail
      have first := (List.isChain_cons.mp isCut.ordered).1
      rw [← isCut.whole, List.flatMap_cons]
      obtain ⟨kind, text⟩ := piece
      rcases isCut.head_formed with
        ⟨rfl, c, separator, rfl⟩ | word | closed | unclosed
      · rw [List.singleton_append, cut_separator _ separator, later]
      · have stop := isCut.tail.isWordChar_eq_false_of_head
          fun next head isWord => (first next head).2 ⟨word, isWord⟩
        obtain ⟨rfl, nonempty, inside⟩ := word
        cases text with
        | nil => exact absurd rfl nonempty
        | cons c rest =>
            obtain ⟨start, inner⟩ := List.forall_mem_cons.mp inside
            obtain ⟨taken, dropped⟩ := takeWhile_isWordChar_append inner stop
            rw [List.cons_append, cut_word _ start, taken, dropped, later]
      · obtain ⟨rfl, quote, body, isQuote, rfl, found⟩ := closed
        have past := pastQuote?_append found (others.flatMap Piece.chars)
        have whole := literalBody_append quote false (body ++ others.flatMap Piece.chars)
        rw [past, Option.getD_some, List.nil_append] at whole
        rw [List.cons_append, cut_quote _ isQuote, past, Option.getD_some, List.nil_append, later,
          List.append_cancel_right whole]
      · have last : others = [] := by
          cases others with
          | nil => rfl
          | cons next rest => exact absurd unclosed (first next rfl).1
        subst last
        obtain ⟨rfl, quote, body, isQuote, rfl, missing⟩ := unclosed
        rw [List.flatMap_nil, List.append_nil, cut_quote _ isQuote, missing,
          literalBody_of_pastQuote?_eq_none missing, Option.getD_none, cut_nil]

theorem IsCut.eq_nil {pieces : List Piece} (isCut : IsCut [] pieces) : pieces = [] := by
  rw [← cut_eq_of_isCut isCut, cut_nil]

theorem IsCut.cons_literal {c : Char} {rest : List Char} {pieces : List Piece}
    (quote : isQuote c = true) (later : IsCut ((pastQuote? c false rest).getD []) pieces) :
    IsCut (c :: rest) (⟨.literal, c :: literalBody c false rest⟩ :: pieces) := by
  have read := pastQuote?_literalBody c false rest
  have whole := literalBody_append c false rest
  cases past : pastQuote? c false rest with
  | none =>
      rw [past] at later read
      rw [later.eq_nil, literalBody_of_pastQuote?_eq_none past]
      rw [literalBody_of_pastQuote?_eq_none past] at read
      have unclosed : Piece.IsOpen ⟨.literal, c :: rest⟩ := ⟨rfl, c, rest, quote, rfl, read⟩
      exact .singleton (.inr (.inr (.inr unclosed)))
  | some after =>
      rw [past] at later read whole
      have closed : Piece.IsClosed ⟨.literal, c :: literalBody c false rest⟩ :=
        ⟨rfl, c, _, quote, rfl, read⟩
      have built := IsCut.cons (.inr (.inr (.inl closed)))
        (fun next _ => ⟨Piece.not_isOpen_of_isClosed closed,
          fun both => Piece.not_isWord_of_literal rfl both.1⟩) later
      rwa [List.cons_append, whole] at built

theorem IsCut.cons_separator {c : Char} {rest : List Char} {pieces : List Piece}
    (separator : isSeparator c = true) (later : IsCut rest pieces) :
    IsCut (c :: rest) (⟨.plain, [c]⟩ :: pieces) := by
  have formed : Piece.IsSeparator ⟨.plain, [c]⟩ := ⟨rfl, c, separator, rfl⟩
  exact IsCut.cons (.inl formed)
    (fun next _ => ⟨Piece.not_isOpen_of_plain rfl,
      fun both => Piece.not_isWord_of_isSeparator formed both.1⟩) later

theorem IsCut.cons_word {c : Char} {rest : List Char} {pieces : List Piece}
    (word : isWordChar c = true) (later : IsCut (rest.dropWhile isWordChar) pieces) :
    IsCut (c :: rest) (⟨.plain, c :: rest.takeWhile isWordChar⟩ :: pieces) := by
  have formed : Piece.IsWord ⟨.plain, c :: rest.takeWhile isWordChar⟩ := by
    refine ⟨rfl, by simp, ?_⟩
    intro d member
    rcases List.mem_cons.mp member with rfl | member
    · exact word
    · exact List.mem_takeWhile_imp member
  have apart : ∀ next ∈ pieces.head?, ¬ next.IsWord := by
    apply later.not_isWord_of_head
    intro d start
    have stopped := List.head?_dropWhile_not isWordChar rest
    rw [Option.mem_def] at start
    simpa [start] using stopped
  have built := IsCut.cons (.inr (.inl formed))
    (fun next head => ⟨Piece.not_isOpen_of_plain rfl, fun both => apart next head both.2⟩) later
  rwa [List.cons_append, List.takeWhile_append_dropWhile] at built

theorem isCut_cut (chars : List Char) : IsCut chars (cut chars) := by
  fun_induction cut chars with
  | case1 => exact .nil
  | case2 c rest quote later => exact later.cons_literal quote
  | case3 c rest _ separator later => exact later.cons_separator separator
  | case4 c rest quote separator later =>
      have word := isWordChar_iff.mpr ⟨by simpa using separator, by simpa using quote⟩
      exact later.cons_word word

end Highlighter
