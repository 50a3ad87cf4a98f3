import Highlighter.Proofs.Token.Stream

/-! # Tokens from one pass over the characters

An automaton that is given the characters one at a time, each with its offset, and looks neither
ahead nor back.  It is in one of two modes and remembers where the word or the literal in hand
started.  Its tokens are those of the text. -/

set_option autoImplicit false

namespace Highlighter

open Alphabet Text

/-- The characters with their offsets, the first of which is `offset`. -/
def charOffsets : Nat → List Char → List (Nat × Char)
  | _, [] => []
  | offset, c :: rest => (offset, c) :: charOffsets (offset + c.utf8Size) rest

inductive Mode where
  /-- Outside of literals; the word in hand is everything from `start` on and may be empty. -/
  | plain (start : Nat)
  /-- In a literal that `quote` opened at `start`; `escaped` after a backslash. -/
  | literal (start : Nat) (quote : Char) (escaped : Bool)
deriving DecidableEq, Repr

namespace Mode

/-- The word from `start` up to `stop`; an empty one is no token. -/
def word (start stop : Nat) : List Token :=
  if start < stop then [Token.plain start (stop - 1)] else []

def read (offset : Nat) (c : Char) : Mode → Mode × List Token
  | plain start =>
    if isQuote c then (literal offset c false, word start offset)
    else if isSeparator c then
      (plain (offset + c.utf8Size),
        word start offset ++ [Token.plain offset (offset + c.utf8Size - 1)])
    else (plain start, [])
  | literal start quote true => (literal start quote false, [])
  | literal start quote false =>
    if c = '\\' then (literal start quote true, [])
    else if c = quote then
      (plain (offset + c.utf8Size), [Token.literal start (offset + c.utf8Size - 1)])
    else (literal start quote false, [])

/-- The tokens that the end of the text at `stop` completes. -/
def finish (stop : Nat) : Mode → List Token
  | plain start => word start stop
  | literal start _ _ => [Token.literal start (stop - 1)]

def run (stop : Nat) : Mode → List (Nat × Char) → List Token
  | mode, [] => mode.finish stop
  | mode, (offset, c) :: rest => (mode.read offset c).2 ++ run stop (mode.read offset c).1 rest

theorem word_self (start : Nat) : word start start = [] :=
  if_neg (Nat.lt_irrefl start)

theorem word_of_lt {start stop : Nat} (less : start < stop) :
    word start stop = [Token.plain start (stop - 1)] :=
  if_pos less

/-- What the automaton gives for the rest of a text: with no word in hand the cut of the rest,
with a word in hand first the end of that word, in a literal first the end of the literal. -/
structure Follows (offset stop : Nat) (ahead : List Char) : Prop where
  between : run stop (plain offset) (charOffsets offset ahead) = layout offset (cut ahead)
  inWord : ∀ start < offset,
    run stop (plain start) (charOffsets offset ahead) =
      Token.plain start (offset + byteLength (ahead.takeWhile isWordChar) - 1) ::
        layout (offset + byteLength (ahead.takeWhile isWordChar))
          (cut (ahead.dropWhile isWordChar))
  inLiteral : ∀ (start : Nat) (quote : Char) (escaped : Bool),
    run stop (literal start quote escaped) (charOffsets offset ahead) =
      Token.literal start (offset + byteLength (literalBody quote escaped ahead) - 1) ::
        layout (offset + byteLength (literalBody quote escaped ahead))
          (cut ((pastQuote? quote escaped ahead).getD []))

theorem follows_nil (stop : Nat) : Follows stop stop [] := by
  refine ⟨?_, ?_, ?_⟩
  · rw [cut_nil]
    exact word_self stop
  · intro start less
    simp only [charOffsets, run, finish, List.takeWhile_nil, List.dropWhile_nil, cut_nil, layout,
      byteLength_nil, Nat.add_zero, word_of_lt less]
  · intro start quote escaped
    cases escaped <;>
      simp only [charOffsets, run, finish, literalBody, pastQuote?, Option.getD_none, cut_nil,
        layout, byteLength_nil, Nat.add_zero]

section Step

variable {offset stop : Nat} {c : Char} {rest : List Char}

/-- A quote and a separator end the word in hand, and then the automaton goes on as if there had
been none. -/
theorem run_plain_of_stop (notWord : isWordChar c = false)
    (later : Follows (offset + c.utf8Size) stop rest) (start : Nat) :
    run stop (plain start) (charOffsets offset (c :: rest)) =
      word start offset ++ layout offset (cut (c :: rest)) := by
  rw [charOffsets, run, read]
  by_cases quote : isQuote c = true
  · rw [if_pos quote, later.inLiteral, cut_quote rest quote, layout]
    simp only [Piece.token, Token.literal, byteLength_cons, Nat.add_assoc]
  · have separator : isSeparator c = true :=
      (isWordChar_eq_false_iff.mp notWord).resolve_right quote
    rw [if_neg quote, if_pos separator, later.between, cut_separator rest separator, layout]
    simp only [Piece.token, Token.plain, byteLength_cons, byteLength_nil, Nat.add_zero,
      List.append_assoc, List.singleton_append]

theorem run_plain_of_word (isWord : isWordChar c = true)
    (later : Follows (offset + c.utf8Size) stop rest) {start : Nat} (le : start ≤ offset) :
    run stop (plain start) (charOffsets offset (c :: rest)) =
      Token.plain start (offset + byteLength (c :: rest.takeWhile isWordChar) - 1) ::
        layout (offset + byteLength (c :: rest.takeWhile isWordChar))
          (cut (rest.dropWhile isWordChar)) := by
  obtain ⟨separator, quote⟩ := isWordChar_iff.mp isWord
  have width := c.utf8Size_pos
  rw [charOffsets, run, read, if_neg (by simp [quote]), if_neg (by simp [separator]),
    later.inWord start (by omega), List.nil_append]
  simp only [byteLength_cons, Nat.add_assoc]

theorem run_literal (later : Follows (offset + c.utf8Size) stop rest) (start : Nat) (quote : Char)
    (escaped : Bool) :
    run stop (literal start quote escaped) (charOffsets offset (c :: rest)) =
      Token.literal start (offset + byteLength (literalBody quote escaped (c :: rest)) - 1) ::
        layout (offset + byteLength (literalBody quote escaped (c :: rest)))
          (cut ((pastQuote? quote escaped (c :: rest)).getD [])) := by
  cases escaped with
  | true =>
      rw [charOffsets, run, read, later.inLiteral, List.nil_append]
      simp only [literalBody, pastQuote?, byteLength_cons, Nat.add_assoc]
  | false =>
      rw [charOffsets, run, read, literalBody, pastQuote?]
      by_cases escape : c = '\\'
      · simp only [if_pos escape, later.inLiteral, List.nil_append, byteLength_cons, Nat.add_assoc]
      · by_cases closing : c = quote
        · simp only [if_neg escape, if_pos closing, later.between, Option.getD_some,
            byteLength_cons, byteLength_nil, Nat.add_zero, List.singleton_append]
        · simp only [if_neg escape, if_neg closing, later.inLiteral, List.nil_append,
            byteLength_cons, Nat.add_assoc]

theorem Follows.cons (later : Follows (offset + c.utf8Size) stop rest) :
    Follows offset stop (c :: rest) := by
  by_cases isWord : isWordChar c = true
  · refine ⟨?_, ?_, run_literal later⟩
    · rw [run_plain_of_word isWord later (Nat.le_refl offset), cut_word rest isWord]
      rfl
    · intro start less
      rw [run_plain_of_word isWord later (Nat.le_of_lt less), List.takeWhile_cons_of_pos isWord,
        List.dropWhile_cons_of_pos isWord]
  · have notWord : isWordChar c = false := by simpa using isWord
    refine ⟨?_, ?_, run_literal later⟩
    · rw [run_plain_of_stop notWord later offset, word_self, List.nil_append]
    · intro start less
      rw [run_plain_of_stop notWord later start, word_of_lt less,
        List.takeWhile_cons_of_neg isWord, List.dropWhile_cons_of_neg isWord]
      rfl

end Step

theorem follows (ahead : List Char) :
    ∀ offset : Nat, Follows offset (offset + byteLength ahead) ahead := by
  induction ahead with
  | nil =>
      intro offset
      exact follows_nil offset
  | cons c rest ih =>
      intro offset
      have later := ih (offset + c.utf8Size)
      rw [Nat.add_assoc, ← byteLength_cons] at later
      exact later.cons

end Mode

/-- Byte classes, widths, jumps and padding come to the same as one pass of the automaton. -/
theorem tokenize_eq_run (text : String) :
    tokenize text = Mode.run text.utf8ByteSize (.plain 0) (charOffsets 0 text.toList) := by
  have whole := (Mode.follows text.toList 0).between
  rw [Nat.zero_add, byteLength_toList] at whole
  rw [tokenize_eq_layout, whole]

/-- A quote after a backslash leaves the literal open. -/
example : Mode.run 6 (.plain 0) (charOffsets 0 ['a', ' ', '\x22', 'b', '\\', '\x22']) =
    [.plain 0 0, .plain 1 1, .literal 2 5] := by decide

end Highlighter
