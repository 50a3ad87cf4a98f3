import Highlighter.Token.Alphabet
import Highlighter.Token.PaddedText

/-! # Positions in a padded text

A position is a byte offset that never passes the end of its text.  It moves on by whole
characters or jumps to a byte of interest; both stop at the end, so no move can fail.

The width of a character is read off its first byte alone.  From inside a character, where a jump
may have led, a position therefore moves on byte by byte until the next character starts. -/

set_option autoImplicit false

namespace Highlighter

open Alphabet

/-- The number of bytes of the character that starts with `byte`; one for a byte that starts
no character. -/
def leadWidth (byte : UInt8) : Nat :=
  if 0xC0 ≤ byte ∧ byte ≤ 0xDF then 2
  else if 0xE0 ≤ byte ∧ byte ≤ 0xEF then 3
  else if 0xF0 ≤ byte ∧ byte ≤ 0xF7 then 4
  else 1

theorem leadWidth_pos (byte : UInt8) : 0 < leadWidth byte := by
  simp only [leadWidth]
  repeat' split
  all_goals decide

namespace PaddedText

@[ext]
structure Pos (padded : PaddedText) where
  offset : Nat
  offset_le : offset ≤ padded.length

def startPos (padded : PaddedText) : padded.Pos :=
  ⟨0, Nat.zero_le _⟩

namespace Pos

variable {padded : PaddedText}

def left (pos : padded.Pos) : Nat :=
  padded.length - pos.offset

def isEnd (pos : padded.Pos) : Bool :=
  padded.length ≤ pos.offset

/-- The byte at the position; at the end this is the first byte of the padding. -/
def byte (pos : padded.Pos) : UInt8 :=
  have inside : pos.offset < padded.bytes.size := Nat.lt_of_le_of_lt pos.offset_le padded.length_lt
  padded.bytes[pos.offset]

/-- The character at the position: the null character at the end, and U+FFFD where the bytes
decode to none. -/
def char (pos : padded.Pos) : Char :=
  if pos.isEnd then '\x00'
  else (padded.bytes.utf8DecodeChar? pos.offset).getD '\uFFFD'

def nextByte (pos : padded.Pos) (inside : pos.offset < padded.length) : padded.Pos :=
  ⟨pos.offset + 1, inside⟩

def next (pos : padded.Pos) : padded.Pos :=
  ⟨min (pos.offset + leadWidth pos.byte) padded.length, Nat.min_le_right _ _⟩

theorem lt_next {pos : padded.Pos} (inside : pos.offset < padded.length) :
    pos.offset < pos.next.offset := by
  have width := leadWidth_pos pos.byte
  simp only [next]
  omega

theorem le_next (pos : padded.Pos) : pos.offset ≤ pos.next.offset := by
  have bound := pos.offset_le
  simp only [next]
  omega

/-- The first position from here on whose byte is `wanted` or a backslash, or else the end. -/
def find (wanted : UInt8) (pos : padded.Pos) : padded.Pos :=
  if inside : pos.offset < padded.length then
    if pos.byte = wanted ∨ pos.byte = backslash then pos
    else (pos.nextByte inside).find wanted
  else pos
termination_by pos.left
decreasing_by
  simp only [left, nextByte]
  omega

theorem le_find (wanted : UInt8) (pos : padded.Pos) : pos.offset ≤ (pos.find wanted).offset := by
  fun_induction find wanted pos with
  | case1 => exact Nat.le_refl _
  | case2 pos inside _ later => exact Nat.le_trans (Nat.le_succ _) later
  | case3 => exact Nat.le_refl _

end Pos

inductive Move where
  | next
  | find (wanted : UInt8)
deriving DecidableEq, Repr

namespace Pos

variable {padded : PaddedText}

def move (pos : padded.Pos) : Move → padded.Pos
  | .next => pos.next
  | .find wanted => pos.find wanted

def walk (pos : padded.Pos) (moves : List Move) : padded.Pos :=
  moves.foldl move pos

end Pos

end PaddedText

end Highlighter
