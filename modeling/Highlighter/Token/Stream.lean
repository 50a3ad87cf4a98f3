import Highlighter.Token.Basic
import Highlighter.Token.Pos

/-! # The tokens of a text

From a position on, the text is cut into tokens with nothing between them:

* a quote opens a literal, which runs to the next quote of the same sort or, if there is none,
  to the end of the text; inside it a backslash takes the next character along;
* a separator is a token of its own;
* any other character starts a word, which runs to the next quote or separator or to the end.

The cut never fails.  What stands at a position is decided on its byte where the byte is ASCII
and on the decoded character elsewhere, and a literal is passed in jumps from one byte of
interest to the next. -/

set_option autoImplicit false

namespace Highlighter

open Alphabet Text

inductive Mark where
  | finish
  | quote (byte : UInt8)
  | separator
  | word
deriving DecidableEq, Repr

namespace PaddedText.Pos

variable {padded : PaddedText}

def mark (pos : padded.Pos) : Mark :=
  if pos.isEnd then .finish
  else if isQuoteByte pos.byte then .quote pos.byte
  else if isPunctuation pos.byte then .separator
  else if pos.byte < 0x80 then
    if isWhiteSpace (Char.ofUInt8 pos.byte) then .separator else .word
  else if isWhiteSpace pos.char then .separator
  else .word

theorem mark_eq_finish_iff {pos : padded.Pos} :
    pos.mark = .finish ↔ padded.length ≤ pos.offset := by
  have isEnd_iff : pos.isEnd = true ↔ padded.length ≤ pos.offset := by simp [isEnd]
  rw [← isEnd_iff]
  simp only [mark]
  repeat' split
  all_goals simp_all

theorem lt_of_mark_ne_finish {pos : padded.Pos} (more : pos.mark ≠ .finish) :
    pos.offset < padded.length :=
  Nat.lt_of_not_le fun past => more (mark_eq_finish_iff.mpr past)

/-- The first position from here on at which no word goes on. -/
def wordEnd (pos : padded.Pos) : padded.Pos :=
  if _ : pos.mark = .word then pos.next.wordEnd else pos
termination_by pos.left
decreasing_by
  have inside : pos.offset < padded.length :=
    lt_of_mark_ne_finish (by simp [‹pos.mark = .word›])
  have step := lt_next inside
  simp only [left]
  omega

theorem le_wordEnd (pos : padded.Pos) : pos.offset ≤ pos.wordEnd.offset := by
  fun_induction wordEnd pos with
  | case1 pos _ later => exact Nat.le_trans (le_next pos) later
  | case2 => exact Nat.le_refl _

/-- The position after a literal whose opening `quote` stands just before this one. -/
def literalEnd (quote : UInt8) (pos : padded.Pos) : padded.Pos :=
  if inside : (pos.find quote).offset < padded.length then
    if (pos.find quote).byte = backslash then
      ((pos.find quote).nextByte inside).next.literalEnd quote
    else (pos.find quote).nextByte inside
  else pos.find quote
termination_by pos.left
decreasing_by
  have jump := le_find quote pos
  have step := le_next ((pos.find quote).nextByte inside)
  simp only [nextByte] at step
  simp only [left, nextByte]
  omega

theorem le_literalEnd (quote : UInt8) (pos : padded.Pos) :
    pos.offset ≤ (pos.literalEnd quote).offset := by
  fun_induction literalEnd quote pos with
  | case1 pos inside _ later =>
    have jump := le_find quote pos
    have step := le_next ((pos.find quote).nextByte inside)
    simp only [nextByte] at step later ⊢
    omega
  | case2 pos inside _ =>
    have jump := le_find quote pos
    simp only [nextByte]
    omega
  | case3 pos => exact le_find quote pos

def tokenTo (kind : TokenKind) (first after : padded.Pos) : Token :=
  ⟨⟨first.offset, after.offset - 1⟩, kind⟩

def token? (pos : padded.Pos) : Option (Token × padded.Pos) :=
  match pos.mark with
  | .finish => none
  | .quote byte =>
    let after := pos.next.literalEnd byte
    some (tokenTo .literal pos after, after)
  | .separator =>
    let after := pos.next
    some (tokenTo .plain pos after, after)
  | .word =>
    let after := pos.next.wordEnd
    some (tokenTo .plain pos after, after)

theorem token?_eq_none_iff {pos : padded.Pos} :
    pos.token? = none ↔ padded.length ≤ pos.offset := by
  rw [← mark_eq_finish_iff]
  simp only [token?]
  split <;> simp_all

theorem lt_of_token?_eq_some {pos after : padded.Pos} {token : Token}
    (found : pos.token? = some (token, after)) : pos.offset < after.offset := by
  have inside : pos.offset < padded.length :=
    Nat.lt_of_not_le fun past => by simp [token?_eq_none_iff.mpr past] at found
  have step := lt_next inside
  simp only [token?] at found
  split at found
  · simp at found
  · next byte _ =>
    obtain ⟨_, rfl⟩ := by simpa using found
    exact Nat.lt_of_lt_of_le step (le_literalEnd byte _)
  · obtain ⟨_, rfl⟩ := by simpa using found
    exact step
  · obtain ⟨_, rfl⟩ := by simpa using found
    exact Nat.lt_of_lt_of_le step (le_wordEnd _)

/-- The tokens from here on, after those already `found` (the latest of them first). -/
def collect (pos : padded.Pos) (found : List Token) : List Token :=
  match _ : pos.token? with
  | none => found.reverse
  | some (token, after) => after.collect (token :: found)
termination_by pos.left
decreasing_by
  have step := lt_of_token?_eq_some ‹_›
  have bound := after.offset_le
  simp only [left]
  omega

def tokens (pos : padded.Pos) : List Token :=
  pos.collect []

theorem collect_eq (pos : padded.Pos) (found : List Token) :
    pos.collect found = found.reverse ++ pos.tokens := by
  induction measured : pos.left using Nat.strongRecOn generalizing pos found with
  | ind size shorter =>
    rw [tokens, collect, collect]
    split
    · simp
    · next token after more =>
      have step := lt_of_token?_eq_some more
      have bound := after.offset_le
      have less : after.left < size := by
        simp only [left] at measured ⊢
        omega
      rw [shorter _ less after (token :: found) rfl, shorter _ less after [token] rfl]
      simp

theorem tokens_eq (pos : padded.Pos) :
    pos.tokens = match pos.token? with
      | none => []
      | some (token, after) => token :: after.tokens := by
  rw [tokens, collect]
  split
  · next none => simp [none]
  · next token after some => simp [some, collect_eq after [token]]

/-- Takes the next token of the stream that starts here, and tells where the stream goes on.  A
stream that has ended stays where it is. -/
def pull (pos : padded.Pos) : Option Token × padded.Pos :=
  match pos.token? with
  | none => (none, pos)
  | some (token, after) => (some token, after)

def pulls (pos : padded.Pos) : Nat → List (Option Token)
  | 0 => []
  | count + 1 => pos.pull.1 :: pos.pull.2.pulls count

end PaddedText.Pos

def tokenize (text : String) : List Token :=
  (PaddedText.ofString text).startPos.tokens

end Highlighter
