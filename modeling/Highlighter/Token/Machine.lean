import Highlighter.Token.Stream

/-! # The stream on a machine

The stream as a machine with 32-bit registers computes it.  The machine scans on until a word has
ended and something else has been found behind it; it then has two tokens at once and keeps the
second in a slot of its own.

Whatever could go wrong is checked: that a sum or a difference fits its register, that a read stays
inside the buffer, that the cursor stays inside the text, that a range ends no earlier than it
starts, and that each round of a loop brings the cursor closer to the end of the text.  Where a
check fails the machine gives nothing. -/

set_option autoImplicit false

namespace Highlighter.Machine

open Alphabet Text PaddedText

/-! ## Registers -/

def fit? (value : Nat) : Option UInt32 :=
  if value < UInt32.size then some (UInt32.ofNat value) else none

def add? (x y : UInt32) : Option UInt32 := fit? (x.toNat + y.toNat)

def sub? (x y : UInt32) : Option UInt32 :=
  if y ≤ x then some (x - y) else none

def slice? (buffer : ByteArray) (first stop : UInt32) : Option ByteArray :=
  if first ≤ stop ∧ stop.toNat ≤ buffer.size then
    some (buffer.extract first.toNat stop.toNat)
  else none

/-- The first character of some bytes if they are a text, and U+FFFD otherwise. -/
def firstChar (bytes : ByteArray) : Char :=
  ((String.fromUTF8? bytes).bind fun text => text.toList.head?).getD '\uFFFD'

/-! ## Cursors -/

structure Cursor where
  buffer : ByteArray
  offset : UInt32
  length : UInt32

namespace Cursor

def ofText (text : String) : Cursor :=
  ⟨(ofString text).bytes, 0, UInt32.ofNat (ofString text).length⟩

def isEnd (cursor : Cursor) : Bool := cursor.length ≤ cursor.offset

def left (cursor : Cursor) : Nat := cursor.length.toNat - cursor.offset.toNat

def byte? (cursor : Cursor) : Option UInt8 := cursor.buffer[cursor.offset.toNat]?

def moveTo? (cursor : Cursor) (offset : UInt32) : Option Cursor :=
  if offset ≤ cursor.length then some { cursor with offset } else none

def nextByte? (cursor : Cursor) : Option Cursor := do
  cursor.moveTo? (← add? cursor.offset 1)

def stop? (cursor : Cursor) : Option UInt32 := do
  let width := UInt32.ofNat (leadWidth (← cursor.byte?))
  return min (← add? cursor.offset width) cursor.length

def char? (cursor : Cursor) : Option Char := do
  if cursor.isEnd then return '\x00'
  return firstChar (← slice? cursor.buffer cursor.offset (← cursor.stop?))

def next? (cursor : Cursor) : Option Cursor := do
  if cursor.isEnd then return cursor
  cursor.moveTo? (← cursor.stop?)

/-- Goes to the first `wanted` byte or backslash and answers which it is; at the end of the text
the answer is zero. -/
def find? (cursor : Cursor) (wanted : UInt8) : Option (UInt8 × Cursor) := do
  let ahead ← slice? cursor.buffer cursor.offset cursor.length
  match ahead.data.findIdx? fun byte => byte == wanted || byte == backslash with
  | some distance =>
    let found ← cursor.moveTo? (← add? cursor.offset (← fit? distance))
    return (← found.byte?, found)
  | none => return (0, ← cursor.moveTo? cursor.length)

def move? (cursor : Cursor) : Move → Option Cursor
  | .next => cursor.next?
  | .find wanted => do return (← cursor.find? wanted).2

def walk? (cursor : Cursor) (moves : List Move) : Option Cursor :=
  moves.foldlM move? cursor

def mark? (cursor : Cursor) : Option Mark := do
  if cursor.isEnd then return .finish
  let byte ← cursor.byte?
  if isQuoteByte byte then return .quote byte
  if isPunctuation byte then return .separator
  let c ← if byte < 0x80 then pure (Char.ofUInt8 byte) else cursor.char?
  return if isWhiteSpace c then .separator else .word

def literalEnd? (quote : UInt8) (cursor : Cursor) : Option Cursor := do
  let (found, stop) ← cursor.find? quote
  if found = backslash then
    let after ← (← stop.nextByte?).next?
    if after.left < cursor.left then literalEnd? quote after else none
  else if found = 0 then return stop
  else stop.nextByte?
termination_by cursor.left

end Cursor

/-! ## Streams -/

def token? (kind : TokenKind) (first stop : UInt32) : Option Token := do
  let last ← sub? stop 1
  if first ≤ last then some ⟨⟨first.toNat, last.toNat⟩, kind⟩ else none

structure Stream where
  cursor : Cursor
  /-- Where the word in hand started; the place of the cursor if there is none. -/
  wordStart : UInt32
  queued : Option Token

namespace Stream

def ofCursor (cursor : Cursor) : Stream := ⟨cursor, cursor.offset, none⟩

def word? (stream : Stream) (stop : UInt32) : Option (Option Token) :=
  if stream.wordStart < stop then some <$> token? .plain stream.wordStart stop else some none

/-- Gives the word in hand and then the token from here up to `after`. -/
def give? (stream : Stream) (kind : TokenKind) (after : Cursor) :
    Option (Option Token × Stream) := do
  let found ← token? kind stream.cursor.offset after.offset
  match ← stream.word? stream.cursor.offset with
  | some word => return (some word, ⟨after, after.offset, some found⟩)
  | none => return (some found, ofCursor after)

def scan? (stream : Stream) : Option (Option Token × Stream) := do
  match ← stream.cursor.mark? with
  | .finish => return (← stream.word? stream.cursor.offset, ofCursor stream.cursor)
  | .quote byte => stream.give? .literal (← (← stream.cursor.nextByte?).literalEnd? byte)
  | .separator => stream.give? .plain (← stream.cursor.next?)
  | .word =>
    let after ← stream.cursor.next?
    if after.left < stream.cursor.left then scan? { stream with cursor := after } else none
termination_by stream.cursor.left

def pull? (stream : Stream) : Option (Option Token × Stream) :=
  match stream.queued with
  | some token => some (some token, { stream with queued := none })
  | none => stream.scan?

def pulls? (stream : Stream) : Nat → Option (List (Option Token))
  | 0 => some []
  | count + 1 => do
    let (token, stream) ← stream.pull?
    return token :: (← stream.pulls? count)

end Stream

end Highlighter.Machine
