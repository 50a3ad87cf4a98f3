/-! # UTF-8 with damage

Any bytes decode to a text.  A well-formed sequence gives its character; wherever the bytes
leave the form, the part of a sequence read so far, or else the offending byte alone, gives one
replacement character U+FFFD, and decoding goes on with the byte that did not fit.

The decoder is a machine over bytes.  Between two bytes it remembers only the sequence that it
is inside of: the value so far, the number of bytes still to come and the range in which the
next of them has to lie. -/

set_option autoImplicit false

namespace Highlighter.Text

/-- The number of bytes of the UTF-8 form of `chars`. -/
def byteLength (chars : List Char) : Nat :=
  chars.foldr (fun c length => c.utf8Size + length) 0

@[simp]
theorem byteLength_nil : byteLength [] = 0 := rfl

@[simp]
theorem byteLength_cons (c : Char) (chars : List Char) :
    byteLength (c :: chars) = c.utf8Size + byteLength chars := rfl

@[simp]
theorem byteLength_append (left right : List Char) :
    byteLength (left ++ right) = byteLength left + byteLength right := by
  induction left with
  | nil => simp
  | cons c rest ih => rw [List.cons_append, byteLength_cons, byteLength_cons, ih, Nat.add_assoc]

def replacement : Char := '\uFFFD'

/-- A sequence whose first bytes have been read. -/
structure Pending where
  value : Nat
  missing : Nat
  low : UInt8
  high : UInt8
deriving DecidableEq, Repr

namespace Pending

/-- The sequence that `byte` starts, if it starts one of two bytes or more.  The range for the
second byte keeps out overlong forms, surrogates and values above U+10FFFF. -/
def start? (byte : UInt8) : Option Pending :=
  if 0xC2 ≤ byte ∧ byte ≤ 0xDF then some ⟨byte.toNat - 0xC0, 1, 0x80, 0xBF⟩
  else if byte = 0xE0 then some ⟨0, 2, 0xA0, 0xBF⟩
  else if byte = 0xED then some ⟨0xD, 2, 0x80, 0x9F⟩
  else if 0xE1 ≤ byte ∧ byte ≤ 0xEF then some ⟨byte.toNat - 0xE0, 2, 0x80, 0xBF⟩
  else if byte = 0xF0 then some ⟨0, 3, 0x90, 0xBF⟩
  else if byte = 0xF4 then some ⟨4, 3, 0x80, 0x8F⟩
  else if 0xF1 ≤ byte ∧ byte ≤ 0xF3 then some ⟨byte.toNat - 0xF0, 3, 0x80, 0xBF⟩
  else none

def accepts (pending : Pending) (byte : UInt8) : Bool :=
  pending.low ≤ byte && byte ≤ pending.high

def extend (pending : Pending) (byte : UInt8) : Nat :=
  pending.value * 64 + (byte.toNat - 0x80)

end Pending

/-- What a byte outside of every sequence gives: its characters and the sequence it starts. -/
def decodeFirst (byte : UInt8) : List Char × Option Pending :=
  if byte < 0x80 then ([Char.ofUInt8 byte], none)
  else match Pending.start? byte with
    | some pending => ([], some pending)
    | none => ([replacement], none)

def decodeStep (state : Option Pending) (byte : UInt8) : List Char × Option Pending :=
  match state with
  | none => decodeFirst byte
  | some pending =>
    if pending.accepts byte then
      if pending.missing ≤ 1 then ([Char.ofNat (pending.extend byte)], none)
      else ([], some ⟨pending.extend byte, pending.missing - 1, 0x80, 0xBF⟩)
    else
      let (chars, next) := decodeFirst byte
      (replacement :: chars, next)

def decodeEnd : Option Pending → List Char
  | none => []
  | some _ => [replacement]

/-- A decoder in the middle of its bytes; the characters are kept with the latest first. -/
structure Decoder where
  chars : List Char
  state : Option Pending

namespace Decoder

def start : Decoder := ⟨[], none⟩

def feed (decoder : Decoder) (byte : UInt8) : Decoder :=
  let (chars, state) := decodeStep decoder.state byte
  ⟨chars.reverseAux decoder.chars, state⟩

def finish (decoder : Decoder) : List Char :=
  ((decodeEnd decoder.state).reverseAux decoder.chars).reverse

end Decoder

def decodeLossy (bytes : ByteArray) : String :=
  String.ofList (bytes.foldl Decoder.feed Decoder.start).finish

/-- Bytes that are a text are taken as they are, and only others go through the decoder. -/
def decode (bytes : ByteArray) : String :=
  match String.fromUTF8? bytes with
  | some text => text
  | none => decodeLossy bytes

end Highlighter.Text
