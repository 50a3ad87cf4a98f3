import Highlighter.Color.Basic

/-! # Colors by slices

A color read the way a program does that holds its text as bytes.  What follows the `#` is measured
and checked in bytes, and each channel is then cut out between two byte offsets and read as a
number.  A cut inside of a character would be the end of the program: it gives nothing here.  The
reader of numbers takes a plus before its digits; only the check of the bytes keeps it away. -/

set_option autoImplicit false

namespace Highlighter

namespace Text

/-- The text between two byte offsets, if characters start or end at both. -/
def slice? (text : String) (first stop : Nat) : Option String :=
  if first ≤ stop ∧ String.Pos.Raw.isValid text ⟨first⟩ ∧ String.Pos.Raw.isValid text ⟨stop⟩ then
    some (String.Pos.Raw.extract text ⟨first⟩ ⟨stop⟩)
  else none

def isHexByte (byte : UInt8) : Bool :=
  (48 ≤ byte && byte ≤ 57) || (65 ≤ byte && byte ≤ 70) || (97 ≤ byte && byte ≤ 102)

/-- A number with one more digit, as long as it fits a byte. -/
def appendHex? (value : Nat) (c : Char) : Option Nat := do
  let digit ← hexValue? c
  if value * 16 + digit < 256 then some (value * 16 + digit) else none

/-- The byte that a text writes in hexadecimal digits, with or without a plus before them. -/
def byteOfHex? (text : String) : Option UInt8 :=
  let digits := match text.toList with
    | '+' :: digits => digits
    | digits => digits
  if digits.isEmpty then none else (digits.foldlM appendHex? 0).map UInt8.ofNat

end Text

namespace Color

open Text

def channelAt (text digits : String) (first : Nat) : ExceptT ColorFault Option UInt8 := do
  match byteOfHex? (← slice? digits first (first + 2)) with
  | some byte => return byte
  | none => throw (.noDigit text)

/-- Gives nothing where a cut fails. -/
def parseSlices (text : String) : ExceptT ColorFault Option Color :=
  match text.toList with
  | '#' :: rest => do
    let digits := String.ofList rest
    if digits.utf8ByteSize ≠ 6 then throw (.wrongLength text)
    if !digits.toUTF8.data.all isHexByte then throw (.noDigit text)
    return ⟨← channelAt text digits 0, ← channelAt text digits 2, ← channelAt text digits 4⟩
  | _ => throw (.noHash text)

end Color

end Highlighter
