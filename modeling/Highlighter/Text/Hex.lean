/-! # Hexadecimal digits

Digits are read in either case and written in the case that the output asks for.  A number is
written with no more digits than it needs; a byte is written with two. -/

set_option autoImplicit false

namespace Highlighter.Text

def hexValue? (c : Char) : Option Nat :=
  if '0' ≤ c ∧ c ≤ '9' then some (c.toNat - 48)
  else if 'A' ≤ c ∧ c ≤ 'F' then some (c.toNat - 55)
  else if 'a' ≤ c ∧ c ≤ 'f' then some (c.toNat - 87)
  else none

def upperHexDigit (value : Nat) : Char :=
  Char.ofNat (if value < 10 then value + 48 else value + 55)

def lowerHexDigit (value : Nat) : Char :=
  Char.ofNat (if value < 10 then value + 48 else value + 87)

def upperHexByte (byte : UInt8) : List Char :=
  [upperHexDigit (byte.toNat / 16), upperHexDigit (byte.toNat % 16)]

def lowerHexByte (byte : UInt8) : List Char :=
  [lowerHexDigit (byte.toNat / 16), lowerHexDigit (byte.toNat % 16)]

/-- The lower-case digits of a number, without leading zeros. -/
def lowerHex (value : Nat) : List Char :=
  Nat.toDigits 16 value

theorem hexValue?_upperHexDigit {value : Nat} (small : value < 16) :
    hexValue? (upperHexDigit value) = some value := by
  have every : ∀ digit : Fin 16, hexValue? (upperHexDigit digit) = some digit.val := by decide
  exact every ⟨value, small⟩

theorem hexValue?_lowerHexDigit {value : Nat} (small : value < 16) :
    hexValue? (lowerHexDigit value) = some value := by
  have every : ∀ digit : Fin 16, hexValue? (lowerHexDigit digit) = some digit.val := by decide
  exact every ⟨value, small⟩

end Highlighter.Text
