import Highlighter.Decimal.Shortest

/-! # Decimal layout

How a decimal is laid out as text: positionally while its leading digit is not too far from the
point, and with an exponent elsewhere. -/

set_option autoImplicit false

namespace Highlighter.Decimal

structure Layout where
  /-- The least place of the leading digit that is written positionally. -/
  lowest : Int
  /-- The greatest such place. -/
  highest : Int

/-- Numbers are positional from a leading place of -5 up to 15, and a whole number keeps a zero
after the point.  Elsewhere one digit stands before the point, and the exponent has a sign and no
leading zero. -/
def standard : Layout := ⟨-5, 15⟩

namespace Layout

def zeros (count : Int) : List Char := List.replicate count.toNat '0'

def scientific (digits : List Char) (place : Int) : List Char :=
  let fraction := if digits.length ≤ 1 then [] else '.' :: digits.drop 1
  digits.take 1 ++ fraction ++ ['e', if place < 0 then '-' else '+']
    ++ Nat.toDigits 10 place.natAbs

def positional (digits : List Char) (place : Int) : List Char :=
  if place < 0 then ['0', '.'] ++ zeros (-place - 1) ++ digits
  else if digits.length ≤ place + 1 then
    digits ++ zeros (place + 1 - digits.length) ++ ['.', '0']
  else digits.take (place.toNat + 1) ++ '.' :: digits.drop (place.toNat + 1)

def decimal (form : Layout) (number : Denary) : List Char :=
  let digits := Nat.toDigits 10 number.digits
  let place := number.exponent + digits.length - 1
  if form.lowest ≤ place ∧ place ≤ form.highest then positional digits place
  else scientific digits place

def double (form : Layout) (bits : UInt64) : String :=
  let (negative, value) := Binary.ofBits bits
  let sign := if negative then ['-'] else []
  let magnitude :=
    if value.significand = 0 then ['0', '.', '0'] else form.decimal (shortest value)
  String.ofList (sign ++ magnitude)

end Layout

end Highlighter.Decimal
