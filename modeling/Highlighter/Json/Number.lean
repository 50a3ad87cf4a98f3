import Highlighter.Json.Reader

/-! # JSON numbers

Digits are gathered into a significand as long as it fits 64 bits; of the digits after that,
those before the point still count as places and the others are dropped.  The value is the
significand as a double, scaled by one power of ten.  A number without fraction and exponent
stays an integer if 64 bits hold it. -/

set_option autoImplicit false

namespace Highlighter.Json

def significandMax : Nat := 0xFFFFFFFFFFFFFFFF

def exponentMax : Nat := 0x7FFFFFFF

def digitValue? (c : Char) : Option Nat :=
  if '0' ≤ c ∧ c ≤ '9' then some (c.toNat - 48) else none

def powerOfTen (power : Nat) : Float := Float.ofScientific 1 false power

def scaleDown (value : Float) (power : Nat) : Float :=
  if power ≤ 308 then value / powerOfTen power
  else if value == 0.0 then value
  else scaleDown (value / powerOfTen 308) (power - 308)
termination_by power

/-- Scales a double by a power of ten; there is none if the result would be infinite. -/
def scale? (value : Float) (exponent : Int) : Option Float :=
  match exponent with
  | .ofNat power =>
    if power ≤ 308 then
      let scaled := value * powerOfTen power
      if scaled.isInf then none else some scaled
    else if value == 0.0 then some value
    else none
  | .negSucc power => some (scaleDown value (power + 1))

def signed (negative : Bool) (value : Float) : Float := if negative then -value else value

def finishFloat (negative : Bool) (significand : Nat) (exponent : Int) : Reader Found := do
  match scale? significand.toUInt64.toFloat exponent with
  | some value => return .float (signed negative value)
  | none => failHere .numberOutOfRange

/-- The digits of an exponent after the first.  One that grows too large is out of range if it
makes the number large, and makes the number zero otherwise. -/
def readExponentDigits (negative : Bool) (significand : Nat) (exponent : Int) (raise : Bool)
    (power : Nat) : Reader Found := fun rest =>
  match rest with
  | [] => finish rest
  | c :: after =>
    match digitValue? c with
    | none => finish rest
    | some digit =>
      if power * 10 + digit ≤ exponentMax then
        readExponentDigits negative significand exponent raise (power * 10 + digit) after
      else if significand ≠ 0 ∧ raise then failHere .numberOutOfRange after
      else .ok (.float (signed negative 0.0)) (after.dropWhile Char.isDigit)
where
  finish : Reader Found :=
    finishFloat negative significand (if raise then exponent + power else exponent - power)

def readExponent (negative : Bool) (significand : Nat) (exponent : Int) : Reader Found := fun rest =>
  let (raise, digits) := match rest with
    | '+' :: after => (true, after)
    | '-' :: after => (false, after)
    | _ => (true, rest)
  match digits with
  | [] => failHere .endInValue digits
  | c :: after =>
    match digitValue? c with
    | none => failAfter .invalidNumber digits
    | some digit => readExponentDigits negative significand exponent raise digit after

def readScale (negative : Bool) (significand : Nat) (exponent : Int) : Reader Found := fun rest =>
  match rest with
  | 'e' :: after | 'E' :: after => readExponent negative significand exponent after
  | _ => finishFloat negative significand exponent rest

def readFraction (negative : Bool) (significand : Nat) (exponent : Int) (count : Nat) :
    Reader Found := fun rest =>
  match rest with
  | [] =>
    if count = 0 then failAfter .endInValue rest
    else readScale negative significand (exponent - count) rest
  | c :: after =>
    match digitValue? c with
    | none =>
      if count = 0 then failAfter .invalidNumber rest
      else readScale negative significand (exponent - count) rest
    | some digit =>
      if significand * 10 + digit ≤ significandMax then
        readFraction negative (significand * 10 + digit) exponent (count + 1) after
      else readScale negative significand (exponent - count) (after.dropWhile Char.isDigit)

/-- The digits before the point that no longer fit the significand; each is a place more. -/
def readPlaces (negative : Bool) (significand : Nat) (exponent : Nat) : Reader Found := fun rest =>
  match rest with
  | '.' :: after => readFraction negative significand exponent 0 after
  | c :: after =>
    if c.isDigit then readPlaces negative significand (exponent + 1) after
    else readScale negative significand exponent rest
  | [] => readScale negative significand exponent rest

def readAfterDigits (negative : Bool) (significand : Nat) : Reader Found := fun rest =>
  match rest with
  | '.' :: after => readFraction negative significand 0 0 after
  | 'e' :: after | 'E' :: after => readExponent negative significand 0 after
  | _ =>
    if !negative then .ok (.integer significand) rest
    else if significand = 0 ∨ significand > 0x8000000000000000 then
      .ok (.float (-significand.toUInt64.toFloat)) rest
    else .ok (.integer (-significand)) rest

def readDigits (negative : Bool) (significand : Nat) : Reader Found := fun rest =>
  match rest with
  | [] => readAfterDigits negative significand rest
  | c :: after =>
    match digitValue? c with
    | none => readAfterDigits negative significand rest
    | some digit =>
      if significand * 10 + digit ≤ significandMax then
        readDigits negative (significand * 10 + digit) after
      else readPlaces negative significand 1 after

def readUnsigned (negative : Bool) : Reader Found := fun rest =>
  match rest with
  | [] => failHere .endInValue rest
  | c :: after =>
    match digitValue? c with
    | none => failAfter .invalidNumber rest
    | some 0 =>
      if after.head?.any Char.isDigit then failAfter .invalidNumber after
      else readAfterDigits negative 0 after
    | some digit => readDigits negative digit after

def readNumber : Reader Found := fun rest =>
  match rest with
  | '-' :: after => readUnsigned true after
  | _ => readUnsigned false rest

end Highlighter.Json
