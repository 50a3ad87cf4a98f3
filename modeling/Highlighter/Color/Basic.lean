import Highlighter.Text.Hex
import Highlighter.Text.Utf8

/-! # Colors

A color is three bytes, written as `#` and six hexadecimal digits.  Printing uses upper-case
digits; parsing takes either case and refuses everything else. -/

set_option autoImplicit false

namespace Highlighter

structure Color where
  red : UInt8
  green : UInt8
  blue : UInt8
deriving DecidableEq, Repr, Inhabited

/-- Why a text is no color.  Of several reasons the first in this order is given. -/
inductive ColorFault where
  | noHash (text : String)
  /-- What follows the `#` is not six bytes long. -/
  | wrongLength (text : String)
  | noDigit (text : String)
deriving DecidableEq, Repr

def ColorFault.message : ColorFault → String
  | noHash text => s!"color `{text}` must start with `#`"
  | wrongLength text => s!"color `{text}` must have exactly six hex digits"
  | noDigit text => s!"color `{text}` contains a non-hex digit"

namespace Color

open Text

def channel (high low : Nat) : UInt8 :=
  UInt8.ofNat (high * 16 + low)

def parse (text : String) : Except ColorFault Color :=
  match text.toList with
  | '#' :: digits =>
    if byteLength digits ≠ 6 then .error (.wrongLength text)
    else match digits.mapM hexValue? with
      | some [r, r', g, g', b, b'] => .ok ⟨channel r r', channel g g', channel b b'⟩
      | _ => .error (.noDigit text)
  | _ => .error (.noHash text)

def print (color : Color) : String :=
  String.ofList
    ('#' :: upperHexByte color.red ++ upperHexByte color.green ++ upperHexByte color.blue)

end Color

end Highlighter
