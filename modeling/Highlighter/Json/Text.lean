import Highlighter.Text.Hex

/-! # JSON strings as written

A string is written between double quotes.  Only what has to be escaped is: the quote, the
backslash and the control characters below the space.  Five of these have a letter, the others
are given by four lower-case hexadecimal digits. -/

set_option autoImplicit false

namespace Highlighter.Json

open Text

def escapeChar (c : Char) : List Char :=
  if c = '\x22' then ['\\', '\x22']
  else if c = '\\' then ['\\', '\\']
  else if c = '\x08' then ['\\', 'b']
  else if c = '\t' then ['\\', 't']
  else if c = '\n' then ['\\', 'n']
  else if c = '\x0c' then ['\\', 'f']
  else if c = '\r' then ['\\', 'r']
  else if c.toNat < 0x20 then ['\\', 'u', '0', '0'] ++ lowerHexByte c.toUInt8
  else [c]

def writeString (text : String) : List Char :=
  '\x22' :: text.toList.flatMap escapeChar ++ ['\x22']

end Highlighter.Json
