import Highlighter.Text.Hex
import Highlighter.Text.Printable

/-! # Quoted text

A text in double quotes, for messages.  The quote and the backslash stand behind a backslash,
the null character, tab, line feed and carriage return have a letter of their own, and other
characters that a reader could not see are given by their number. -/

set_option autoImplicit false

namespace Highlighter.Text

def quoteChar (c : Char) : List Char :=
  if c = '\x22' then ['\\', '\x22']
  else if c = '\\' then ['\\', '\\']
  else if c = '\x00' then ['\\', '0']
  else if c = '\t' then ['\\', 't']
  else if c = '\n' then ['\\', 'n']
  else if c = '\r' then ['\\', 'r']
  else if isPrintable c then [c]
  else ['\\', 'u', '\x7b'] ++ lowerHex c.toNat ++ ['\x7d']

def quote (text : String) : String :=
  String.ofList (['\x22'] ++ text.toList.flatMap quoteChar ++ ['\x22'])

end Highlighter.Text
