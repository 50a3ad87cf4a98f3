import Highlighter.Text.WhiteSpace

/-! # The alphabet of tokens

Two classes of characters cut a text.  A *separator*, which is white space or punctuation, always
stands alone; a *quote* opens a literal and, if it is the same quote, closes it.  Everything else
builds words. -/

set_option autoImplicit false

namespace Highlighter.Alphabet

open Text

/-- The punctuation: `. , ; = + - *`, the three pairs of brackets and `@`.  All of it is ASCII
and so takes single bytes. -/
def punctuation : List UInt8 :=
  [46, 44, 59, 61, 43, 45, 42, 123, 125, 40, 41, 91, 93, 64]

def isPunctuation (byte : UInt8) : Bool :=
  punctuation.contains byte

def isQuoteByte (byte : UInt8) : Bool :=
  byte == 34 || byte == 39

/-- The byte that takes the next character of a literal along with it. -/
def backslash : UInt8 := 92

def isQuote (c : Char) : Bool :=
  c == '\x22' || c == '\x27'

def isSeparator (c : Char) : Bool :=
  isWhiteSpace c || (c.toNat < 128 && isPunctuation c.toUInt8)

end Highlighter.Alphabet
