import Highlighter.Token.Stream

/-! # Long texts

The offsets of tokens are numbers of 32 bits.  Of a text with more bytes than such a number can
count, only the front is taken apart into tokens: it ends with the last character that fits. -/

set_option autoImplicit false

namespace Highlighter

namespace Text

def Fits (text : String) : Prop := text.utf8ByteSize < UInt32.size

instance (text : String) : Decidable (Fits text) :=
  inferInstanceAs (Decidable (text.utf8ByteSize < UInt32.size))

/-- The last offset up to `limit` at which a character starts or the text ends. -/
def lastBoundary (text : String) : Nat → Nat
  | 0 => 0
  | limit + 1 =>
    if String.Pos.Raw.isValid text ⟨limit + 1⟩ then limit + 1 else lastBoundary text limit

/-- The text itself if it fits; otherwise the longest part from its start that does. -/
def clamp (text : String) : String :=
  if Fits text then text
  else String.Pos.Raw.extract text 0 ⟨lastBoundary text (UInt32.size - 1)⟩

end Text

/-- The tokens of as much of a text as offsets of 32 bits can reach. -/
def scan (text : String) : List Token := tokenize (Text.clamp text)

end Highlighter
