/-! # Tokens

A token is a piece of a text, named by the offsets of its first and its last byte, together with
the mode in which it was read.  A range of bytes given in this way is never empty. -/

set_option autoImplicit false

namespace Highlighter

/-- The bytes `first` to `last`, both included. -/
structure ByteRange where
  first : Nat
  last : Nat
deriving DecidableEq, Repr, Inhabited

namespace ByteRange

def stop (range : ByteRange) : Nat := range.last + 1

def size (range : ByteRange) : Nat := range.stop - range.first

def endingAt (range : ByteRange) (last : Nat) : ByteRange := { range with last }

/-- The part of `source` in the range, whose two ends have to be character boundaries. -/
def text (range : ByteRange) (source : String) : String :=
  String.Pos.Raw.extract source ⟨range.first⟩ ⟨range.stop⟩

end ByteRange

inductive TokenKind where
  | plain
  | literal
deriving DecidableEq, Repr, Inhabited

structure Token where
  range : ByteRange
  kind : TokenKind
deriving DecidableEq, Repr, Inhabited

namespace Token

def plain (first last : Nat) : Token := ⟨⟨first, last⟩, .plain⟩

def literal (first last : Nat) : Token := ⟨⟨first, last⟩, .literal⟩

def text (token : Token) (source : String) : String := token.range.text source

end Token

end Highlighter
