/-! # White space

The characters with the Unicode property `White_Space`.  The set is closed: the standard
promises not to add to it, so it is given here as the ten ranges that make it up. -/

set_option autoImplicit false

namespace Highlighter.Text

/-- The ranges of the property `White_Space`, in ascending order, both ends included. -/
def whiteSpaceRanges : List (Nat × Nat) :=
  [(0x09, 0x0D), (0x20, 0x20), (0x85, 0x85), (0xA0, 0xA0), (0x1680, 0x1680), (0x2000, 0x200A),
   (0x2028, 0x2029), (0x202F, 0x202F), (0x205F, 0x205F), (0x3000, 0x3000)]

def isWhiteSpace (c : Char) : Bool :=
  whiteSpaceRanges.any fun range => range.1 ≤ c.toNat && c.toNat ≤ range.2

end Highlighter.Text
