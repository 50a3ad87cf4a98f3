/-! # Categories

A category says what a piece of text is and thereby decides its color.  Groups of keywords are
numbered in the order in which a lexicon received them, and a lexicon holds at most 65536. -/

set_option autoImplicit false

namespace Highlighter

abbrev groupLimit : Nat := 65536

abbrev GroupId : Type := Fin groupLimit

/-- The group at position `index`, if a lexicon can hold that many. -/
def GroupId.ofIndex? (index : Nat) : Option GroupId :=
  if inRange : index < groupLimit then some ⟨index, inRange⟩ else none

inductive Category where
  /-- Text without a color of its own: separators and words of no group. -/
  | plain
  | keyword (group : GroupId)
  | literal
deriving DecidableEq, Repr, Inhabited

end Highlighter
