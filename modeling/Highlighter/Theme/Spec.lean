import Highlighter.Color.Basic

/-! # Theme specifications

What a theme is made of, as its author writes it down: two colors and a list of groups, whose
positions number the groups. -/

set_option autoImplicit false

namespace Highlighter

structure GroupSpec where
  name : String
  color : Color
  keywords : List String
deriving DecidableEq, Repr, Inhabited

structure ThemeSpec where
  plain : Color
  literal : Color
  groups : List GroupSpec
deriving DecidableEq, Repr, Inhabited

end Highlighter
