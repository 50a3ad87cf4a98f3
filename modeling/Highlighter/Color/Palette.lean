import Highlighter.Category
import Highlighter.Color.Basic

/-! # Palettes

A palette gives every category a color.  It need not fit a lexicon: a group without a color of
its own is drawn like plain text, and colors past the last group are never used. -/

set_option autoImplicit false

namespace Highlighter

structure Palette where
  plain : Color
  literal : Color
  groups : Array Color
deriving DecidableEq, Repr, Inhabited

namespace Palette

def standard : Palette where
  plain := ⟨0xEE, 0xEE, 0xEE⟩
  literal := ⟨0xCF, 0x92, 0x79⟩
  groups := #[⟨0x3B, 0x99, 0xC9⟩, ⟨0xC6, 0x85, 0xBE⟩, ⟨0x49, 0xC9, 0xB1⟩]

def addGroup (palette : Palette) (color : Color) : Palette :=
  { palette with groups := palette.groups.push color }

def own? (palette : Palette) (group : GroupId) : Option Color :=
  palette.groups[group.val]?

def color (palette : Palette) : Category → Color
  | .plain => palette.plain
  | .literal => palette.literal
  | .keyword group => (palette.own? group).getD palette.plain

end Palette

end Highlighter
