import Highlighter.Color.Palette
import Highlighter.Lexicon.Draft
import Highlighter.Theme.Spec

/-! # Themes

A theme pairs a lexicon with a palette.  A theme built from a specification has a color for each
group; one paired freely may have fewer colors or more, and is specified with the color of plain
text for a group that has none. -/

set_option autoImplicit false

namespace Highlighter

structure Theme where
  lexicon : Lexicon
  palette : Palette

namespace Theme

def standard : Theme := ⟨.standard, .standard⟩

instance : Inhabited Theme := ⟨standard⟩

structure Draft where
  lexicon : LexiconDraft
  palette : Palette

def Draft.add (draft : Draft) (group : GroupSpec) : Except GroupFault Draft :=
  match LexiconDraft.addGroup group.name group.keywords draft.lexicon with
  | .ok _ lexicon => .ok ⟨lexicon, draft.palette.addGroup group.color⟩
  | .error fault _ => .error fault

def ofSpec (spec : ThemeSpec) : Except GroupFault Theme := do
  let start : Draft := ⟨.empty, ⟨spec.plain, spec.literal, #[]⟩⟩
  let draft ← spec.groups.foldlM Draft.add start
  return ⟨draft.lexicon.lexicon, draft.palette⟩

def groupSpec (theme : Theme) (group : GroupId) : GroupSpec where
  name := (theme.lexicon.name? group).getD ""
  color := theme.palette.color (.keyword group)
  keywords := theme.lexicon.words group

def spec (theme : Theme) : ThemeSpec where
  plain := theme.palette.plain
  literal := theme.palette.literal
  groups := theme.lexicon.groupIds.map theme.groupSpec

def nameOf (theme : Theme) : Category → String
  | .plain => "default"
  | .literal => "string"
  | .keyword group => (theme.lexicon.name? group).getD "keyword"

end Theme

end Highlighter
