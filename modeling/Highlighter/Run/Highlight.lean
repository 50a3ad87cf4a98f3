import Highlighter.Run.Outline
import Highlighter.Token.Limit

/-! # Highlighting

The whole way from a text to its runs, first as if offsets had no limit and then with offsets of
32 bits.  For a text that fits these are the same. -/

set_option autoImplicit false

namespace Highlighter

namespace Theme

def highlight (theme : Theme) (text : String) : List Run :=
  ((Outline.start text theme.lexicon).addAll (tokenize text)).runs theme.palette

/-- The runs that are shown and written of a text of any length.  What is too far behind to be
taken apart into tokens is one plain run. -/
def render (theme : Theme) (text : String) : List Run :=
  ((Outline.start text theme.lexicon).addAll (scan text)).finish theme.palette

def records (theme : Theme) (text : String) : List Run.Record :=
  (theme.render text).map (Run.toRecord theme)

end Theme

end Highlighter
