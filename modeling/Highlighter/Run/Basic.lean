import Highlighter.Json.Value
import Highlighter.Theme.Basic
import Highlighter.Token.Basic

/-! # Runs

A run is a piece of text drawn in one color.  Runs can be written down as records, which name the
category in words. -/

set_option autoImplicit false

namespace Highlighter

structure Run where
  text : String
  range : ByteRange
  category : Category
  color : Color
deriving DecidableEq, Repr, Inhabited

namespace Run

structure Detached where
  text : String
  category : Category
  color : Color
deriving DecidableEq, Repr, Inhabited

def detach (run : Run) : Detached := ⟨run.text, run.category, run.color⟩

structure Record where
  text : String
  color : Color
  category : String
  range : ByteRange
deriving DecidableEq, Repr, Inhabited

def toRecord (theme : Theme) (run : Run) : Record :=
  ⟨run.text, run.color, theme.nameOf run.category, run.range⟩

def Record.toJson (record : Record) : Json :=
  .object [
    ("text", .string record.text),
    ("color", .string record.color.print),
    ("category", .string record.category),
    ("start", .number record.range.first),
    ("end", .number record.range.last)]

end Run

end Highlighter
