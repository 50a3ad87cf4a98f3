import Highlighter.Json.Structure
import Highlighter.Json.Value
import Highlighter.Theme.Basic

/-! # Theme documents

A specification is kept as a JSON document, with colors as strings.  Parsing takes any document
that means a specification, and `groups` may be left out; printing has one form for each
layout. -/

set_option autoImplicit false

namespace Highlighter

open Json

def readColor : Reader Color := do
  match Color.parse (← readString) with
  | .ok color => return color
  | .error fault => failBare (.refused fault.message)

namespace GroupSpec

structure Draft where
  name : Option String
  color : Option Color
  keywords : Option (List String)

def shape : Shape Draft GroupSpec where
  name := "GroupConfig"
  fields := [
    ⟨"name", (·.name.isSome), fun known => return { known with name := some (← readString) }⟩,
    ⟨"color", (·.color.isSome), fun known => return { known with color := some (← readColor) }⟩,
    ⟨"keywords", (·.keywords.isSome), fun known =>
      return { known with keywords := some (← readList readString) }⟩]
  unknown := ⟨none, none, none⟩
  finish
    | ⟨none, _, _⟩ => .error "name"
    | ⟨_, none, _⟩ => .error "color"
    | ⟨_, _, none⟩ => .error "keywords"
    | ⟨some name, some color, some keywords⟩ => .ok ⟨name, color, keywords⟩

def toJson (group : GroupSpec) : Json :=
  .object [
    ("name", .string group.name),
    ("color", .string group.color.print),
    ("keywords", .array (group.keywords.map .string))]

end GroupSpec

namespace ThemeSpec

structure Draft where
  plain : Option Color
  literal : Option Color
  groups : Option (List GroupSpec)

def shape : Shape Draft ThemeSpec where
  name := "ThemeConfig"
  fields := [
    ⟨"default", (·.plain.isSome), fun known => return { known with plain := some (← readColor) }⟩,
    ⟨"string", (·.literal.isSome), fun known =>
      return { known with literal := some (← readColor) }⟩,
    ⟨"groups", (·.groups.isSome), fun known =>
      return { known with groups := some (← readList GroupSpec.shape.read) }⟩]
  unknown := ⟨none, none, none⟩
  finish
    | ⟨none, _, _⟩ => .error "default"
    | ⟨_, none, _⟩ => .error "string"
    | ⟨some plain, some literal, groups⟩ => .ok ⟨plain, literal, groups.getD []⟩

def toJson (spec : ThemeSpec) : Json :=
  .object [
    ("default", .string spec.plain.print),
    ("string", .string spec.literal.print),
    ("groups", .array (spec.groups.map GroupSpec.toJson))]

def parse (document : String) : Except ReadError ThemeSpec := readDocument shape.read document

end ThemeSpec

inductive ThemeFault where
  | json (error : ReadError)
  | group (fault : GroupFault)

def ThemeFault.message : ThemeFault → String
  | json error => s!"invalid theme JSON: {error.message}"
  | group fault => fault.message

/-- The theme of a document.  The groups are looked at only after the whole document was read. -/
def Theme.parse (document : String) : Except ThemeFault Theme :=
  match ThemeSpec.parse document with
  | .error error => .error (.json error)
  | .ok spec =>
    match ofSpec spec with
    | .error fault => .error (.group fault)
    | .ok theme => .ok theme

end Highlighter
