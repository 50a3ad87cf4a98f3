import Highlighter.Display.Terminal

/-! # Output

A highlighted text is written in one of two formats: in color, as for a terminal, or as a JSON
list of the records of its runs. -/

set_option autoImplicit false

namespace Highlighter

inductive Format where
  | ansi
  | json
deriving DecidableEq, Repr, Inhabited

/-- Where writing failed: inside a JSON value, or anywhere else. -/
inductive OutputFault where
  | write (fault : SinkFault)
  | encode (fault : SinkFault)
deriving DecidableEq, Repr

def OutputFault.message : OutputFault → String
  | write fault => s!"cannot write output: {fault.message}"
  | encode fault => s!"cannot encode JSON: {fault.message}"

def Json.writeLine (json : Json) : EStateM OutputFault Sink Unit := fun sink =>
  match Sink.write json.pretty sink with
  | .error fault sink => .error (.encode fault) sink
  | .ok _ sink =>
    match Sink.write "\n" sink with
    | .error fault sink => .error (.write fault) sink
    | .ok _ sink => .ok () sink

namespace Theme

def recordsJson (theme : Theme) (text : String) : Json :=
  .array ((theme.records text).map Run.Record.toJson)

def write (theme : Theme) (text : String) (format : Format) : EStateM OutputFault Sink Unit :=
  fun sink =>
    match format with
    | .ansi =>
      match Preview.update text (Preview.mk theme (Terminal.mk sink)) with
      | .ok _ preview => .ok () preview.display.sink
      | .error fault preview => .error (.write fault) preview.display.sink
    | .json => (theme.recordsJson text).writeLine sink

end Theme

end Highlighter
