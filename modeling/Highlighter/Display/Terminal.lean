import Highlighter.Display.Basic
import Highlighter.Display.Sink

/-! # Terminals

A terminal is colored by escape sequences between the pieces of text.  What was printed cannot be
taken back, so new runs simply follow the old ones. -/

set_option autoImplicit false

namespace Highlighter

structure Terminal where
  sink : Sink

namespace Terminal

def setColor (color : Color) : String :=
  s!"\x1b[38;2;{color.red};{color.green};{color.blue}m"

def reset : String := "\x1b[0m"

/-- Each run behind its color, and the terminal's own color after the last. -/
def encode (runs : List Run) : String :=
  if runs.isEmpty then ""
  else String.join (runs.map fun run => setColor run.color ++ run.text) ++ reset

end Terminal

instance : Display Terminal SinkFault where
  draw runs := fun terminal =>
    match Sink.write (Terminal.encode runs) terminal.sink with
    | .ok _ sink => .ok () ⟨sink⟩
    | .error fault sink => .error fault ⟨sink⟩

end Highlighter
