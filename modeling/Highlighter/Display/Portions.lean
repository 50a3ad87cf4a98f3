import Highlighter.Display.Output

/-! # Output in portions

No output is put together before it is written.  A run is written as the eight texts that make it
up, and a JSON value as so many as its encoder makes of it, one text after the other.  The first
that does not fit ends the writing. -/

set_option autoImplicit false

namespace Highlighter

def Sink.writeAll : List String → EStateM SinkFault Sink Unit
  | [] => pure ()
  | text :: rest => do
    write text
    writeAll rest

namespace Terminal

def runPortions (run : Run) : List String :=
  ["\x1b[38;2;", toString run.color.red, ";", toString run.color.green, ";",
    toString run.color.blue, "m", run.text]

def portions (runs : List Run) : List String :=
  runs.flatMap runPortions ++ if runs.isEmpty then [] else [reset]

end Terminal

namespace Json

structure Encoder where
  portions : Json → List String
  join_portions : ∀ json, String.join (portions json) = json.pretty

/-! ## Portions by layout

The brackets, the ends of lines, every step of an indent, the quotes, and stretches of characters
that are not escaped or one that is, are a portion each. -/

def indentPortions (level : Nat) : List String := List.replicate level "  "

def blockPortions (opening closing : String) (level : Nat) : List (List String) → List String
  | [] => [opening, closing]
  | first :: rest =>
    opening :: "\n" :: indentPortions (level + 1) ++ first ++
      rest.flatMap (fun item => ",\n" :: indentPortions (level + 1) ++ item) ++
      "\n" :: indentPortions level ++ [closing]

def isRaw (c : Char) : Bool := escapeChar c == [c]

def stringPortions (text : String) : List String :=
  "\x22" ::
    (text.toList.splitBy fun c d => isRaw c && isRaw d).map
      (fun chars => String.ofList (chars.flatMap escapeChar)) ++ ["\x22"]

def prettyPortions (level : Nat) : Json → List String
  | string text => stringPortions text
  | number value => [String.ofList (writeNat value)]
  | array items => blockPortions "[" "]" level (items.map (prettyPortions (level + 1)))
  | object fields =>
    blockPortions "\x7b" "\x7d" level (fields.map fun field =>
      stringPortions field.1 ++ ": " :: prettyPortions (level + 1) field.2)
termination_by json => json
decreasing_by
  all_goals simp_wf
  · have smaller := List.sizeOf_lt_of_mem ‹_›
    omega
  · have smaller := List.sizeOf_lt_of_mem ‹_›
    rcases field with ⟨name, value⟩
    simp at smaller ⊢
    omega

end Json

def Theme.writePortions (encoder : Json.Encoder) (theme : Theme) (text : String) :
    Format → EStateM OutputFault Sink Unit
  | .ansi =>
    EStateM.adaptExcept .write (Sink.writeAll (Terminal.portions (theme.render text)))
  | .json => do
    EStateM.adaptExcept .encode (Sink.writeAll (encoder.portions (theme.recordsJson text)))
    EStateM.adaptExcept .write (Sink.writeAll ["\n"])

end Highlighter
