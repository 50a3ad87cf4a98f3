import Highlighter.Json.Text

/-! # JSON values as written

The values that are written: strings, natural numbers, arrays and objects whose fields keep
their order.  There are two layouts.  The compact one has no white space at all.  The pretty one
gives every item a line of its own, indented by two spaces for each level; an empty array or
object stays closed up. -/

set_option autoImplicit false

namespace Highlighter

inductive Json where
  | string (text : String)
  | number (value : Nat)
  | array (items : List Json)
  | object (fields : List (String × Json))
deriving Repr, Inhabited

namespace Json

def writeNat (value : Nat) : List Char := Nat.toDigits 10 value

def compactChars : Json → List Char
  | string text => writeString text
  | number value => writeNat value
  | array items => '[' :: [','].intercalate (items.map compactChars) ++ [']']
  | object fields =>
    '\x7b' :: [','].intercalate
      (fields.map fun field => writeString field.1 ++ ':' :: compactChars field.2) ++ ['\x7d']
termination_by json => json
decreasing_by
  all_goals simp_wf
  · have smaller := List.sizeOf_lt_of_mem ‹_›
    omega
  · have smaller := List.sizeOf_lt_of_mem ‹_›
    rcases field with ⟨name, value⟩
    simp at smaller ⊢
    omega

def newLine (level : Nat) : List Char :=
  '\n' :: List.replicate (2 * level) ' '

/-- Items between brackets, each on a line of its own one level further in. -/
def block (opening closing : Char) (level : Nat) (items : List (List Char)) : List Char :=
  if items.isEmpty then [opening, closing]
  else opening :: newLine (level + 1) ++ (',' :: newLine (level + 1)).intercalate items
    ++ newLine level ++ [closing]

def prettyChars (level : Nat) : Json → List Char
  | string text => writeString text
  | number value => writeNat value
  | array items => block '[' ']' level (items.map (prettyChars (level + 1)))
  | object fields =>
    block '\x7b' '\x7d' level (fields.map fun field =>
      writeString field.1 ++ [':', ' '] ++ prettyChars (level + 1) field.2)
termination_by json => json
decreasing_by
  all_goals simp_wf
  · have smaller := List.sizeOf_lt_of_mem ‹_›
    omega
  · have smaller := List.sizeOf_lt_of_mem ‹_›
    rcases field with ⟨name, value⟩
    simp at smaller ⊢
    omega

def compact (json : Json) : String := String.ofList json.compactChars

def pretty (json : Json) : String := String.ofList (json.prettyChars 0)

end Json

end Highlighter
