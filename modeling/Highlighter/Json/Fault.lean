import Highlighter.Decimal.Layout
import Highlighter.Text.Quoted

/-! # Faults of JSON documents

A fault has a cause and, in nearly all cases, a place in the document.  The place is kept as the
number of bytes that were left there, because that is what a reader knows; line and column are
worked out from it once the whole document is at hand. -/

set_option autoImplicit false

namespace Highlighter.Json

inductive Found where
  | null
  | boolean (value : Bool)
  | integer (value : Int)
  | float (value : Float)
  | string (text : String)
  | sequence
  | map

inductive Expected where
  | string
  | sequence
  | record (name : String)
deriving DecidableEq, Repr

inductive Cause where
  | endInValue
  | endInString
  | endInList
  | endInObject
  | expectedValue
  | expectedIdent
  | expectedColon
  | expectedListComma
  | expectedObjectComma
  | keyNotString
  | trailingComma
  | trailingCharacters
  | controlCharacter
  | invalidEscape
  | loneSurrogate
  | endOfHexEscape
  | invalidNumber
  | numberOutOfRange
  | wrongType (found : Found) (expected : Expected)
  | unknownField (name : String) (known : List String)
  | duplicateField (name : String)
  | missingField (name : String)
  | wrongLength (length : Nat) (record : String) (size : Nat)
  /-- The value was read and then refused, for the reason given. -/
  | refused (reason : String)

def Found.message : Found → String
  | null => "null"
  | boolean true => "boolean `true`"
  | boolean false => "boolean `false`"
  | integer value => s!"integer `{value}`"
  | float value => s!"floating point `{Decimal.standard.double value.toBits}`"
  | string text => s!"string {Text.quote text}"
  | sequence => "sequence"
  | map => "map"

def Expected.message : Expected → String
  | string => "a string"
  | sequence => "a sequence"
  | record name => s!"struct {name}"

def fieldNames (names : List String) : String :=
  String.intercalate ", " (names.map fun name => s!"`{name}`")

def Cause.message : Cause → String
  | endInValue => "EOF while parsing a value"
  | endInString => "EOF while parsing a string"
  | endInList => "EOF while parsing a list"
  | endInObject => "EOF while parsing an object"
  | expectedValue => "expected value"
  | expectedIdent => "expected ident"
  | expectedColon => "expected `:`"
  | expectedListComma => "expected `,` or `]`"
  | expectedObjectComma => "expected `,` or `\x7d`"
  | keyNotString => "key must be a string"
  | trailingComma => "trailing comma"
  | trailingCharacters => "trailing characters"
  | controlCharacter => "control character (\\u0000-\\u001F) found while parsing a string"
  | invalidEscape => "invalid escape"
  | loneSurrogate => "lone leading surrogate in hex escape"
  | endOfHexEscape => "unexpected end of hex escape"
  | invalidNumber => "invalid number"
  | numberOutOfRange => "number out of range"
  | wrongType found expected => s!"invalid type: {found.message}, expected {expected.message}"
  | unknownField name known => s!"unknown field `{name}`, expected one of {fieldNames known}"
  | duplicateField name => s!"duplicate field `{name}`"
  | missingField name => s!"missing field `{name}`"
  | wrongLength length record size =>
    s!"invalid length {length}, expected struct {record} with {size} elements"
  | refused reason => reason

/-- A cause with the number of bytes left at its place, if the place is known yet. -/
structure Fault where
  cause : Cause
  left : Option Nat

/-- The fault with a place; one that has a place already keeps it. -/
def Fault.locate (fault : Fault) (left : Nat) : Fault :=
  { fault with left := fault.left <|> some left }

/-- A place in a document.  Lines count from one; the column is the number of bytes between the
start of the line and the place. -/
structure Position where
  line : Nat
  column : Nat
deriving DecidableEq, Repr

def Position.ofLeft (text : String) (left : Nat) : Position :=
  let before := text.toUTF8.data.toList.take (text.utf8ByteSize - left)
  ⟨1 + before.count 10, (before.reverse.takeWhile (· != 10)).length⟩

structure ReadError where
  cause : Cause
  position : Option Position

def ReadError.message (error : ReadError) : String :=
  match error.position with
  | some ⟨line, column⟩ => s!"{error.cause.message} at line {line} column {column}"
  | none => error.cause.message

end Highlighter.Json
