import Highlighter.Json.Number

/-! # Strings, lists and records in JSON documents

Values of a known form are read straight from the document, in one pass.  A record is written as
an object or as an array of its fields in their order; an object names each field at most once
and no field that the record lacks.

A list or record that has been opened is also closed, whatever happened inside: closing takes
what it can, a fault inside wins over one in closing, and only then does a fault without a
place get one. -/

set_option autoImplicit false

namespace Highlighter.Json

variable {α π : Type}

/-! ## Other values than the one wanted -/

def readLiteral : List Char → Reader Unit
  | [], rest => .ok () rest
  | _ :: _, [] => failHere .endInValue []
  | wanted :: more, c :: rest =>
    if c = wanted then readLiteral more rest else failAfter .expectedIdent (c :: rest)

/-- Reads the value at hand as far as needed to say what it is. -/
def readFound : Reader Found := fun rest =>
  match rest with
  | 'n' :: after => (readLiteral ['u', 'l', 'l'] *> pure .null) after
  | 't' :: after => (readLiteral ['r', 'u', 'e'] *> pure (.boolean true)) after
  | 'f' :: after => (readLiteral ['a', 'l', 's', 'e'] *> pure (.boolean false)) after
  | '\x22' :: after => (.string <$> readStringBody) after
  | '[' :: _ => .ok .sequence rest
  | '\x7b' :: _ => .ok .map rest
  | c :: _ => if c = '-' ∨ c.isDigit then readNumber rest else failAfter .expectedValue rest
  | [] => failAfter .expectedValue rest

def readWrongType (expected : Expected) : Reader α := do
  let found ← readFound
  failHere (.wrongType found expected)

def readString : Reader String := do
  skipSpace
  match ← peek with
  | none => failAfter .endInValue
  | some '\x22' => skip *> readStringBody
  | some _ => readWrongType .string

/-! ## Closing -/

def closeList : Reader Unit := do
  skipSpace
  match ← peek with
  | some ']' => skip
  | some ',' =>
    skip
    skipSpace
    if (← peek) = some ']' then failAfter .trailingComma else failAfter .trailingCharacters
  | some _ => failAfter .trailingCharacters
  | none => failAfter .endInList

def closeObject : Reader Unit := do
  skipSpace
  match ← peek with
  | some '\x7d' => skip
  | some ',' => failAfter .trailingComma
  | some _ => failAfter .trailingCharacters
  | none => failAfter .endInObject

/-- Reads the inside and closes, in that order in every case. -/
def closed (close : Reader Unit) (inside : Reader α) : Reader α := fun rest =>
  match inside rest with
  | .ok value rest =>
    match close rest with
    | .ok _ rest => .ok value rest
    | .error fault rest => .error fault rest
  | .error fault rest =>
    match close rest with
    | .ok _ rest => .error fault rest
    | .error _ rest => .error fault rest

/-! ## Lists -/

/-- Goes to the next item; answers whether there is one.  The closing bracket stays. -/
def nextItem (first : Bool) : Reader Bool := do
  skipSpace
  match ← peek with
  | none => failAfter .endInList
  | some ']' => return false
  | some c =>
    if first then return true
    else if c = ',' then
      skip
      skipSpace
      match ← peek with
      | some ']' => failAfter .trailingComma
      | none => failAfter .endInValue
      | some _ => return true
    else failAfter .expectedListComma

/-- The items of a list after those already `read`, the latest of them first.  The characters
from the opening bracket on serve as a `clock`: they are more than the items, each of which takes
at least two of them. -/
def readItems (item : Reader α) (first : Bool) (read : List α) :
    (clock : List Char) → Reader (List α)
  | [] => failAfter .endInList
  | _ :: clock => do
    if ← nextItem first then
      let value ← item
      readItems item false (value :: read) clock
    else return read.reverse

def readList (item : Reader α) : Reader (List α) := locate do
  skipSpace
  match ← peek with
  | none => failAfter .endInValue
  | some '[' =>
    skip
    closed closeList fun rest => readItems item true [] rest rest
  | some _ => readWrongType .sequence

/-! ## Records -/

/-- A field of a record that is being read into a `π`, the record as far as it is known. -/
structure Field (π : Type) where
  name : String
  isKnown : π → Bool
  read : π → Reader π

/-- A record: its fields in their order, and what to make of them once they have been read.  The
result is the value, or else the name of the first field that is missing. -/
structure Shape (π α : Type) where
  name : String
  fields : List (Field π)
  unknown : π
  finish : π → Except String α

namespace Shape

def nextKey (first : Bool) : Reader Bool := do
  skipSpace
  match ← peek with
  | none => failAfter .endInObject
  | some '\x7d' => return false
  | some c =>
    if first then
      if c = '\x22' then skip *> return true else failAfter .keyNotString
    else if c = ',' then
      skip
      skipSpace
      match ← peek with
      | some '\x22' => skip *> return true
      | some '\x7d' => failAfter .trailingComma
      | none => failAfter .endInValue
      | some _ => failAfter .keyNotString
    else failAfter .expectedObjectComma

def readColon : Reader Unit := do
  skipSpace
  match ← peek with
  | some ':' => skip
  | some _ => failAfter .expectedColon
  | none => failAfter .endInObject

/-- The fields of an object after those in `known`.  Here too the characters of the object are
the `clock`. -/
def readFields (shape : Shape π α) (first : Bool) (known : π) :
    (clock : List Char) → Reader π
  | [] => failAfter .endInObject
  | _ :: clock => do
    if ← nextKey first then
      let key ← readStringBody
      match shape.fields.find? (·.name == key) with
      | none => failBare (.unknownField key (shape.fields.map (·.name)))
      | some field =>
        if field.isKnown known then failBare (.duplicateField key)
        else
          readColon
          let known ← field.read known
          readFields shape false known clock
    else return known

def readObject (shape : Shape π α) : Reader α := fun rest =>
  match shape.readFields true shape.unknown rest rest with
  | .error fault rest => .error fault rest
  | .ok known rest =>
    match shape.finish known with
    | .ok value => .ok value rest
    | .error field => failBare (.missingField field) rest

/-- The inside of a record written as an array: `fields` are still to be read, and `count` are
in `known`.  The array may be short of fields that are not needed; after the last field nothing
more is looked at. -/
def readArray (shape : Shape π α) (known : π) (count : Nat) : List (Field π) → Reader α
  | [] => finish known
  | field :: fields => do
    if ← nextItem (count == 0) then
      let known ← field.read known
      readArray shape known (count + 1) fields
    else finish known
where
  finish (known : π) : Reader α :=
    match shape.finish known with
    | .ok value => pure value
    | .error _ => failBare (.wrongLength count shape.name shape.fields.length)

def read (shape : Shape π α) : Reader α := locate do
  skipSpace
  match ← peek with
  | none => failAfter .endInValue
  | some '\x7b' => skip *> closed closeObject shape.readObject
  | some '[' => skip *> closed closeList (shape.readArray shape.unknown 0 shape.fields)
  | some _ => readWrongType (.record shape.name)

end Shape

/-! ## Documents -/

def readEnd : Reader Unit := do
  skipSpace
  match ← peek with
  | none => return ()
  | some _ => failAfter .trailingCharacters

def readDocument (reader : Reader α) (text : String) : Except ReadError α :=
  match (reader <* readEnd) text.toList with
  | .ok value _ => .ok value
  | .error fault _ => .error ⟨fault.cause, fault.left.map (Position.ofLeft text)⟩

end Highlighter.Json
