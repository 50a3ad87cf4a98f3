import Highlighter.Json.Fault
import Highlighter.Text.Utf8

/-! # Reading JSON

A reader takes characters from the front of a document and ends with a value or a fault; either
way it tells what is left, since a fault may get its place only later.  Two places matter: the
one *here*, before the next byte, and the one *after* it, where a byte is to blame that has only
been looked at.

A wanted string that turns out to be something else is read to its end before it is refused, so
that a broken token is reported rather than a wrong type. -/

set_option autoImplicit false

namespace Highlighter.Json

open Text

abbrev Reader (α : Type) : Type := EStateM Fault (List Char) α

variable {α : Type}

def failBare (cause : Cause) : Reader α := fun rest => .error ⟨cause, none⟩ rest

def failHere (cause : Cause) : Reader α := fun rest => .error ⟨cause, some (byteLength rest)⟩ rest

/-- Fails after the next byte; at the end of the document, at the end. -/
def failAfter (cause : Cause) : Reader α := fun rest =>
  .error ⟨cause, some (byteLength rest - 1)⟩ rest

def locate (reader : Reader α) : Reader α := fun rest =>
  match reader rest with
  | .ok value rest => .ok value rest
  | .error fault rest => .error (fault.locate (byteLength rest)) rest

/-- JSON's white space is narrower than that of texts. -/
def isSpace (c : Char) : Bool :=
  c == ' ' || c == '\t' || c == '\n' || c == '\r'

def skipSpace : Reader Unit := fun rest => .ok () (rest.dropWhile isSpace)

def peek : Reader (Option Char) := fun rest => .ok rest.head? rest

def skip : Reader Unit := fun rest => .ok () (rest.drop 1)

/-! ## Strings -/

/-- Four hexadecimal digits.  Four bytes are taken whatever they are, and if fewer are left, all
of them. -/
def readHex : Reader Nat
  | a :: b :: c :: d :: rest =>
    match hexValue? a, hexValue? b, hexValue? c, hexValue? d with
    | some a, some b, some c, some d => .ok (((a * 16 + b) * 16 + c) * 16 + d) rest
    | _, _, _, _ => broken (a :: b :: c :: d :: rest)
  | rest => broken rest
where
  broken (rest : List Char) : EStateM.Result Fault (List Char) Nat :=
    if byteLength rest < 4 then .error ⟨.endInString, some 0⟩ []
    else .error ⟨.invalidEscape, some (byteLength rest - 4)⟩ rest

/-- The second half of a surrogate pair, which has to be escaped as well; `high` is the first. -/
def readLowSurrogate (high : Nat) : Reader Char
  | [] => .error ⟨.endInString, some 0⟩ []
  | '\\' :: [] => .error ⟨.endInString, some 0⟩ []
  | '\\' :: 'u' :: rest =>
    match readHex rest with
    | .error fault rest => .error fault rest
    | .ok low rest =>
      if 0xDC00 ≤ low ∧ low ≤ 0xDFFF then
        .ok (Char.ofNat (0x10000 + (high - 0xD800) * 0x400 + (low - 0xDC00))) rest
      else failHere .loneSurrogate rest
  | '\\' :: rest => failAfter .endOfHexEscape rest
  | rest => failAfter .endOfHexEscape rest

def readEscape : Reader Char
  | [] => .error ⟨.endInString, some 0⟩ []
  | '\x22' :: rest => .ok '\x22' rest
  | '\\' :: rest => .ok '\\' rest
  | '/' :: rest => .ok '/' rest
  | 'b' :: rest => .ok '\x08' rest
  | 'f' :: rest => .ok '\x0c' rest
  | 'n' :: rest => .ok '\n' rest
  | 'r' :: rest => .ok '\r' rest
  | 't' :: rest => .ok '\t' rest
  | 'u' :: rest =>
    match readHex rest with
    | .error fault rest => .error fault rest
    | .ok code rest =>
      if 0xDC00 ≤ code ∧ code ≤ 0xDFFF then failHere .loneSurrogate rest
      else if 0xD800 ≤ code ∧ code ≤ 0xDBFF then readLowSurrogate code rest
      else .ok (Char.ofNat code) rest
  | rest => failAfter .invalidEscape rest

theorem readHex_shorter {rest after : List Char} {code : Nat}
    (read : readHex rest = .ok code after) : after.length < rest.length := by
  unfold readHex at read
  split at read
  · split at read
    · obtain ⟨_, rfl⟩ := by simpa using read
      simp only [List.length_cons]
      omega
    · simp only [readHex.broken] at read
      split at read <;> simp at read
  · simp only [readHex.broken] at read
    split at read <;> simp at read

theorem readLowSurrogate_shorter {high : Nat} {rest after : List Char} {c : Char}
    (read : readLowSurrogate high rest = .ok c after) : after.length < rest.length := by
  unfold readLowSurrogate at read
  split at read
  · simp at read
  · simp at read
  · next rest =>
    split at read
    · simp at read
    · next low after' hex =>
      split at read
      · obtain ⟨_, rfl⟩ := by simpa using read
        have shorter := readHex_shorter hex
        simp only [List.length_cons]
        omega
      · simp [failHere] at read
  · simp [failAfter] at read
  · simp [failAfter] at read

theorem readEscape_shorter {rest after : List Char} {c : Char}
    (read : readEscape rest = .ok c after) : after.length < rest.length := by
  unfold readEscape at read
  split at read
  case h_10 rest =>
    split at read
    · simp at read
    · next code after' hex =>
      have shorter := readHex_shorter hex
      split at read
      · simp [failHere] at read
      · split at read
        · have further := readLowSurrogate_shorter read
          simp only [List.length_cons]
          omega
        · obtain ⟨_, rfl⟩ := by simpa using read
          simp only [List.length_cons]
          omega
  case h_1 => simp at read
  case h_11 => simp [failAfter] at read
  all_goals
    obtain ⟨_, rfl⟩ := by simpa using read
    simp

/-- The rest of a string after its opening quote and the characters `read` so far, the latest of
them first. -/
def readStringFrom (read : List Char) : Reader String := fun rest =>
  match rest with
  | [] => .error ⟨.endInString, some 0⟩ []
  | c :: after =>
    if c = '\x22' then .ok (String.ofList read.reverse) after
    else if c = '\\' then
      match _ : readEscape after with
      | .error fault after => .error fault after
      | .ok meant after => readStringFrom (meant :: read) after
    else if c.toNat < 0x20 then failHere .controlCharacter after
    else readStringFrom (c :: read) after
termination_by rest => rest.length
decreasing_by
  · have shorter := readEscape_shorter ‹_›
    simp only [List.length_cons]
    omega
  · simp

def readStringBody : Reader String := readStringFrom []

end Highlighter.Json
