import Highlighter.Json.Reader
import Highlighter.Json.Value

/-! # Spellings of JSON values

A value can be written in many ways.  White space may stand around every bracket, comma and colon,
and a character of a string may stand for itself or behind a backslash, where most characters have
several forms.  The relations below say which characters spell a value, whoever wrote them, and
both layouts turn out to be spellings. -/

set_option autoImplicit false

namespace Highlighter.Json

open Text

variable {α β : Type}

def IsBlank (chars : List Char) : Prop := ∀ c ∈ chars, isSpace c = true

/-! ## Strings -/

/-- Four hexadecimal digits, each in either case, and their value. -/
inductive SpellsCode : Nat → List Char → Prop where
  | intro {a b c d : Char} {i j k l : Nat} (first : hexValue? a = some i)
      (second : hexValue? b = some j) (third : hexValue? c = some k)
      (fourth : hexValue? d = some l) :
      SpellsCode (((i * 16 + j) * 16 + k) * 16 + l) [a, b, c, d]

/-- The escapes of a single letter, with what they stand for. -/
def shortEscapes : List (Char × Char) :=
  [('\x22', '\x22'), ('\\', '\\'), ('/', '/'), ('b', '\x08'), ('f', '\x0c'), ('n', '\n'),
    ('r', '\r'), ('t', '\t')]

inductive SpellsChar : Char → List Char → Prop where
  | plain {c : Char} (notQuote : c ≠ '\x22') (notBackslash : c ≠ '\\')
      (notControl : 0x20 ≤ c.toNat) : SpellsChar c [c]
  | short {letter c : Char} (known : (letter, c) ∈ shortEscapes) : SpellsChar c ['\\', letter]
  | code {c : Char} {digits : List Char} (spelled : SpellsCode c.toNat digits) :
      SpellsChar c ('\\' :: 'u' :: digits)
  /-- A character past the first 65536 is escaped as two surrogates. -/
  | pair {c : Char} {high low : Nat} {digits digits' : List Char}
      (isHigh : 0xD800 ≤ high ∧ high ≤ 0xDBFF) (isLow : 0xDC00 ≤ low ∧ low ≤ 0xDFFF)
      (value : c.toNat = 0x10000 + (high - 0xD800) * 0x400 + (low - 0xDC00))
      (spelled : SpellsCode high digits) (spelled' : SpellsCode low digits') :
      SpellsChar c ('\\' :: 'u' :: digits ++ '\\' :: 'u' :: digits')

/-- The characters between the quotes of a string. -/
inductive SpellsText : List Char → List Char → Prop where
  | nil : SpellsText [] []
  | cons {c : Char} {text chars more : List Char} (head : SpellsChar c chars)
      (tail : SpellsText text more) : SpellsText (c :: text) (chars ++ more)

/-! ## Values -/

/-- What stands before an item of an array or a field of an object. -/
inductive IsSeparator : (first : Bool) → List Char → Prop where
  | first {space : List Char} (blank : IsBlank space) : IsSeparator true space
  | comma {space gap : List Char} (blank : IsBlank space) (blank' : IsBlank gap) :
      IsSeparator false (space ++ ',' :: gap)

/-- Everything after an opening bracket, up to the closing one.  The flag tells whether an item
that comes next is the first. -/
inductive SpellsItems (closing : Char) (spells : α → List Char → Prop) :
    Bool → List α → List Char → Prop where
  | stop {first : Bool} {space : List Char} (blank : IsBlank space) :
      SpellsItems closing spells first [] (space ++ [closing])
  | item {first : Bool} {value : α} {values : List α} {separator chars more : List Char}
      (apart : IsSeparator first separator) (head : spells value chars)
      (tail : SpellsItems closing spells false values more) :
      SpellsItems closing spells first (value :: values) (separator ++ (chars ++ more))

inductive SpellsMember (spells : α → List Char → Prop) : String × α → List Char → Prop where
  | intro {name : String} {value : α} {key space gap chars : List Char}
      (named : SpellsText name.toList key) (blank : IsBlank space) (blank' : IsBlank gap)
      (spelled : spells value chars) :
      SpellsMember spells (name, value)
        ('\x22' :: key ++ '\x22' :: (space ++ ':' :: (gap ++ chars)))

inductive Spells : Json → List Char → Prop where
  | string {text : String} {body : List Char} (spelled : SpellsText text.toList body) :
      Spells (.string text) ('\x22' :: body ++ ['\x22'])
  | number (value : Nat) : Spells (.number value) (writeNat value)
  | array {items : List Json} {chars : List Char}
      (spelled : SpellsItems ']' Spells true items chars) : Spells (.array items) ('[' :: chars)
  | object {fields : List (String × Json)} {chars : List Char}
      (spelled : SpellsItems '\x7d' (SpellsMember Spells) true fields chars) :
      Spells (.object fields) ('\x7b' :: chars)

theorem SpellsItems.of_map {closing : Char} {spells : α → List Char → Prop}
    {spells' : β → List Char → Prop} {first : Bool} {chars : List Char} {f : β → α}
    {values : List β} (spelled : SpellsItems closing spells first (values.map f) chars)
    (each : ∀ value chars, spells (f value) chars → spells' value chars) :
    SpellsItems closing spells' first values chars := by
  induction values generalizing first chars with
  | nil =>
      cases spelled with
      | stop blank => exact .stop blank
  | cons value rest ih =>
      cases spelled with
      | item apart head tail => exact .item apart (each value _ head) (ih tail)

/-! ## The strings that are written -/

theorem spellsChar_escapeChar (c : Char) : SpellsChar c (escapeChar c) := by
  rw [escapeChar]
  split
  · next quote => exact .short (by subst quote; decide)
  split
  · next backslash => exact .short (by subst backslash; decide)
  split
  · next backspace => exact .short (by subst backspace; decide)
  split
  · next tab => exact .short (by subst tab; decide)
  split
  · next lineFeed => exact .short (by subst lineFeed; decide)
  split
  · next formFeed => exact .short (by subst formFeed; decide)
  split
  · next carriageReturn => exact .short (by subst carriageReturn; decide)
  split
  · next control =>
    have byte : c.toUInt8.toNat = c.toNat := by
      change c.toNat % 256 = c.toNat
      omega
    have zero : hexValue? '0' = some 0 := by decide
    have high : c.toUInt8.toNat / 16 < 16 := by omega
    have low : c.toUInt8.toNat % 16 < 16 := by omega
    have code := SpellsCode.intro zero zero (hexValue?_lowerHexDigit high)
      (hexValue?_lowerHexDigit low)
    have value : ((0 * 16 + 0) * 16 + c.toUInt8.toNat / 16) * 16 + c.toUInt8.toNat % 16
        = c.toNat := by omega
    rw [value] at code
    exact .code code
  · next notQuote notBackslash _ _ _ _ _ notControl =>
    exact .plain notQuote notBackslash (Nat.le_of_not_lt notControl)

theorem spellsText_flatMap_escapeChar (text : List Char) :
    SpellsText text (text.flatMap escapeChar) := by
  induction text with
  | nil => exact .nil
  | cons c rest ih =>
      rw [List.flatMap_cons]
      exact .cons (spellsChar_escapeChar c) ih

theorem spells_writeString (text : String) : Spells (.string text) (writeString text) :=
  .string (spellsText_flatMap_escapeChar text.toList)

/-! ## The layouts -/

theorem isBlank_nil : IsBlank [] := by
  intro c member
  contradiction

theorem isBlank_singleton {c : Char} (blank : isSpace c = true) : IsBlank [c] := by
  intro other member
  rw [List.mem_singleton.mp member]
  exact blank

theorem isBlank_append {space gap : List Char} (blank : IsBlank space) (blank' : IsBlank gap) :
    IsBlank (space ++ gap) := by
  intro c member
  rcases List.mem_append.mp member with member | member
  · exact blank c member
  · exact blank' c member

theorem isBlank_newLine (level : Nat) : IsBlank (newLine level) := by
  intro c member
  rcases List.mem_cons.mp member with rfl | member
  · rfl
  · rw [List.eq_of_mem_replicate member]
    rfl

section Laying

variable {spells : α → List Char → Prop} {write : α → List Char} {closing : Char}
  {lead gap trail : List Char} {values : List α}

theorem spellsItems_flatMap (gapBlank : IsBlank gap) (trailBlank : IsBlank trail)
    (written : ∀ value ∈ values, spells value (write value)) :
    SpellsItems closing spells false values
      (values.flatMap (fun value => ',' :: gap ++ write value) ++ (trail ++ [closing])) := by
  induction values with
  | nil => exact .stop trailBlank
  | cons value rest ih =>
      have head := written value List.mem_cons_self
      have tail := ih fun other member => written other (List.mem_cons_of_mem value member)
      have apart : IsSeparator false ([] ++ ',' :: gap) := .comma isBlank_nil gapBlank
      rw [List.flatMap_cons, List.append_assoc, List.append_assoc]
      exact .item apart head tail

theorem intercalate_cons_map (separator first : List Char) (write : α → List Char) :
    ∀ values : List α, separator.intercalate (first :: values.map write) =
      first ++ values.flatMap fun value => separator ++ write value := by
  intro values
  induction values generalizing first with
  | nil => simp
  | cons value rest ih =>
      rw [List.map_cons, List.intercalate_cons_cons, ih, List.flatMap_cons]
      simp only [List.append_assoc]

/-- Items with a comma between them, however the lines are broken. -/
theorem spellsItems_intercalate (leadBlank : IsBlank lead) (gapBlank : IsBlank gap)
    (trailBlank : IsBlank trail) (written : ∀ value ∈ values, spells value (write value)) :
    SpellsItems closing spells true values
      (lead ++ ((',' :: gap).intercalate (values.map write) ++ (trail ++ [closing]))) := by
  cases values with
  | nil =>
      have stop : SpellsItems closing spells true [] (lead ++ trail ++ [closing]) :=
        .stop (isBlank_append leadBlank trailBlank)
      rw [List.append_assoc] at stop
      exact stop
  | cons value rest =>
      have head := written value List.mem_cons_self
      rw [List.map_cons, intercalate_cons_map, List.append_assoc]
      refine .item (.first leadBlank) head (spellsItems_flatMap gapBlank trailBlank ?_)
      intro other member
      exact written other (List.mem_cons_of_mem value member)

theorem spellsItems_block (opening closing : Char) (level : Nat)
    (written : ∀ value ∈ values, spells value (write value)) :
    ∃ chars, block opening closing level (values.map write) = opening :: chars ∧
      SpellsItems closing spells true values chars := by
  rw [block]
  cases values with
  | nil => exact ⟨[closing], rfl, .stop isBlank_nil⟩
  | cons value rest =>
      refine ⟨_, ?_, spellsItems_intercalate (isBlank_newLine (level + 1))
        (isBlank_newLine (level + 1)) (isBlank_newLine level) written⟩
      simp

theorem spellsMember_writeString {value : α} {chars : List Char} (name : String)
    (gapBlank : IsBlank gap) (spelled : spells value chars) :
    SpellsMember spells (name, value) (writeString name ++ ':' :: (gap ++ chars)) := by
  have member := SpellsMember.intro (spellsText_flatMap_escapeChar name.toList) isBlank_nil
    gapBlank spelled
  simpa [writeString] using member

end Laying

theorem spells_compactChars (json : Json) : Spells json json.compactChars := by
  induction json using compactChars.induct with
  | case1 text =>
      rw [compactChars]
      exact spells_writeString text
  | case2 value =>
      rw [compactChars]
      exact .number value
  | case3 items ih =>
      rw [compactChars]
      exact .array (spellsItems_intercalate isBlank_nil isBlank_nil isBlank_nil ih)
  | case4 fields ih =>
      rw [compactChars]
      refine .object (spellsItems_intercalate isBlank_nil isBlank_nil isBlank_nil ?_)
      intro field member
      exact spellsMember_writeString field.1 isBlank_nil (ih field member)

theorem spells_prettyChars (level : Nat) (json : Json) : Spells json (json.prettyChars level) := by
  induction level, json using prettyChars.induct with
  | case1 level text =>
      rw [prettyChars]
      exact spells_writeString text
  | case2 level value =>
      rw [prettyChars]
      exact .number value
  | case3 level items ih =>
      rw [prettyChars]
      obtain ⟨chars, laid, spelled⟩ := spellsItems_block '[' ']' level ih
      rw [laid]
      exact .array spelled
  | case4 level fields ih =>
      rw [prettyChars]
      have space : IsBlank [' '] := isBlank_singleton rfl
      have members : ∀ field ∈ fields, SpellsMember Spells field
          (writeString field.1 ++ [':', ' '] ++ prettyChars (level + 1) field.2) := by
        intro field member
        rw [List.append_assoc]
        exact spellsMember_writeString field.1 space (ih field member)
      obtain ⟨chars, laid, spelled⟩ := spellsItems_block '\x7b' '\x7d' level members
      rw [laid]
      exact .object spelled

/-- The texts in which a value is written, with the end of the last line or without it. -/
def documents (json : Json) : List String :=
  [json.compact, json.compact ++ "\n", json.pretty, json.pretty ++ "\n"]

theorem exists_spells_of_mem_documents {json : Json} {document : String}
    (written : document ∈ json.documents) :
    ∃ chars trail, Spells json chars ∧ IsBlank trail ∧ document.toList = chars ++ trail := by
  have lineFeed : IsBlank ['\n'] := isBlank_singleton rfl
  simp only [documents, List.mem_cons, List.not_mem_nil, or_false] at written
  rcases written with rfl | rfl | rfl | rfl
  · exact ⟨_, [], spells_compactChars json, isBlank_nil, by simp [compact]⟩
  · exact ⟨_, _, spells_compactChars json, lineFeed, by simp [compact]⟩
  · exact ⟨_, [], spells_prettyChars 0 json, isBlank_nil, by simp [pretty]⟩
  · exact ⟨_, _, spells_prettyChars 0 json, lineFeed, by simp [pretty]⟩

end Highlighter.Json
