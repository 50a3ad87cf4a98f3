import Mathlib
import Highlighter.Proofs.Display.Records

/-! # Reading colors off a terminal

What is printed on a terminal can be taken apart again.  An escape never stands inside of a piece
of text, so each piece ends at the next escape; and in the sequence that sets a color each number
ends at the next byte that is no digit.  So the colors and the pieces are determined by the bytes,
whatever digits and letters the pieces start with. -/

set_option autoImplicit false

namespace Highlighter

open Json Text

/-- What of a run can be seen. -/
def Run.piece (run : Run) : Color × String := (run.color, run.text)

namespace Terminal

variable {color color' : Color} {pieces pieces' : List (Color × List UInt8)}
  {bytes rest rest' : List UInt8}

/-! ## The form of what is printed -/

/-- The byte that every escape sequence starts with. -/
def escape : UInt8 := 0x1B

def IsDigit (byte : UInt8) : Prop := 48 ≤ byte ∧ byte ≤ 57

instance : DecidablePred IsDigit := fun byte => inferInstanceAs (Decidable (48 ≤ byte ∧ byte ≤ 57))

def digitsValue (digits : List UInt8) : Nat :=
  digits.foldl (fun value digit => 10 * value + (digit.toNat - 48)) 0

/-- Decimal digits with the given value; zeros may come first. -/
structure IsNumeral (value : Nat) (digits : List UInt8) : Prop where
  nonempty : digits ≠ []
  isDigit : ∀ byte ∈ digits, IsDigit byte
  eq_value : digitsValue digits = value

/-- A sequence that sets the color of what follows. -/
inductive SetsColor (color : Color) : List UInt8 → Prop
  | intro {red green blue : List UInt8} (isRed : IsNumeral color.red.toNat red)
      (isGreen : IsNumeral color.green.toNat green) (isBlue : IsNumeral color.blue.toNat blue) :
      SetsColor color (bytesOf "\x1b[38;2;" ++ (red ++ bytesOf ";" ++ (green ++ bytesOf ";" ++
        (blue ++ bytesOf "m"))))

/-- Pieces of text, each behind a sequence that sets its color and without an escape in it, and
behind the last of them the sequence that goes back to the terminal's own color. -/
inductive Prints : List (Color × List UInt8) → List UInt8 → Prop
  | finish : Prints [] (bytesOf reset)
  | piece {color : Color} {sequence shown bytes : List UInt8} {pieces : List (Color × List UInt8)}
      (sets : SetsColor color sequence) (plain : escape ∉ shown) (later : Prints pieces bytes) :
      Prints ((color, shown) :: pieces) (sequence ++ (shown ++ bytes))

/-- The pieces can be read off the bytes; for no pieces there are no bytes. -/
def IsReading : List (Color × List UInt8) → List UInt8 → Prop
  | [], bytes => bytes = []
  | piece :: pieces, bytes => Prints (piece :: pieces) bytes

/-- Is the next byte shown, or is it inside of an escape sequence? -/
inductive Place where
  | shown
  | afterEscape
  | parameters

/-- The bytes that are shown.  A sequence is an escape with one byte, or an escape with a bracket
and everything up to a byte from `@` to `~`. -/
def shownFrom : Place → List UInt8 → List UInt8
  | _, [] => []
  | .shown, byte :: rest =>
    if byte = escape then shownFrom .afterEscape rest else byte :: shownFrom .shown rest
  | .afterEscape, byte :: rest =>
    if byte = 0x5B then shownFrom .parameters rest else shownFrom .shown rest
  | .parameters, byte :: rest =>
    if 0x40 ≤ byte ∧ byte ≤ 0x7E then shownFrom .shown rest else shownFrom .parameters rest

def shownBytes (bytes : List UInt8) : List UInt8 := shownFrom .shown bytes

theorem bytesOf_opening :
    bytesOf "\x1b[38;2;" = [escape, 0x5B, 0x33, 0x38, 0x3B, 0x32, 0x3B] := by decide

theorem bytesOf_semicolon : bytesOf ";" = [0x3B] := by decide

theorem bytesOf_letter : bytesOf "m" = [0x6D] := by decide

theorem bytesOf_reset : bytesOf reset = [escape, 0x5B, 0x30, 0x6D] := by decide

/-! ## Where a stretch of bytes ends -/

theorem append_cons_inj (inside : UInt8 → Prop) {left : List UInt8} {stop stop' : UInt8}
    (ends : ¬ inside stop) (ends' : ¬ inside stop') :
    ∀ {left' : List UInt8}, (∀ byte ∈ left, inside byte) → (∀ byte ∈ left', inside byte) →
      left ++ stop :: rest = left' ++ stop' :: rest' →
      left = left' ∧ stop :: rest = stop' :: rest' := by
  induction left with
  | nil =>
      intro left' _ all' same
      cases left' with
      | nil => exact ⟨rfl, same⟩
      | cons byte more =>
          obtain ⟨rfl, _⟩ := List.cons.inj same
          exact absurd (all' _ List.mem_cons_self) ends
  | cons byte more ih =>
      intro left' all all' same
      cases left' with
      | nil =>
          obtain ⟨rfl, _⟩ := List.cons.inj same
          exact absurd (all _ List.mem_cons_self) ends'
      | cons byte' more' =>
          obtain ⟨rfl, later⟩ := List.cons.inj same
          obtain ⟨rfl, last⟩ := ih (List.forall_mem_cons.mp all).2 (List.forall_mem_cons.mp all').2
            later
          exact ⟨rfl, last⟩

theorem IsNumeral.append_inj {value value' : Nat} {digits digits' : List UInt8} {stop : UInt8}
    (numeral : IsNumeral value digits) (numeral' : IsNumeral value' digits')
    (ends : ¬ IsDigit stop) (same : digits ++ stop :: rest = digits' ++ stop :: rest') :
    value = value' ∧ rest = rest' := by
  obtain ⟨rfl, last⟩ :=
    append_cons_inj IsDigit ends ends numeral.isDigit numeral'.isDigit same
  exact ⟨numeral.eq_value.symm.trans numeral'.eq_value, (List.cons.inj last).2⟩

theorem SetsColor.append_inj {sequence sequence' : List UInt8} (sets : SetsColor color sequence)
    (sets' : SetsColor color' sequence') (same : sequence ++ rest = sequence' ++ rest') :
    color = color' ∧ rest = rest' := by
  obtain ⟨isRed, isGreen, isBlue⟩ := sets
  obtain ⟨isRed', isGreen', isBlue'⟩ := sets'
  simp only [bytesOf_semicolon, bytesOf_letter, List.append_assoc, List.append_cancel_left_eq,
    List.cons_append, List.nil_append] at same
  obtain ⟨red, same⟩ := isRed.append_inj isRed' (by decide) same
  obtain ⟨green, same⟩ := isGreen.append_inj isGreen' (by decide) same
  obtain ⟨blue, same⟩ := isBlue.append_inj isBlue' (by decide) same
  obtain ⟨_, _, _⟩ := color
  obtain ⟨_, _, _⟩ := color'
  obtain rfl := UInt8.toNat_inj.mp red
  obtain rfl := UInt8.toNat_inj.mp green
  obtain rfl := UInt8.toNat_inj.mp blue
  exact ⟨rfl, same⟩

/-! ## One reading only -/

theorem SetsColor.exists_cons {sequence : List UInt8} (sets : SetsColor color sequence) :
    ∃ more, sequence = escape :: 0x5B :: 0x33 :: more := by
  obtain ⟨_, _, _⟩ := sets
  rw [bytesOf_opening]
  exact ⟨_, rfl⟩

theorem Prints.exists_cons (printed : Prints pieces bytes) : ∃ more, bytes = escape :: more := by
  cases printed with
  | finish => exact ⟨_, bytesOf_reset⟩
  | piece sets plain later =>
      obtain ⟨more, rfl⟩ := sets.exists_cons
      exact ⟨_, rfl⟩

theorem Prints.unique (printed : Prints pieces bytes) :
    ∀ {pieces' : List (Color × List UInt8)} {bytes' : List UInt8},
      Prints pieces' bytes' → bytes = bytes' → pieces = pieces' := by
  induction printed with
  | finish =>
      intro pieces' bytes' printed' same
      cases printed' with
      | finish => rfl
      | piece sets plain later =>
          obtain ⟨more, rfl⟩ := sets.exists_cons
          simp [bytesOf_reset] at same
  | piece sets plain later ih =>
      intro pieces' bytes' printed' same
      cases printed' with
      | finish =>
          obtain ⟨more, rfl⟩ := sets.exists_cons
          simp [bytesOf_reset] at same
      | piece sets' plain' later' =>
          obtain ⟨rfl, tail⟩ := sets.append_inj sets' same
          -- Whatever comes later starts with an escape, so both pieces end at the first one.
          obtain ⟨more, rfl⟩ := later.exists_cons
          obtain ⟨more', rfl⟩ := later'.exists_cons
          have text : ∀ {shown : List UInt8}, escape ∉ shown → ∀ byte ∈ shown, byte ≠ escape :=
            fun plain byte member same => plain (same ▸ member)
          obtain ⟨rfl, last⟩ := append_cons_inj (· ≠ escape) (by simp) (by simp) (text plain)
            (text plain') tail
          rw [ih later' last]

theorem IsReading.unique (reading : IsReading pieces bytes) (reading' : IsReading pieces' bytes) :
    pieces = pieces' := by
  cases pieces with
  | nil =>
      cases pieces' with
      | nil => rfl
      | cons piece' more' =>
          obtain ⟨_, laid⟩ := Prints.exists_cons reading'
          rw [show bytes = [] from reading] at laid
          contradiction
  | cons piece more =>
      cases pieces' with
      | nil =>
          obtain ⟨_, laid⟩ := Prints.exists_cons reading
          rw [show bytes = [] from reading'] at laid
          contradiction
      | cons piece' more' => exact Prints.unique reading reading' rfl

/-! ## What is left without the sequences -/

theorem shownFrom_shown_append {shown : List UInt8} (plain : escape ∉ shown) :
    shownFrom .shown (shown ++ rest) = shown ++ shownFrom .shown rest := by
  induction shown with
  | nil => rfl
  | cons byte more ih =>
      obtain ⟨here, later⟩ := List.ne_and_not_mem_of_not_mem_cons plain
      rw [List.cons_append, shownFrom, if_neg here.symm, ih later, List.cons_append]

theorem IsNumeral.shownFrom_append {value : Nat} {digits : List UInt8}
    (numeral : IsNumeral value digits) :
    shownFrom .parameters (digits ++ rest) = shownFrom .parameters rest := by
  have isDigit := numeral.isDigit
  clear numeral
  induction digits with
  | nil => rfl
  | cons byte more ih =>
      obtain ⟨here, later⟩ := List.forall_mem_cons.mp isDigit
      have inside : ¬ (0x40 ≤ byte ∧ byte ≤ 0x7E) := by
        rintro ⟨low, _⟩
        exact absurd (UInt8.le_trans low here.2) (by decide)
      rw [List.cons_append, shownFrom, if_neg inside]
      exact ih later

theorem SetsColor.shownFrom_append {sequence : List UInt8} (sets : SetsColor color sequence) :
    shownFrom .shown (sequence ++ rest) = shownFrom .shown rest := by
  obtain ⟨isRed, isGreen, isBlue⟩ := sets
  simp only [bytesOf_opening, bytesOf_semicolon, bytesOf_letter, List.append_assoc,
    List.cons_append, List.nil_append]
  simp [shownFrom, escape, isRed.shownFrom_append, isGreen.shownFrom_append,
    isBlue.shownFrom_append]

theorem Prints.shownBytes_eq (printed : Prints pieces bytes) :
    shownBytes bytes = pieces.flatMap Prod.snd := by
  induction printed with
  | finish => decide
  | piece sets plain later ih =>
      rw [shownBytes, sets.shownFrom_append, shownFrom_shown_append plain, List.flatMap_cons]
      exact congrArg (_ ++ ·) ih

theorem IsReading.shownBytes_eq (reading : IsReading pieces bytes) :
    shownBytes bytes = pieces.flatMap Prod.snd := by
  cases pieces with
  | nil =>
      rw [show bytes = [] from reading]
      rfl
  | cons piece more => exact Prints.shownBytes_eq reading

/-! ## Reading what was written -/

theorem bounds_of_isDigit {c : Char} (digit : c.isDigit = true) : 48 ≤ c.toNat ∧ c.toNat ≤ 57 := by
  simp only [Char.isDigit, Bool.and_eq_true, decide_eq_true_eq, ge_iff_le,
    UInt32.le_iff_toNat_le] at digit
  exact digit

theorem digitsValue_map_toUInt8 {digits : List Char} (isDigit : ∀ c ∈ digits, c.isDigit = true) :
    digitsValue (digits.map Char.toUInt8) = Nat.ofDigitChars 10 digits 0 := by
  rw [digitsValue, Nat.ofDigitChars, List.foldl_map]
  apply List.foldl_ext
  intro value c member
  obtain ⟨_, small⟩ := bounds_of_isDigit (isDigit c member)
  rw [toNat_toUInt8 (by omega)]
  rfl

theorem isNumeral_toString (value : Nat) : IsNumeral value (bytesOf (toString value)) := by
  have isDigit : ∀ c ∈ Nat.toDigits 10 value, c.isDigit = true :=
    fun c member => Nat.isDigit_of_mem_toDigits (by decide) (by decide) member
  have laid : (toString value).toList = Nat.toDigits 10 value := by
    rw [Nat.toString_eq_repr, Nat.repr_eq_ofList_toDigits, String.toList_ofList]
  have ascii : ∀ c ∈ (toString value).toList, c.toNat < 128 := by
    intro c member
    obtain ⟨_, small⟩ := bounds_of_isDigit (isDigit c (laid ▸ member))
    omega
  rw [bytesOf_of_ascii ascii, laid]
  constructor
  · exact fun none => Nat.toDigits_ne_nil (List.map_eq_nil_iff.mp none)
  · intro byte member
    obtain ⟨c, known, rfl⟩ := List.mem_map.mp member
    obtain ⟨low, high⟩ := bounds_of_isDigit (isDigit c known)
    rw [IsDigit, UInt8.le_iff_toNat_le, UInt8.le_iff_toNat_le, toNat_toUInt8 (by omega)]
    exact ⟨low, high⟩
  · rw [digitsValue_map_toUInt8 isDigit, Nat.ofDigitChars_toDigits (by decide) (by decide)]

theorem setsColor_setColor (color : Color) : SetsColor color (bytesOf (setColor color)) := by
  have laid : setColor color = "\x1b[38;2;" ++ (toString color.red.toNat ++ ";" ++
      (toString color.green.toNat ++ ";" ++ (toString color.blue.toNat ++ "m"))) := by
    simp only [setColor, String.append_assoc]
    rfl
  rw [laid]
  simp only [bytesOf_append]
  exact .intro (isNumeral_toString _) (isNumeral_toString _) (isNumeral_toString _)

theorem prints_runs {runs : List Run} (plain : ∀ run ∈ runs, '\x1b' ∉ run.text.toList) :
    Prints ((runs.map Run.piece).map (Prod.map id bytesOf))
      (bytesOf (String.join (runs.map fun run => setColor run.color ++ run.text) ++ reset)) := by
  induction runs with
  | nil => exact .finish
  | cons run rest ih =>
      obtain ⟨here, later⟩ := List.forall_mem_cons.mp plain
      have shown : escape ∉ bytesOf run.text :=
        fun member => here ((toUInt8_mem_bytesOf_iff (by decide)).mp member)
      rw [List.map_cons, List.map_cons, List.map_cons, String.join_cons, String.append_assoc,
        String.append_assoc, bytesOf_append, bytesOf_append]
      exact .piece (setsColor_setColor run.color) shown (ih later)

theorem isReading_encode {runs : List Run} (plain : ∀ run ∈ runs, '\x1b' ∉ run.text.toList) :
    IsReading ((runs.map Run.piece).map (Prod.map id bytesOf)) (bytesOf (encode runs)) := by
  cases runs with
  | nil => rfl
  | cons run rest => exact prints_runs plain

end Terminal

/-! ## The same pieces in a JSON list -/

namespace Json

/-- The color and the text that a record has. -/
def piece? : Json → Option (Color × String)
  | .object fields =>
    match fields.lookup "color", fields.lookup "text" with
    | some (.string color), some (.string text) =>
      match Color.parse color with
      | .ok color => some (color, text)
      | .error _ => none
    | _, _ => none
  | _ => none

def pieces? : Json → Option (List (Color × String))
  | .array records => records.mapM piece?
  | _ => none

theorem piece?_toJson (theme : Theme) (run : Run) :
    (run.toRecord theme).toJson.piece? = some run.piece := by
  simp [Run.Record.toJson, piece?, List.lookup, Run.toRecord, Run.piece, Color.parse_print]

theorem pieces?_recordsJson (theme : Theme) (text : String) :
    (theme.recordsJson text).pieces? = some ((theme.render text).map Run.piece) := by
  have every : piece? ∘ Run.Record.toJson ∘ Run.toRecord theme = fun run => pure run.piece := by
    funext run
    rw [Function.comp_apply, Function.comp_apply, piece?_toJson]
    rfl
  rw [Theme.recordsJson, Theme.records, pieces?, List.map_map, List.mapM_map, every, List.mapM_pure]
  rfl

end Json

/-- If a text has no escape in it, what is printed of it on a terminal can be read in one way only:
the colors and pieces are those of the JSON list that is written of the same text.  Without the
escape sequences the bytes printed are those of the text. -/
theorem Theme.exists_reading (theme : Theme) {text : String} (plain : '\x1b' ∉ text.toList) :
    ∃ (document : String) (json : Json) (printed : ByteArray) (pieces : List (Color × String)),
      theme.write text .json (.ofRoom none) = .ok () ⟨(document ++ "\n").toUTF8, none⟩ ∧
      (∀ other, Spells other document.toList ↔ other = json) ∧
      json.pieces? = some pieces ∧ pieces = (theme.render text).map Run.piece ∧
      theme.write text .ansi (.ofRoom none) = .ok () ⟨printed, none⟩ ∧
      (∀ reading, Terminal.IsReading reading printed.data.toList ↔
        reading = pieces.map (Prod.map id bytesOf)) ∧
      Terminal.shownBytes printed.data.toList = bytesOf text := by
  have plainRuns : ∀ run ∈ theme.render text, '\x1b' ∉ run.text.toList := by
    intro run member inside
    apply plain
    rw [← theme.join_render text, String.toList_join]
    exact List.mem_flatMap.mpr ⟨run.text, List.mem_map_of_mem member, inside⟩
  have reading := Terminal.isReading_encode plainRuns
  refine ⟨(theme.recordsJson text).pretty, theme.recordsJson text,
    (Terminal.encode (theme.render text)).toUTF8, (theme.render text).map Run.piece,
    ?_, fun other => spells_pretty_iff, pieces?_recordsJson theme text, rfl,
    theme.write_ansi_unbounded text, ?_, ?_⟩
  · rw [write_json, writeLine_unbounded]
  · intro other
    constructor
    · intro reading'
      exact reading'.unique reading
    · rintro rfl
      exact reading
  · have shown := reading.shownBytes_eq
    rw [List.flatMap_map, List.flatMap_map] at shown
    have whole := bytesOf_join ((theme.render text).map Run.text)
    rw [join_render, List.flatMap_map] at whole
    exact shown.trans whole.symm

/-- Here the pieces start with what could end a sequence or go on with one of its numbers. -/
theorem Theme.exists_reading_of_digits :
    '\x1b' ∉ "5m'7'".toList ∧ ∃ printed : ByteArray,
      (Theme.mk .empty .standard).write "5m'7'" .ansi (.ofRoom none) = .ok () ⟨printed, none⟩ ∧
      ∀ reading, Terminal.IsReading reading printed.data.toList ↔
        reading = [(⟨0xEE, 0xEE, 0xEE⟩, bytesOf "5m"), (⟨0xCF, 0x92, 0x79⟩, bytesOf "'7'")] := by
  have plain : '\x1b' ∉ "5m'7'".toList := by decide
  obtain ⟨_, _, printed, _, _, _, _, rfl, written, readings, _⟩ :=
    (Theme.mk .empty .standard).exists_reading plain
  have pieces : ((Theme.mk .empty .standard).render "5m'7'").map Run.piece =
      [(⟨0xEE, 0xEE, 0xEE⟩, "5m"), (⟨0xCF, 0x92, 0x79⟩, "'7'")] := by cbv
  rw [pieces] at readings
  exact ⟨plain, printed, written, readings⟩

end Highlighter
