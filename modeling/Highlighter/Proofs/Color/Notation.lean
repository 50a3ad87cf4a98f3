import Mathlib.Data.String.Basic
import Highlighter.Color.Slices
import Highlighter.Proofs.Color.Codec
import Highlighter.Proofs.Token.Tiling

/-! # How a color is written

A color is written as a `#` and six hexadecimal digits of either case, and nothing else is read as
one.  A text that is not written so is refused for the first of three reasons.  Reading by slices of
bytes answers the same for every text: where a slice is cut, the six bytes are six characters. -/

set_option autoImplicit false

namespace Highlighter

open Text

/-! ## Digits and their bytes -/

def Text.IsHexDigit (c : Char) : Prop :=
  c ∈ "0123456789ABCDEFabcdef".toList

instance : DecidablePred IsHexDigit := fun c =>
  inferInstanceAs (Decidable (c ∈ "0123456789ABCDEFabcdef".toList))

/-- The two digits of a byte, each in either case. -/
def Text.SpellsByte (digits : List Char) (byte : UInt8) : Prop :=
  digits.map Char.toUpper = upperHexByte byte

namespace Text

variable {c : Char}

theorem isHexDigit_iff : IsHexDigit c ↔ ∃ value, hexValue? c = some value := by
  constructor
  · intro digit
    have every : "0123456789ABCDEFabcdef".toList.all fun d => (hexValue? d).isSome := by decide
    exact Option.isSome_iff_exists.mp (List.all_eq_true.mp every c digit)
  · rintro ⟨value, known⟩
    have every : ∀ code : Fin 128,
        (hexValue? (Char.ofNat code)).isSome → IsHexDigit (Char.ofNat code) := by decide
    obtain ⟨code, rfl⟩ := exists_code (ascii_of_hexValue? known)
    exact every code (Option.isSome_of_eq_some known)

theorem IsHexDigit.ascii (digit : IsHexDigit c) : c.toNat < 128 := by
  obtain ⟨value, known⟩ := isHexDigit_iff.mp digit
  exact ascii_of_hexValue? known

theorem isHexDigit_toUpper : IsHexDigit c.toUpper ↔ IsHexDigit c := by
  rw [isHexDigit_iff, isHexDigit_iff, hexValue?_toUpper]

theorem IsHexDigit.exists_value (digit : IsHexDigit c) :
    ∃ value < 16, c.toUpper = upperHexDigit value := by
  have every : ∀ code : Fin 128, (hexValue? (Char.ofNat code)).isSome →
      ∃ value : Fin 16, (Char.ofNat code).toUpper = upperHexDigit value := by decide
  obtain ⟨code, rfl⟩ := exists_code digit.ascii
  obtain ⟨known, read⟩ := isHexDigit_iff.mp digit
  obtain ⟨value, upper⟩ := every code (Option.isSome_of_eq_some read)
  exact ⟨value, value.isLt, upper⟩

theorem isHexDigit_upperHexDigit {value : Nat} (small : value < 16) :
    IsHexDigit (upperHexDigit value) :=
  isHexDigit_iff.mpr ⟨value, hexValue?_upperHexDigit small⟩

theorem isHexDigit_of_mem_upperHexByte {byte : UInt8} (member : c ∈ upperHexByte byte) :
    IsHexDigit c := by
  have bound : byte.toNat < 256 := byte.toNat_lt
  rw [upperHexByte, List.mem_pair] at member
  rcases member with rfl | rfl
  · exact isHexDigit_upperHexDigit (by omega)
  · exact isHexDigit_upperHexDigit (by omega)

theorem isHexDigit_of_mapM_hexValue? {digits : List Char} : ∀ {values : List Nat},
    digits.mapM hexValue? = some values → ∀ d ∈ digits, IsHexDigit d := by
  induction digits with
  | nil =>
      intro values _ d member
      simp at member
  | cons e rest ih =>
      intro values read
      rw [List.mapM_cons] at read
      obtain ⟨value, known, read⟩ := Option.bind_eq_some_iff.mp read
      obtain ⟨others, read, _⟩ := Option.bind_eq_some_iff.mp read
      exact List.forall_mem_cons.mpr ⟨isHexDigit_iff.mpr ⟨value, known⟩, ih read⟩

theorem byteLength_of_isHexDigit {digits : List Char} (all : ∀ d ∈ digits, IsHexDigit d) :
    byteLength digits = digits.length := by
  induction digits with
  | nil => rfl
  | cons e rest ih =>
      obtain ⟨digit, others⟩ := List.forall_mem_cons.mp all
      rw [byteLength_cons, ih others, utf8Size_of_ascii digit.ascii, List.length_cons, Nat.add_comm]

/-- Of a character that is no digit, not even one byte could be a digit. -/
theorem all_isHexByte_utf8EncodeChar :
    (String.utf8EncodeChar c).all isHexByte = true ↔ IsHexDigit c := by
  rcases Nat.lt_or_ge c.toNat 128 with small | past
  · have every : ∀ code : Fin 128, isHexByte (Char.ofNat code).toUInt8 =
        (hexValue? (Char.ofNat code)).isSome := by decide
    rw [utf8EncodeChar_of_ascii small, List.all_cons, List.all_nil, Bool.and_true, isHexDigit_iff,
      ← Option.isSome_iff_exists]
    obtain ⟨code, rfl⟩ := exists_code small
    rw [every code]
  · constructor
    · intro all
      obtain ⟨lead, others, encoded, _⟩ := utf8EncodeChar_eq_cons c
      have high : 0x80 ≤ lead :=
        le_of_mem_utf8EncodeChar past lead (encoded ▸ List.mem_cons_self)
      have hex : isHexByte lead = true :=
        List.all_eq_true.mp all lead (encoded ▸ List.mem_cons_self)
      simp only [isHexByte, Bool.or_eq_true, Bool.and_eq_true, decide_eq_true_eq,
        UInt8.le_iff_toNat_le, UInt8.reduceToNat] at hex high
      omega
    · intro digit
      have small := digit.ascii
      omega

theorem all_isHexByte_toUTF8 {digits : String} :
    digits.toUTF8.data.all isHexByte = true ↔ ∀ d ∈ digits.toList, IsHexDigit d := by
  rw [← Array.all_toList]
  change (bytesOf digits).all isHexByte = true ↔ _
  rw [bytesOf_eq_flatMap, List.all_flatMap, List.all_eq_true]
  exact forall₂_congr fun d _ => all_isHexByte_utf8EncodeChar

/-! ## Pairs of digits -/

variable {digits : List Char} {byte : UInt8}

theorem exists_spellsByte {d : Char} (high : IsHexDigit c) (low : IsHexDigit d) :
    ∃ byte, SpellsByte [c, d] byte := by
  obtain ⟨first, firstSmall, upper⟩ := high.exists_value
  obtain ⟨second, secondSmall, upper'⟩ := low.exists_value
  refine ⟨Color.channel first second, ?_⟩
  have value : (Color.channel first second).toNat = first * 16 + second := by
    rw [Color.channel, UInt8.toNat_ofNat', Nat.mod_eq_of_lt (by omega)]
  have quotient : (first * 16 + second) / 16 = first := by omega
  have remainder : (first * 16 + second) % 16 = second := by omega
  rw [SpellsByte, upperHexByte, value, quotient, remainder, List.map_cons, List.map_cons, upper,
    upper', List.map_nil]

theorem SpellsByte.isHexDigit (spells : SpellsByte digits byte) : ∀ d ∈ digits, IsHexDigit d := by
  intro d member
  have upper : d.toUpper ∈ upperHexByte byte := spells ▸ List.mem_map_of_mem member
  exact isHexDigit_toUpper.mp (isHexDigit_of_mem_upperHexByte upper)

theorem SpellsByte.exists_pair (spells : SpellsByte digits byte) :
    ∃ high low, digits = [high, low] ∧ hexValue? high = some (byte.toNat / 16) ∧
      hexValue? low = some (byte.toNat % 16) := by
  have bound : byte.toNat < 256 := byte.toNat_lt
  rw [SpellsByte, upperHexByte] at spells
  obtain ⟨high, rest, rfl, first, spells⟩ := List.map_eq_cons_iff.mp spells
  obtain ⟨low, rest, rfl, second, spells⟩ := List.map_eq_cons_iff.mp spells
  obtain rfl := List.map_eq_nil_iff.mp spells
  refine ⟨high, low, rfl, ?_, ?_⟩
  · rw [← hexValue?_toUpper, first, hexValue?_upperHexDigit (by omega)]
  · rw [← hexValue?_toUpper, second, hexValue?_upperHexDigit (by omega)]

theorem SpellsByte.byteLength_eq (spells : SpellsByte digits byte) : byteLength digits = 2 := by
  have length := congrArg List.length spells
  rw [List.length_map] at length
  rw [byteLength_of_isHexDigit spells.isHexDigit, length]
  rfl

theorem appendHex?_of_hexValue? {value digit : Nat} (known : hexValue? c = some digit)
    (fits : value * 16 + digit < 256) : appendHex? value c = some (value * 16 + digit) := by
  rw [appendHex?, known]
  exact if_pos fits

/-- The plus that the reader of numbers takes is no digit, so it has no part in reading a pair. -/
theorem byteOfHex?_of_spellsByte (spells : SpellsByte digits byte) :
    byteOfHex? (String.ofList digits) = some byte := by
  have bound : byte.toNat < 256 := byte.toNat_lt
  obtain ⟨high, low, rfl, first, second⟩ := spells.exists_pair
  have noPlus : high ≠ '+' := by
    rintro rfl
    have none : hexValue? '+' = none := by decide
    rw [none] at first
    contradiction
  have one : appendHex? 0 high = some (byte.toNat / 16) := by
    rw [appendHex?_of_hexValue? first (by omega), Nat.zero_mul, Nat.zero_add]
  have both : appendHex? (byte.toNat / 16) low = some byte.toNat := by
    rw [appendHex?_of_hexValue? second (by omega), Nat.div_add_mod']
  rw [byteOfHex?, String.toList_ofList]
  simp [noPlus, one, both, List.foldlM_cons]

theorem slice?_eq {text : String} {before middle after : List Char}
    (split : text.toList = before ++ (middle ++ after)) :
    slice? text (byteLength before) (byteLength before + byteLength middle) =
      some (String.ofList middle) := by
  have start : IsBoundary text (byteLength before) := isBoundary_byteLength split
  have stop : IsBoundary text (byteLength before + byteLength middle) := by
    rw [← byteLength_append]
    exact isBoundary_byteLength (split.trans (List.append_assoc _ _ _).symm)
  have valid := String.Pos.Raw.isValid_eq_true_iff.mpr start
  have valid' := String.Pos.Raw.isValid_eq_true_iff.mpr stop
  have whole : text = String.ofList (before ++ middle ++ after) := by
    rw [List.append_assoc, ← split, String.ofList_toList]
  unfold slice?
  rw [if_pos ⟨Nat.le_add_right _ _, valid, valid'⟩, whole, byteLength_eq_utf8Len,
    byteLength_eq_utf8Len, String.extract_of_valid]

end Text

namespace Color

variable {text : String} {r g b : List Char} {color : Color} {fault : ColorFault}

/-- How a color is written. -/
def IsNotation (text : String) : Prop :=
  ∃ digits, text.toList = '#' :: digits ∧ digits.length = 6 ∧ ∀ c ∈ digits, IsHexDigit c

/-- The first reason against a text that is not written as a color. -/
inductive Refuses (text : String) : ColorFault → Prop where
  | noHash (other : text.toList.head? ≠ some '#') : Refuses text (.noHash text)
  | wrongLength {digits : List Char} (hash : text.toList = '#' :: digits)
      (length : byteLength digits ≠ 6) : Refuses text (.wrongLength text)
  | noDigit {digits : List Char} {c : Char} (hash : text.toList = '#' :: digits)
      (length : byteLength digits = 6) (member : c ∈ digits) (other : ¬ IsHexDigit c) :
      Refuses text (.noDigit text)

theorem isNotation_or_refuses (text : String) : IsNotation text ∨ ∃ fault, Refuses text fault := by
  by_cases hash : text.toList.head? = some '#'
  · obtain ⟨digits, laid⟩ := List.head?_eq_some_iff.mp hash
    by_cases length : byteLength digits = 6
    · by_cases all : ∀ c ∈ digits, IsHexDigit c
      · left
        exact ⟨digits, laid, byteLength_of_isHexDigit all ▸ length, all⟩
      · right
        push Not at all
        obtain ⟨c, member, other⟩ := all
        exact ⟨_, .noDigit laid length member other⟩
    · right
      exact ⟨_, .wrongLength laid length⟩
  · right
    exact ⟨_, .noHash hash⟩

/-- The three pairs of digits that write the channels of a color. -/
structure Writes (text : String) (r g b : List Char) (color : Color) : Prop where
  laid : text.toList = '#' :: (r ++ (g ++ b))
  red : SpellsByte r color.red
  green : SpellsByte g color.green
  blue : SpellsByte b color.blue

theorem IsNotation.exists_writes (written : IsNotation text) :
    ∃ r g b color, Writes text r g b color := by
  obtain ⟨digits, laid, length, all⟩ := written
  match digits, length with
  | [r, r', g, g', b, b'], _ =>
      simp only [List.forall_mem_cons] at all
      obtain ⟨high, low, high', low', high'', low'', _⟩ := all
      obtain ⟨red, first⟩ := exists_spellsByte high low
      obtain ⟨green, second⟩ := exists_spellsByte high' low'
      obtain ⟨blue, third⟩ := exists_spellsByte high'' low''
      exact ⟨[r, r'], [g, g'], [b, b'], ⟨red, green, blue⟩, laid, first, second, third⟩

theorem Writes.map_toUpper (writes : Writes text r g b color) :
    text.toList.map Char.toUpper = color.print.toList := by
  obtain ⟨laid, red, green, blue⟩ := writes
  unfold SpellsByte at red green blue
  rw [laid, print, String.toList_ofList, List.map_cons, List.map_append, List.map_append, red,
    green, blue, List.cons_append, List.cons_append, List.append_assoc]
  rfl

/-! ## Reading by characters -/

theorem parse_of_refuses (refuses : Refuses text fault) : parse text = .error fault := by
  cases refuses with
  | noHash other =>
      unfold parse
      split
      · next laid =>
          rw [laid] at other
          contradiction
      · rfl
  | wrongLength hash length =>
      simp only [parse, hash, length, ne_eq, not_false_eq_true, if_true]
  | noDigit hash length member other =>
      simp only [parse, hash, length, ne_eq, not_true_eq_false, if_false]
      split
      · next read => exact absurd (isHexDigit_of_mapM_hexValue? read _ member) other
      · rfl

theorem IsNotation.exists_parse (written : IsNotation text) : ∃ color, parse text = .ok color := by
  obtain ⟨r, g, b, color, writes⟩ := written.exists_writes
  exact ⟨color, parse_of_toUpper writes.map_toUpper⟩

theorem exists_parse_iff : (∃ color, parse text = .ok color) ↔ IsNotation text := by
  constructor
  · rintro ⟨color, parsed⟩
    rcases isNotation_or_refuses text with written | ⟨fault, refuses⟩
    · exact written
    · rw [parse_of_refuses refuses] at parsed
      contradiction
  · exact IsNotation.exists_parse

theorem parse_eq_error_iff : parse text = .error fault ↔ Refuses text fault := by
  constructor
  · intro parsed
    rcases isNotation_or_refuses text with written | ⟨other, refuses⟩
    · obtain ⟨color, read⟩ := written.exists_parse
      rw [read] at parsed
      contradiction
    · rw [parse_of_refuses refuses, Except.error.injEq] at parsed
      exact parsed ▸ refuses
  · exact parse_of_refuses

theorem parse_eq_ok_iff : parse text = .ok color ↔ color.print = text.map Char.toUpper := by
  rw [← String.toList_inj, String.toList_map]
  constructor
  · intro parsed
    obtain ⟨r, g, b, other, writes⟩ := (exists_parse_iff.mp ⟨color, parsed⟩).exists_writes
    rw [parse_of_toUpper writes.map_toUpper, Except.ok.injEq] at parsed
    exact parsed ▸ writes.map_toUpper.symm
  · intro upper
    exact parse_of_toUpper upper.symm

/-! ## Reading by slices -/

theorem channelAt_of_spellsByte {digits : String} {before middle after : List Char} {byte : UInt8}
    (split : digits.toList = before ++ (middle ++ after)) (spells : SpellsByte middle byte) :
    channelAt text digits (byteLength before) = pure byte := by
  have cut := slice?_eq split
  rw [spells.byteLength_eq] at cut
  have lifted : (liftM (some (String.ofList middle)) : ExceptT ColorFault Option String) =
      pure (String.ofList middle) := rfl
  unfold channelAt
  rw [cut, lifted, pure_bind, byteOfHex?_of_spellsByte spells]

theorem parseSlices_of_refuses (refuses : Refuses text fault) :
    parseSlices text = throw fault := by
  cases refuses with
  | noHash other =>
      unfold parseSlices
      split
      · next laid =>
          rw [laid] at other
          contradiction
      · rfl
  | @wrongLength digits hash length =>
      have size : (String.ofList digits).utf8ByteSize ≠ 6 := by
        rw [← byteLength_toList, String.toList_ofList]
        exact length
      simp only [parseSlices, hash, size, ne_eq, not_false_eq_true, if_true]
      rfl
  | @noDigit digits c hash length member other =>
      have size : (String.ofList digits).utf8ByteSize = 6 := by
        rw [← byteLength_toList, String.toList_ofList]
        exact length
      have notAll : ¬ (String.ofList digits).toUTF8.data.all isHexByte = true := by
        rw [all_isHexByte_toUTF8, String.toList_ofList]
        intro all
        exact other (all c member)
      simp only [parseSlices, hash, size, notAll, ne_eq, not_true_eq_false, if_false]
      rfl

theorem Writes.parseSlices_eq (writes : Writes text r g b color) :
    parseSlices text = pure color := by
  obtain ⟨laid, red, green, blue⟩ := writes
  have first := @channelAt_of_spellsByte text (String.ofList (r ++ (g ++ b))) [] r (g ++ b) _
    String.toList_ofList red
  have second := @channelAt_of_spellsByte text (String.ofList (r ++ (g ++ b))) r g b _
    String.toList_ofList green
  have third := @channelAt_of_spellsByte text (String.ofList (r ++ (g ++ b))) (r ++ g) b [] _
    (by rw [String.toList_ofList, List.append_assoc, List.append_nil]) blue
  rw [byteLength_nil] at first
  rw [red.byteLength_eq] at second
  rw [byteLength_append, red.byteLength_eq, green.byteLength_eq] at third
  have size : (String.ofList (r ++ (g ++ b))).utf8ByteSize = 6 := by
    rw [← byteLength_toList, String.toList_ofList, byteLength_append, byteLength_append,
      red.byteLength_eq, green.byteLength_eq, blue.byteLength_eq]
  have all : (String.ofList (r ++ (g ++ b))).toUTF8.data.all isHexByte = true := by
    rw [all_isHexByte_toUTF8, String.toList_ofList, List.forall_mem_append, List.forall_mem_append]
    exact ⟨red.isHexDigit, green.isHexDigit, blue.isHexDigit⟩
  simp only [parseSlices, laid, size, all, first, second, third]
  rfl

theorem run_parseSlices (text : String) : (parseSlices text).run = some (parse text) := by
  rcases isNotation_or_refuses text with written | ⟨fault, refuses⟩
  · obtain ⟨r, g, b, color, writes⟩ := written.exists_writes
    rw [writes.parseSlices_eq, parse_of_toUpper writes.map_toUpper]
    rfl
  · rw [parseSlices_of_refuses refuses, parse_of_refuses refuses]
    rfl

/-- What is read as a color, which color that is, and which reason stands against everything else.
No slice of any text is cut inside of a character. -/
theorem parse_codec (text : String) :
    (parseSlices text).run = some (parse text) ∧
      ((∃ color, parse text = .ok color) ↔ IsNotation text) ∧
      (∀ color, parse text = .ok color ↔ color.print = text.map Char.toUpper) ∧
      (∀ fault, parse text = .error fault ↔ Refuses text fault) ∧
      ∀ color : Color, parse color.print = .ok color :=
  ⟨run_parseSlices text, exists_parse_iff, fun _ => parse_eq_ok_iff, fun _ => parse_eq_error_iff,
    parse_print⟩

end Color

end Highlighter
