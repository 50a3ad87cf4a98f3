import Highlighter.Color.Basic
import Highlighter.Proofs.Text.Encoding

/-! # Colors as texts

Six digits after a `#` are read as three bytes, and what is printed for a color is read as that
color again. -/

set_option autoImplicit false

namespace Highlighter

open Text

/-! ## Digits -/

theorem Text.ascii_of_hexValue? {c : Char} {value : Nat} (digit : hexValue? c = some value) :
    c.toNat < 128 := by
  have ascii : ∀ {last : Char}, last.toNat < 128 → c ≤ last → c.toNat < 128 := by
    intro last small below
    exact Nat.lt_of_le_of_lt (Char.le_def.mp below) small
  rw [hexValue?] at digit
  split at digit
  · next range => exact ascii (by decide) range.2
  split at digit
  · next range => exact ascii (by decide) range.2
  split at digit
  · next range => exact ascii (by decide) range.2
  · contradiction

theorem Text.byteLength_of_mapM_hexValue? {digits : List Char} :
    ∀ {values : List Nat}, digits.mapM hexValue? = some values →
      byteLength digits = values.length := by
  induction digits with
  | nil =>
      intro values read
      rw [List.mapM_nil] at read
      cases read
      rfl
  | cons c rest ih =>
      intro values read
      rw [List.mapM_cons] at read
      cases digit : hexValue? c with
      | none => simp [digit] at read
      | some value =>
          cases others : rest.mapM hexValue? with
          | none => simp [digit, others] at read
          | some more =>
              simp only [digit, others, Option.pure_def, Option.bind_eq_bind, Option.bind_some,
                Option.some.injEq] at read
              subst read
              rw [byteLength_cons, ih others, utf8Size_of_ascii (ascii_of_hexValue? digit),
                List.length_cons, Nat.add_comm]

theorem Text.mapM_hexValue?_upperHexByte (byte : UInt8) :
    (upperHexByte byte).mapM hexValue? = some [byte.toNat / 16, byte.toNat % 16] := by
  have bound : byte.toNat < 256 := byte.toNat_lt
  have highSmall : byte.toNat / 16 < 16 := by omega
  have lowSmall : byte.toNat % 16 < 16 := by omega
  simp [upperHexByte, List.mapM_cons, hexValue?_upperHexDigit highSmall,
    hexValue?_upperHexDigit lowSmall]

theorem Text.toUpper_eq_self {c : Char} (past : 128 ≤ c.toNat) : c.toUpper = c := by
  have notLetter : ¬ (c.val ≥ 97 ∧ c.val ≤ 122) := by
    rintro ⟨_, small⟩
    have bound : c.toNat ≤ 122 := UInt32.le_iff_toNat_le.mp small
    omega
  exact dif_neg notLetter

theorem Text.exists_code {c : Char} (ascii : c.toNat < 128) :
    ∃ code : Fin 128, c = Char.ofNat code :=
  ⟨⟨c.toNat, ascii⟩, (Char.ofNat_toNat c).symm⟩

theorem Text.hexValue?_toUpper (c : Char) : hexValue? c.toUpper = hexValue? c := by
  rcases Nat.lt_or_ge c.toNat 128 with small | past
  · have every : ∀ code : Fin 128,
        hexValue? (Char.ofNat code).toUpper = hexValue? (Char.ofNat code) := by decide
    obtain ⟨code, rfl⟩ := exists_code small
    exact every code
  · rw [toUpper_eq_self past]

theorem Text.eq_hash_of_toUpper {c : Char} (hash : c.toUpper = '#') : c = '#' := by
  rcases Nat.lt_or_ge c.toNat 128 with small | past
  · have every : ∀ code : Fin 128,
        (Char.ofNat code).toUpper = '#' → Char.ofNat code = '#' := by decide
    obtain ⟨code, rfl⟩ := exists_code small
    exact every code hash
  · rw [← hash, toUpper_eq_self past]

theorem Text.map_toUpper_upperHexByte (byte : UInt8) :
    (upperHexByte byte).map Char.toUpper = upperHexByte byte := by
  have every : ∀ digit : Fin 16, (upperHexDigit digit).toUpper = upperHexDigit digit := by decide
  have bound : byte.toNat < 256 := byte.toNat_lt
  have high := every ⟨byte.toNat / 16, by omega⟩
  have low := every ⟨byte.toNat % 16, by omega⟩
  simp only [upperHexByte, List.map_cons, List.map_nil, high, low]

/-! ## Colors -/

namespace Color

theorem channel_toNat (byte : UInt8) : channel (byte.toNat / 16) (byte.toNat % 16) = byte := by
  rw [channel, Nat.div_add_mod', UInt8.ofNat_toNat]

theorem parse_of_digits {text : String} {digits : List Char} {r r' g g' b b' : Nat}
    (laid : text.toList = '#' :: digits)
    (read : digits.mapM hexValue? = some [r, r', g, g', b, b']) :
    parse text = .ok ⟨channel r r', channel g g', channel b b'⟩ := by
  have length : byteLength digits = 6 := byteLength_of_mapM_hexValue? read
  simp only [parse, laid, length, ne_eq, not_true_eq_false, if_false, read]

/-- Digits are as good as the printed ones where they have the same values. -/
theorem parse_of_printed_digits {text : String} {digits : List Char} {color : Color}
    (laid : text.toList = '#' :: digits)
    (same : digits.mapM hexValue? = (upperHexByte color.red ++ upperHexByte color.green ++
      upperHexByte color.blue).mapM hexValue?) : parse text = .ok color := by
  have read : digits.mapM hexValue? =
      some [color.red.toNat / 16, color.red.toNat % 16, color.green.toNat / 16,
        color.green.toNat % 16, color.blue.toNat / 16, color.blue.toNat % 16] := by
    rw [same]
    simp [List.mapM_append, mapM_hexValue?_upperHexByte]
  have parsed := parse_of_digits laid read
  rw [channel_toNat, channel_toNat, channel_toNat] at parsed
  exact parsed

theorem parse_print (color : Color) : parse color.print = .ok color :=
  parse_of_printed_digits String.toList_ofList rfl

theorem map_toUpper_print (color : Color) :
    color.print.toList.map Char.toUpper = color.print.toList := by
  rw [print, String.toList_ofList]
  simp only [List.cons_append, List.map_cons, List.map_append, map_toUpper_upperHexByte]
  rfl

theorem parse_of_toUpper {text : String} {color : Color}
    (upper : text.toList.map Char.toUpper = color.print.toList) : parse text = .ok color := by
  rw [print, String.toList_ofList, List.cons_append, List.cons_append] at upper
  obtain ⟨hash, digits, laid, isHash, printed⟩ := List.map_eq_cons_iff.mp upper
  rw [eq_hash_of_toUpper isHash] at laid
  apply parse_of_printed_digits laid
  rw [← printed, List.mapM_map]
  exact congrArg digits.mapM (funext fun c => (hexValue?_toUpper c).symm)

end Color

end Highlighter
