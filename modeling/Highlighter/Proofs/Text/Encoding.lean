import Mathlib.Data.String.Basic
import Highlighter.Text.Utf8
import Highlighter.Token.Pos

/-! # The bytes of characters

A character below 128 is the one byte with its number.  Every byte of another character is 128 or
above, and the first byte of any character tells how many there are. -/

set_option autoImplicit false

namespace Highlighter.Text

theorem byteLength_eq_utf8Len (chars : List Char) : byteLength chars = String.utf8Len chars := by
  induction chars with
  | nil => rfl
  | cons c rest ih =>
      rw [byteLength_cons, String.utf8Len_cons, ih]
      omega

theorem byteLength_toList (text : String) : byteLength text.toList = text.utf8ByteSize := by
  rw [byteLength_eq_utf8Len, String.utf8Len_toList]

theorem byteLength_eq_zero_iff {chars : List Char} : byteLength chars = 0 ↔ chars = [] := by
  rw [byteLength_eq_utf8Len, String.utf8Len_eq_zero]

theorem byteLength_replicate (count : Nat) (c : Char) :
    byteLength (List.replicate count c) = count * c.utf8Size := by
  induction count with
  | zero => rw [List.replicate_zero, byteLength_nil, Nat.zero_mul]
  | succ count ih => rw [List.replicate_succ, byteLength_cons, ih, Nat.succ_mul, Nat.add_comm]

theorem size_utf8Encode (chars : List Char) : chars.utf8Encode.size = byteLength chars := by
  induction chars with
  | nil => rfl
  | cons c rest ih =>
      rw [List.utf8Encode_cons, ByteArray.size_append, ih, List.utf8Encode_singleton]
      simp

/-- Of two beginnings of one text, the one with fewer bytes begins the other. -/
theorem exists_append_of_byteLength_le {before ahead : List Char} :
    ∀ {before' ahead' : List Char}, before ++ ahead = before' ++ ahead' →
      byteLength before ≤ byteLength before' → ∃ middle, before' = before ++ middle := by
  induction before with
  | nil =>
      intro before' ahead' _ _
      exact ⟨before', rfl⟩
  | cons c rest ih =>
      intro before' ahead' same le
      cases before' with
      | nil =>
          have width := c.utf8Size_pos
          rw [byteLength_cons, byteLength_nil] at le
          omega
      | cons d rest' =>
          rw [List.cons_append, List.cons_append, List.cons.injEq] at same
          obtain ⟨rfl, same⟩ := same
          rw [byteLength_cons, byteLength_cons] at le
          obtain ⟨middle, rfl⟩ := ih same (by omega)
          exact ⟨middle, rfl⟩

theorem append_inj_of_byteLength_eq {before ahead before' ahead' : List Char}
    (same : before ++ ahead = before' ++ ahead')
    (length : byteLength before = byteLength before') : before = before' ∧ ahead = ahead' := by
  obtain ⟨middle, rfl⟩ := exists_append_of_byteLength_le same (Nat.le_of_eq length)
  have none : middle = [] := by
    rw [byteLength_append] at length
    exact byteLength_eq_zero_iff.mp (by omega)
  subst none
  rw [List.append_nil] at same ⊢
  exact ⟨rfl, List.append_cancel_left same⟩

/-! ## Single characters -/

theorem utf8EncodeChar_of_ascii {c : Char} (ascii : c.toNat < 128) :
    String.utf8EncodeChar c = [c.toUInt8] := by
  have small : c.val.toNat ≤ 127 := Nat.le_of_lt_succ ascii
  rw [String.utf8EncodeChar]
  simp only [if_pos small]
  rfl

theorem utf8Size_of_ascii {c : Char} (ascii : c.toNat < 128) : c.utf8Size = 1 := by
  rw [← String.length_utf8EncodeChar, utf8EncodeChar_of_ascii ascii]
  rfl

theorem toNat_toUInt8 {c : Char} (ascii : c.toNat < 128) : c.toUInt8.toNat = c.toNat := by
  change c.toNat % 256 = c.toNat
  omega

theorem toUInt8_inj {c d : Char} (left : c.toNat < 128) (right : d.toNat < 128) :
    c.toUInt8 = d.toUInt8 ↔ c = d := by
  rw [← UInt8.toNat_inj, toNat_toUInt8 left, toNat_toUInt8 right, Char.toNat_inj]

theorem toUInt8_lt {c : Char} (ascii : c.toNat < 128) : c.toUInt8 < 0x80 := by
  rw [UInt8.lt_iff_toNat_lt, toNat_toUInt8 ascii]
  exact ascii

theorem ofUInt8_toUInt8 {c : Char} (ascii : c.toNat < 128) : Char.ofUInt8 c.toUInt8 = c := by
  apply Char.toNat_inj.mp
  exact toNat_toUInt8 ascii

theorem le_ofNat {value : Nat} (wide : 128 ≤ value) (bound : value < 256) :
    0x80 ≤ UInt8.ofNat value := by
  rw [UInt8.le_iff_toNat_le, UInt8.toNat_ofNat', Nat.mod_eq_of_lt bound]
  exact wide

theorem le_of_mem_utf8EncodeChar {c : Char} (wide : 128 ≤ c.toNat) :
    ∀ byte ∈ String.utf8EncodeChar c, 0x80 ≤ byte := by
  have large : ¬ c.val.toNat ≤ 127 := Nat.not_le.mpr wide
  simp only [String.utf8EncodeChar, if_neg large]
  intro byte member
  split at member
  · simp only [List.mem_cons, List.not_mem_nil, or_false] at member
    rcases member with rfl | rfl
    all_goals exact le_ofNat (by omega) (by omega)
  · split at member
    · simp only [List.mem_cons, List.not_mem_nil, or_false] at member
      rcases member with rfl | rfl | rfl
      all_goals exact le_ofNat (by omega) (by omega)
    · simp only [List.mem_cons, List.not_mem_nil, or_false] at member
      rcases member with rfl | rfl | rfl | rfl
      all_goals exact le_ofNat (by omega) (by omega)

theorem leadWidth_ofNat {value : Nat} (bound : value < 256) :
    leadWidth (UInt8.ofNat value) =
      if 0xC0 ≤ value ∧ value ≤ 0xDF then 2
      else if 0xE0 ≤ value ∧ value ≤ 0xEF then 3
      else if 0xF0 ≤ value ∧ value ≤ 0xF7 then 4
      else 1 := by
  simp only [leadWidth, UInt8.le_iff_toNat_le, UInt8.toNat_ofNat', UInt8.reduceToNat]
  rw [Nat.mod_eq_of_lt (by omega : value < 2 ^ 8)]

/-- The table of widths agrees with the encoding at every first byte. -/
theorem utf8EncodeChar_eq_cons (c : Char) :
    ∃ lead others, String.utf8EncodeChar c = lead :: others ∧ leadWidth lead = c.utf8Size := by
  rw [← String.length_utf8EncodeChar c]
  simp only [String.utf8EncodeChar]
  split
  · refine ⟨_, _, rfl, ?_⟩
    rw [leadWidth_ofNat (by omega), if_neg (by omega), if_neg (by omega), if_neg (by omega)]
    rfl
  · split
    · refine ⟨_, _, rfl, ?_⟩
      rw [leadWidth_ofNat (by omega), if_pos (by omega)]
      rfl
    · split
      · refine ⟨_, _, rfl, ?_⟩
        rw [leadWidth_ofNat (by omega), if_neg (by omega), if_pos (by omega)]
        rfl
      · refine ⟨_, _, rfl, ?_⟩
        rw [leadWidth_ofNat (by omega), if_neg (by omega), if_neg (by omega), if_pos (by omega)]
        rfl

/-! ## Texts -/

theorem fromUTF8?_eq_some_iff {bytes : ByteArray} {text : String} :
    String.fromUTF8? bytes = some text ↔ text.toUTF8 = bytes := by
  constructor
  · intro decoded
    rw [String.fromUTF8?] at decoded
    split at decoded
    · cases decoded
      rfl
    · contradiction
  · rintro rfl
    rw [String.fromUTF8?, String.toUTF8_eq_toByteArray, dif_pos text.isValidUTF8]
    rfl

/-- The bytes of a text one by one. -/
def bytesOf (text : String) : List UInt8 := text.toUTF8.data.toList

theorem bytesOf_eq_flatMap (text : String) :
    bytesOf text = text.toList.flatMap String.utf8EncodeChar := by
  have encoded : text.toUTF8 = text.toList.utf8Encode := String.utf8Encode_toList.symm
  rw [bytesOf, encoded, List.utf8Encode, List.data_toByteArray, List.toList_toArray]

theorem bytesOf_append (left right : String) :
    bytesOf (left ++ right) = bytesOf left ++ bytesOf right := by
  rw [bytesOf_eq_flatMap, bytesOf_eq_flatMap, bytesOf_eq_flatMap, String.toList_append,
    List.flatMap_append]

theorem bytesOf_join (texts : List String) :
    bytesOf (String.join texts) = texts.flatMap bytesOf := by
  rw [bytesOf_eq_flatMap, String.toList_join, List.flatMap_assoc]
  exact List.flatMap_congr fun text _ => (bytesOf_eq_flatMap text).symm

theorem bytesOf_of_ascii {text : String} (ascii : ∀ c ∈ text.toList, c.toNat < 128) :
    bytesOf text = text.toList.map Char.toUInt8 := by
  rw [bytesOf_eq_flatMap, ← List.flatMap_pure_eq_map]
  exact List.flatMap_congr fun c member => utf8EncodeChar_of_ascii (ascii c member)

/-- A byte below 128 is always the whole of its character. -/
theorem toUInt8_mem_bytesOf_iff {c : Char} (ascii : c.toNat < 128) {text : String} :
    c.toUInt8 ∈ bytesOf text ↔ c ∈ text.toList := by
  rw [bytesOf_eq_flatMap, List.mem_flatMap]
  constructor
  · rintro ⟨d, member, byte⟩
    by_cases small : d.toNat < 128
    · rw [utf8EncodeChar_of_ascii small, List.mem_singleton, toUInt8_inj ascii small] at byte
      exact byte ▸ member
    · have high := le_of_mem_utf8EncodeChar (Nat.le_of_not_lt small) _ byte
      exact absurd (toUInt8_lt ascii) (UInt8.not_lt.mpr high)
  · intro member
    refine ⟨c, member, ?_⟩
    rw [utf8EncodeChar_of_ascii ascii]
    exact List.mem_singleton_self _

end Highlighter.Text
