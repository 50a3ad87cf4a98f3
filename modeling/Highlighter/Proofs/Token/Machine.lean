import Mathlib
import Highlighter.Proofs.Token.Inside
import Highlighter.Proofs.Token.Pulls
import Highlighter.Token.Machine

/-! # The machine keeps inside its bounds

On a text whose length fits a register no check of the machine fails and no loop goes on for ever:
from any position that public moves lead to, one inside of a character as well, the machine gives
what the stream gives. -/

set_option autoImplicit false

namespace Highlighter

open Alphabet Text

namespace Machine

open PaddedText

/-! ## Registers -/

section Registers

variable {m n : Nat} {buffer : ByteArray} {kind : TokenKind}

theorem fit?_eq_some (small : n < UInt32.size) : fit? n = some (UInt32.ofNat n) :=
  if_pos small

theorem add?_ofNat (small : m + n < UInt32.size) :
    add? (UInt32.ofNat m) (UInt32.ofNat n) = some (UInt32.ofNat (m + n)) := by
  rw [add?, UInt32.toNat_ofNat_of_lt' (by omega), UInt32.toNat_ofNat_of_lt' (by omega),
    fit?_eq_some small]

theorem sub?_ofNat (le : m ≤ n) (small : n < UInt32.size) :
    sub? (UInt32.ofNat n) (UInt32.ofNat m) = some (UInt32.ofNat (n - m)) := by
  have ordered : UInt32.ofNat m ≤ UInt32.ofNat n :=
    (UInt32.ofNat_le_iff_le (by omega) small).mpr le
  rw [sub?, if_pos ordered, Option.some.injEq, ← UInt32.toNat_inj,
    UInt32.toNat_sub_of_le _ _ ordered, UInt32.toNat_ofNat_of_lt' small,
    UInt32.toNat_ofNat_of_lt' (by omega), UInt32.toNat_ofNat_of_lt' (by omega)]

theorem slice?_ofNat (le : m ≤ n) (within : n ≤ buffer.size) (small : n < UInt32.size) :
    slice? buffer (UInt32.ofNat m) (UInt32.ofNat n) = some (buffer.extract m n) := by
  have ordered : UInt32.ofNat m ≤ UInt32.ofNat n :=
    (UInt32.ofNat_le_iff_le (by omega) small).mpr le
  have stop : (UInt32.ofNat n).toNat = n := UInt32.toNat_ofNat_of_lt' small
  rw [slice?, if_pos ⟨ordered, by omega⟩, stop, UInt32.toNat_ofNat_of_lt' (by omega)]

theorem token?_ofNat (less : m < n) (small : n < UInt32.size) :
    token? kind (UInt32.ofNat m) (UInt32.ofNat n) = some ⟨⟨m, n - 1⟩, kind⟩ := by
  have last : sub? (UInt32.ofNat n) 1 = some (UInt32.ofNat (n - 1)) :=
    sub?_ofNat (m := 1) (by omega) small
  have ordered : UInt32.ofNat m ≤ UInt32.ofNat (n - 1) :=
    (UInt32.ofNat_le_iff_le (by omega) (by omega)).mpr (by omega)
  simp only [token?, last, Option.bind_eq_bind, Option.bind_some, if_pos ordered]
  rw [UInt32.toNat_ofNat_of_lt' (by omega), UInt32.toNat_ofNat_of_lt' (by omega)]

end Registers

/-! ## Cursors -/

section Cursors

variable {text : String}

def Cursor.ofPos (pos : (ofString text).Pos) : Cursor :=
  ⟨(ofString text).bytes, UInt32.ofNat pos.offset, UInt32.ofNat (ofString text).length⟩

theorem firstChar_utf8Encode (c : Char) : firstChar [c].utf8Encode = c := by
  have valid : [c].utf8Encode.IsValidUTF8 := .intro [c] rfl
  have text : String.fromUTF8 [c].utf8Encode valid = String.ofList [c] := rfl
  rw [firstChar, String.fromUTF8?, dif_pos valid, text]
  simp

theorem firstChar_of_not_isUTF8FirstByte {bytes : ByteArray} (nonempty : 0 < bytes.size)
    (later : ¬ bytes[0].IsUTF8FirstByte) : firstChar bytes = '\uFFFD' := by
  have broken : ¬ bytes.IsValidUTF8 :=
    fun valid => later (valid.isUTF8FirstByte_getElem_zero nonempty)
  simp [firstChar, String.fromUTF8?, broken]

/-- Decoding the bytes of one step comes to the same as decoding at the position. -/
theorem firstChar_extract {pos : (ofString text).Pos}
    (inside : pos.offset < (ofString text).length) :
    firstChar ((ofString text).bytes.extract pos.offset pos.next.offset) = pos.char := by
  rcases Pos.reads_or_not_isUTF8FirstByte inside with ⟨c, rest, reads⟩ | later
  · rw [reads.char_eq, reads.offset_next]
    obtain ⟨before, split, start⟩ := reads
    have place : pos.offset = before.utf8Encode.size := by rw [start, size_utf8Encode]
    have width : c.utf8Size = [c].utf8Encode.size := by
      rw [size_utf8Encode, byteLength_cons, byteLength_nil, Nat.add_zero]
    have shifted := ByteArray.extract_append_size_add' (a := before.utf8Encode)
      (b := (c :: rest).utf8Encode ++ zeros (paddedSize text.utf8ByteSize - text.utf8ByteSize))
      (i := 0) (j := c.utf8Size) place
    rw [← bytes_ofString split, Nat.add_zero] at shifted
    rw [shifted, List.utf8Encode_cons, ByteArray.append_assoc,
      ByteArray.extract_append_eq_left width, firstChar_utf8Encode]
  · have step := Pos.lt_next inside
    have bound := pos.next.offset_le
    have room := (ofString text).length_lt
    have goOn : pos.isEnd = false := by simpa [Pos.isEnd] using inside
    have broken : (ofString text).bytes.utf8DecodeChar? pos.offset = none := by
      cases decoded : (ofString text).bytes.utf8DecodeChar? pos.offset with
      | none => rfl
      | some c =>
          exact absurd
            (ByteArray.isUTF8FirstByte_of_isSome_utf8DecodeChar? (by simp [decoded])) later
    have size : 0 < ((ofString text).bytes.extract pos.offset pos.next.offset).size := by
      rw [ByteArray.size_extract]
      omega
    rw [firstChar_of_not_isUTF8FirstByte size (by rw [ByteArray.getElem_extract]; exact later)]
    simp [Pos.char, goOn, broken]

/-- The bytes searched are those at the positions from here to the end of the text. -/
theorem getElem_ahead (pos : (ofString text).Pos) {i : Nat}
    (bound : i < ((ofString text).bytes.extract pos.offset (ofString text).length).data.size) :
    ∃ between : (ofString text).Pos, between.offset = pos.offset + i ∧
      between.offset < (ofString text).length ∧
      ((ofString text).bytes.extract pos.offset (ofString text).length).data[i] = between.byte := by
  have size := ByteArray.size_extract (a := (ofString text).bytes) (b := pos.offset)
    (e := (ofString text).length)
  have room := (ofString text).length_lt
  have within : i < ((ofString text).bytes.extract pos.offset (ofString text).length).size := bound
  have inside : pos.offset + i < (ofString text).length := by omega
  refine ⟨⟨pos.offset + i, Nat.le_of_lt inside⟩, rfl, inside, ?_⟩
  rw [← ByteArray.getElem_eq_getElem_data]
  exact ByteArray.getElem_extract within

theorem findIdx?_ahead (wanted : UInt8) (pos : (ofString text).Pos) :
    (((ofString text).bytes.extract pos.offset (ofString text).length).data.findIdx?
        fun byte => byte == wanted || byte == backslash) =
      if (pos.find wanted).offset < (ofString text).length then
        some ((pos.find wanted).offset - pos.offset)
      else none := by
  have jump := Pos.le_find wanted pos
  have passed := Pos.byte_of_lt_find wanted pos
  have room := (ofString text).length_lt
  by_cases found : (pos.find wanted).offset < (ofString text).length
  · rw [if_pos found, Array.findIdx?_eq_some_iff_getElem]
    have bound : (pos.find wanted).offset - pos.offset <
        ((ofString text).bytes.extract pos.offset (ofString text).length).data.size := by
      change _ < ((ofString text).bytes.extract pos.offset (ofString text).length).size
      rw [ByteArray.size_extract]
      omega
    refine ⟨bound, ?_, ?_⟩
    · obtain ⟨there, place, _, byte⟩ := getElem_ahead pos bound
      obtain rfl : there = pos.find wanted := Pos.ext (by omega)
      rw [byte]
      simpa using Pos.byte_find wanted pos found
    · intro i before
      obtain ⟨between, place, _, byte⟩ := getElem_ahead pos (Nat.lt_trans before bound)
      rw [byte]
      simpa using passed between (by omega) (by omega)
  · rw [if_neg found, Array.findIdx?_eq_none_iff]
    intro byte member
    obtain ⟨i, bound, rfl⟩ := Array.mem_iff_getElem.mp member
    obtain ⟨between, place, inside, byte⟩ := getElem_ahead pos bound
    rw [byte]
    simpa using passed between (by omega) (by omega)

namespace Cursor

variable (small : (ofString text).length < UInt32.size) (pos : (ofString text).Pos)
include small

theorem toNat_offset_ofPos : (ofPos pos).offset.toNat = pos.offset :=
  UInt32.toNat_ofNat_of_lt' (Nat.lt_of_le_of_lt pos.offset_le small)

theorem left_lt_ofPos {after : (ofString text).Pos} (further : pos.offset < after.offset) :
    (ofPos after).left < (ofPos pos).left := by
  have bound := after.offset_le
  have length : (UInt32.ofNat (ofString text).length).toNat = (ofString text).length :=
    UInt32.toNat_ofNat_of_lt' small
  have places := toNat_offset_ofPos small pos
  have places' := toNat_offset_ofPos small after
  rw [left, left, places, places']
  simp only [ofPos, length]
  omega

theorem isEnd_ofPos : (ofPos pos).isEnd = pos.isEnd := by
  have bound := pos.offset_le
  simp only [isEnd, Pos.isEnd, ofPos, UInt32.ofNat_le_iff_le small (Nat.lt_of_le_of_lt bound small)]

theorem byte?_ofPos : (ofPos pos).byte? = some pos.byte := by
  have inside := Nat.lt_of_le_of_lt pos.offset_le (ofString text).length_lt
  have place := toNat_offset_ofPos small pos
  rw [byte?, place]
  exact getElem?_pos (ofString text).bytes pos.offset inside

theorem moveTo?_ofPos (after : (ofString text).Pos) :
    (ofPos pos).moveTo? (UInt32.ofNat after.offset) = some (ofPos after) := by
  have le : UInt32.ofNat after.offset ≤ (ofPos pos).length :=
    (UInt32.ofNat_le_iff_le (Nat.lt_of_le_of_lt after.offset_le small) small).mpr after.offset_le
  rw [moveTo?, if_pos le]
  rfl

theorem nextByte?_ofPos (inside : pos.offset < (ofString text).length) :
    (ofPos pos).nextByte? = some (ofPos (pos.nextByte inside)) := by
  have step : add? (ofPos pos).offset 1 = some (UInt32.ofNat (pos.nextByte inside).offset) :=
    add?_ofNat (n := 1) (by omega)
  simp only [nextByte?, step, Option.bind_eq_bind, Option.bind_some]
  exact moveTo?_ofPos small pos _

theorem stop?_ofPos (inside : pos.offset < (ofString text).length) :
    (ofPos pos).stop? = some (UInt32.ofNat pos.next.offset) := by
  have within := Pos.add_leadWidth_le inside
  have sum : add? (ofPos pos).offset (UInt32.ofNat (leadWidth pos.byte)) =
      some (UInt32.ofNat (pos.offset + leadWidth pos.byte)) := add?_ofNat (by omega)
  have least : min (UInt32.ofNat (pos.offset + leadWidth pos.byte)) (ofPos pos).length =
      UInt32.ofNat pos.next.offset := by
    have le : UInt32.ofNat (pos.offset + leadWidth pos.byte) ≤ (ofPos pos).length :=
      (UInt32.ofNat_le_iff_le (by omega) small).mpr within
    rw [UInt32.min_def, if_pos le, Pos.next]
    simp only [Nat.min_eq_left within]
  simp only [stop?, byte?_ofPos small, sum, Option.bind_eq_bind, Option.bind_some, least,
    Option.pure_def]

theorem next?_ofPos : (ofPos pos).next? = some (ofPos pos.next) := by
  rw [next?, isEnd_ofPos small]
  by_cases inside : pos.offset < (ofString text).length
  · have goOn : pos.isEnd = false := by simpa [Pos.isEnd] using inside
    simp only [goOn, Bool.false_eq_true, if_false, stop?_ofPos small pos inside,
      Option.bind_eq_bind, Option.bind_some]
    exact moveTo?_ofPos small pos _
  · have ended : pos.isEnd = true := by simpa [Pos.isEnd] using inside
    have stay : pos.next = pos := by
      have bound := pos.offset_le
      apply Pos.ext
      simp only [Pos.next]
      omega
    simp only [ended, if_true, stay, Option.pure_def]

theorem char?_ofPos : (ofPos pos).char? = some pos.char := by
  rw [char?, isEnd_ofPos small, Pos.char]
  by_cases inside : pos.offset < (ofString text).length
  · have goOn : pos.isEnd = false := by simpa [Pos.isEnd] using inside
    have bound := pos.next.offset_le
    have within : pos.next.offset ≤ (ofPos pos).buffer.size :=
      Nat.le_of_lt (Nat.lt_of_le_of_lt bound (ofString text).length_lt)
    have slice : slice? (ofPos pos).buffer (ofPos pos).offset (UInt32.ofNat pos.next.offset) =
        some ((ofString text).bytes.extract pos.offset pos.next.offset) :=
      slice?_ofNat (Pos.le_next pos) within (Nat.lt_of_le_of_lt bound small)
    simp only [goOn, Bool.false_eq_true, if_false, stop?_ofPos small pos inside, slice,
      Option.bind_eq_bind, Option.bind_some, Option.pure_def, firstChar_extract inside]
    rw [Pos.char, goOn]
    rfl
  · have ended : pos.isEnd = true := by simpa [Pos.isEnd] using inside
    simp only [ended, if_true, Option.pure_def]

/-- The byte that a search answers: the one at the place it has come to, and zero at the end. -/
def foundByte (pos : (ofString text).Pos) : UInt8 :=
  if pos.offset < (ofString text).length then pos.byte else 0

theorem find?_ofPos (wanted : UInt8) :
    (ofPos pos).find? wanted = some (foundByte (pos.find wanted), ofPos (pos.find wanted)) := by
  have within : (ofString text).length ≤ (ofPos pos).buffer.size :=
    Nat.le_of_lt (ofString text).length_lt
  have slice : slice? (ofPos pos).buffer (ofPos pos).offset (ofPos pos).length =
      some ((ofString text).bytes.extract pos.offset (ofString text).length) :=
    slice?_ofNat pos.offset_le within small
  simp only [find?, slice, Option.bind_eq_bind, Option.bind_some, findIdx?_ahead, foundByte]
  by_cases found : (pos.find wanted).offset < (ofString text).length
  · have jump := Pos.le_find wanted pos
    have distance : fit? ((pos.find wanted).offset - pos.offset) =
        some (UInt32.ofNat ((pos.find wanted).offset - pos.offset)) := fit?_eq_some (by omega)
    have sum : add? (ofPos pos).offset (UInt32.ofNat ((pos.find wanted).offset - pos.offset)) =
        some (UInt32.ofNat (pos.find wanted).offset) := by
      rw [ofPos, add?_ofNat (by omega), Nat.add_sub_cancel' jump]
    simp only [if_pos found, distance, sum, moveTo?_ofPos small, byte?_ofPos small,
      Option.bind_some, Option.pure_def]
  · have bound := (pos.find wanted).offset_le
    have ended : (pos.find wanted).offset = (ofString text).length := by omega
    have there : (ofPos pos).moveTo? (ofPos pos).length = some (ofPos (pos.find wanted)) := by
      have moved := moveTo?_ofPos small pos (pos.find wanted)
      rwa [ended] at moved
    simp only [if_neg found, there, Option.bind_some, Option.pure_def]

theorem move?_ofPos (move : Move) : (ofPos pos).move? move = some (ofPos (pos.move move)) := by
  cases move with
  | next => exact next?_ofPos small pos
  | find wanted =>
      simp only [move?, find?_ofPos small, Option.bind_eq_bind, Option.bind_some, Option.pure_def]
      rfl

theorem walk?_ofPos (moves : List Move) : ∀ pos : (ofString text).Pos,
    (ofPos pos).walk? moves = some (ofPos (pos.walk moves)) := by
  induction moves with
  | nil =>
      intro pos
      rfl
  | cons move rest ih =>
      intro pos
      rw [walk?, List.foldlM_cons, move?_ofPos small, Option.bind_eq_bind, Option.bind_some]
      exact ih (pos.move move)

theorem mark?_ofPos : (ofPos pos).mark? = some pos.mark := by
  simp only [mark?, isEnd_ofPos small, byte?_ofPos small, char?_ofPos small, Pos.mark,
    Option.bind_eq_bind, Option.bind_some, Option.pure_def]
  cases pos.isEnd with
  | true => rfl
  | false =>
      by_cases ascii : pos.byte < 0x80 <;> cases isQuoteByte pos.byte <;>
        cases isPunctuation pos.byte <;> simp [ascii]

theorem literalEnd?_ofPos {quote : UInt8} (isQuote : isQuoteByte quote = true) :
    (ofPos pos).literalEnd? quote = some (ofPos (pos.literalEnd quote)) := by
  have nonzero : quote ≠ 0 := by
    rintro rfl
    exact absurd isQuote (by decide)
  fun_induction Pos.literalEnd quote pos with
  | case1 pos inside escape ih =>
      have later : pos.offset < ((pos.find quote).nextByte inside).next.offset :=
        Nat.lt_of_lt_of_le (Nat.lt_succ_of_le (Pos.le_find quote pos))
          (Pos.le_next ((pos.find quote).nextByte inside))
      rw [literalEnd?, find?_ofPos small]
      simp only [Option.bind_eq_bind, Option.bind_some, foundByte, if_pos inside, if_pos escape,
        nextByte?_ofPos small _ inside, next?_ofPos small]
      rw [if_pos (left_lt_ofPos small pos later), ih]
  | case2 pos inside notEscape =>
      have byte := (Pos.byte_find quote pos inside).resolve_right notEscape
      rw [literalEnd?, find?_ofPos small]
      simp only [Option.bind_eq_bind, Option.bind_some, foundByte, if_pos inside, if_neg notEscape,
        nextByte?_ofPos small _ inside]
      rw [if_neg (by rw [byte]; exact nonzero)]
  | case3 pos ended =>
      rw [literalEnd?, find?_ofPos small]
      simp only [Option.bind_eq_bind, Option.bind_some, foundByte, if_neg ended, if_true]
      rfl

end Cursor

/-! ## Streams -/

namespace Stream

/-- The stream at a position with no word in hand and nothing in the slot. -/
def idle (pos : (ofString text).Pos) : Stream := ofCursor (Cursor.ofPos pos)

/-- The stream at a position whose token has been found already. -/
def ahead (pos : (ofString text).Pos) : Stream :=
  match pos.token? with
  | none => idle pos
  | some (token, after) => { idle after with queued := some token }

/-- Between two pulls the token that comes next is either still to be found or in the slot. -/
def Stands (stream : Stream) (pos : (ofString text).Pos) : Prop :=
  stream = idle pos ∨ stream = ahead pos

variable (small : (ofString text).length < UInt32.size) {pos start after : (ofString text).Pos}
include small

theorem token?_ofPos (kind : TokenKind) (less : start.offset < after.offset) :
    token? kind (UInt32.ofNat start.offset) (UInt32.ofNat after.offset) =
      some (Pos.tokenTo kind start after) :=
  token?_ofNat less (Nat.lt_of_le_of_lt after.offset_le small)

/-- The stream with the cursor at a position and the word in hand from `start` on. -/
def inWord (start pos : (ofString text).Pos) : Stream :=
  { idle pos with wordStart := UInt32.ofNat start.offset }

theorem word?_inWord (le : start.offset ≤ pos.offset) :
    (inWord start pos).word? (UInt32.ofNat pos.offset) =
      some (if start.offset < pos.offset then some (Pos.tokenTo .plain start pos) else none) := by
  have bound := pos.offset_le
  by_cases less : start.offset < pos.offset
  · have ordered : UInt32.ofNat start.offset < UInt32.ofNat pos.offset :=
      (UInt32.ofNat_lt_iff_lt (by omega) (by omega)).mpr less
    rw [word?, inWord, if_pos ordered, token?_ofPos small .plain less, if_pos less]
    rfl
  · have ordered : ¬ UInt32.ofNat start.offset < UInt32.ofNat pos.offset :=
      fun before => less ((UInt32.ofNat_lt_iff_lt (by omega) (by omega)).mp before)
    rw [word?, inWord, if_neg ordered, if_neg less]

theorem give?_inWord (kind : TokenKind) (le : start.offset ≤ pos.offset)
    (step : pos.offset < after.offset) :
    (inWord start pos).give? kind (Cursor.ofPos after) =
      if start.offset < pos.offset then
        some (some (Pos.tokenTo .plain start pos),
          { idle after with queued := some (Pos.tokenTo kind pos after) })
      else some (some (Pos.tokenTo kind pos after), idle after) := by
  have found : token? kind (inWord start pos).cursor.offset (Cursor.ofPos after).offset =
      some (Pos.tokenTo kind pos after) := token?_ofPos small kind step
  have word : (inWord start pos).word? (inWord start pos).cursor.offset =
      some (if start.offset < pos.offset then some (Pos.tokenTo .plain start pos) else none) :=
    word?_inWord small le
  simp only [give?, found, word, Option.bind_eq_bind, Option.bind_some]
  by_cases less : start.offset < pos.offset
  · simp only [if_pos less]
    rfl
  · simp only [if_neg less]
    rfl

omit small in
theorem of_mark_eq_quote {byte : UInt8} (quote : pos.mark = .quote byte) :
    byte = pos.byte ∧ isQuoteByte byte = true := by
  simp only [Pos.mark] at quote
  split at quote
  · contradiction
  · split at quote
    · next isQuote =>
      obtain rfl : pos.byte = byte := by simpa using quote
      exact ⟨rfl, isQuote⟩
    · repeat' split at quote
      all_goals contradiction

omit small in
theorem nextByte_eq_next {byte : UInt8} (quote : pos.mark = .quote byte)
    (inside : pos.offset < (ofString text).length) : pos.nextByte inside = pos.next := by
  obtain ⟨rfl, isQuote⟩ := of_mark_eq_quote quote
  have width : leadWidth pos.byte = 1 := by
    simp only [isQuoteByte, Bool.or_eq_true, beq_iff_eq] at isQuote
    rcases isQuote with double | single
    · rw [double]
      decide
    · rw [single]
      decide
  apply Pos.ext
  simp only [Pos.nextByte, Pos.next, width]
  omega

/-- Where no word goes on, a word in hand is given and the token found there is kept; without one
that token is given at once. -/
theorem scan?_of_mark_ne_word (le : start.offset ≤ pos.offset) (stop : pos.mark ≠ .word) :
    (inWord start pos).scan? =
      some (if start.offset < pos.offset then (some (Pos.tokenTo .plain start pos), ahead pos)
        else (pos.pull.1, idle pos.pull.2)) := by
  have mark : (inWord start pos).cursor.mark? = some pos.mark := Cursor.mark?_ofPos small pos
  rw [scan?, mark, Option.bind_eq_bind, Option.bind_some]
  cases here : pos.mark with
  | word => exact absurd here stop
  | finish =>
      have word : (inWord start pos).word? (inWord start pos).cursor.offset =
          some (if start.offset < pos.offset then some (Pos.tokenTo .plain start pos) else none) :=
        word?_inWord small le
      have ended : pos.token? = none := by simp only [Pos.token?, here]
      simp only [word, Option.bind_eq_bind, Option.bind_some, Option.pure_def, ahead, Pos.pull,
        ended]
      split <;> rfl
  | quote byte =>
      have inside : pos.offset < (ofString text).length :=
        Pos.lt_of_mark_ne_finish (by simp [here])
      have isQuote := (of_mark_eq_quote here).2
      have found : pos.token? = some (Pos.tokenTo .literal pos (pos.next.literalEnd byte),
          pos.next.literalEnd byte) := by simp only [Pos.token?, here]
      have step : (inWord start pos).cursor.nextByte? = some (Cursor.ofPos pos.next) := by
        rw [← nextByte_eq_next here inside]
        exact Cursor.nextByte?_ofPos small pos inside
      simp only [step, Option.bind_eq_bind, Option.bind_some,
        Cursor.literalEnd?_ofPos small pos.next isQuote,
        give?_inWord small .literal le (Pos.lt_of_token?_eq_some found), ahead, Pos.pull, found]
      split <;> rfl
  | separator =>
      have inside : pos.offset < (ofString text).length :=
        Pos.lt_of_mark_ne_finish (by simp [here])
      have found : pos.token? = some (Pos.tokenTo .plain pos pos.next, pos.next) := by
        simp only [Pos.token?, here]
      have step : (inWord start pos).cursor.next? = some (Cursor.ofPos pos.next) :=
        Cursor.next?_ofPos small pos
      simp only [step, Option.bind_eq_bind, Option.bind_some,
        give?_inWord small .plain le (Pos.lt_next inside), ahead, Pos.pull, found]
      split <;> rfl

theorem scan?_of_mark_eq_word (goOn : pos.mark = .word) :
    (inWord start pos).scan? = (inWord start pos.next).scan? := by
  have mark : (inWord start pos).cursor.mark? = some pos.mark := Cursor.mark?_ofPos small pos
  have step : (inWord start pos).cursor.next? = some (Cursor.ofPos pos.next) :=
    Cursor.next?_ofPos small pos
  have inside : pos.offset < (ofString text).length :=
    Pos.lt_of_mark_ne_finish (by simp [goOn])
  have closer : (Cursor.ofPos pos.next).left < (inWord start pos).cursor.left :=
    Cursor.left_lt_ofPos small pos (Pos.lt_next inside)
  rw [scan?, mark, goOn]
  simp only [step, Option.bind_eq_bind, Option.bind_some, if_pos closer]
  rfl

theorem scan?_inWord (less : start.offset < pos.offset) :
    (inWord start pos).scan? =
      some (some (Pos.tokenTo .plain start pos.wordEnd), ahead pos.wordEnd) := by
  fun_induction Pos.wordEnd pos with
  | case1 pos goOn ih =>
      rw [scan?_of_mark_eq_word small goOn]
      exact ih (Nat.lt_of_lt_of_le less (Pos.le_next pos))
  | case2 pos stop =>
      rw [scan?_of_mark_ne_word small (Nat.le_of_lt less) stop, if_pos less]

theorem scan?_idle (pos : (ofString text).Pos) :
    ∃ next, (idle pos).scan? = some (pos.pull.1, next) ∧ Stands next pos.pull.2 := by
  have same : idle pos = inWord pos pos := rfl
  rw [same]
  by_cases goOn : pos.mark = .word
  · have inside : pos.offset < (ofString text).length :=
      Pos.lt_of_mark_ne_finish (by simp [goOn])
    have found : pos.token? = some (Pos.tokenTo .plain pos pos.next.wordEnd, pos.next.wordEnd) := by
      simp only [Pos.token?, goOn]
    refine ⟨ahead pos.next.wordEnd, ?_, ?_⟩
    · rw [scan?_of_mark_eq_word small goOn, scan?_inWord small (Pos.lt_next inside)]
      simp only [Pos.pull, found]
    · simp only [Pos.pull, found]
      exact .inr rfl
  · refine ⟨idle pos.pull.2, ?_, .inl rfl⟩
    rw [scan?_of_mark_ne_word small (Nat.le_refl _) goOn, if_neg (Nat.lt_irrefl _)]

theorem pull?_of_stands {stream : Stream} (stands : Stands stream pos) :
    ∃ next, stream.pull? = some (pos.pull.1, next) ∧ Stands next pos.pull.2 := by
  rcases stands with rfl | rfl
  · exact scan?_idle small pos
  · cases found : pos.token? with
    | none =>
        have same : ahead pos = idle pos := by simp only [ahead, found]
        rw [same]
        exact scan?_idle small pos
    | some pair =>
        refine ⟨idle pair.2, ?_, ?_⟩
        · simp only [ahead, found, pull?, Pos.pull]
          rfl
        · simp only [Pos.pull, found]
          exact .inl rfl

theorem pulls?_of_stands (count : Nat) : ∀ {stream : Stream} {pos : (ofString text).Pos},
    Stands stream pos → stream.pulls? count = some (pos.pulls count) := by
  induction count with
  | zero =>
      intro stream pos _
      rfl
  | succ count ih =>
      intro stream pos stands
      obtain ⟨next, pulled, later⟩ := pull?_of_stands small stands
      simp only [pulls?, pulled, Option.bind_eq_bind, Option.bind_some, ih later, Option.pure_def,
        Pos.pulls]

end Stream

end Cursors

/-- Whatever moves lead to a cursor, no check of the machine fails there: not on the way, not in
reading what the cursor stands on, and not in any number of pulls from a stream that starts there.
The stream gives tokens that lie end to end from the cursor to the end of the text and, after the
last of them, nothing more. -/
theorem exists_walk?_pulls? (text : String) (small : text.utf8ByteSize < UInt32.size)
    (moves : List Move) :
    ∃ (pos : (ofString text).Pos) (cursor : Cursor), pos = (ofString text).startPos.walk moves ∧
      (Cursor.ofText text).walk? moves = some cursor ∧
      cursor.offset.toNat = pos.offset ∧ pos.offset ≤ text.utf8ByteSize ∧
      cursor.byte? = some pos.byte ∧ cursor.char? = some pos.char ∧
      Tiles pos.offset text.utf8ByteSize (pos.tokens.map Token.range) ∧
      pos.tokens.length ≤ text.utf8ByteSize - pos.offset ∧
      ∀ count, (Stream.ofCursor cursor).pulls? count =
        some ((pos.tokens.take count).map some ++
          List.replicate (count - pos.tokens.length) none) := by
  obtain ⟨pos, reached⟩ : ∃ pos, pos = (ofString text).startPos.walk moves := ⟨_, rfl⟩
  have walked : (Cursor.ofText text).walk? moves = some (Cursor.ofPos pos) := by
    rw [reached]
    exact Cursor.walk?_ofPos small moves (ofString text).startPos
  have tiles := Pos.tiles_tokens pos
  have count := tiles.length_le
  rw [List.length_map] at count
  refine ⟨pos, Cursor.ofPos pos, reached, walked, Cursor.toNat_offset_ofPos small pos,
    pos.offset_le, Cursor.byte?_ofPos small pos, Cursor.char?_ofPos small pos, tiles, count, ?_⟩
  intro count
  rw [← Pos.pulls_eq]
  exact Stream.pulls?_of_stands small count (.inl rfl)

/-- A search may stop inside of a character, here the first of two. -/
theorem exists_walk?_pulls?_inside_of_character :
    "é'".utf8ByteSize < UInt32.size ∧
      ∃ cursor, (Cursor.ofText "é'").walk? [.find 0xA9] = some cursor ∧
        cursor.offset.toNat = 1 ∧
        ∀ count, (Stream.ofCursor cursor).pulls? count =
          some (([Token.plain 1 1, Token.literal 2 2].take count).map some ++
            List.replicate (count - 2) none) := by
  have small : "é'".utf8ByteSize < UInt32.size := by decide
  obtain ⟨pos, cursor, rfl, walked, offset, _, _, _, _, _, pulls⟩ :=
    exists_walk?_pulls? "é'" small [.find 0xA9]
  have place : ((ofString "é'").startPos.walk [.find 0xA9]).offset = 1 := by cbv
  have tokens : ((ofString "é'").startPos.walk [.find 0xA9]).tokens =
      [Token.plain 1 1, Token.literal 2 2] := by cbv
  rw [tokens] at pulls
  exact ⟨small, cursor, walked, offset.trans place, pulls⟩

end Machine

end Highlighter
