import Mathlib
import Highlighter.Proofs.Text.Encoding

/-! # Sequences of bytes

A character of two bytes or more is a *sequence*: a first byte that tells the width, and behind it
bytes from 80 to BF.  Not every such sequence is the form of a character.  Overlong forms,
surrogates and values past the last character are all known by the second byte, so that the
decoder can tell at each byte whether some character begins with what it has read. -/

set_option autoImplicit false

namespace Highlighter.Text

/-- Some character's form begins with the bytes, or is no more than these. -/
def Begins (bytes : List UInt8) : Prop := ∃ c, bytes <+: String.utf8EncodeChar c

/-- A byte that goes on with a character. -/
def IsTail (byte : UInt8) : Prop := 0x80 ≤ byte ∧ byte ≤ 0xBF

variable {c : Char} {byte x y z : UInt8} {more : List UInt8}

theorem isTail_iff : IsTail byte ↔ 128 ≤ byte.toNat ∧ byte.toNat ≤ 191 := by
  simp only [IsTail, UInt8.le_iff_toNat_le, UInt8.reduceToNat]

theorem isTail_least : IsTail 0x80 := ⟨by decide, by decide⟩

/-! ## Forms by their widths -/

theorem leadWidth_of_lt (ascii : byte < 0x80) : leadWidth byte = 1 := by
  rw [UInt8.lt_iff_toNat_lt] at ascii
  simp only [leadWidth, UInt8.le_iff_toNat_le, UInt8.reduceToNat] at ascii ⊢
  rw [if_neg (by omega), if_neg (by omega), if_neg (by omega)]

theorem length_of_utf8EncodeChar_eq_cons (encoded : String.utf8EncodeChar c = byte :: more) :
    more.length + 1 = leadWidth byte := by
  obtain ⟨lead, others, form, width⟩ := utf8EncodeChar_eq_cons c
  have length := String.length_utf8EncodeChar c
  rw [encoded] at length form
  obtain ⟨rfl, rfl⟩ := List.cons.inj form
  rw [width, ← length, List.length_cons]

theorem ofNat_eq_iff {value : Nat} : UInt8.ofNat value = byte ↔ value % 256 = byte.toNat := by
  rw [← UInt8.toNat_inj, UInt8.toNat_ofNat']

theorem utf8EncodeChar_eq_single_iff : String.utf8EncodeChar c = [byte] ↔
    byte.toNat < 128 ∧ c.toNat = byte.toNat := by
  have size := byte.toNat_lt
  simp only [String.utf8EncodeChar, Char.toNat_val]
  split_ifs <;> simp only [List.cons.injEq, ofNat_eq_iff, reduceCtorEq, and_true, and_false,
    false_iff] <;> omega

theorem utf8EncodeChar_eq_pair_iff : String.utf8EncodeChar c = [byte, x] ↔
    (0xC2 ≤ byte.toNat ∧ byte.toNat ≤ 0xDF) ∧ IsTail x ∧
      c.toNat = (byte.toNat - 0xC0) * 64 + (x.toNat - 0x80) := by
  simp only [String.utf8EncodeChar, Char.toNat_val, isTail_iff]
  split_ifs <;> simp only [List.cons.injEq, ofNat_eq_iff, reduceCtorEq, and_true, and_false,
    false_iff] <;> omega

theorem utf8EncodeChar_eq_triple_iff : String.utf8EncodeChar c = [byte, x, y] ↔
    (0xE0 ≤ byte.toNat ∧ byte.toNat ≤ 0xEF) ∧ IsTail x ∧ IsTail y ∧ 0x800 ≤ c.toNat ∧
      c.toNat = ((byte.toNat - 0xE0) * 64 + (x.toNat - 0x80)) * 64 + (y.toNat - 0x80) := by
  simp only [String.utf8EncodeChar, Char.toNat_val, isTail_iff]
  split_ifs <;> simp only [List.cons.injEq, ofNat_eq_iff, reduceCtorEq, and_true, and_false,
    false_iff] <;> omega

theorem toNat_lt_or_lt (c : Char) : c.toNat < 0xD800 ∨ 0xDFFF < c.toNat ∧ c.toNat < 0x110000 :=
  c.valid

theorem utf8EncodeChar_eq_quadruple_iff : String.utf8EncodeChar c = [byte, x, y, z] ↔
    (0xF0 ≤ byte.toNat ∧ byte.toNat ≤ 0xF4) ∧ IsTail x ∧ IsTail y ∧ IsTail z ∧
      0x10000 ≤ c.toNat ∧ c.toNat = (((byte.toNat - 0xF0) * 64 + (x.toNat - 0x80)) * 64 +
        (y.toNat - 0x80)) * 64 + (z.toNat - 0x80) := by
  have valid := toNat_lt_or_lt c
  simp only [String.utf8EncodeChar, Char.toNat_val, isTail_iff]
  split_ifs <;> simp only [List.cons.injEq, ofNat_eq_iff, reduceCtorEq, and_true, and_false,
    false_iff] <;> omega

/-! ## Sequences in the middle -/

namespace Pending

variable {pending : Pending} {read : List UInt8}

/-- Can the sequence end with `more`? -/
def Completes (pending : Pending) : List UInt8 → Prop
  | [] => False
  | next :: others => pending.accepts next = true ∧ others.length + 1 = pending.missing ∧
      ∀ byte ∈ others, IsTail byte

def valueWith (pending : Pending) (more : List UInt8) : Nat :=
  more.foldl (fun value byte => value * 64 + (byte.toNat - 0x80)) pending.value

/-- What has been read begins the forms of just those characters that the sequence can become. -/
structure Continues (pending : Pending) (read : List UInt8) : Prop where
  nonempty : read ≠ []
  missing_pos : 0 < pending.missing
  accepts_low : pending.accepts pending.low = true
  encodes : ∀ more c, String.utf8EncodeChar c = read ++ more ↔
    pending.Completes more ∧ c.toNat = pending.valueWith more
  valid : ∀ more, pending.Completes more → (pending.valueWith more).isValidChar

theorem accepts_iff : pending.accepts byte = true ↔
    pending.low.toNat ≤ byte.toNat ∧ byte.toNat ≤ pending.high.toNat := by
  simp only [accepts, Bool.and_eq_true, decide_eq_true_eq, UInt8.le_iff_toNat_le]

theorem Completes.length_eq (completes : pending.Completes more) :
    more.length = pending.missing := by
  cases more with
  | nil => exact completes.elim
  | cons next others => exact completes.2.1

theorem exists_completes (accepted : pending.accepts byte = true) (missing : 0 < pending.missing) :
    ∃ others, pending.Completes (byte :: others) := by
  refine ⟨List.replicate (pending.missing - 1) 0x80, accepted, ?_, ?_⟩
  · rw [List.length_replicate]
    omega
  · intro tail member
    rw [List.eq_of_mem_replicate member]
    exact isTail_least

/-! ### First bytes -/

/-- The three widths of sequences, each with the bounds for its second byte. -/
theorem start?_eq_some_iff : start? byte = some pending ↔
    ((0xC2 ≤ byte.toNat ∧ byte.toNat ≤ 0xDF) ∧ pending = ⟨byte.toNat - 0xC0, 1, 0x80, 0xBF⟩) ∨
    ((0xE0 ≤ byte.toNat ∧ byte.toNat ≤ 0xEF) ∧ pending = ⟨byte.toNat - 0xE0, 2,
      if byte.toNat = 0xE0 then 0xA0 else 0x80, if byte.toNat = 0xED then 0x9F else 0xBF⟩) ∨
    ((0xF0 ≤ byte.toNat ∧ byte.toNat ≤ 0xF4) ∧ pending = ⟨byte.toNat - 0xF0, 3,
      if byte.toNat = 0xF0 then 0x90 else 0x80, if byte.toNat = 0xF4 then 0x8F else 0xBF⟩) := by
  simp only [start?, UInt8.le_iff_toNat_le, ← UInt8.toNat_inj, UInt8.reduceToNat]
  split
  · grind
  · split
    · grind
    · split <;> grind

theorem leadWidth_of_start? (started : start? byte = some pending) :
    leadWidth byte = pending.missing + 1 := by
  simp only [leadWidth, UInt8.le_iff_toNat_le, UInt8.reduceToNat]
  rcases start?_eq_some_iff.mp started with ⟨range, rfl⟩ | ⟨range, rfl⟩ | ⟨range, rfl⟩
  · rw [if_pos (by omega)]
  · rw [if_neg (by omega), if_pos (by omega)]
  · rw [if_neg (by omega), if_neg (by omega), if_pos (by omega)]

theorem accepts_low_of_start? (started : start? byte = some pending) :
    pending.accepts pending.low = true := by
  rw [accepts_iff]
  rcases start?_eq_some_iff.mp started with ⟨range, rfl⟩ | ⟨range, rfl⟩ | ⟨range, rfl⟩ <;>
    simp only [apply_ite UInt8.toNat, UInt8.reduceToNat] <;> grind

/-- The bounds let through what is the form of a character, and only that. -/
theorem completes_iff_of_start? (started : start? byte = some pending)
    (length : more.length = pending.missing) :
    (pending.Completes more → (pending.valueWith more).isValidChar) ∧
      (String.utf8EncodeChar c = byte :: more ↔
        pending.Completes more ∧ c.toNat = pending.valueWith more) := by
  have valid := toNat_lt_or_lt c
  rcases start?_eq_some_iff.mp started with ⟨range, rfl⟩ | ⟨range, rfl⟩ | ⟨range, rfl⟩
  · obtain ⟨x, rfl⟩ := List.length_eq_one_iff.mp length
    rw [utf8EncodeChar_eq_pair_iff]
    simp only [Completes, valueWith, accepts_iff, isTail_iff, Nat.isValidChar, List.foldl_cons,
      List.foldl_nil, List.length_nil, List.not_mem_nil, UInt8.reduceToNat]
    grind
  · obtain ⟨x, y, rfl⟩ := List.length_eq_two.mp length
    rw [utf8EncodeChar_eq_triple_iff]
    simp only [Completes, valueWith, accepts_iff, isTail_iff, Nat.isValidChar, List.foldl_cons,
      List.foldl_nil, List.length_cons, List.length_nil, List.forall_mem_cons, List.not_mem_nil,
      UInt8.reduceToNat, apply_ite UInt8.toNat]
    grind
  · obtain ⟨x, y, z, rfl⟩ := List.length_eq_three.mp length
    rw [utf8EncodeChar_eq_quadruple_iff]
    simp only [Completes, valueWith, accepts_iff, isTail_iff, Nat.isValidChar, List.foldl_cons,
      List.foldl_nil, List.length_cons, List.length_nil, List.forall_mem_cons, List.not_mem_nil,
      UInt8.reduceToNat, apply_ite UInt8.toNat]
    grind

theorem continues_of_start? (started : start? byte = some pending) : pending.Continues [byte] where
  nonempty := List.cons_ne_nil _ _
  missing_pos := by
    rcases start?_eq_some_iff.mp started with ⟨_, rfl⟩ | ⟨_, rfl⟩ | ⟨_, rfl⟩ <;>
      exact Nat.succ_pos _
  accepts_low := accepts_low_of_start? started
  encodes more c := by
    constructor
    · intro encoded
      have width := length_of_utf8EncodeChar_eq_cons encoded
      rw [leadWidth_of_start? started] at width
      exact (completes_iff_of_start? started (Nat.add_right_cancel width)).2.mp encoded
    · rintro ⟨completes, value⟩
      exact (completes_iff_of_start? started completes.length_eq).2.mpr ⟨completes, value⟩
  valid more completes :=
    (completes_iff_of_start? (c := default) started completes.length_eq).1 completes

/-! ### Later bytes -/

/-- The sequence after one more byte. -/
def after (pending : Pending) (byte : UInt8) : Pending :=
  ⟨pending.extend byte, pending.missing - 1, 0x80, 0xBF⟩

@[simp]
theorem missing_after : (pending.after byte).missing = pending.missing - 1 := rfl

theorem accepts_after_iff : (pending.after byte).accepts x = true ↔ IsTail x := by
  simp only [accepts_iff, isTail_iff, after, UInt8.reduceToNat]

theorem valueWith_after : (pending.after byte).valueWith more =
    pending.valueWith (byte :: more) := by
  have value : (pending.after byte).value = pending.value * 64 + (byte.toNat - 0x80) := rfl
  rw [valueWith, valueWith, List.foldl_cons, value]

theorem completes_after_iff (accepted : pending.accepts byte = true)
    (later : 1 < pending.missing) :
    (pending.after byte).Completes more ↔ pending.Completes (byte :: more) := by
  cases more with
  | nil =>
      have goesOn : pending.missing ≠ 1 := Nat.ne_of_gt later
      simp [Completes, goesOn.symm]
  | cons next others =>
      have count : others.length + 1 = pending.missing - 1 ↔
          others.length + 1 + 1 = pending.missing := by omega
      simp only [Completes, accepts_after_iff, accepted, missing_after, count,
        List.forall_mem_cons, List.length_cons, true_and]
      exact and_left_comm

theorem Continues.after (continues : pending.Continues read)
    (accepted : pending.accepts byte = true) (later : 1 < pending.missing) :
    (pending.after byte).Continues (read ++ [byte]) where
  nonempty := by simp
  missing_pos := Nat.sub_pos_of_lt later
  accepts_low := accepts_after_iff.mpr isTail_least
  encodes more c := by
    rw [List.append_assoc, List.singleton_append, continues.encodes,
      completes_after_iff accepted later, valueWith_after]
  valid more completes := by
    rw [valueWith_after]
    exact continues.valid _ ((completes_after_iff accepted later).mp completes)

/-- The bytes that go on with the sequence are those that it accepts. -/
theorem Continues.begins_iff (continues : pending.Continues read) :
    Begins (read ++ [byte]) ↔ pending.accepts byte = true := by
  constructor
  · rintro ⟨c, missing, encoded⟩
    rw [List.append_assoc, List.singleton_append, eq_comm, continues.encodes] at encoded
    exact encoded.1.1
  · intro accepted
    obtain ⟨others, completes⟩ := exists_completes accepted continues.missing_pos
    have value := continues.valid _ completes
    refine ⟨Char.ofNat (pending.valueWith (byte :: others)), others, ?_⟩
    rw [List.append_assoc, List.singleton_append, eq_comm, continues.encodes]
    exact ⟨completes, by rw [Char.toNat_ofNat, if_pos value]⟩

theorem Continues.exists_missing (continues : pending.Continues read) :
    ∃ c missing, missing ≠ [] ∧ String.utf8EncodeChar c = read ++ missing := by
  obtain ⟨c, missing, encoded⟩ := continues.begins_iff.mpr continues.accepts_low
  rw [List.append_assoc] at encoded
  exact ⟨c, _, by simp, encoded.symm⟩

end Pending

/-! ## Steps of the decoder -/

/-- Between two bytes the decoder remembers what has been read of a sequence. -/
def Stands : Option Pending → List UInt8 → Prop
  | none, read => read = []
  | some pending, read => pending.Continues read

section Steps

variable {state : Option Pending} {pending : Pending} {read missing : List UInt8}

theorem begins_of_lt (ascii : byte < 0x80) : Begins [byte] := by
  have small : byte.toNat < 128 := UInt8.lt_iff_toNat_lt.mp ascii
  have encoded : String.utf8EncodeChar (Char.ofUInt8 byte) = [byte] :=
    utf8EncodeChar_eq_single_iff.mpr ⟨small, rfl⟩
  exact ⟨Char.ofUInt8 byte, [], encoded.symm⟩

theorem lt_or_exists_start?_of_begins (begins : Begins [byte]) :
    byte < 0x80 ∨ ∃ pending, Pending.start? byte = some pending := by
  obtain ⟨c, more, encoded⟩ := begins
  have width := c.utf8Size_le_four
  rw [← String.length_utf8EncodeChar, ← encoded] at width
  rw [eq_comm, List.singleton_append] at encoded
  simp only [Pending.start?_eq_some_iff]
  rcases more with _ | ⟨x, _ | ⟨y, _ | ⟨z, _ | ⟨extra, rest⟩⟩⟩⟩
  · rw [utf8EncodeChar_eq_single_iff] at encoded
    exact .inl (UInt8.lt_iff_toNat_lt.mpr encoded.1)
  · rw [utf8EncodeChar_eq_pair_iff] at encoded
    exact .inr ⟨_, .inl ⟨encoded.1, rfl⟩⟩
  · rw [utf8EncodeChar_eq_triple_iff] at encoded
    exact .inr ⟨_, .inr (.inl ⟨encoded.1, rfl⟩)⟩
  · rw [utf8EncodeChar_eq_quadruple_iff] at encoded
    exact .inr ⟨_, .inr (.inr ⟨encoded.1, rfl⟩)⟩
  · simp only [List.length_append, List.length_cons] at width
    omega

theorem decodeFirst_of_lt (ascii : byte < 0x80) : decodeFirst byte = ([Char.ofUInt8 byte], none) :=
  if_pos ascii

theorem decodeFirst_of_start? (started : Pending.start? byte = some pending) :
    decodeFirst byte = ([], some pending) := by
  have wide : ¬ byte < 0x80 := by
    simp only [UInt8.lt_iff_toNat_lt, UInt8.reduceToNat]
    rcases Pending.start?_eq_some_iff.mp started with ⟨range, _⟩ | ⟨range, _⟩ | ⟨range, _⟩ <;> omega
  rw [decodeFirst, if_neg wide, started]

theorem decodeFirst_of_not_begins (stray : ¬ Begins [byte]) :
    decodeFirst byte = ([replacement], none) := by
  have wide : ¬ byte < 0x80 := fun ascii => stray (begins_of_lt ascii)
  cases started : Pending.start? byte with
  | none => rw [decodeFirst, if_neg wide, started]
  | some pending =>
      obtain ⟨c, missing, _, encoded⟩ := (Pending.continues_of_start? started).exists_missing
      exact absurd ⟨c, missing, encoded.symm⟩ stray

/-- The last byte of a character. -/
theorem Stands.step_last (stands : Stands state read)
    (encoded : String.utf8EncodeChar c = read ++ [byte]) : decodeStep state byte = ([c], none) := by
  cases state with
  | none =>
      obtain rfl : read = [] := stands
      rw [List.nil_append, utf8EncodeChar_eq_single_iff] at encoded
      have same : Char.ofUInt8 byte = c := Char.toNat_inj.mp encoded.2.symm
      rw [decodeStep, decodeFirst_of_lt (UInt8.lt_iff_toNat_lt.mpr encoded.1), same]
  | some pending =>
      have continues : pending.Continues read := stands
      obtain ⟨⟨accepted, last, _⟩, value⟩ := (continues.encodes _ _).mp encoded
      have same : pending.extend byte = c.toNat := value.symm
      rw [List.length_nil] at last
      rw [decodeStep, if_pos accepted, if_pos (by omega), same, Char.ofNat_toNat]

/-- A byte of a character before its last. -/
theorem Stands.step_inner (stands : Stands state read)
    (encoded : String.utf8EncodeChar c = read ++ byte :: missing) (more : missing ≠ []) :
    ∃ pending, decodeStep state byte = ([], some pending) ∧
      pending.Continues (read ++ [byte]) := by
  have left := List.length_pos_iff.mpr more
  cases state with
  | none =>
      obtain rfl : read = [] := stands
      rcases lt_or_exists_start?_of_begins ⟨c, missing, encoded.symm⟩ with
        ascii | ⟨pending, started⟩
      · have width := length_of_utf8EncodeChar_eq_cons encoded
        rw [leadWidth_of_lt ascii] at width
        omega
      · exact ⟨pending, decodeFirst_of_start? started, Pending.continues_of_start? started⟩
  | some pending =>
      have continues : pending.Continues read := stands
      obtain ⟨⟨accepted, count, _⟩, _⟩ := (continues.encodes _ _).mp encoded
      refine ⟨pending.after byte, ?_, continues.after accepted (by omega)⟩
      rw [decodeStep, if_pos accepted, if_neg (by omega)]
      rfl

/-- A byte that breaks a sequence off is read again as a first byte. -/
theorem Pending.Continues.step_torn (continues : pending.Continues read)
    (torn : ¬ Begins (read ++ [byte])) : decodeStep (some pending) byte =
      (replacement :: (decodeFirst byte).1, (decodeFirst byte).2) := by
  rw [continues.begins_iff] at torn
  rw [decodeStep, if_neg torn]

end Steps

end Highlighter.Text
