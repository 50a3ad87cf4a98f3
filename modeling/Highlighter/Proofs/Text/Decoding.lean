import Highlighter.Proofs.Text.Sequences

/-! # Texts in damaged bytes

Any bytes are decoded in one way: characters stand for themselves, and each piece of damage is
one replacement.  A piece is as long as it can be and still begin a character, or is a single byte
that begins none.  So what a character's form looks like is never spoilt by what stands around it,
and what is damaged stays damaged whatever follows. -/

set_option autoImplicit false

namespace Highlighter.Text

/-- What bytes stand for. -/
inductive Decodes : List UInt8 → List Char → Prop where
  | nil : Decodes [] []
  | char {rest : List UInt8} {chars : List Char} (c : Char) (others : Decodes rest chars) :
      Decodes (String.utf8EncodeChar c ++ rest) (c :: chars)
  /-- The front of a character, which the byte behind it does not go on with. -/
  | torn {c : Char} {read missing rest : List UInt8} {chars : List Char} (nonempty : read ≠ [])
      (more : missing ≠ []) (encoded : String.utf8EncodeChar c = read ++ missing)
      (breaks : ∀ next ∈ rest.head?, ¬ Begins (read ++ [next])) (others : Decodes rest chars) :
      Decodes (read ++ rest) (replacement :: chars)
  /-- A byte that begins no character. -/
  | stray {byte : UInt8} {rest : List UInt8} {chars : List Char} (never : ¬ Begins [byte])
      (others : Decodes rest chars) : Decodes (byte :: rest) (replacement :: chars)

/-! ## Runs of the decoder -/

/-- What the decoder still gives from a state on. -/
def decodeFrom (state : Option Pending) : List UInt8 → List Char
  | [] => decodeEnd state
  | byte :: rest => (decodeStep state byte).1 ++ decodeFrom (decodeStep state byte).2 rest

theorem finish_foldl_feed (bytes : List UInt8) : ∀ decoder : Decoder,
    (bytes.foldl Decoder.feed decoder).finish =
      decoder.chars.reverse ++ decodeFrom decoder.state bytes := by
  induction bytes with
  | nil =>
      intro decoder
      simp [Decoder.finish, decodeFrom]
  | cons byte rest ih =>
      intro decoder
      rw [List.foldl_cons, ih]
      simp [Decoder.feed, decodeFrom]

theorem foldl_toList {β : Type} (step : β → UInt8 → β) (bytes : ByteArray) (start : β) :
    bytes.foldl step start = bytes.data.toList.foldl step start := by
  have loops : ∀ count place result,
      ByteArray.foldlM.loop (m := Id) (fun result byte => pure (step result byte)) bytes
          bytes.size (Nat.le_refl _) count place result =
        Array.foldlM.loop (m := Id) (fun result byte => pure (step result byte)) bytes.data
          bytes.size (Nat.le_refl _) count place result := by
    intro count
    induction count with
    | zero =>
        intro place result
        rfl
    | succ count ih =>
        intro place result
        unfold ByteArray.foldlM.loop Array.foldlM.loop
        split
        · simp only [ih]
          rfl
        · rfl
  rw [Array.foldl_toList]
  simp only [ByteArray.foldl, ByteArray.foldlM, Array.foldl, Array.foldlM, Nat.le_refl, dite_true,
    loops]
  rfl

theorem toList_decodeLossy (bytes : ByteArray) :
    (decodeLossy bytes).toList = decodeFrom none bytes.data.toList := by
  rw [decodeLossy, String.toList_ofList, foldl_toList, finish_foldl_feed]
  rfl

section Runs

variable {byte : UInt8} {read rest : List UInt8} {c : Char} {pending : Pending}

/-- Up to its last byte a character gives nothing. -/
theorem exists_stands_of_inner : ∀ {missing : List UInt8}, missing ≠ [] →
    String.utf8EncodeChar c = read ++ missing →
      ∃ state, Stands state read ∧
        ∀ rest, decodeFrom none (read ++ rest) = decodeFrom state rest := by
  induction read using List.reverseRecOn with
  | nil =>
      intro missing _ _
      exact ⟨none, rfl, fun rest => rfl⟩
  | append_singleton read byte ih =>
      intro missing more encoded
      rw [List.append_assoc, List.singleton_append] at encoded
      obtain ⟨state, stands, reach⟩ := ih (List.cons_ne_nil byte missing) encoded
      obtain ⟨pending, step, continues⟩ := stands.step_inner encoded more
      refine ⟨some pending, continues, fun rest => ?_⟩
      rw [List.append_assoc, reach, List.singleton_append, decodeFrom, step, List.nil_append]

theorem decodeFrom_char (c : Char) (rest : List UInt8) :
    decodeFrom none (String.utf8EncodeChar c ++ rest) = c :: decodeFrom none rest := by
  obtain ⟨read, last, encoded⟩ :=
    (List.eq_nil_or_concat _).resolve_left (String.utf8EncodeChar_ne_nil (c := c))
  rw [List.concat_eq_append] at encoded
  obtain ⟨state, stands, reach⟩ := exists_stands_of_inner (List.cons_ne_nil last []) encoded
  rw [encoded, List.append_assoc, reach, List.singleton_append, decodeFrom,
    stands.step_last encoded]
  rfl

theorem Pending.Continues.decodeFrom_torn (continues : pending.Continues read)
    (torn : ∀ next ∈ rest.head?, ¬ Begins (read ++ [next])) :
    decodeFrom (some pending) rest = replacement :: decodeFrom none rest := by
  cases rest with
  | nil => rfl
  | cons next rest =>
      rw [decodeFrom, continues.step_torn (torn next rfl)]
      rfl

theorem decodeFrom_stray (stray : ¬ Begins [byte]) (rest : List UInt8) :
    decodeFrom none (byte :: rest) = replacement :: decodeFrom none rest := by
  rw [decodeFrom, decodeStep, decodeFirst_of_not_begins stray]
  rfl

end Runs

/-! ## The decoder keeps the rule -/

theorem decodes_decodeFrom (bytes : List UInt8) : ∀ {state : Option Pending} {read : List UInt8},
    Stands state read → Decodes (read ++ bytes) (decodeFrom state bytes) := by
  induction bytes with
  | nil =>
      intro state read stands
      cases state with
      | none =>
          obtain rfl : read = [] := stands
          exact .nil
      | some pending =>
          have continues : pending.Continues read := stands
          obtain ⟨c, missing, more, encoded⟩ := continues.exists_missing
          exact .torn continues.nonempty more encoded (by simp) .nil
  | cons byte rest ih =>
      have fresh : Decodes rest (decodeFrom none rest) := @ih none [] rfl
      -- a byte that belongs to the sequence either ends it or goes on with it
      have belongs : ∀ {state : Option Pending} {read : List UInt8}, Stands state read →
          Begins (read ++ [byte]) →
            Decodes (read ++ byte :: rest) (decodeFrom state (byte :: rest)) := by
        intro state read stands begins
        obtain ⟨c, missing, encoded⟩ := begins
        rw [eq_comm, List.append_assoc, List.singleton_append] at encoded
        rw [List.append_cons, decodeFrom]
        cases missing with
        | nil =>
            rw [stands.step_last encoded, ← encoded]
            exact .char c fresh
        | cons next missing =>
            obtain ⟨pending, step, continues⟩ :=
              stands.step_inner encoded (List.cons_ne_nil next missing)
            rw [step]
            exact @ih (some pending) _ continues
      have alone : Decodes (byte :: rest) (decodeFrom none (byte :: rest)) := by
        by_cases begins : Begins [byte]
        · exact @belongs none [] rfl begins
        · rw [decodeFrom_stray begins]
          exact .stray begins fresh
      intro state read stands
      cases state with
      | none =>
          obtain rfl : read = [] := stands
          exact alone
      | some pending =>
          have continues : pending.Continues read := stands
          by_cases begins : Begins (read ++ [byte])
          · exact belongs stands begins
          · obtain ⟨c, missing, more, encoded⟩ := continues.exists_missing
            have torn : ∀ next ∈ (byte :: rest).head?, ¬ Begins (read ++ [next]) := by
              simpa using begins
            rw [continues.decodeFrom_torn torn]
            exact .torn continues.nonempty more encoded torn alone

theorem Decodes.eq_decodeFrom {bytes : List UInt8} {chars : List Char}
    (decodes : Decodes bytes chars) : chars = decodeFrom none bytes := by
  induction decodes with
  | nil => rfl
  | char c others ih => rw [decodeFrom_char, ih]
  | torn nonempty more encoded breaks others ih =>
      obtain ⟨state, stands, reach⟩ := exists_stands_of_inner more encoded
      cases state with
      | none => exact absurd stands nonempty
      | some pending => rw [reach, Pending.Continues.decodeFrom_torn stands breaks, ih]
  | stray never others ih => rw [decodeFrom_stray never, ih]

theorem decodes_iff {bytes : ByteArray} {text : String} :
    Decodes bytes.data.toList text.toList ↔ decodeLossy bytes = text := by
  rw [← String.toList_inj, toList_decodeLossy]
  constructor
  · intro decodes
    exact decodes.eq_decodeFrom.symm
  · intro decoded
    rw [← decoded]
    exact @decodes_decodeFrom bytes.data.toList none [] rfl

/-! ## What is around a character -/

section Laws

variable {byte : UInt8} {bytes left right read : List UInt8} {c : Char}
  {chars chars' before after : List Char}

theorem not_begins_of_isUTF8FirstByte (nonempty : read ≠ []) (first : byte.IsUTF8FirstByte) :
    ¬ Begins (read ++ [byte]) := by
  rintro ⟨c, missing, encoded⟩
  have within : read.length < (String.utf8EncodeChar c).length := by
    rw [← encoded]
    simp
  have here : (String.utf8EncodeChar c)[read.length] = byte := by
    simp [← encoded]
  rw [← here, UInt8.isUTF8FirstByte_getElem_utf8EncodeChar] at first
  exact nonempty (List.length_eq_zero_iff.mp first)

/-- Bytes that start with a first byte are decoded as if nothing stood before them. -/
theorem Decodes.append (decodes : Decodes left chars) (others : Decodes right chars')
    (starts : ∀ byte ∈ right.head?, byte.IsUTF8FirstByte) :
    Decodes (left ++ right) (chars ++ chars') := by
  induction decodes with
  | nil => exact others
  | char c _ ih =>
      rw [List.append_assoc]
      exact .char c ih
  | torn nonempty more encoded breaks _ ih =>
      rw [List.append_assoc]
      refine .torn nonempty more encoded ?_ ih
      intro next head
      rw [List.head?_append, Option.mem_def, Option.or_eq_some_iff] at head
      rcases head with inside | ⟨_, outside⟩
      · exact breaks next inside
      · exact not_begins_of_isUTF8FirstByte nonempty (starts next outside)
  | stray never _ ih => exact .stray never ih

theorem decodes_text (text : List Char) (others : Decodes right chars) :
    Decodes (text.flatMap String.utf8EncodeChar ++ right) (text ++ chars) := by
  induction text with
  | nil => exact others
  | cons c rest ih =>
      rw [List.flatMap_cons, List.append_assoc]
      exact .char c ih

/-- A character that is no replacement stands in the bytes, and what is around it is decoded on
its own. -/
theorem Decodes.exists_of_append (decodes : Decodes bytes chars) :
    ∀ {before : List Char}, chars = before ++ c :: after → c ≠ replacement →
      ∃ left right, bytes = left ++ (String.utf8EncodeChar c ++ right) ∧
        Decodes left before ∧ Decodes right after := by
  induction decodes with
  | nil =>
      intro before split
      simp at split
  | @char rest chars d others ih =>
      intro before split genuine
      cases before with
      | nil =>
          obtain ⟨rfl, rfl⟩ := List.cons.inj split
          exact ⟨[], rest, rfl, .nil, others⟩
      | cons e before =>
          obtain ⟨rfl, later⟩ := List.cons.inj split
          obtain ⟨left, right, rfl, front, back⟩ := ih later genuine
          exact ⟨_, right, (List.append_assoc ..).symm, .char d front, back⟩
  | torn nonempty more encoded breaks _ ih =>
      intro before split genuine
      cases before with
      | nil => exact absurd (List.cons.inj split).1.symm genuine
      | cons e before =>
          obtain ⟨rfl, later⟩ := List.cons.inj split
          obtain ⟨left, right, rfl, front, back⟩ := ih later genuine
          refine ⟨_, right, (List.append_assoc ..).symm,
            .torn nonempty more encoded ?_ front, back⟩
          intro next head
          exact breaks next (by rw [List.head?_append, head]; rfl)
  | @stray byte rest chars never _ ih =>
      intro before split genuine
      cases before with
      | nil => exact absurd (List.cons.inj split).1.symm genuine
      | cons e before =>
          obtain ⟨rfl, later⟩ := List.cons.inj split
          obtain ⟨left, right, rfl, front, back⟩ := ih later genuine
          exact ⟨byte :: left, right, rfl, .stray never front, back⟩

/-! ## ASCII -/

theorem filter_ascii_eq_nil (wide : ∀ byte ∈ bytes, 0x80 ≤ byte) :
    bytes.filter (fun byte => byte < 0x80) = [] := by
  rw [List.filter_eq_nil_iff]
  intro byte member
  simpa using wide byte member

/-- Every byte below 128 is a character of its own, and no other character is ASCII. -/
theorem Decodes.filter_ascii (decodes : Decodes bytes chars) :
    chars.filter (fun c => c.toNat < 128) =
      (bytes.filter fun byte => byte < 0x80).map Char.ofUInt8 := by
  have damage : ¬ replacement.toNat < 128 := by decide
  induction decodes with
  | nil => rfl
  | char c _ ih =>
      rw [List.filter_append, List.map_append, List.filter_cons, ih]
      by_cases ascii : c.toNat < 128
      · simp [ascii, utf8EncodeChar_of_ascii, toUInt8_lt, ofUInt8_toUInt8]
      · rw [filter_ascii_eq_nil (le_of_mem_utf8EncodeChar (Nat.le_of_not_lt ascii))]
        simp [ascii]
  | @torn c read missing rest chars nonempty more encoded _ _ ih =>
      have wide : 128 ≤ c.toNat := by
        by_contra ascii
        have length := congrArg List.length (utf8EncodeChar_of_ascii (Nat.lt_of_not_le ascii))
        have front := List.length_pos_iff.mpr nonempty
        have back := List.length_pos_iff.mpr more
        rw [encoded, List.length_append, List.length_singleton] at length
        omega
      have inner : ∀ byte ∈ read, 0x80 ≤ byte := fun byte member =>
        le_of_mem_utf8EncodeChar wide byte (encoded ▸ List.mem_append_left missing member)
      rw [List.filter_append, filter_ascii_eq_nil inner, List.nil_append, List.filter_cons, ih]
      simp [damage]
  | @stray byte rest chars never _ ih =>
      have wide : ¬ byte < 0x80 := fun ascii => never (begins_of_lt ascii)
      rw [List.filter_cons, List.filter_cons, ih]
      simp only [damage, wide, decide_false, Bool.false_eq_true, if_false]

end Laws

/-! ## Texts among bytes -/

theorem isUTF8FirstByte_of_head_text {text : List Char} (nonempty : text ≠ [])
    (rest : List UInt8) :
    ∀ byte ∈ (text.flatMap String.utf8EncodeChar ++ rest).head?, byte.IsUTF8FirstByte := by
  obtain ⟨c, others, rfl⟩ := List.exists_cons_of_ne_nil nonempty
  obtain ⟨lead, tail, encoded, _⟩ := utf8EncodeChar_eq_cons c
  have within : 0 < (String.utf8EncodeChar c).length := by simp [encoded]
  have first := (@UInt8.isUTF8FirstByte_getElem_utf8EncodeChar c 0 within).mpr rfl
  intro byte head
  rw [List.flatMap_cons, encoded] at head
  obtain rfl : lead = byte := by simpa using head
  simpa only [encoded, List.getElem_cons_zero] using first

theorem decodeLossy_between (before after : ByteArray) {text : String} (nonempty : text ≠ "") :
    decodeLossy (before ++ text.toUTF8 ++ after) =
      decodeLossy before ++ text ++ decodeLossy after := by
  have laid : (before ++ text.toUTF8 ++ after).data.toList = before.data.toList ++
      (text.toList.flatMap String.utf8EncodeChar ++ after.data.toList) := by
    rw [← bytesOf_eq_flatMap, bytesOf]
    simp
  have chars : text.toList ≠ [] := by simpa using nonempty
  rw [← decodes_iff, laid, String.toList_append, String.toList_append, List.append_assoc]
  exact (decodes_iff.mpr rfl).append (decodes_text text.toList (decodes_iff.mpr rfl))
    (isUTF8FirstByte_of_head_text chars _)

theorem exists_of_decodeLossy_eq {bytes : ByteArray} {before after : String} {c : Char}
    (genuine : c ≠ replacement)
    (decoded : decodeLossy bytes = before ++ String.singleton c ++ after) :
    ∃ left right : ByteArray, bytes = left ++ (String.singleton c).toUTF8 ++ right ∧
      decodeLossy left = before ∧ decodeLossy right = after := by
  have split : (before ++ String.singleton c ++ after).toList =
      before.toList ++ c :: after.toList := by simp
  obtain ⟨left, right, laid, front, back⟩ :=
    (decodes_iff.mpr decoded).exists_of_append split genuine
  have single : bytesOf (String.singleton c) = String.utf8EncodeChar c := by
    simp [bytesOf_eq_flatMap]
  refine ⟨⟨left.toArray⟩, ⟨right.toArray⟩, ?_, decodes_iff.mp front, decodes_iff.mp back⟩
  apply ByteArray.ext
  apply Array.toList_inj.mp
  rw [laid, ← single, bytesOf]
  simp

theorem decodeLossy_toUTF8 (text : String) : decodeLossy text.toUTF8 = text := by
  have whole := decodes_text text.toList .nil
  rw [List.append_nil, List.append_nil, ← bytesOf_eq_flatMap] at whole
  exact decodes_iff.mp whole

theorem decodeLossy_of_fromUTF8? {bytes : ByteArray} {text : String}
    (decoded : String.fromUTF8? bytes = some text) : decodeLossy bytes = text := by
  rw [← fromUTF8?_eq_some_iff.mp decoded, decodeLossy_toUTF8]

/-- The decoder would change nothing in bytes that are a text. -/
theorem decode_eq_decodeLossy (bytes : ByteArray) : decode bytes = decodeLossy bytes := by
  unfold decode
  split
  · next decoded => exact (decodeLossy_of_fromUTF8? decoded).symm
  · rfl

end Highlighter.Text
