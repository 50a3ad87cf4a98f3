import Highlighter.Json.Structure
import Highlighter.Proofs.Json.Grammar

/-! # Reading what is spelled

A reader takes a spelling together with the white space before it, gives the value that is meant
and leaves the rest of the document as it is.  For strings this holds of every spelling; lists and
records carry it over from their items and fields, whatever these are. -/

set_option autoImplicit false

namespace Highlighter.Json

open Text

variable {α β π : Type}

theorem bind_ok {reader : Reader α} {next : α → Reader β} {rest after : List Char} {value : α}
    (reads : reader rest = .ok value after) : (reader >>= next) rest = next value after := by
  change EStateM.bind reader next rest = _
  rw [EStateM.bind, reads]

/-! ## White space -/

theorem dropWhile_blank {space : List Char} (blank : IsBlank space) (rest : List Char) :
    (space ++ rest).dropWhile isSpace = rest.dropWhile isSpace := by
  induction space with
  | nil => rfl
  | cons c more ih =>
      have isBlank : isSpace c = true := blank c List.mem_cons_self
      rw [List.cons_append, List.dropWhile_cons_of_pos isBlank]
      exact ih fun other member => blank other (List.mem_cons_of_mem c member)

theorem skipSpace_blank {space rest : List Char} {c : Char} (blank : IsBlank space)
    (solid : isSpace c = false) :
    skipSpace (space ++ c :: rest) = .ok () (c :: rest) := by
  rw [skipSpace, dropWhile_blank blank, List.dropWhile_cons_of_neg (by simp [solid])]

theorem skipSpace_all {space : List Char} (blank : IsBlank space) :
    skipSpace space = .ok () [] := by
  have all := dropWhile_blank blank []
  rw [List.append_nil] at all
  rw [skipSpace, all]
  rfl

theorem skip_cons (c : Char) (rest : List Char) : skip (c :: rest) = .ok () rest := rfl

/-- What a reader does that looks at the next character that is not blank. -/
theorem skipSpace_peek {space rest : List Char} {c : Char} {next : Option Char → Reader α}
    (blank : IsBlank space) (solid : isSpace c = false) :
    (do skipSpace; next (← peek) : Reader α) (space ++ c :: rest) = next (some c) (c :: rest) := by
  rw [bind_ok (skipSpace_blank blank solid)]
  rfl

/-- The reader takes `chars`, with white space before them, as `value`. -/
def Reads (reader : Reader α) (chars : List Char) (value : α) : Prop :=
  ∀ ⦃space : List Char⦄, IsBlank space → ∀ rest : List Char,
    reader (space ++ (chars ++ rest)) = .ok value rest

theorem Reads.locate {reader : Reader α} {chars : List Char} {value : α}
    (reads : Reads reader chars value) : Reads (locate reader) chars value := by
  intro space blank rest
  rw [Json.locate, reads blank rest]

theorem Reads.bind {reader : Reader α} {next : α → Reader β} {chars : List Char} {value : α}
    {result : β} (reads : Reads reader chars value)
    (goes : ∀ rest, next value rest = .ok result rest) : Reads (reader >>= next) chars result := by
  intro space blank rest
  rw [bind_ok (reads blank rest)]
  exact goes rest

/-! ## Strings -/

theorem readHex_spelled {code : Nat} {digits : List Char} (spelled : SpellsCode code digits)
    (rest : List Char) : readHex (digits ++ rest) = .ok code rest := by
  cases spelled with
  | intro first second third fourth =>
      simp only [List.cons_append, List.nil_append, readHex, first, second, third, fourth]

theorem readEscape_short {letter c : Char} (known : (letter, c) ∈ shortEscapes)
    (rest : List Char) : readEscape (letter :: rest) = .ok c rest := by
  simp only [shortEscapes, List.mem_cons, Prod.mk.injEq, List.not_mem_nil, or_false] at known
  rcases known with ⟨rfl, rfl⟩ | ⟨rfl, rfl⟩ | ⟨rfl, rfl⟩ | ⟨rfl, rfl⟩ | ⟨rfl, rfl⟩ | ⟨rfl, rfl⟩ |
    ⟨rfl, rfl⟩ | ⟨rfl, rfl⟩
  all_goals rfl

theorem not_surrogate (c : Char) : ¬ (0xD800 ≤ c.toNat ∧ c.toNat ≤ 0xDFFF) := by
  intro surrogate
  rcases c.valid with low | high
  · change c.toNat < 0xD800 at low
    omega
  · change 0xDFFF < c.toNat ∧ c.toNat < 0x110000 at high
    omega

theorem readEscape_code {c : Char} {digits : List Char} (spelled : SpellsCode c.toNat digits)
    (rest : List Char) : readEscape ('u' :: (digits ++ rest)) = .ok c rest := by
  have valid := not_surrogate c
  simp only [readEscape, readHex_spelled spelled]
  rw [if_neg (by omega), if_neg (by omega), Char.ofNat_toNat]

theorem readEscape_pair {c : Char} {high low : Nat} {digits digits' : List Char}
    (isHigh : 0xD800 ≤ high ∧ high ≤ 0xDBFF) (isLow : 0xDC00 ≤ low ∧ low ≤ 0xDFFF)
    (value : c.toNat = 0x10000 + (high - 0xD800) * 0x400 + (low - 0xDC00))
    (spelled : SpellsCode high digits) (spelled' : SpellsCode low digits') (rest : List Char) :
    readEscape ('u' :: (digits ++ '\\' :: 'u' :: (digits' ++ rest))) = .ok c rest := by
  simp only [readEscape, readHex_spelled spelled]
  rw [if_neg (by omega), if_pos isHigh]
  simp only [readLowSurrogate, readHex_spelled spelled']
  rw [if_pos isLow, ← value, Char.ofNat_toNat]

theorem readStringFrom_escape {after rest : List Char} {c : Char}
    (meant : readEscape after = .ok c rest) (read : List Char) :
    readStringFrom read ('\\' :: after) = readStringFrom (c :: read) rest := by
  rw [readStringFrom.eq_def]
  simp only [Char.reduceEq, if_false, if_true]
  split
  · next fault rest' failed => simp [meant] at failed
  · next c' rest' escaped =>
    rw [meant] at escaped
    obtain ⟨rfl, rfl⟩ := EStateM.Result.ok.inj escaped
    rfl

theorem readStringFrom_spelledChar {c : Char} {chars : List Char} (spelled : SpellsChar c chars)
    (read rest : List Char) :
    readStringFrom read (chars ++ rest) = readStringFrom (c :: read) rest := by
  cases spelled with
  | plain notQuote notBackslash notControl =>
      rw [List.singleton_append, readStringFrom.eq_def]
      simp only [if_neg notQuote, if_neg notBackslash, if_neg (Nat.not_lt.mpr notControl)]
  | short known => exact readStringFrom_escape (readEscape_short known rest) read
  | code spelled => exact readStringFrom_escape (readEscape_code spelled rest) read
  | pair isHigh isLow value spelled spelled' =>
      have escape := readEscape_pair isHigh isLow value spelled spelled' rest
      simp only [List.cons_append, List.append_assoc]
      exact readStringFrom_escape escape read

theorem readStringFrom_spelled {text body : List Char} (spelled : SpellsText text body)
    (rest : List Char) : ∀ read : List Char,
    readStringFrom read (body ++ '\x22' :: rest) =
      .ok (String.ofList (read.reverse ++ text)) rest := by
  induction spelled with
  | nil =>
      intro read
      rw [List.nil_append, readStringFrom, if_pos rfl, List.append_nil]
  | cons head _ ih =>
      intro read
      rw [List.append_assoc, readStringFrom_spelledChar head, ih, List.reverse_cons,
        List.append_assoc]
      rfl

theorem readStringBody_spelled {text : String} {body : List Char}
    (spelled : SpellsText text.toList body) (rest : List Char) :
    readStringBody (body ++ '\x22' :: rest) = .ok text rest := by
  rw [readStringBody, readStringFrom_spelled spelled]
  simp

theorem reads_string {text : String} {chars : List Char} (spelled : Spells (.string text) chars) :
    Reads readString chars text := by
  intro space blank rest
  cases spelled with
  | string spelled =>
      rw [readString, List.append_assoc, List.cons_append, skipSpace_peek blank rfl]
      exact readStringBody_spelled spelled rest

/-! ## Lists -/

/-- A spelling of an item, which a list tells from its end by the first character. -/
structure IsItem (reader : Reader α) (value : α) (chars : List Char) : Prop where
  start : ∃ c more, chars = c :: more ∧ isSpace c = false ∧ c ≠ ']'
  reads : Reads reader chars value

theorem Reads.isItem {reader : Reader α} {value : α} {chars : List Char}
    (reads : Reads reader chars value) (isValue : IsValue chars) : IsItem reader value chars :=
  ⟨isValue.exists_cons, reads⟩

theorem nextItem_stop {first : Bool} {space : List Char} (blank : IsBlank space)
    (rest : List Char) : nextItem first (space ++ ']' :: rest) = .ok false (']' :: rest) := by
  rw [nextItem, skipSpace_peek blank rfl]
  rfl

theorem nextItem_item {first : Bool} {separator : List Char} (apart : IsSeparator first separator)
    {c : Char} (solid : isSpace c = false) (notClosing : c ≠ ']') (rest : List Char) :
    nextItem first (separator ++ c :: rest) = .ok true (c :: rest) := by
  cases apart with
  | first blank =>
      rw [nextItem, skipSpace_peek blank solid]
      -- `notClosing` takes the reader past the case of a closing bracket, here and below
      simp only [if_true]
      rfl
  | comma blank blank' =>
      rw [nextItem, List.append_assoc, List.cons_append, skipSpace_peek blank rfl]
      change (skip >>= _) (',' :: _) = _
      rw [bind_ok (skip_cons ',' _), skipSpace_peek blank' solid]
      simp only
      rfl

theorem readItems_stop {item : Reader α} {first : Bool} {rest after : List Char}
    (stop : nextItem first rest = .ok false after) (read : List α) (tick : Char)
    (clock : List Char) :
    readItems item first read (tick :: clock) rest = .ok read.reverse after := by
  rw [readItems, bind_ok stop]
  rfl

theorem readItems_item {item : Reader α} {first : Bool} {value : α} {rest after more : List Char}
    (goes : nextItem first rest = .ok true after) (reads : item after = .ok value more)
    (read : List α) (tick : Char) (clock : List Char) :
    readItems item first read (tick :: clock) rest =
      readItems item false (value :: read) clock more := by
  rw [readItems, bind_ok goes, if_pos rfl, bind_ok reads]

theorem readItems_spelled {item : Reader α} {first : Bool} {values : List α} {chars : List Char}
    (spelled : SpellsItems ']' (IsItem item) first values chars) (rest : List Char) :
    ∀ (read : List α) (clock : List Char), chars.length ≤ clock.length →
      readItems item first read clock (chars ++ rest) =
        .ok (read.reverse ++ values) (']' :: rest) := by
  -- the clock does not run out: each item takes a character at least, and so does the bracket
  induction spelled with
  | stop blank =>
      intro read clock bound
      rw [List.append_assoc, List.append_nil]
      cases clock with
      | nil => simp at bound
      | cons tick clock => exact readItems_stop (nextItem_stop blank rest) read tick clock
  | @item first value values separator chars more apart head _ ih =>
      intro read clock bound
      obtain ⟨c, others, rfl, solid, notClosing⟩ := head.start
      cases clock with
      | nil => simp at bound
      | cons tick clock =>
          have goes := nextItem_item apart solid notClosing (others ++ (more ++ rest))
          have reads := head.reads isBlank_nil (more ++ rest)
          have left : more.length ≤ clock.length := by
            simp only [List.length_append, List.length_cons] at bound
            omega
          rw [List.append_assoc, List.append_assoc, List.cons_append, readItems_item goes reads,
            ih (value :: read) clock left, List.reverse_cons, List.append_assoc]
          rfl

theorem reads_list {item : Reader α} {values : List α} {chars : List Char}
    (spelled : SpellsItems ']' (IsItem item) true values chars) :
    Reads (readList item) ('[' :: chars) values := by
  apply Reads.locate
  intro space blank rest
  rw [List.cons_append, skipSpace_peek blank rfl]
  have items := readItems_spelled spelled rest [] (chars ++ rest) (by simp)
  change closed closeList (fun rest => readItems item true [] rest rest) (chars ++ rest) = _
  simp only [closed, items]
  rfl

/-! ## Records -/

namespace Shape

/-- What is known of a record after some fields of it, and what after `members` as well, where
`reads` says how their values are taken. -/
inductive Collects (shape : Shape π α) (reads : Reader π → List Char → π → Prop) :
    π → List (String × List Char) → π → Prop where
  | nil (known : π) : Collects shape reads known [] known
  | field {known next last : π} {field : Field π} {name : String} {chars : List Char}
      {members : List (String × List Char)}
      (found : shape.fields.find? (·.name == name) = some field)
      (fresh : field.isKnown known = false) (value : reads (field.read known) chars next)
      (rest : Collects shape reads next members last) :
      Collects shape reads known ((name, chars) :: members) last

/-- The fields may come in any order, as long as what is known depends on the names alone. -/
theorem collects_reads {shape : Shape π α} {known : List String → π}
    {members : List (String × List Char)} (distinct : (members.map Prod.fst).Nodup)
    (each : ∀ member ∈ members, ∀ names, member.1 ∉ names →
      ∃ field, shape.fields.find? (·.name == member.1) = some field ∧
        field.isKnown (known names) = false ∧
        Reads (field.read (known names)) member.2 (known (member.1 :: names))) :
    ∀ names : List String, (∀ member ∈ members, member.1 ∉ names) →
      shape.Collects Reads (known names) members
        (known ((members.map Prod.fst).reverse ++ names)) := by
  induction members with
  | nil =>
      intro names _
      exact .nil _
  | cons member members ih =>
      intro names apart
      have here := List.mem_cons_self (a := member) (l := members)
      rw [List.map_cons, List.nodup_cons] at distinct
      obtain ⟨field, found, fresh, value⟩ := each member here names (apart member here)
      have rest := ih distinct.2 (fun other listed => each other (List.mem_cons_of_mem _ listed))
        (member.1 :: names) (by
          intro other listed repeated
          rcases List.mem_cons.mp repeated with same | repeated
          · exact distinct.1 (List.mem_map.mpr ⟨other, listed, same⟩)
          · exact apart other (List.mem_cons_of_mem _ listed) repeated)
      rw [List.map_cons, List.reverse_cons, List.append_assoc]
      exact .field found fresh value rest

theorem nextKey_stop {first : Bool} {space : List Char} (blank : IsBlank space)
    (rest : List Char) : nextKey first (space ++ '\x7d' :: rest) = .ok false ('\x7d' :: rest) := by
  rw [nextKey, skipSpace_peek blank rfl]
  rfl

theorem nextKey_key {first : Bool} {separator : List Char} (apart : IsSeparator first separator)
    (rest : List Char) : nextKey first (separator ++ '\x22' :: rest) = .ok true rest := by
  cases apart with
  | first blank =>
      rw [nextKey, skipSpace_peek blank rfl]
      rfl
  | comma blank blank' =>
      rw [nextKey, List.append_assoc, List.cons_append, skipSpace_peek blank rfl]
      change (skip >>= _) (',' :: _) = _
      rw [bind_ok (skip_cons ',' _), skipSpace_peek blank' rfl]
      rfl

theorem readColon_spelled {space : List Char} (blank : IsBlank space) (rest : List Char) :
    readColon (space ++ ':' :: rest) = .ok () rest := by
  rw [readColon, skipSpace_peek blank rfl]
  rfl

theorem readFields_stop {shape : Shape π α} {first : Bool} {rest after : List Char}
    (stop : nextKey first rest = .ok false after) (known : π) (tick : Char)
    (clock : List Char) : shape.readFields first known (tick :: clock) rest = .ok known after := by
  rw [readFields, bind_ok stop]
  rfl

theorem readFields_field {shape : Shape π α} {first : Bool} {known next : π} {field : Field π}
    {name : String} {rest key colon value more : List Char}
    (goes : nextKey first rest = .ok true key) (named : readStringBody key = .ok name colon)
    (found : shape.fields.find? (·.name == name) = some field)
    (fresh : field.isKnown known = false) (parted : readColon colon = .ok () value)
    (reads : field.read known value = .ok next more) (tick : Char) (clock : List Char) :
    shape.readFields first known (tick :: clock) rest =
      shape.readFields false next clock more := by
  rw [readFields, bind_ok goes, if_pos rfl, bind_ok named]
  simp only [found, fresh, Bool.false_eq_true, if_false]
  rw [bind_ok parted, bind_ok reads]

theorem readFields_spelled {shape : Shape π α} {known last : π}
    {members : List (String × List Char)} (collects : shape.Collects Reads known members last) :
    ∀ {first : Bool} {chars : List Char},
      SpellsItems '\x7d' (SpellsMember Eq) first members chars →
      ∀ clock rest : List Char, chars.length ≤ clock.length →
        shape.readFields first known clock (chars ++ rest) = .ok last ('\x7d' :: rest) := by
  induction collects with
  | nil known =>
      intro first chars spelled clock rest bound
      cases spelled with
      | stop blank =>
          rw [List.append_assoc]
          cases clock with
          | nil => simp at bound
          | cons tick clock => exact readFields_stop (nextKey_stop blank rest) known tick clock
  | @field _ _ _ _ _ value _ found fresh reads _ ih =>
      intro first chars spelled clock rest bound
      cases spelled with
      | @item _ _ _ separator member more apart head tail =>
          cases head with
          | @intro _ _ key space gap _ named blank blank' same =>
              subst same
              cases clock with
              | nil => simp at bound
              | cons tick clock =>
                  have left : more.length ≤ clock.length := by
                    simp only [List.length_append, List.length_cons] at bound
                    omega
                  have goes := nextKey_key apart
                    (key ++ '\x22' :: (space ++ ':' :: (gap ++ (value ++ (more ++ rest)))))
                  have text := readStringBody_spelled named
                    (space ++ ':' :: (gap ++ (value ++ (more ++ rest))))
                  have parted := readColon_spelled blank (gap ++ (value ++ (more ++ rest)))
                  have taken := reads blank' (more ++ rest)
                  simp only [List.append_assoc, List.cons_append]
                  rw [readFields_field goes text found fresh parted taken, ih tail clock rest left]

/-- An object is read as the record that its fields add up to. -/
theorem reads_object {shape : Shape π α} {last : π} {value : α}
    {members : List (String × List Char)} {chars : List Char}
    (collects : shape.Collects Reads shape.unknown members last)
    (finished : shape.finish last = .ok value) (laid : IsObject members chars) :
    Reads shape.read chars value := by
  obtain ⟨inside, rfl, spelled⟩ := laid
  apply Reads.locate
  intro space blank rest
  rw [List.cons_append, skipSpace_peek blank rfl]
  have fields := readFields_spelled collects spelled (inside ++ rest) rest (by simp)
  change closed closeObject shape.readObject (inside ++ rest) = _
  simp only [closed, readObject, fields, finished]
  rfl

/-- An object is read as a record whatever the order of its fields. -/
theorem reads_members {shape : Shape π α} {known : List String → π} {value : α}
    {members : List (String × List Char)} {chars : List Char}
    (start : known [] = shape.unknown) (distinct : (members.map Prod.fst).Nodup)
    (each : ∀ member ∈ members, ∀ names, member.1 ∉ names →
      ∃ field, shape.fields.find? (·.name == member.1) = some field ∧
        field.isKnown (known names) = false ∧
        Reads (field.read (known names)) member.2 (known (member.1 :: names)))
    (finished : ∀ names, (∀ name, name ∈ names ↔ name ∈ members.map Prod.fst) →
      shape.finish (known names) = .ok value)
    (laid : IsObject members chars) : Reads shape.read chars value := by
  have collects := collects_reads distinct each [] (by simp)
  rw [start] at collects
  exact reads_object collects (finished _ (by simp)) laid

end Shape

/-! ## Documents -/

/-- A value that is spelled in a certain way, with white space around it and nothing else. -/
def IsDocument (spells : List Char → Prop) (document : String) : Prop :=
  ∃ space chars trail, IsBlank space ∧ spells chars ∧ IsBlank trail ∧
    document.toList = space ++ (chars ++ trail)

theorem readEnd_blank {space : List Char} (blank : IsBlank space) : readEnd space = .ok () [] := by
  rw [readEnd, bind_ok (skipSpace_all blank)]
  rfl

theorem readDocument_spelled {reader : Reader α} {document : String} {chars space trail : List Char}
    {value : α} (reads : Reads reader chars value) (blank : IsBlank space) (blank' : IsBlank trail)
    (laid : document.toList = space ++ (chars ++ trail)) :
    readDocument reader document = .ok value := by
  have whole : (reader <* readEnd) document.toList = .ok value [] := by
    change (reader >>= fun value => readEnd >>= fun _ => pure value) document.toList = _
    rw [laid, bind_ok (reads blank trail), bind_ok (readEnd_blank blank')]
    rfl
  rw [readDocument, whole]

end Highlighter.Json
