import Mathlib.Data.List.Nodup
import Highlighter.Proofs.Json.Reading

/-! # What a reader accepts

A reader that gets through a value of any kind stops right after it.  So a document that is
accepted is accepted part by part: each item of a list, each field of a record.  For a record
written as an object this leaves little freedom in the names of its members. -/

set_option autoImplicit false

namespace Highlighter.Json

variable {α β π : Type} {chars space rest after : List Char}

/-! ## Success of a step -/

theorem exists_of_bind_ok {reader : Reader α} {next : α → Reader β} {value : β}
    (read : (reader >>= next) rest = .ok value after) :
    ∃ first left, reader rest = .ok first left ∧ next first left = .ok value after := by
  change EStateM.bind reader next rest = _ at read
  rw [EStateM.bind] at read
  cases done : reader rest with
  | ok first left =>
      rw [done] at read
      exact ⟨first, left, rfl, read⟩
  | error fault left => simp [done] at read

theorem of_locate_ok {reader : Reader α} {value : α}
    (read : locate reader rest = .ok value after) : reader rest = .ok value after := by
  rw [locate] at read
  cases done : reader rest with
  | ok value' left =>
      rw [done] at read
      exact read
  | error fault left => simp [done] at read

theorem exists_of_closed_ok {close : Reader Unit} {inside : Reader α} {value : α}
    (read : closed close inside rest = .ok value after) :
    ∃ left, inside rest = .ok value left ∧ close left = .ok () after := by
  rw [closed] at read
  cases done : inside rest with
  | ok value' left =>
      rw [done] at read
      cases shut : close left with
      | ok _ last =>
          simp only [shut] at read
          obtain ⟨rfl, rfl⟩ := EStateM.Result.ok.inj read
          exact ⟨left, rfl, shut⟩
      | error fault last => simp [shut] at read
  | error fault left =>
      rw [done] at read
      cases shut : close left <;> simp [shut] at read

theorem readWrongType_ne_ok (expected : Expected) (value : α) :
    readWrongType expected rest ≠ .ok value after := by
  intro read
  obtain ⟨found, left, _, failed⟩ := exists_of_bind_ok read
  contradiction

/-- The reader gets through `chars` with this value, in one document at least. -/
def Accepts (reader : Reader α) (chars : List Char) (value : α) : Prop :=
  ∃ space rest, IsBlank space ∧ reader (space ++ (chars ++ rest)) = .ok value rest

/-- Wherever the reader gets through a JSON value, it stops right after it. -/
def StopsAfter (reader : Reader α) : Prop :=
  ∀ ⦃chars : List Char⦄, IsValue chars → ∀ ⦃space : List Char⦄, IsBlank space →
    ∀ ⦃rest after : List Char⦄ ⦃value : α⦄,
      reader (space ++ (chars ++ rest)) = .ok value after → after = rest

theorem StopsAfter.accepts {reader : Reader α} {value : α} (stops : StopsAfter reader)
    (isValue : IsValue chars) (blank : IsBlank space)
    (read : reader (space ++ (chars ++ rest)) = .ok value after) :
    after = rest ∧ Accepts reader chars value := by
  obtain rfl := stops isValue blank read
  exact ⟨rfl, space, after, blank, read⟩

/-- What a field does that keeps the value it reads. -/
theorem exists_of_store_ok {reader : Reader α} {store : α → β} {value : β}
    (read : (do return store (← reader) : Reader β) rest = .ok value after) :
    ∃ first, reader rest = .ok first after ∧ store first = value := by
  obtain ⟨first, left, taken, done⟩ := exists_of_bind_ok read
  obtain ⟨rfl, rfl⟩ := EStateM.Result.ok.inj done
  exact ⟨first, taken, rfl⟩

theorem StopsAfter.store {reader : Reader α} (stops : StopsAfter reader) (store : α → β) :
    StopsAfter (do return store (← reader)) := by
  intro chars isValue space blank rest after value read
  obtain ⟨first, taken, _⟩ := exists_of_store_ok read
  exact stops isValue blank taken

theorem StopsAfter.bind {reader : Reader α} {next : α → Reader β} (stops : StopsAfter reader)
    (stays : ∀ ⦃value rest after result⦄, next value rest = .ok result after → after = rest) :
    StopsAfter (reader >>= next) := by
  intro chars isValue space blank rest after result read
  obtain ⟨value, left, first, later⟩ := exists_of_bind_ok read
  rw [stays later, stops isValue blank first]

/-! ## Strings -/

theorem exists_of_readStringFrom_escape_ok {read : List Char} {text : String}
    (done : readStringFrom read ('\\' :: rest) = .ok text after) :
    ∃ c left, readEscape rest = .ok c left ∧ readStringFrom (c :: read) left = .ok text after := by
  rw [readStringFrom.eq_def] at done
  simp only [Char.reduceEq, if_false, if_true] at done
  split at done
  · contradiction
  · next c left escape => exact ⟨c, left, escape, done⟩

theorem exists_of_readLowSurrogate_ok {high : Nat} {c : Char}
    (read : readLowSurrogate high rest = .ok c after) :
    ∃ more code, rest = '\\' :: 'u' :: more ∧ readHex more = .ok code after := by
  unfold readLowSurrogate at read
  split at read
  case h_3 more =>
    split at read
    · contradiction
    · next code left hex =>
      split at read
      · obtain ⟨_, rfl⟩ := EStateM.Result.ok.inj read
        exact ⟨more, code, rfl, hex⟩
      · contradiction
  all_goals contradiction

theorem exists_of_readEscape_code_ok {c : Char} (read : readEscape ('u' :: rest) = .ok c after) :
    ∃ code left, readHex rest = .ok code left ∧
      (left = after ∨ readLowSurrogate code left = .ok c after) := by
  simp only [readEscape] at read
  cases hex : readHex rest with
  | error fault left => simp [hex] at read
  | ok code left =>
      simp only [hex] at read
      split at read
      · contradiction
      split at read
      · exact ⟨code, left, rfl, .inr read⟩
      · exact ⟨code, left, rfl, .inl (EStateM.Result.ok.inj read).2⟩

/-- A string ends at the quote after its body, and what comes next may also be the second half of
a pair that was begun before. -/
theorem readStringFrom_stops {body : List Char} {text : String} (laid : IsText body) :
    (∀ read, readStringFrom read (body ++ '\x22' :: rest) = .ok text after → after = rest) ∧
      ∀ high c left read, readLowSurrogate high (body ++ '\x22' :: rest) = .ok c left →
        readStringFrom read left = .ok text after → after = rest := by
  induction laid with
  | nil =>
      constructor
      · intro read done
        rw [List.nil_append, readStringFrom, if_pos rfl] at done
        exact (EStateM.Result.ok.inj done).2.symm
      · intro high c left read paired
        contradiction
  | @plain c more notQuote notBackslash notControl _ ih =>
      constructor
      · intro read done
        rw [List.cons_append, readStringFrom.eq_def] at done
        simp only [if_neg notQuote, if_neg notBackslash, if_neg (Nat.not_lt.mpr notControl)] at done
        exact ih.1 _ done
      · intro high other left read paired
        obtain ⟨_, _, same, _⟩ := exists_of_readLowSurrogate_ok paired
        exact absurd (List.cons.inj same).1 notBackslash
  | @short letter c more known _ ih =>
      constructor
      · intro read done
        rw [List.cons_append, List.cons_append,
          readStringFrom_escape (readEscape_short known _)] at done
        exact ih.1 _ done
      · intro high other left read paired
        obtain ⟨_, _, same, _⟩ := exists_of_readLowSurrogate_ok paired
        obtain ⟨rfl, _⟩ := List.cons.inj (List.cons.inj same).2
        simp [shortEscapes] at known
  | @code code digits more spelled _ ih =>
      constructor
      · intro read done
        rw [List.cons_append, List.cons_append, List.append_assoc] at done
        obtain ⟨c, left, escape, later⟩ := exists_of_readStringFrom_escape_ok done
        obtain ⟨code', left', hex, escaped⟩ := exists_of_readEscape_code_ok escape
        rw [readHex_spelled spelled] at hex
        obtain ⟨rfl, rfl⟩ := EStateM.Result.ok.inj hex
        rcases escaped with rfl | paired
        · exact ih.1 _ later
        · exact ih.2 _ _ _ _ paired later
      · intro high c left read paired later
        obtain ⟨after', code', same, hex⟩ := exists_of_readLowSurrogate_ok paired
        rw [List.cons_append, List.cons_append, List.append_assoc] at same
        obtain ⟨_, rfl⟩ := List.cons.inj (List.cons.inj same).2
        rw [readHex_spelled spelled] at hex
        obtain ⟨_, rfl⟩ := EStateM.Result.ok.inj hex
        exact ih.1 _ later

theorem readString_other {c : Char} (blank : IsBlank space) (solid : isSpace c = false)
    (notQuote : c ≠ '\x22') :
    readString (space ++ c :: rest) = readWrongType .string (c :: rest) := by
  rw [readString, skipSpace_peek blank solid]
  simp only

theorem stopsAfter_readString : StopsAfter readString := by
  intro chars isValue space blank rest after text read
  obtain ⟨c, more, rfl, solid, _⟩ := isValue.exists_cons
  by_cases quote : c = '\x22'
  · subst quote
    obtain ⟨body, laid, rfl⟩ := isValue.exists_text
    rw [readString, List.cons_append, skipSpace_peek blank rfl, List.append_assoc] at read
    exact (readStringFrom_stops laid).1 [] read
  · rw [List.cons_append, readString_other blank solid quote] at read
    exact absurd read (readWrongType_ne_ok _ _)

/-! ## Lists -/

section Items

variable {items : List (List Char)} {first : Bool}

theorem closeList_bracket (blank : IsBlank space) (rest : List Char) :
    closeList (space ++ ']' :: rest) = .ok () rest := by
  rw [closeList, skipSpace_peek blank rfl]
  rfl

theorem closeList_ne_ok {c : Char} (blank : IsBlank space) (solid : isSpace c = false)
    (notClosing : c ≠ ']') : closeList (space ++ c :: rest) ≠ .ok () after := by
  intro read
  rw [closeList, skipSpace_peek blank solid] at read
  by_cases comma : c = ','
  · subst comma
    obtain ⟨_, left, _, read⟩ := exists_of_bind_ok read
    obtain ⟨_, left, _, read⟩ := exists_of_bind_ok read
    obtain ⟨next, left, _, read⟩ := exists_of_bind_ok read
    split at read
    all_goals contradiction
  · simp only at read
    contradiction

/-- A list is closed only where its items have come to an end. -/
theorem eq_of_closeList_ok (laid : SpellsItems ']' Eq first items chars)
    (values : ∀ item ∈ items, IsValue item) (read : closeList (chars ++ rest) = .ok () after) :
    after = rest := by
  cases laid with
  | stop blank =>
      rw [List.append_assoc, List.singleton_append, closeList_bracket blank] at read
      exact (EStateM.Result.ok.inj read).2.symm
  | @item _ item _ separator _ more apart same =>
      subst same
      obtain ⟨c, others, rfl, solid, notClosing⟩ := (values item List.mem_cons_self).exists_cons
      simp only [List.append_assoc, List.cons_append] at read
      cases apart with
      | first blank => exact absurd read (closeList_ne_ok blank solid notClosing)
      | comma blank gap =>
          rw [List.append_assoc] at read
          exact absurd read (closeList_ne_ok blank rfl (by decide))

theorem readItems_accepted {item : Reader α} {values : List α} (stops : StopsAfter item)
    (laid : SpellsItems ']' Eq first items chars) :
    (∀ item ∈ items, IsValue item) → ∀ (read : List α) (clock : List Char),
      readItems item first read clock (chars ++ rest) = .ok values after →
        after = ']' :: rest ∧ ∀ chars ∈ items, ∃ value, Accepts item chars value := by
  induction laid with
  | stop blank =>
      intro _ read clock done
      cases clock with
      | nil => contradiction
      | cons tick clock =>
          rw [List.append_assoc, List.singleton_append,
            readItems_stop (nextItem_stop blank rest)] at done
          exact ⟨(EStateM.Result.ok.inj done).2.symm, by simp⟩
  | @item first text items separator _ more apart same _ ih =>
      intro isValue read clock done
      subst same
      have here := isValue text List.mem_cons_self
      obtain ⟨c, others, rfl, solid, notClosing⟩ := here.exists_cons
      cases clock with
      | nil => contradiction
      | cons tick clock =>
          simp only [List.append_assoc, List.cons_append] at done
          rw [readItems, bind_ok (nextItem_item apart solid notClosing _), if_pos rfl] at done
          obtain ⟨value, left, taken, later⟩ := exists_of_bind_ok done
          obtain ⟨rfl, accepted⟩ := stops.accepts here isBlank_nil taken
          obtain ⟨stopped, each⟩ := ih (fun other listed =>
            isValue other (List.mem_cons_of_mem _ listed)) (value :: read) clock later
          refine ⟨stopped, ?_⟩
          rintro other (_ | ⟨_, listed⟩)
          · exact ⟨value, accepted⟩
          · exact each other listed

theorem readList_accepted {item : Reader α} {values : List α} (stops : StopsAfter item)
    (laid : IsArray items chars) (isValue : ∀ item ∈ items, IsValue item) (blank : IsBlank space)
    (read : readList item (space ++ (chars ++ rest)) = .ok values after) :
    after = rest ∧ ∀ chars ∈ items, ∃ value, Accepts item chars value := by
  obtain ⟨inside, rfl, laid⟩ := laid
  have opened := of_locate_ok read
  rw [List.cons_append, skipSpace_peek blank rfl] at opened
  change closed closeList (fun rest => readItems item true [] rest rest) (inside ++ rest) = _
    at opened
  obtain ⟨left, done, shut⟩ := exists_of_closed_ok opened
  obtain ⟨rfl, each⟩ := readItems_accepted stops laid isValue [] _ done
  have ends := closeList_bracket isBlank_nil rest
  rw [List.nil_append, shut] at ends
  exact ⟨(EStateM.Result.ok.inj ends).2, each⟩

theorem stopsAfter_readList {item : Reader α} (stops : StopsAfter item) :
    StopsAfter (readList item) := by
  intro chars isValue space blank rest after values read
  obtain ⟨c, more, rfl, solid, _⟩ := isValue.exists_cons
  by_cases bracket : c = '['
  · subst bracket
    obtain ⟨items, isValue, laid⟩ := isValue.exists_items
    exact (readList_accepted stops ⟨more, rfl, laid⟩ isValue blank read).1
  · have opened := of_locate_ok read
    rw [List.cons_append, skipSpace_peek blank solid] at opened
    simp only at opened
    exact absurd opened (readWrongType_ne_ok _ _)

end Items

/-! ## Records -/

/-! ### Objects with a wrong member -/

/-- No name is foreign or comes twice, and none that is required is missing. -/
structure AreNames (known required names : List String) : Prop where
  known : ∀ name ∈ names, name ∈ known
  distinct : names.Nodup
  complete : ∀ name ∈ required, name ∈ names

section Members

variable {known required : List String} {members changed : List (String × List Char)}

/-- The second list of members is the first with one member more that cannot be there, or with
one less that has to be. -/
inductive IsSpoiled (known required : List String) :
    List (String × List Char) → List (String × List Char) → Prop where
  | added {before after : List (String × List Char)} {name : String} {value : List Char}
      (wrong : name ∉ known ∨ name ∈ (before ++ after).map Prod.fst) (isValue : IsValue value) :
      IsSpoiled known required (before ++ after) (before ++ (name, value) :: after)
  | dropped {before after : List (String × List Char)} {name : String} {value : List Char}
      (needed : name ∈ required) :
      IsSpoiled known required (before ++ (name, value) :: after) (before ++ after)

theorem IsSpoiled.isValue (spoiled : IsSpoiled known required members changed)
    (values : ∀ member ∈ members, IsValue member.2) : ∀ member ∈ changed, IsValue member.2 := by
  intro member listed
  cases spoiled with
  | added _ isValue =>
      rcases List.mem_append.mp listed with listed | listed
      · exact values member (List.mem_append_left _ listed)
      rcases List.mem_cons.mp listed with rfl | listed
      · exact isValue
      · exact values member (List.mem_append_right _ listed)
  | dropped =>
      rcases List.mem_append.mp listed with listed | listed
      · exact values member (List.mem_append_left _ listed)
      · exact values member (List.mem_append_right _ (List.mem_cons_of_mem _ listed))

theorem IsSpoiled.not_areNames (spoiled : IsSpoiled known required members changed)
    (distinct : (members.map Prod.fst).Nodup) :
    ¬ AreNames known required (changed.map Prod.fst) := by
  rintro ⟨isKnown, distinct', complete⟩
  cases spoiled with
  | added wrong =>
      rw [List.map_append, List.map_cons] at isKnown distinct'
      rcases wrong with unknown | twice
      · exact unknown (isKnown _ (by simp))
      · rw [List.nodup_middle, List.nodup_cons] at distinct'
        rw [List.map_append] at twice
        exact distinct'.1 twice
  | dropped needed =>
      rw [List.map_append, List.map_cons, List.nodup_middle, List.nodup_cons] at distinct
      have there := complete _ needed
      rw [List.map_append] at there
      exact distinct.1 there

end Members

namespace Shape

variable {shape : Shape π α} {items : List (List Char)} {members : List (String × List Char)}
  {first : Bool} {known last : π} {value : α}

/-! ### Records written as arrays -/

theorem eq_of_finish_ok {count : Nat}
    (read : readArray.finish shape count known rest = .ok value after) : after = rest := by
  rw [readArray.finish] at read
  cases finished : shape.finish known with
  | ok value' =>
      rw [finished] at read
      exact (EStateM.Result.ok.inj read).2.symm
  | error name =>
      rw [finished] at read
      contradiction

theorem readArray_stops {fields : List (Field π)}
    (stops : ∀ field ∈ fields, ∀ known, StopsAfter (field.read known)) :
    ∀ (count : Nat) (known : π) {items : List (List Char)} {chars left : List Char},
      SpellsItems ']' Eq (count == 0) items chars → (∀ item ∈ items, IsValue item) →
        shape.readArray known count fields (chars ++ rest) = .ok value left →
          closeList left = .ok () after → after = rest := by
  induction fields with
  | nil =>
      intro count known items chars left laid isValue read shut
      obtain rfl := eq_of_finish_ok read
      exact eq_of_closeList_ok laid isValue shut
  | cons field fields ih =>
      intro count known items chars left laid isValue read shut
      cases laid with
      | stop blank =>
          rw [readArray, List.append_assoc, List.singleton_append,
            bind_ok (nextItem_stop blank rest), if_neg (by decide)] at read
          obtain rfl := eq_of_finish_ok read
          have ends := closeList_bracket isBlank_nil rest
          rw [List.nil_append, shut] at ends
          exact (EStateM.Result.ok.inj ends).2
      | @item _ text items separator _ more apart same tail =>
          subst same
          have here := isValue text List.mem_cons_self
          obtain ⟨c, others, rfl, solid, notClosing⟩ := here.exists_cons
          simp only [List.append_assoc, List.cons_append] at read
          rw [readArray, bind_ok (nextItem_item apart solid notClosing _), if_pos rfl] at read
          obtain ⟨next, left', taken, later⟩ := exists_of_bind_ok read
          obtain rfl := stops field List.mem_cons_self known here isBlank_nil taken
          have stops' : ∀ other ∈ fields, ∀ known, StopsAfter (other.read known) :=
            fun other listed => stops other (List.mem_cons_of_mem _ listed)
          have isValue' : ∀ other ∈ items, IsValue other :=
            fun other listed => isValue other (List.mem_cons_of_mem _ listed)
          exact ih stops' (count + 1) next tail isValue' later shut

/-! ### Records written as objects -/

theorem readFields_accepted (stops : ∀ field ∈ shape.fields, ∀ known, StopsAfter (field.read known))
    (laid : SpellsItems '\x7d' (SpellsMember Eq) first members chars) :
    (∀ member ∈ members, IsValue member.2) → ∀ (known : π) (clock : List Char),
      shape.readFields first known clock (chars ++ rest) = .ok last after →
        after = '\x7d' :: rest ∧ shape.Collects Accepts known members last := by
  induction laid with
  | stop blank =>
      intro _ known clock done
      cases clock with
      | nil => contradiction
      | cons tick clock =>
          rw [List.append_assoc, List.singleton_append,
            readFields_stop (nextKey_stop blank rest)] at done
          obtain ⟨rfl, rfl⟩ := EStateM.Result.ok.inj done
          exact ⟨rfl, .nil _⟩
  | @item first member members separator _ more apart head _ ih =>
      intro isValue known clock done
      have here := isValue member List.mem_cons_self
      cases head with
      | @intro name value key space gap _ named blank blank' same =>
          subst same
          cases clock with
          | nil => contradiction
          | cons tick clock =>
              simp only [List.append_assoc, List.cons_append] at done
              rw [readFields, bind_ok (nextKey_key apart _), if_pos rfl,
                bind_ok (readStringBody_spelled named _)] at done
              cases found : shape.fields.find? (·.name == name) with
              | none =>
                  simp only [found] at done
                  contradiction
              | some field =>
                  cases fresh : field.isKnown known with
                  | true =>
                      simp only [found, fresh, if_true] at done
                      contradiction
                  | false =>
                      simp only [found, fresh, Bool.false_eq_true, if_false] at done
                      rw [bind_ok (readColon_spelled blank _)] at done
                      obtain ⟨next, left, taken, later⟩ := exists_of_bind_ok done
                      have listed := List.mem_of_find?_eq_some found
                      obtain ⟨rfl, accepted⟩ := (stops field listed known).accepts here blank' taken
                      obtain ⟨stopped, rest⟩ := ih (fun other listed =>
                        isValue other (List.mem_cons_of_mem _ listed)) next clock later
                      exact ⟨stopped, .field found fresh accepted rest⟩

theorem read_accepted (stops : ∀ field ∈ shape.fields, ∀ known, StopsAfter (field.read known))
    (laid : IsObject members chars) (isValue : ∀ member ∈ members, IsValue member.2)
    (blank : IsBlank space) (read : shape.read (space ++ (chars ++ rest)) = .ok value after) :
    after = rest ∧ ∃ last, shape.Collects Accepts shape.unknown members last ∧
      shape.finish last = .ok value := by
  obtain ⟨inside, rfl, laid⟩ := laid
  have opened := of_locate_ok read
  rw [List.cons_append, skipSpace_peek blank rfl] at opened
  change closed closeObject shape.readObject (inside ++ rest) = _ at opened
  obtain ⟨left, done, shut⟩ := exists_of_closed_ok opened
  rw [readObject] at done
  cases fields : shape.readFields true shape.unknown (inside ++ rest) (inside ++ rest) with
  | error fault left => simp [fields] at done
  | ok last left =>
      obtain ⟨rfl, collects⟩ := readFields_accepted stops laid isValue _ _ fields
      cases finished : shape.finish last with
      | error name =>
          simp only [fields, finished] at done
          contradiction
      | ok value' =>
          simp only [fields, finished] at done
          obtain ⟨rfl, rfl⟩ := EStateM.Result.ok.inj done
          exact ⟨(EStateM.Result.ok.inj shut).2.symm, last, collects, finished⟩

theorem stopsAfter_read (stops : ∀ field ∈ shape.fields, ∀ known, StopsAfter (field.read known)) :
    StopsAfter shape.read := by
  intro chars isValue space blank rest after value read
  obtain ⟨c, more, rfl, solid, _⟩ := isValue.exists_cons
  by_cases brace : c = '\x7b'
  · subst brace
    obtain ⟨members, isValue, laid⟩ := isValue.exists_members
    exact (read_accepted stops ⟨more, rfl, laid⟩ isValue blank read).1
  have opened := of_locate_ok read
  rw [List.cons_append, skipSpace_peek blank solid] at opened
  by_cases bracket : c = '['
  · subst bracket
    obtain ⟨items, isValue, laid⟩ := isValue.exists_items
    change closed closeList (shape.readArray shape.unknown 0 shape.fields) (more ++ rest) = _
      at opened
    obtain ⟨left, done, shut⟩ := exists_of_closed_ok opened
    exact readArray_stops stops 0 shape.unknown laid isValue done shut
  · simp only at opened
    exact absurd opened (readWrongType_ne_ok _ _)

/-! ### The members of an object that is accepted -/

/-- Reading a field makes this field known and no other, and no record comes of an object without
the `required` fields. -/
structure IsLawful (shape : Shape π α) (required : List String) : Prop where
  stops : ∀ field ∈ shape.fields, ∀ known, StopsAfter (field.read known)
  reads : ∀ field ∈ shape.fields, ∀ {known next rest after},
    field.read known rest = .ok next after → ∀ other ∈ shape.fields,
      (other.isKnown next ↔ other.name = field.name ∨ other.isKnown known)
  unknown : ∀ field ∈ shape.fields, ¬ field.isKnown shape.unknown
  finish : ∀ {last value}, shape.finish last = .ok value → ∀ name ∈ required,
    ∃ field ∈ shape.fields, field.name = name ∧ field.isKnown last

theorem Collects.exists_accepted {reads : Reader π → List Char → π → Prop}
    (collects : shape.Collects reads known members last) : ∀ member ∈ members,
      ∃ field known next, shape.fields.find? (·.name == member.1) = some field ∧
        reads (field.read known) member.2 next := by
  induction collects with
  | nil known => simp
  | field found fresh value _ ih =>
      rintro member (_ | ⟨_, listed⟩)
      · exact ⟨_, _, _, found, value⟩
      · exact ih member listed

variable {required : List String}

theorem IsLawful.isKnown (lawful : shape.IsLawful required)
    (collects : shape.Collects Accepts known members last) : ∀ field ∈ shape.fields,
      (field.isKnown last ↔ field.name ∈ members.map Prod.fst ∨ field.isKnown known) := by
  induction collects with
  | nil known => simp
  | @field known next last field name chars members found fresh value _ ih =>
      intro other listed
      obtain ⟨space, rest, _, read⟩ := value
      have own : field.name = name := by simpa using List.find?_some found
      have step := lawful.reads field (List.mem_of_find?_eq_some found) read other listed
      rw [ih other listed, step, own, List.map_cons, List.mem_cons]
      tauto

theorem IsLawful.distinct (lawful : shape.IsLawful required)
    (collects : shape.Collects Accepts known members last) : (members.map Prod.fst).Nodup ∧
      ∀ name field, shape.fields.find? (·.name == name) = some field → field.isKnown known →
        name ∉ members.map Prod.fst := by
  induction collects with
  | nil known => simp
  | @field known next last field name chars members found fresh value _ ih =>
      obtain ⟨space, rest, _, read⟩ := value
      obtain ⟨distinct, apart⟩ := ih
      have step := lawful.reads field (List.mem_of_find?_eq_some found) read
      have own := (step field (List.mem_of_find?_eq_some found)).mpr (.inl rfl)
      rw [List.map_cons, List.nodup_cons]
      refine ⟨⟨apart name field found own, distinct⟩, ?_⟩
      intro other field' found' isKnown repeated
      rcases List.mem_cons.mp repeated with rfl | repeated
      · rw [found] at found'
        obtain rfl := Option.some.inj found'
        rw [fresh] at isKnown
        contradiction
      · have later := (step field' (List.mem_of_find?_eq_some found')).mpr (.inr isKnown)
        exact apart other field' found' later repeated

theorem IsLawful.areNames (lawful : shape.IsLawful required)
    (collects : shape.Collects Accepts shape.unknown members last)
    (finished : shape.finish last = .ok value) :
    AreNames (shape.fields.map Field.name) required (members.map Prod.fst) := by
  constructor
  case known =>
    intro name listed
    obtain ⟨member, inside, rfl⟩ := List.mem_map.mp listed
    obtain ⟨field, _, _, found, _⟩ := collects.exists_accepted member inside
    have own : field.name = member.1 := by simpa using List.find?_some found
    exact List.mem_map.mpr ⟨field, List.mem_of_find?_eq_some found, own⟩
  case distinct => exact (lawful.distinct collects).1
  case complete =>
    intro name listed
    obtain ⟨field, inside, rfl, isKnown⟩ := lawful.finish finished name listed
    rcases (lawful.isKnown collects field inside).mp isKnown with named | before
    · exact named
    · exact absurd before (lawful.unknown field inside)

/-- What is accepted as a record has the names of one, and a value for each that its field
accepts. -/
theorem IsLawful.accepts (lawful : shape.IsLawful required) (laid : IsObject members chars)
    (isValue : ∀ member ∈ members, IsValue member.2) (accepted : Accepts shape.read chars value) :
    AreNames (shape.fields.map Field.name) required (members.map Prod.fst) ∧
      ∀ member ∈ members, ∃ field known next,
        shape.fields.find? (·.name == member.1) = some field ∧
          Accepts (field.read known) member.2 next := by
  obtain ⟨space, rest, blank, read⟩ := accepted
  obtain ⟨_, last, collects, finished⟩ := read_accepted lawful.stops laid isValue blank read
  exact ⟨lawful.areNames collects finished, collects.exists_accepted⟩

end Shape

/-! ## Documents -/

theorem accepts_of_readDocument_ok {reader : Reader α} {document : String} {trail : List Char}
    {value : α} (stops : StopsAfter reader) (blank : IsBlank space) (isValue : IsValue chars)
    (laid : document.toList = space ++ (chars ++ trail))
    (read : readDocument reader document = .ok value) : Accepts reader chars value := by
  rw [readDocument] at read
  cases done : (reader <* readEnd) document.toList with
  | error fault left => simp [done] at read
  | ok value' left =>
      simp only [done] at read
      obtain rfl := Except.ok.inj read
      change (reader >>= fun value => readEnd >>= fun _ => pure value) document.toList = _ at done
      obtain ⟨value, left', taken, done⟩ := exists_of_bind_ok done
      obtain ⟨_, last, _, done⟩ := exists_of_bind_ok done
      obtain ⟨rfl, rfl⟩ := EStateM.Result.ok.inj done
      rw [laid] at taken
      exact (stops.accepts isValue blank taken).2

end Highlighter.Json
